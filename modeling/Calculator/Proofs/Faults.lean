import Calculator.Proofs.Lexemes
import Calculator.Proofs.Reading

/-!
# How readings fail

A reading that fails stops at one scan, with some tokens behind it that it has taken. What these
tokens end with depends on the error: with the parenthesis that is not closed and an expression, or
with the operator that cannot be applied and its right operand.
-/

namespace Calculator

variable {σ α : Type}

def SyntaxError.found? : SyntaxError → Option Token.Placed
  | .emptyExpression => none
  | .unexpectedToken _ found | .expectedOperand found | .unclosedParenthesis _ found
  | .trailingInput found => some found
  | .nestingTooDeep _ offset => some ⟨.leftParen, offset⟩

theorem SyntaxError.offset_of_found {cause : SyntaxError} {found : Token.Placed}
    (h : cause.found? = some found) : found.offset = cause.offset := by
  cases cause <;> cases h <;> rfl

def EvaluationError.operator : EvaluationError → Operator
  | .divisionByZero _ => .divide
  | .overflow op _ => op

/-- An error tells which operator could not be applied, and where it stands. -/
def Semantics.Accountable (S : Semantics σ α) : Prop :=
  ∀ {op left right offset before error after},
    S.binary op left right offset before = (.error error, after) →
      error.operator = op ∧ error.offset = offset

theorem arithmetic_accountable : arithmetic.Accountable := by
  intro op left right offset before error after h
  have happly : Arithmetic.apply op left right offset = .error error := congrArg Prod.fst h
  unfold Arithmetic.apply at happly
  split at happly
  · rename_i hzero
    cases happly
    exact ⟨hzero.1.symm, rfl⟩
  · split at happly
    · cases happly
    · cases happly
      exact ⟨rfl, rfl⟩

theorem Notation.semantics_accountable (style : Notation) : style.semantics.Accountable := by
  intro op left right offset before error after h
  cases congrArg Prod.fst h

namespace Expression

/-- The tokens that were taken and the scan at which an error was found behind them. -/
inductive Fault (S : Semantics σ α) : List Token.Placed → Scan → Error → Prop where
  | lexical (passed : List Token.Placed) (error : LexError) :
      Fault S passed (.error error) (.lexical error)
  | emptyExpression (offset : Nat) :
      Fault S [] (Scan.ending offset) (.syntactic .emptyExpression)
  | expectedOperand (passed : List Token.Placed) (found : Token.Placed) :
      Fault S passed (.ok found) (.syntactic (.expectedOperand found))
  | nestingTooDeep (passed : List Token.Placed) (offset : Nat) :
      Fault S passed (.ok ⟨.leftParen, offset⟩) (.syntactic (.nestingTooDeep maxDepth offset))
  | unclosedParenthesis (front : List Token.Placed) (openedAt : Nat)
      (inner : Derivation .expression) (nesting_le : inner.nesting ≤ maxDepth)
      (found : Token.Placed) :
      Fault S (front ++ ⟨.leftParen, openedAt⟩ :: inner.tokens) (.ok found)
        (.syntactic (.unclosedParenthesis openedAt found))
  | trailingInput (whole : Derivation .expression) (nesting_le : whole.nesting ≤ maxDepth)
      (found : Token.Placed) :
      Fault S whole.tokens (.ok found) (.syntactic (.trailingInput found))
  -- No operator of the operand's own level or a tighter one stands behind it.
  | application (front : List Token.Placed) {op : Operator} {offset : Nat} {level : Chain}
      (joins : level.joins op = true) (operand : Derivation level.operand) {next : Token.Placed}
      (stops : next.token.precedence ≤ op.precedence) {left right : α} {before after : σ}
      {error : EvaluationError}
      (call : S.binary op left right offset before = (.error error, after)) :
      Fault S (front ++ ⟨.operator op, offset⟩ :: operand.tokens) (.ok next) (.evaluation error)

namespace Fault

variable {S : Semantics σ α} {passed : List Token.Placed} {scan : Scan}

theorem lexical_eq {cause : LexError} (h : Fault S passed scan (.lexical cause)) :
    scan = .error cause := by
  cases h
  rfl

theorem found_eq {cause : SyntaxError} {found : Token.Placed}
    (h : Fault S passed scan (.syntactic cause)) (hf : cause.found? = some found) :
    scan = .ok found := by
  cases h with
  | emptyExpression offset => cases hf
  | expectedOperand _ other | nestingTooDeep _ offset | trailingInput _ _ other
  | unclosedParenthesis _ _ _ _ other =>
      cases hf
      rfl

/-- The operator stands in front of its right operand, and the scan is of the token behind that. -/
theorem exists_operand {cause : EvaluationError} (hS : S.Accountable)
    (h : Fault S passed scan (.evaluation cause)) :
    ∃ (front : List Token.Placed) (level : Chain) (operand : Derivation level.operand)
      (next : Token.Placed),
      passed = front ++ ⟨.operator cause.operator, cause.offset⟩ :: operand.tokens ∧
        level.joins cause.operator = true ∧
        next.token.precedence ≤ cause.operator.precedence ∧ scan = .ok next := by
  cases h with
  | @application front op offset level joins operand next stops _ _ _ _ _ call =>
      obtain ⟨rfl, rfl⟩ := hS call
      exact ⟨front, level, operand, next, rfl, joins, stops, rfl⟩

end Fault

namespace State

/-- A reader has taken the first tokens of all that there is to scan, and has scanned nothing
behind its lookahead. -/
structure Passed (whole : List Scan) (tokens : List Token.Placed) (state : State σ) : Prop where
  whole_eq : whole = scansOf tokens ++ state.sight
  scanned_eq : state.scanned.reverse = scansOf tokens ++ [.ok state.lookahead]

/-- The last scan that a reader made is the one at which it stopped. -/
structure Halted (whole : List Scan) (tokens : List Token.Placed) (scan : Scan)
    (state : State σ) : Prop where
  whole_eq : ∃ rest, whole = scansOf tokens ++ scan :: rest
  scanned_eq : state.scanned.reverse = scansOf tokens ++ [scan]

variable {whole : List Scan} {tokens : List Token.Placed} {state after : State σ}

theorem Initial.passed {text : String} {store : σ} (h : Initial text store state) :
    state.Passed (Cursor.ofText text).untilEnd [] := by
  refine ⟨h.sight_eq.symm, ?_⟩
  rw [h.scanned_eq]
  rfl

theorem Passed.with_store (h : state.Passed whole tokens) (store : σ) :
    State.Passed whole tokens { state with store := store } := ⟨h.whole_eq, h.scanned_eq⟩

theorem Passed.enter (h : state.Passed whole tokens) : state.enter.Passed whole tokens :=
  ⟨h.whole_eq, h.scanned_eq⟩

theorem Passed.leave (h : state.Passed whole tokens) : state.leave.Passed whole tokens :=
  ⟨h.whole_eq, h.scanned_eq⟩

theorem Passed.halted (h : state.Passed whole tokens) :
    state.Halted whole tokens (.ok state.lookahead) :=
  ⟨⟨_, h.whole_eq⟩, h.scanned_eq⟩

theorem Passed.advanced (h : state.Passed whole tokens) (ha : state.Advanced after) :
    after.Passed whole (tokens ++ [state.lookahead]) := by
  refine ⟨?_, ?_⟩
  · rw [h.whole_eq, ha.sight_eq]
    simp
  · rw [ha.scanned_eq, List.reverse_cons, h.scanned_eq]
    simp

theorem Passed.broken {error : LexError} (h : state.Passed whole tokens)
    (hb : state.Broken error after) :
    after.Halted whole (tokens ++ [state.lookahead]) (.error error) := by
  refine ⟨⟨[], ?_⟩, ?_⟩
  · rw [h.whole_eq, sight, hb.upcoming_eq]
    simp
  · rw [hb.scanned_eq, List.reverse_cons, h.scanned_eq]
    simp

end State

/-- The tokens of a completed reading are those that were taken meanwhile. -/
theorem Derivation.Reads.passed_eq {S : Semantics σ α} {phrase : Phrase}
    {derivation : Derivation phrase} {state after : State σ} {value : α} {whole : List Scan}
    {tokens tokens' : List Token.Placed} (hr : derivation.Reads S state value after)
    (hs : state.Passed whole tokens) (ha : after.Passed whole tokens') :
    tokens' = tokens ++ derivation.tokens := by
  have hwhole := hs.whole_eq
  rw [hr.sight_eq, ha.whole_eq, ← List.append_assoc, ← scansOf_append] at hwhole
  exact scansOf_injective (List.append_cancel_right hwhole)

variable {S : Semantics σ α} {whole : List Scan}

/-- What becomes of a reading: it has taken more tokens, or it has failed. -/
def Reading.Ends (S : Semantics σ α) (whole : List Scan) {β : Type} {start : State σ} :
    Reading σ β start → Prop
  | .done _ after _ => ∃ tokens, after.Passed whole tokens
  | .failed error final => ∃ tokens scan, final.Halted whole tokens scan ∧
      Fault S tokens scan error

theorem Reading.Ends.andThen {β γ : Type} {first start : State σ} {reading : Reading σ β first}
    {next : (value : β) → (state : State σ) → state.remaining < first.remaining →
      Reading σ γ start}
    (h : reading.Ends S whole)
    (hn : ∀ value after shorter, reading = .done value after shorter →
      ∀ tokens, after.Passed whole tokens → (next value after shorter).Ends S whole) :
    (reading.andThen next).Ends S whole := by
  cases reading with
  | done value after shorter =>
      obtain ⟨tokens, hpassed⟩ := h
      exact hn value after shorter rfl tokens hpassed
  | failed error final => exact h

/-- Behind a token that was taken stands a lookahead, or a scan that fails. -/
theorem ends_take {β : Type} {state start : State σ} {tokens : List Token.Placed}
    {expected : Token.Kind} {hx : expected ≠ .endOfInput}
    (hk : state.lookahead.token.kind = expected) (hp : state.Passed whole tokens)
    {next : (value : Token.Placed) → (after : State σ) → after.remaining < state.remaining →
      Reading σ β start}
    (hn : ∀ after shorter, state.Advanced after → after.Passed whole (tokens ++ [state.lookahead]) →
      (next state.lookahead after shorter).Ends S whole) :
    ((state.take expected hx).andThen next).Ends S whole := by
  rcases state.take_cases expected hx hk with
    ⟨after, shorter, htake, hadv⟩ | ⟨error, after, htake, hbroken⟩
  · rw [htake]
    exact hn after shorter hadv (hp.advanced hadv)
  · rw [htake]
    exact ⟨_, _, hp.broken hbroken, .lexical _ error⟩

theorem ends_close {state last : State σ} {openedAt : Nat} {value : α}
    {hl : last.remaining < state.remaining} {front : List Token.Placed}
    {inner : Derivation .expression} (hn : inner.nesting ≤ maxDepth)
    (hp : last.Passed whole (front ++ ⟨.leftParen, openedAt⟩ :: inner.tokens)) :
    (close openedAt value last state hl).Ends S whole := by
  by_cases hclose : last.lookahead.token = .rightParen
  · rw [close_rightParen hl hclose]
    refine ends_take (by rw [State.leave, hclose]; rfl) hp.leave ?_
    intro after shorter _ hpassed
    exact ⟨_, hpassed⟩
  · rw [close_unclosed hl hclose]
    exact ⟨_, _, hp.leave.halted, .unclosedParenthesis front openedAt inner hn last.lookahead⟩

theorem ends_group {state : State σ} {tokens : List Token.Placed}
    (ht : state.lookahead.token = .leftParen) (hd : state.depth < maxDepth)
    (hp : state.Passed whole tokens)
    (ih : ∀ inside : State σ, inside.remaining < state.remaining → ∀ {tokens},
      inside.enter.Passed whole tokens → (read S .expression inside.enter).Ends S whole) :
    (read S .factor state).Ends S whole := by
  rw [read_group ht hd]
  refine ends_take (by rw [ht]; rfl) hp ?_
  intro inside hi hadv hinside
  refine (ih inside hi hinside.enter).andThen ?_
  intro value last hl hread tokens' hlast
  obtain ⟨inner, hreads⟩ := reads_of_done hread
  rw [hreads.passed_eq hinside.enter hlast, state.lookahead_eq ht, List.append_assoc] at hlast
  exact ends_close (Nat.le_trans hreads.nesting_le (Nat.sub_le _ _)) hlast

theorem ends_link {level : Chain} {left : α} {state start : State σ} {tokens : List Token.Placed}
    (h : state.remaining < start.remaining) {op : Operator}
    (ht : state.lookahead.token = .operator op) (hop : op.precedence = level.precedence)
    (hp : state.Passed whole tokens)
    (ihOperand : ∀ behind : State σ, behind.remaining < state.remaining → ∀ {tokens},
      behind.Passed whole tokens → (read S level.operand behind).Ends S whole)
    (ihChain : ∀ (behind : State σ) (hb : behind.remaining < state.remaining) (after : State σ)
      (ha : after.remaining < behind.remaining) output store {tokens},
      State.Passed whole tokens { after with store := store } →
        (chain S level output { after with store := store } start
          (Nat.lt_trans ha (Nat.lt_trans hb h))).Ends S whole) :
    (chain S level left state start h).Ends S whole := by
  rw [chain_link h ht hop]
  refine ends_take (by rw [ht]; rfl) hp ?_
  intro behind hb _ hbehind
  refine (ihOperand behind hb hbehind).andThen ?_
  intro right after ha hread tokens' hafter
  split
  · exact ihChain behind hb after ha _ _ (hafter.with_store _)
  · rename_i error store hcall
    obtain ⟨operand, hreads⟩ := reads_of_done hread
    have hstops := hreads.stops
    rw [Chain.precedence_operand, ← hop] at hstops
    rw [hreads.passed_eq hbehind hafter, state.lookahead_eq ht, List.append_assoc] at hafter
    exact ⟨_, _, (hafter.with_store store).halted,
      .application tokens (Chain.joins_iff.mpr hop) operand (Nat.le_of_lt_succ hstops) hcall⟩

variable (S) in
/-- A reading goes on to take tokens, or it fails as its error says. -/
theorem ends_read (phrase : Phrase) (state : State σ) {tokens : List Token.Placed}
    (hp : state.Passed whole tokens) : (read S phrase state).Ends S whole := by
  -- That a completed reading took a phrase is known already, so tokens are all that is kept here.
  revert tokens
  refine read_induction
    (fun phrase state => ∀ {tokens}, state.Passed whole tokens → (read S phrase state).Ends S whole)
    (fun level left state start h => ∀ {tokens}, state.Passed whole tokens →
      (chain S level left state start h).Ends S whole)
    ?first ?literal ?group ?tooDeep ?noOperand ?link ?finish phrase state
  case first =>
    intro level state ihOperand ihChain tokens hp
    rw [read_chain]
    refine (ihOperand hp).andThen ?_
    intro left after h _ tokens' hafter
    exact ihChain left after h hafter
  case literal =>
    intro state value ht tokens hp
    rw [read_literal ht]
    refine ends_take (by rw [ht]; rfl) hp ?_
    intro after _ _ hafter
    exact ⟨_, hafter.with_store _⟩
  case group =>
    intro state ht hd ih tokens hp
    exact ends_group ht hd hp ih
  case tooDeep =>
    intro state ht hd tokens hp
    rw [read_too_deep ht hd]
    have hhalted := hp.halted
    rw [state.lookahead_eq ht] at hhalted
    exact ⟨_, _, hhalted, .nestingTooDeep tokens _⟩
  case noOperand =>
    intro state hv hparen tokens hp
    rw [read_no_operand hv hparen]
    exact ⟨_, _, hp.halted, .expectedOperand tokens _⟩
  case link =>
    intro level left state start h op ht hop ihOperand ihChain tokens hp
    exact ends_link h ht hop hp ihOperand ihChain
  case finish =>
    intro level left state start h hne tokens hp
    rw [chain_end h hne]
    exact ⟨tokens, hp⟩

/-! ## Whole texts -/

/-- A run over a text ends with an answer and the end of the text, or with a fault. -/
structure Run.Concluded (S : Semantics σ α) (text : String) (run : Run σ α) : Prop where
  of_ok : ∀ value, run.result = .ok value → run.scans = (Cursor.ofText text).untilEnd
  of_error : ∀ error, run.result = .error error → ∃ passed scan rest, Fault S passed scan error ∧
    run.scans = scansOf passed ++ [scan] ∧
    (Cursor.ofText text).untilEnd = scansOf passed ++ scan :: rest

theorem State.Halted.concluded {text : String} {state : State σ} {tokens : List Token.Placed}
    {scan : Scan} {error : Error} (h : state.Halted (Cursor.ofText text).untilEnd tokens scan)
    (hf : Fault S tokens scan error) : (state.run (.error error)).Concluded S text := by
  obtain ⟨⟨rest, hwhole⟩, hscanned⟩ := h
  refine ⟨(fun value hvalue => by cases hvalue), ?_⟩
  intro other hother
  cases hother
  exact ⟨tokens, scan, rest, hf, hscanned, hwhole⟩

theorem State.Initial.concluded {text : String} {store : σ} {state : State σ}
    (h : state.Initial text store) : (state.parse S).Concluded S text := by
  unfold State.parse
  by_cases hl : state.lookahead.token = .endOfInput
  · have hhalted := h.passed.halted
    rw [state.lookahead_eq hl] at hhalted
    rw [readWhole_empty hl]
    exact hhalted.concluded (.emptyExpression _)
  · have hends := ends_read S .expression state h.passed
    cases hread : read S .expression state with
    | failed error after =>
      rw [hread] at hends
      obtain ⟨tokens, scan, hhalted, hfault⟩ := hends
      rw [readWhole_failed hl hread]
      exact hhalted.concluded hfault
    | done value after shorter =>
      rw [hread] at hends
      obtain ⟨tokens, hafter⟩ := hends
      rw [readWhole_done hl hread]
      split
      · rename_i hend
        refine ⟨?_, fun error herror => by cases herror⟩
        intro _ _
        rw [hafter.whole_eq, sight_of_endOfInput hend, ← after.lookahead_eq hend]
        exact hafter.scanned_eq
      · obtain ⟨derivation, hreads⟩ := reads_of_done hread
        have hn := hreads.nesting_le
        rw [h.depth_eq] at hn
        rw [hreads.passed_eq h.passed hafter] at hafter
        exact hafter.halted.concluded (.trailingInput derivation hn after.lookahead)

variable (S) in
theorem concluded_parse (text : String) (store : σ) :
    (parse S text store).Concluded S text := by
  unfold parse
  split
  · rename_i state hstate
    exact (State.initial_of_ofText hstate).concluded
  · rename_i error hstate
    refine ⟨(fun value hvalue => by cases hvalue), ?_⟩
    intro other hother
    cases hother
    exact ⟨[], .error error, [], .lexical [] error, rfl, State.untilEnd_of_ofText hstate⟩

end Expression

end Calculator
