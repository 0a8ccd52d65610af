import Calculator.Proofs.Trace.Standing

/-!
# Depth of a reader

A reader counts the parentheses that are open. Whatever it does, the count is the number of those
that it has taken and has not come to the end of, and a completed reading leaves it as it was: it
has taken the longest phrase there, in which each parenthesis is closed.
-/

namespace Calculator.Expression

variable {σ α : Type} {S : Semantics σ α} {whole : List Scan} {past : List (Act σ)}
  {opened : List Token.Placed} {calls : List (Phrase × State σ)} {state : State σ}

theorem keeps_asking {expected : Token.Kind} {hx : expected ≠ .endOfInput}
    {Q : List (Act σ) → State σ → Prop} (hk : state.lookahead.token.kind = expected)
    (hact : (Act.asks expected state).Counted S whole past)
    (hdone : ∀ after, state.Advanced after → Q (past ++ [.asks expected state]) after) :
    (state.takeTraced expected hx).Keeps (counting S whole) past Q := by
  refine Traced.keeps_take hk hact hdone ?_
  intro error final _ hlookahead hdepth
  exact ⟨⟨past, expected, state, rfl, hlookahead, hdepth⟩,
    Nat.le_trans (Nat.le_of_eq hdepth) hact.depth_le⟩

theorem Stands.keeps_phrase (h : Stands whole opened calls past state) {phrase : Phrase}
    (hn : nested ((phrase, state) :: calls) ≤ opened.length + 1) {traced : Traced σ α state}
    (hread : (Traced.ofPhrase phrase traced).reading = read S phrase state)
    (htraced :
      Stands whole opened ((phrase, state) :: calls) (past ++ [.begins phrase state]) state →
        traced.Keeps (counting S whole) (past ++ [.begins phrase state])
          (Stands whole opened ((phrase, state) :: calls))) :
    (Traced.ofPhrase phrase traced).Keeps (counting S whole) past
      (Stands whole opened calls) := by
  refine Traced.Keeps.ofPhrase (h.counted_begins hn) (htraced (h.begins hn)) ?_
  intro value after shorter past' hdone hstands
  exact ⟨hstands.counted_completes (hread.symm.trans hdone), hstands.completes⟩

theorem nested_operand (level : Chain) (start : State σ) (calls : List (Phrase × State σ)) :
    nested ((level.operand, start) :: calls) = nested calls := by
  rw [nested_cons]
  cases level <;> rfl

theorem keeps_close {paren : Token.Placed} {last start : State σ} {value : α}
    (hlast : Stands whole (paren :: opened) calls past last)
    (hn : nested calls ≤ opened.length + 1) (hl : last.remaining < start.remaining) :
    (closeAs (Traced σ) paren.offset value last start hl).Keeps (counting S whole) past
      (Stands whole opened calls) := by
  refine Traced.keeps_close hl ?_ ?_
  · intro hclose
    exact keeps_asking (by rw [hclose]; rfl) (hlast.counted_closes hn hclose) fun after ha =>
      hlast.closes hn hclose ha
  · intro _
    have hdepth : last.leave.depth = opened.length := congrArg (· - 1) hlast.depth_eq
    refine ⟨⟨paren, opened, hlast.unclosed_eq, rfl, hdepth⟩, ?_⟩
    exact Nat.le_trans (Nat.le_of_eq hdepth) (Nat.le_of_succ_le hlast.depth_le)

/-! ## Readings -/

/-- A reading of `phrase` keeps the depth, and all that it does is counted. -/
def CountsPhrase (S : Semantics σ α) (phrase : Phrase) {state : State σ}
    (traced : Traced σ α state) : Prop :=
  ∀ {whole past opened calls}, Stands whole opened calls past state →
    nested ((phrase, state) :: calls) ≤ opened.length + 1 →
      traced.Keeps (counting S whole) past (Stands whole opened calls)

def CountsChain (S : Semantics σ α) (state : State σ) {start : State σ}
    (traced : Traced σ α start) : Prop :=
  ∀ {whole past opened calls}, Stands whole opened calls past state →
    traced.Keeps (counting S whole) past (Stands whole opened calls)

theorem counts_first {level : Chain} {state : State σ}
    (hoperand : CountsPhrase S level.operand (readAs (Traced σ) S level.operand state))
    (hchain : ∀ left after h,
      CountsChain S after (chainAs (Traced σ) S level left after state h)) :
    CountsPhrase S level.phrase (readAs (Traced σ) S level.phrase state) := by
  intro whole past opened calls h hn
  have hread := (meets_read (S := S) level.phrase state).reading_eq
  rw [readAs_chain] at hread ⊢
  refine h.keeps_phrase hn hread fun hbegun => ?_
  refine (hoperand hbegun (by rw [nested_operand]; exact hn)).andThen ?_
  intro left after shorter past' _ hafter
  exact hchain left after shorter hafter

theorem counts_literal {state : State σ} {value : Int64}
    (ht : state.lookahead.token = .integer value) :
    CountsPhrase S .factor (readAs (Traced σ) S .factor state) := by
  intro whole past opened calls h hn
  have hread := (meets_read (S := S) .factor state).reading_eq
  rw [readAs_literal ht] at hread ⊢
  refine h.keeps_phrase hn hread fun hbegun => ?_
  refine Traced.Keeps.andThen (keeps_asking (by rw [ht]; rfl)
    (hbegun.counted_asks (by decide)) fun after ha =>
      hbegun.takes (by simp [ht]) (by simp [ht]) ha) ?_
  intro _ after shorter past' _ hafter
  exact Traced.keeps_done _ _ (hafter.with_store _)

theorem counts_group {state : State σ} (ht : state.lookahead.token = .leftParen)
    (hd : state.depth < maxDepth)
    (ih : ∀ inside : State σ, inside.remaining < state.remaining →
      CountsPhrase S .expression (readAs (Traced σ) S .expression inside.enter)) :
    CountsPhrase S .factor (readAs (Traced σ) S .factor state) := by
  intro whole past opened calls h hn
  have hread := (meets_read (S := S) .factor state).reading_eq
  rw [readAs_group ht hd] at hread ⊢
  refine h.keeps_phrase hn hread fun hbegun => ?_
  refine Traced.Keeps.andThen
    (Q := fun past' inside =>
      Stands whole (state.lookahead :: opened) ((.factor, state) :: calls) past' inside.enter)
    (keeps_asking (by rw [ht]; rfl) (hbegun.counted_asks (by decide)) fun inside ha =>
      hbegun.opens ht hd ha) ?_
  intro paren inside hi past' htake hinside
  obtain ⟨rfl, _⟩ := State.advanced_of_takeTraced (by rw [ht]; rfl) htake
  refine (ih inside hi hinside ?_).andThen ?_
  · rw [nested_cons, List.length_cons]
    exact Nat.succ_le_succ hbegun.nested_le
  · intro inner last hl past'' _ hlast
    exact keeps_close hlast hbegun.nested_le _

/-- A reader that rejects its lookahead stands where it stood. -/
theorem counts_rejected {state : State σ} {error : SyntaxError}
    (hstranded : ∀ {past : List (Act σ)}, state.depth = (unclosed (asked past)).length →
      Stranded past state (.syntactic error))
    (hread : read S .factor state = .failed (.syntactic error) state) :
    CountsPhrase S .factor
      (Traced.ofPhrase .factor
        { reading := .failed (.syntactic error) state : Traced σ α state }) := by
  intro whole past opened calls h hn
  refine h.keeps_phrase hn hread.symm fun hbegun => Traced.keeps_failed ?_
  exact ⟨hstranded hbegun.stranded.1, hbegun.stranded.2⟩

theorem counts_link {level : Chain} {left : α} {state start : State σ}
    (hl : state.remaining < start.remaining) {op : Operator}
    (ht : state.lookahead.token = .operator op) (hop : op.precedence = level.precedence)
    (ihOperand : ∀ behind : State σ, behind.remaining < state.remaining →
      CountsPhrase S level.operand (readAs (Traced σ) S level.operand behind))
    (ihChain : ∀ (behind : State σ) (hb : behind.remaining < state.remaining) (after : State σ)
      (ha : after.remaining < behind.remaining) output store,
      CountsChain S { after with store := store }
        (chainAs (Traced σ) S level output { after with store := store } start
          (Nat.lt_trans ha (Nat.lt_trans hb hl)))) :
    CountsChain S state (chainAs (Traced σ) S level left state start hl) := by
  intro whole past opened calls h
  refine Traced.keeps_link hl ht hop (Q := Stands whole opened calls)
    (R := Stands whole opened calls)
    (keeps_asking (by rw [ht]; rfl) (h.counted_asks (by simp)) fun behind ha =>
      h.takes (by simp [ht]) (by simp [ht]) ha) ?_ ?_ ?_
  · intro behind past' hb hbehind
    exact ihOperand behind hb hbehind (by rw [nested_operand]; exact h.nested_le)
  · intro right after past' error store hafter _
    exact (hafter.with_store store).stranded
  · intro behind hb right after ha past' output store hafter _
    exact ihChain behind hb after ha output store (hafter.with_store store)

theorem counts_finish {level : Chain} {left : α} {state start : State σ}
    (hl : state.remaining < start.remaining)
    (hp : state.lookahead.token.precedence ≠ level.precedence) :
    CountsChain S state (chainAs (Traced σ) S level left state start hl) := by
  intro whole past opened calls h
  rw [chainAs_end hl hp]
  exact Traced.keeps_done _ _ h

variable (S) in
theorem counts_read (phrase : Phrase) (state : State σ) :
    CountsPhrase S phrase (readAs (Traced σ) S phrase state) := by
  refine read_induction
    (fun phrase state => CountsPhrase S phrase (readAs (Traced σ) S phrase state))
    (fun level left state start h =>
      CountsChain S state (chainAs (Traced σ) S level left state start h))
    ?first ?literal ?group ?tooDeep ?noOperand ?link ?finish phrase state
  case first =>
    intro level state ihOperand ihChain
    exact counts_first ihOperand ihChain
  case literal =>
    intro state value ht
    exact counts_literal ht
  case group =>
    intro state ht hd ih
    exact counts_group ht hd ih
  case tooDeep =>
    intro state ht hd
    rw [readAs_too_deep ht hd]
    exact counts_rejected id (read_too_deep ht hd)
  case noOperand =>
    intro state hv hp
    rw [readAs_no_operand hv hp]
    exact counts_rejected id (read_no_operand hv hp)
  case link =>
    intro level left state start h op ht hop ihOperand ihChain
    exact counts_link h ht hop ihOperand ihChain
  case finish =>
    intro level left state start h hp
    exact counts_finish h hp

/-! ## Completed readings -/

/-- From `start` to `after` the phrase has been taken, which is the longest of its kind there. -/
structure Derivation.Taken {phrase : Phrase} (derivation : Derivation phrase)
    (start after : State σ) : Prop where
  sight_eq : start.sight = scansOf derivation.tokens ++ after.sight
  passed : ∀ whole tokens, start.Passed whole tokens →
    after.Passed whole (tokens ++ derivation.tokens)
  ne_nil : derivation.tokens ≠ []
  longest : ∀ other : Derivation phrase, scansOf other.tokens <+: start.sight →
    other.tokens <+: derivation.tokens
  depth_eq : after.depth = start.depth
  term : phrase = .term → ∀ op : Operator, op.isMultiplicative = true →
    after.lookahead.token ≠ .operator op
  expression : phrase = .expression → ∀ op, after.lookahead.token ≠ .operator op

theorem taken_of_done {phrase : Phrase} {start after : State σ} {value : α}
    {shorter : after.remaining < start.remaining}
    (hr : read S phrase start = .done value after shorter) :
    ∃ derivation : Derivation phrase, derivation.Taken start after := by
  obtain ⟨derivation, hreads⟩ := reads_of_done hr
  refine ⟨derivation, hreads.sight_eq, ?_, ?_, ?_, hreads.depth_eq, ?_, ?_⟩
  · intro whole tokens hstart
    have hafter := (meets_read (S := S) phrase start).passes whole tokens hstart
    rw [hr] at hafter
    have htokens := hreads.passed_eq hstart hafter
    rwa [← htokens]
  · obtain ⟨head, rest, htokens, _⟩ := derivation.exists_first
    simp [htokens]
  · intro other hother
    obtain ⟨rest, hrest⟩ := hother
    refine derivation.longest other after.sight rest ?_ ⟨_, _, rfl, hreads.stops⟩
    rw [← hreads.sight_eq, hrest]
  · rintro rfl op hop htoken
    have hstops := hreads.stops
    have hlevel : op.precedence = 2 := beq_iff_eq.mp hop
    rw [htoken, Token.precedence_operator, hlevel] at hstops
    exact absurd hstops (Nat.lt_irrefl 2)
  · rintro rfl op htoken
    have hnone := Token.operator?_eq_none_of_precedence hreads.stops
    rw [htoken] at hnone
    cases hnone

/-! ## Whole texts -/

def State.final (S : Semantics σ α) (state : State σ) : State σ :=
  (readWhole S state).final

/-- How the depth stands to the open parentheses when a reader has come to its result. -/
def Rests (acts : List (Act σ)) (final : State σ) : Except Error α → Prop
  | .ok _ => unclosed (asked acts) = [] ∧ final.depth = 0
  | .error error => Stranded acts final error

/-- What a reader of a text does and counts. -/
structure Counts (S : Semantics σ α) (text : String) (store : σ) : Prop where
  run_eq : (parseTraced S text store).2 = parse S text store
  acts : ∀ before act behind, (parseTraced S text store).1 = before ++ act :: behind →
    act.Counted S (Cursor.ofText text).untilEnd before
  ends : ∀ first, State.ofText text store = .ok first →
    parse S text store = (first.final S).run (parse S text store).result ∧
      (first.final S).depth ≤ maxDepth ∧
      Rests (parseTraced S text store).1 (first.final S) (parse S text store).result
  takes : ∀ (phrase : Phrase) (start after : State σ) value shorter,
    read S phrase start = .done value after shorter →
      ∃ derivation : Derivation phrase, derivation.Taken start after
  siblings : ∀ before phrase start between phrase' state behind, (parseTraced S text store).1 =
      before ++ .begins phrase start :: (between ++ .begins phrase' state :: behind) →
    ∀ siblings : List Sibling, asked between = siblings.flatMap Sibling.tokens →
      state.depth = start.depth

theorem State.Initial.stands {text : String} {store : σ} {state : State σ}
    (h : state.Initial text store) :
    Stands (Cursor.ofText text).untilEnd [] [] [] state where
  passed := h.passed
  unclosed_eq := rfl
  depth_eq := h.depth_eq
  depth_le := Nat.zero_le _
  active_eq := rfl
  nested_le := Nat.zero_le _

theorem State.parse_eq_final (S : Semantics σ α) (state : State σ) :
    state.parse S = (state.final S).run (state.parse S).result := by
  unfold parse final
  cases readWhole S state <;> rfl

theorem State.Initial.keeps_readWhole {text : String} {store : σ} {state : State σ}
    (h : state.Initial text store) :
    (readWholeAs (Traced σ) S state).Keeps (counting S (Cursor.ofText text).untilEnd) []
      (Stands (Cursor.ofText text).untilEnd [] []) := by
  refine Traced.keeps_readWhole (counts_read S .expression state h.stands (by simp [nested])) ?_ ?_
  · intro _
    exact h.stands.stranded
  · intro after past' hafter _
    exact hafter.stranded

theorem State.Initial.rests {text : String} {store : σ} {state : State σ}
    (h : state.Initial text store) :
    (state.final S).depth ≤ maxDepth ∧
      Rests (state.parseTraced S).1 (state.final S) (state.parse S).result := by
  have hkeeps := h.keeps_readWhole (S := S)
  have hreading := (meets_readWhole S state).reading_eq
  unfold State.parse State.parseTraced State.final
  cases hr : readWhole S state with
  | failed error final =>
      obtain ⟨hstranded, hle⟩ := hkeeps.failed error final (hreading.trans hr)
      exact ⟨hle, hstranded⟩
  | done value after shorter =>
      have hstands := hkeeps.done value after shorter (hreading.trans hr)
      have hdepth : after.depth = 0 := hstands.depth_eq
      refine ⟨Nat.le_trans (Nat.le_of_eq hdepth) (Nat.zero_le _), ?_⟩
      exact ⟨hstands.unclosed_eq, hdepth⟩

theorem counted_of_acts {text : String} {store : σ} {before behind : List (Act σ)} {act : Act σ}
    (h : (parseTraced S text store).1 = before ++ act :: behind) :
    act.Counted S (Cursor.ofText text).untilEnd before := by
  unfold parseTraced at h
  cases hstate : State.ofText text store with
  | error error =>
      rw [hstate] at h
      cases before <;> cases h
  | ok state =>
      rw [hstate] at h
      have hacts := ((State.initial_of_ofText hstate).keeps_readWhole (S := S)).act
      rw [show (readWholeAs (Traced σ) S state).acts = _ from h] at hacts
      exact hacts.of_append

/-- The depth is the number of parentheses that have been taken and whose ends have not been
reached, at most 256. A completed reading leaves it as it was and has taken the longest phrase, so
siblings do not add to it. -/
theorem depth_counts_unclosed (S : Semantics σ α) (text : String) (store : σ) :
    Counts S text store := by
  constructor
  case run_eq => exact parseTraced_run S text store
  case acts =>
    intro before act behind h
    exact counted_of_acts h
  case ends =>
    intro first hfirst
    have hrests := (State.initial_of_ofText hfirst).rests (S := S)
    unfold parse parseTraced
    rw [hfirst]
    exact ⟨first.parse_eq_final S, hrests⟩
  case takes =>
    intro phrase start after value shorter hread
    exact taken_of_done hread
  case siblings =>
    intro before phrase start between phrase' state behind h siblings hsiblings
    have hstart := (counted_of_acts h).depth_eq
    rw [← List.cons_append, ← List.append_assoc] at h
    have hstate := (counted_of_acts h).depth_eq
    have hasked : asked (before ++ .begins phrase start :: between) =
        asked before ++ siblings.flatMap Sibling.tokens := by
      rw [asked_append, ← hsiblings]
      rfl
    rw [Act.closing, List.append_nil, hasked, unclosed_append, foldl_nest_siblings] at hstate
    rw [Act.closing, List.append_nil] at hstart
    exact hstate.trans hstart.symm

end Calculator.Expression
