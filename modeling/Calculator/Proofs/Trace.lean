import Calculator.Answer
import Calculator.Proofs.Faults

/-!
# What a reader does

The reader once more, with a record of what it does: which phrases it begins and completes, and
which tokens it asks for. It is the same reader, and it only asks for what it has seen to be there.
-/

namespace Calculator.Expression

variable {σ α β : Type}

/-- One thing that a reader does, in the state in which it does it. -/
inductive Act (σ : Type) where
  | begins (phrase : Phrase) (state : State σ)
  | asks (expected : Token.Kind) (state : State σ)
  /-- The phrase that began in the state `start` ends in front of the lookahead of `state`. -/
  | completes (phrase : Phrase) (start state : State σ)

structure Traced (σ α : Type) (start : State σ) where
  acts : List (Act σ) := []
  reading : Reading σ α start

namespace Traced

@[inline] def andThen {start first : State σ} (traced : Traced σ α first)
    (next : (value : α) → (state : State σ) → state.remaining < first.remaining →
      Traced σ β start) : Traced σ β start :=
  match traced.reading with
  | .done value state shorter =>
      { next value state shorter with acts := traced.acts ++ (next value state shorter).acts }
  | .failed error state => ⟨traced.acts, .failed error state⟩

def ofPhrase (phrase : Phrase) {start : State σ} (traced : Traced σ α start) :
    Traced σ α start where
  acts := .begins phrase start :: traced.acts ++
    match traced.reading with
    | .done _ after _ => [.completes phrase start after]
    | .failed _ _ => []
  reading := traced.reading

end Traced

def State.takeTraced (expected : Token.Kind) (hx : expected ≠ .endOfInput) (state : State σ) :
    Traced σ Token.Placed state :=
  ⟨[.asks expected state], state.take expected hx⟩

instance : Account (Traced σ) where
  done value state shorter := { reading := .done value state shorter }
  failed error state := { reading := .failed error state }
  andThen := Traced.andThen
  take := State.takeTraced
  ofPhrase := Traced.ofPhrase

def asked (acts : List (Act σ)) : List Token.Placed :=
  acts.filterMap fun act =>
    match act with
    | .asks _ state => some state.lookahead
    | .begins _ _ | .completes _ _ _ => none

@[simp] theorem asked_nil : asked ([] : List (Act σ)) = [] := rfl

theorem asked_append (first second : List (Act σ)) :
    asked (first ++ second) = asked first ++ asked second :=
  List.filterMap_append

section

variable (past : List (Act σ)) (phrase : Phrase) (expected : Token.Kind) (start state : State σ)

@[simp] theorem asked_begins : asked (past ++ [.begins phrase state]) = asked past := by
  rw [asked_append]
  exact List.append_nil _

@[simp] theorem asked_asks :
    asked (past ++ [.asks expected state]) = asked past ++ [state.lookahead] :=
  asked_append _ _

@[simp] theorem asked_completes :
    asked (past ++ [.completes phrase start state]) = asked past := by
  rw [asked_append]
  exact List.append_nil _

end

/-! ## The same reader -/

variable {S : Semantics σ α}

def Reading.Passes {start : State σ} (whole : List Scan) (tokens : List Token.Placed) :
    Reading σ α start → Prop
  | .done _ after _ => after.Passed whole tokens
  | .failed _ final => ∃ scan, final.Halted whole tokens scan

/-- From `current` on the traced reading is `reading`. Whatever it asks for is its lookahead, and it
takes no token that it has not asked for. -/
structure Traced.Meets {start : State σ} (current : State σ) (traced : Traced σ α start)
    (reading : Reading σ α start) : Prop where
  reading_eq : traced.reading = reading
  kind_eq : ∀ expected state, .asks expected state ∈ traced.acts →
    state.lookahead.token.kind = expected
  passes : ∀ whole tokens, current.Passed whole tokens →
    reading.Passes whole (tokens ++ asked traced.acts)

namespace Traced

variable {current start first : State σ}

theorem meets_nothing_done {reading : Reading σ α start}
    (h : ∀ whole tokens, current.Passed whole tokens → reading.Passes whole tokens) :
    Meets current { reading } reading := by
  constructor
  case reading_eq => rfl
  case kind_eq =>
    intro expected state hm
    cases hm
  case passes =>
    intro whole tokens hp
    rw [asked_nil, List.append_nil]
    exact h whole tokens hp

theorem meets_done (value : α) {after : State σ} (shorter : after.remaining < start.remaining)
    (hpassed : ∀ whole tokens, current.Passed whole tokens → after.Passed whole tokens) :
    Meets current { reading := .done value after shorter } (.done value after shorter) :=
  meets_nothing_done hpassed

theorem meets_failed (error : Error) {final : State σ}
    (hpassed : ∀ whole tokens, current.Passed whole tokens → final.Passed whole tokens) :
    Meets current { reading := .failed error final : Traced σ α start } (.failed error final) :=
  meets_nothing_done fun whole tokens hp => ⟨_, (hpassed whole tokens hp).halted⟩

theorem Meets.andThen {traced : Traced σ α first} {reading : Reading σ α first}
    (h : traced.Meets current reading)
    {tracedNext : (value : α) → (state : State σ) → state.remaining < first.remaining →
      Traced σ β start}
    {next : (value : α) → (state : State σ) → state.remaining < first.remaining →
      Reading σ β start}
    (hnext : ∀ value after shorter,
      (tracedNext value after shorter).Meets after (next value after shorter)) :
    (traced.andThen tracedNext).Meets current (reading.andThen next) := by
  rcases traced with ⟨acts, ⟨value, after, shorter⟩ | ⟨error, final⟩⟩
  · cases h.reading_eq
    have hthen := hnext value after shorter
    constructor
    case reading_eq => exact hthen.reading_eq
    case kind_eq =>
      intro expected state hm
      rcases List.mem_append.mp hm with hm | hm
      · exact h.kind_eq expected state hm
      · exact hthen.kind_eq expected state hm
    case passes =>
      intro whole tokens hp
      have hafter := hthen.passes whole _ (h.passes whole tokens hp)
      rw [List.append_assoc, ← asked_append] at hafter
      exact hafter
  · cases h.reading_eq
    exact ⟨rfl, h.kind_eq, h.passes⟩

theorem meets_take {state : State σ} {expected : Token.Kind} (hx : expected ≠ .endOfInput)
    (hk : state.lookahead.token.kind = expected) :
    (state.takeTraced expected hx).Meets state (state.take expected hx) := by
  constructor
  case reading_eq => rfl
  case kind_eq =>
    intro other state' hm
    cases List.mem_singleton.mp hm
    exact hk
  case passes =>
    intro whole tokens hp
    rcases state.take_cases expected hx hk with
      ⟨after, shorter, htake, hadv⟩ | ⟨error, final, htake, hbroken⟩
    · rw [htake]
      exact hp.advanced hadv
    · rw [htake]
      exact ⟨_, hp.broken hbroken⟩

theorem Meets.ofPhrase {traced : Traced σ α start} {reading : Reading σ α start}
    (h : traced.Meets current reading) (phrase : Phrase) :
    (ofPhrase phrase traced).Meets current reading := by
  have hasked : asked (Traced.ofPhrase phrase traced).acts = asked traced.acts := by
    rcases traced with ⟨acts, _ | _⟩
    all_goals simp [Traced.ofPhrase, asked]
  constructor
  case reading_eq => exact h.reading_eq
  case kind_eq =>
    intro expected state hm
    apply h.kind_eq expected state
    rcases traced with ⟨acts, _ | _⟩
    all_goals simpa [Traced.ofPhrase] using hm
  case passes =>
    rw [hasked]
    exact h.passes

/-- Neither the store nor the depth shows what has been taken. -/
theorem Meets.congr {other : State σ} {traced : Traced σ α start} {reading : Reading σ α start}
    (h : traced.Meets other reading)
    (hpassed : ∀ whole tokens, current.Passed whole tokens → other.Passed whole tokens) :
    traced.Meets current reading :=
  ⟨h.reading_eq, h.kind_eq, fun whole tokens hp => h.passes whole tokens (hpassed whole tokens hp)⟩

end Traced

theorem meets_close {last start : State σ} (openedAt : Nat) (inner : α)
    (h : last.remaining < start.remaining) :
    (closeAs (Traced σ) openedAt inner last start h).Meets last
      (close openedAt inner last start h) := by
  have hleave : ∀ whole tokens, last.Passed whole tokens → last.leave.Passed whole tokens :=
    fun _ _ hp => hp.leave
  by_cases hclose : last.lookahead.token = .rightParen
  · rw [closeAs, if_pos hclose, close_rightParen h hclose]
    have htake := Traced.meets_take kind_rightParen_ne_endOfInput
      (show last.leave.lookahead.token.kind = .rightParen by rw [State.leave, hclose]; rfl)
    refine Traced.Meets.congr (htake.andThen ?_) hleave
    intro _ after ha
    exact Traced.meets_done inner _ fun _ _ hp => hp
  · rw [closeAs, if_neg hclose, close_unclosed h hclose]
    exact Traced.meets_failed _ hleave

theorem meets_literal {state : State σ} {value : Int64}
    (ht : state.lookahead.token = .integer value) :
    (readAs (Traced σ) S .factor state).Meets state (read S .factor state) := by
  rw [read_literal ht, readAs_literal ht]
  apply Traced.Meets.ofPhrase
  apply (Traced.meets_take _ (by rw [ht]; rfl)).andThen
  intro _ after h
  exact Traced.meets_done _ _ fun _ _ hp => hp.with_store _

theorem meets_group {state : State σ} (ht : state.lookahead.token = .leftParen)
    (hd : state.depth < maxDepth)
    (ih : ∀ inside : State σ, inside.remaining < state.remaining →
      (readAs (Traced σ) S .expression inside.enter).Meets inside.enter
        (read S .expression inside.enter)) :
    (readAs (Traced σ) S .factor state).Meets state (read S .factor state) := by
  rw [read_group ht hd, readAs_group ht hd]
  apply Traced.Meets.ofPhrase
  apply (Traced.meets_take _ (by rw [ht]; rfl)).andThen
  intro opened inside hi
  refine Traced.Meets.congr ((ih inside hi).andThen ?_) fun _ _ hp => hp.enter
  intro inner last hl
  exact meets_close opened.offset inner _

theorem meets_link {level : Chain} {left : α} {state start : State σ}
    (h : state.remaining < start.remaining) {op : Operator}
    (ht : state.lookahead.token = .operator op) (hop : op.precedence = level.precedence)
    (ihOperand : ∀ behind : State σ, behind.remaining < state.remaining →
      (readAs (Traced σ) S level.operand behind).Meets behind (read S level.operand behind))
    (ihChain : ∀ (behind : State σ) (hb : behind.remaining < state.remaining) (after : State σ)
      (ha : after.remaining < behind.remaining) output store,
      (chainAs (Traced σ) S level output { after with store := store } start
        (Nat.lt_trans ha (Nat.lt_trans hb h))).Meets { after with store := store }
        (chain S level output { after with store := store } start
          (Nat.lt_trans ha (Nat.lt_trans hb h)))) :
    (chainAs (Traced σ) S level left state start h).Meets state
      (chain S level left state start h) := by
  rw [chain_link h ht hop, chainAs_link h ht hop]
  apply (Traced.meets_take _ (by rw [ht]; rfl)).andThen
  intro mark behind hb
  apply (ihOperand behind hb).andThen
  intro right after ha
  rcases S.binary op left right mark.offset after.store with ⟨error | output, store⟩
  · exact Traced.meets_failed _ fun _ _ hp => hp.with_store store
  · exact (ihChain behind hb after ha output store).congr fun _ _ hp => hp.with_store store

theorem meets_read (phrase : Phrase) (state : State σ) :
    (readAs (Traced σ) S phrase state).Meets state (read S phrase state) := by
  refine read_induction
    (fun phrase state =>
      (readAs (Traced σ) S phrase state).Meets state (read S phrase state))
    (fun level left state start h =>
      (chainAs (Traced σ) S level left state start h).Meets state
        (chain S level left state start h))
    ?first ?literal ?group ?tooDeep ?noOperand ?link ?finish phrase state
  case first =>
    intro level state ihOperand ihChain
    rw [read_chain, readAs_chain]
    exact (ihOperand.andThen ihChain).ofPhrase _
  case literal =>
    intro state value ht
    exact meets_literal ht
  case group =>
    intro state ht hd ih
    exact meets_group ht hd ih
  case tooDeep =>
    intro state ht hd
    rw [read_too_deep ht hd, readAs_too_deep ht hd]
    exact (Traced.meets_failed _ fun _ _ hp => hp).ofPhrase _
  case noOperand =>
    intro state hv hp
    rw [read_no_operand hv hp, readAs_no_operand hv hp]
    exact (Traced.meets_failed _ fun _ _ hp => hp).ofPhrase _
  case link =>
    intro level left state start h op ht hop ihOperand ihChain
    exact meets_link h ht hop ihOperand ihChain
  case finish =>
    intro level left state start h hp
    rw [chain_end h hp, chainAs_end h hp]
    exact Traced.meets_done left h fun _ _ hp => hp

/-! ## Whole texts -/

theorem meets_readWhole (S : Semantics σ α) (state : State σ) :
    (readWholeAs (Traced σ) S state).Meets state (readWhole S state) := by
  unfold readWhole readWholeAs
  split
  · exact Traced.meets_failed _ fun _ _ hp => hp
  · apply (meets_read .expression state).andThen
    intro value after h
    split
    · exact Traced.meets_done value h fun _ _ hp => hp
    · exact Traced.meets_failed _ fun _ _ hp => hp

def State.parseTraced (S : Semantics σ α) (state : State σ) : List (Act σ) × Run σ α :=
  let traced := readWholeAs (Traced σ) S state
  (traced.acts, traced.reading.run)

def parseTraced (S : Semantics σ α) (text : String) (store : σ) : List (Act σ) × Run σ α :=
  match State.ofText text store with
  | .ok state => state.parseTraced S
  | .error error => ([], .unstarted store error)

theorem parseTraced_run (S : Semantics σ α) (text : String) (store : σ) :
    (parseTraced S text store).2 = parse S text store := by
  unfold parseTraced parse
  cases State.ofText text store with
  | error error => rfl
  | ok state => exact congrArg Reading.run (meets_readWhole S state).reading_eq

theorem kind_of_asks {S : Semantics σ α} {text : String} {store : σ} {expected : Token.Kind}
    {state : State σ} (hm : .asks expected state ∈ (parseTraced S text store).1) :
    state.lookahead.token.kind = expected := by
  unfold parseTraced at hm
  split at hm
  · rename_i first hfirst
    exact (meets_readWhole S first).kind_eq expected state hm
  · cases hm

theorem State.Initial.scans_eq {text : String} {store : σ} {state : State σ}
    (h : state.Initial text store) : ∃ last,
      (state.parse S).scans = scansOf (asked (state.parseTraced S).1) ++ [last] := by
  have hpasses := (meets_readWhole S state).passes _ _ h.passed
  unfold State.parse State.parseTraced
  cases hwhole : readWhole S state with
  | done value after shorter =>
      rw [hwhole] at hpasses
      exact ⟨_, (State.Passed.halted hpasses).scanned_eq⟩
  | failed error final =>
      rw [hwhole] at hpasses
      obtain ⟨last, hhalted⟩ := hpasses
      exact ⟨last, hhalted.scanned_eq⟩

/-- Each token that is asked for is taken, and there is one scan more than there are such tokens. -/
theorem scans_of_asks (S : Semantics σ α) (text : String) (store : σ) :
    ∃ last,
      (parse S text store).scans = scansOf (asked (parseTraced S text store).1) ++ [last] := by
  unfold parse parseTraced
  cases hstate : State.ofText text store with
  | ok state => exact (State.initial_of_ofText hstate).scans_eq
  | error error => exact ⟨.error error, rfl⟩

inductive Rejection : Token.Placed → SyntaxError → Prop where
  | emptyExpression (offset : Nat) : Rejection ⟨.endOfInput, offset⟩ .emptyExpression
  | expectedOperand (found : Token.Placed) : Rejection found (.expectedOperand found)
  | unclosedParenthesis (openedAt : Nat) (found : Token.Placed) :
      Rejection found (.unclosedParenthesis openedAt found)
  | trailingInput (found : Token.Placed) : Rejection found (.trailingInput found)
  | nestingTooDeep (offset : Nat) :
      Rejection ⟨.leftParen, offset⟩ (.nestingTooDeep maxDepth offset)

/-- A run ends with a syntax error only if it rejects the last token that it scanned. -/
def Run.Rejects (run : Run σ α) : Prop :=
  ∀ error, run.result = .error (.syntactic error) →
    ∃ front found, run.scans = front ++ [.ok found] ∧ Rejection found error

theorem rejects_parse (S : Semantics σ α) (text : String) (store : σ) :
    (parse S text store).Rejects := by
  intro error herror
  rcases (concluded_parse S text store).of_error _ herror with
    ⟨passed, scan, rest, hfault, hscans, _⟩
  rw [hscans]
  cases hfault with
  | emptyExpression offset => exact ⟨_, _, rfl, .emptyExpression offset⟩
  | expectedOperand _ found => exact ⟨_, _, rfl, .expectedOperand found⟩
  | nestingTooDeep _ offset => exact ⟨_, _, rfl, .nestingTooDeep offset⟩
  | unclosedParenthesis _ openedAt _ _ found =>
      exact ⟨_, _, rfl, .unclosedParenthesis openedAt found⟩
  | trailingInput _ _ found => exact ⟨_, _, rfl, .trailingInput found⟩

theorem Run.Rejects.result_ne {run : Run σ α} (h : run.Rejects) (expected : Token.Kind)
    (found : Token.Placed) :
    run.result ≠ .error (.syntactic (.unexpectedToken expected found)) := by
  intro hresult
  rcases h _ hresult with ⟨_, _, _, hrejection⟩
  cases hrejection

/-- Whatever a reader asks for is its lookahead, so no answer says that it was not; a token that is
rejected is rejected for another reason. -/
theorem asks_for_lookahead (S : Semantics σ α) (text : String) (store : σ) :
    (parseTraced S text store).2 = parse S text store ∧
      (∀ expected state, .asks expected state ∈ (parseTraced S text store).1 →
        state.lookahead.token.kind = expected) ∧
      (∃ last,
        (parse S text store).scans = scansOf (asked (parseTraced S text store).1) ++ [last]) ∧
      (parse S text store).Rejects ∧ (evaluation text).Rejects ∧
      (∀ style, (translation style text).Rejects) ∧
      ∀ expected found,
        (parse S text store).result ≠ .error (.syntactic (.unexpectedToken expected found)) ∧
        evaluate text ≠ .error (.syntactic (.unexpectedToken expected found)) ∧
        ∀ style, translate style text ≠ .error (.syntactic (.unexpectedToken expected found)) := by
  have hparse := rejects_parse S text store
  have hevaluation : (evaluation text).Rejects := rejects_parse arithmetic text ()
  have htranslation : ∀ style, (translation style text).Rejects :=
    fun style => rejects_parse style.semantics text ()
  refine ⟨parseTraced_run S text store, fun _ _ hm => kind_of_asks hm, scans_of_asks S text store,
    hparse, hevaluation, htranslation, ?_⟩
  intro expected found
  exact ⟨hparse.result_ne expected found, hevaluation.result_ne expected found,
    fun style => (htranslation style).result_ne expected found⟩

end Calculator.Expression
