import Calculator.Proofs.Reading
import Calculator.Proofs.Shunting

/-!
# Shunting yard and descent

The machine makes the same calls as the reader that descends, and ends in the same way.
-/

namespace Calculator.Expression

variable {σ α : Type} (S : Semantics σ α)

namespace Shunting

/-- What the machine comes to from the lookahead of a reader on. -/
def resume (machine : Shunting σ α) (state : State σ) :
    Option ((Except Error α × σ) × List Scan) :=
  match step S machine (.ok state.lookahead) with
  | .next machine => Machine.run (step S) machine state.scanned state.upcoming
  | .halt verdict => some (verdict, state.scanned.reverse)
  | .stuck => none

def stop (state : State σ) (result : Except Error α) :
    Option ((Except Error α × σ) × List Scan) :=
  some ((result, state.store), state.scanned.reverse)

/-- No operator on top has the precedence `bar` or a greater one. -/
def Below (bar : Nat) : List Mark → Prop
  | .operator op _ :: _ => op.precedence < bar
  | _ => True

variable {S}

theorem run_eq_resume {machine : Shunting σ α} {state : State σ} {given : List Scan}
    (h : state.scanned = .ok state.lookahead :: given) :
    Machine.run (step S) machine given state.sight = resume S machine state := by
  rw [State.sight, Machine.run, resume, h]
  cases step S machine (.ok state.lookahead) <;> rfl

theorem run_of_advanced {machine : Shunting σ α} {state after : State σ}
    (h : state.Advanced after) :
    Machine.run (step S) machine state.scanned state.upcoming = resume S machine after := by
  rw [h.upcoming_eq]
  exact run_eq_resume h.scanned_eq

theorem run_of_broken {machine : Shunting σ α} {state after : State σ} {error : LexError}
    (h : State.Broken error state after) (hs : machine.store = state.store) :
    Machine.run (step S) machine state.scanned state.upcoming =
      stop after (.error (.lexical error)) := by
  rw [h.upcoming_eq, stop, h.scanned_eq, h.store_eq, ← hs]
  rfl

theorem settle_of_below {bar : Nat} {pending : List Mark} (h : Below bar pending)
    (operands : List α) (store : σ) :
    settle S bar pending operands store = (.ok (pending, operands), store) := by
  unfold settle
  split
  · have hop : ¬ bar ≤ _ := Nat.not_le_of_lt h
    rw [if_neg hop]
  · rfl

theorem settle_operator {bar : Nat} {op : Operator} (h : bar ≤ op.precedence) (offset : Nat)
    (pending : List Mark) (left right : α) (operands : List α) (store : σ) :
    settle S bar (.operator op offset :: pending) (right :: left :: operands) store =
      match S.binary op left right offset store with
      | (.ok output, store) => settle S bar pending (output :: operands) store
      | (.error error, store) => (.error error, store) := by
  exact if_pos h

/-- An operator behind a complete operand waits if no operator on top binds as tightly. -/
theorem resume_operator {pending : List Mark} {operands : List α} {store : σ} {state : State σ}
    {op : Operator} (ht : state.lookahead.token = .operator op)
    (hb : Below op.precedence pending) :
    resume S ⟨.complete, pending, operands, store⟩ state =
      Machine.run (step S)
        ⟨.wanted, .operator op state.lookahead.offset :: pending, operands, store⟩
        state.scanned state.upcoming := by
  simp [resume, step, proceed, ht, settle_of_below hb, judge, Token.operator?]

/-- The operator on top is applied if the token behind its right operand binds no tighter. -/
theorem resume_apply {op : Operator} {state : State σ}
    (h : state.lookahead.token.precedence ≤ op.precedence) (offset : Nat)
    (pending : List Mark) (left right : α) (operands : List α) :
    resume S ⟨.complete, .operator op offset :: pending, right :: left :: operands, state.store⟩
        state =
      match S.binary op left right offset state.store with
      | (.ok output, store) =>
          resume S ⟨.complete, pending, output :: operands, store⟩ { state with store := store }
      | (.error error, store) =>
          stop { state with store := store } (.error (.evaluation error)) := by
  simp only [resume, step, proceed, settle_operator h]
  rcases S.binary op left right offset state.store with ⟨_ | output, store⟩
  · rfl
  · rfl

/-- A closing parenthesis takes the innermost open one off. -/
theorem resume_close {openedAt : Nat} {pending : List Mark} {operands : List α} {store : σ}
    {state : State σ} (h : state.lookahead.token = .rightParen) :
    resume S ⟨.complete, .paren openedAt :: pending, operands, store⟩ state =
      Machine.run (step S) ⟨.complete, pending, operands, store⟩ state.leave.scanned
        state.leave.upcoming := by
  simp [resume, step, proceed, settle, judge, h, Token.operator?, State.leave, State.upcoming]

theorem resume_unclosed {openedAt : Nat} {pending : List Mark} {operands : List α}
    {state : State σ} (ho : state.lookahead.token.operator? = none)
    (h : state.lookahead.token ≠ .rightParen) :
    resume S ⟨.complete, .paren openedAt :: pending, operands, state.store⟩ state =
      stop state (.error (.syntactic (.unclosedParenthesis openedAt state.lookahead))) := by
  simp [resume, step, proceed, settle, judge, ho, h, reject, stop]

/-! ## Readings -/

variable (S)

/-- What the machine comes to is what `reading` does: it stops with the same error, or it goes on
behind the same operand. The operators left to the machine then bind less tightly than `bar`. -/
def Agrees (bar depth : Nat) (pending : List Mark) (operands : List α)
    (found : Option ((Except Error α × σ) × List Scan)) {start : State σ} :
    Reading σ α start → Prop
  | .failed error after => found = stop after (.error error)
  | .done value after _ =>
      after.lookahead.token.precedence < bar ∧ after.depth = depth ∧
        found = resume S ⟨.complete, pending, value :: operands, after.store⟩ after

/-- The machine wants an operand where `reading` reads a phrase. -/
def Simulates (bar : Nat) {start : State σ} (reading : Reading σ α start) : Prop :=
  ∀ pending operands, Below bar pending → depth pending = start.depth →
    Agrees S bar start.depth pending operands
      (resume S ⟨.wanted, pending, operands, start.store⟩ start) reading

def SimulatesChain (level : Chain) (left : α) (state : State σ) {start : State σ}
    (reading : Reading σ α start) : Prop :=
  ∀ pending operands, Below level.precedence pending → depth pending = state.depth →
    state.lookahead.token.precedence ≤ level.precedence →
    Agrees S level.precedence state.depth pending operands
      (resume S ⟨.complete, pending, left :: operands, state.store⟩ state) reading

variable {S}

theorem Below.mono {bar bar' : Nat} {pending : List Mark} (h : Below bar pending)
    (hle : bar ≤ bar') : Below bar' pending := by
  cases pending with
  | nil => trivial
  | cons mark below =>
      cases mark with
      | operator op offset => exact Nat.lt_of_lt_of_le h hle
      | paren openedAt => trivial

theorem simulates_first {level : Chain} {state : State σ}
    (ho : Simulates S level.operand.precedence (read S level.operand state))
    (hc : ∀ left after h, SimulatesChain S level left after (chain S level left after state h)) :
    Simulates S level.phrase.precedence (read S level.phrase state) := by
  intro pending operands hb hd
  rw [Chain.precedence_phrase] at hb ⊢
  have hop := ho pending operands (hb.mono (by simp)) hd
  rw [read_chain]
  cases hr : read S level.operand state with
  | failed error after =>
      rw [hr] at hop
      exact hop
  | done left after h =>
      rw [hr] at hop
      obtain ⟨hbar, hdepth, hfound⟩ := hop
      rw [Chain.precedence_operand] at hbar
      have hrest := hc left after h pending operands hb (hd.trans hdepth.symm)
        (Nat.le_of_lt_succ hbar)
      rw [hfound, ← hdepth]
      exact hrest

theorem simulates_literal {state : State σ} {value : Int64}
    (ht : state.lookahead.token = .integer value) :
    Simulates S Phrase.factor.precedence (read S .factor state) := by
  intro pending operands _ hd
  have hresume : resume S ⟨.wanted, pending, operands, state.store⟩ state =
      Machine.run (step S) ⟨.literal value, pending, operands, state.store⟩ state.scanned
        state.upcoming := by
    simp [resume, step, begin, ht]
  rw [read_literal ht, hresume]
  rcases state.take_cases .integer (by decide) (by rw [ht]; rfl) with
    ⟨after, shorter, htake, hadv⟩ | ⟨error, after, htake, hbroken⟩
  · rw [htake, Reading.andThen_done]
    refine ⟨Token.precedence_lt_factor _, hadv.depth_eq, ?_⟩
    rw [run_of_advanced hadv, ← hadv.store_eq]
    rfl
  · rw [htake, Reading.andThen_failed]
    exact run_of_broken hbroken rfl

theorem simulates_no_operand {state : State σ}
    (hv : ∀ value, state.lookahead.token ≠ .integer value)
    (hp : state.lookahead.token ≠ .leftParen) :
    Simulates S Phrase.factor.precedence (read S .factor state) := by
  intro pending operands _ _
  rw [read_no_operand hv hp]
  show resume S _ state = _
  cases ht : state.lookahead.token with
  | integer value => exact absurd ht (hv value)
  | leftParen => exact absurd ht hp
  | operator op => simp [resume, step, begin, ht, reject, stop]
  | rightParen => simp [resume, step, begin, ht, reject, stop]
  | endOfInput => simp [resume, step, begin, ht, reject, stop]

theorem simulates_too_deep {state : State σ} (ht : state.lookahead.token = .leftParen)
    (h : ¬ state.depth < maxDepth) :
    Simulates S Phrase.factor.precedence (read S .factor state) := by
  intro pending operands _ hd
  have hd' : ¬ depth pending < maxDepth := by rwa [hd]
  rw [read_too_deep ht h]
  show resume S _ state = _
  simp [resume, step, begin, ht, hd', reject, stop]

/-- A closing parenthesis takes the innermost open one off; anything else is an error. -/
theorem agrees_close {openedAt : Nat} {pending : List Mark} {operands : List α} {inner : α}
    {last start : State σ} (h : last.remaining < start.remaining)
    (hbar : last.lookahead.token.precedence < Phrase.expression.precedence) :
    Agrees S Phrase.factor.precedence (last.depth - 1) pending operands
      (resume S ⟨.complete, .paren openedAt :: pending, inner :: operands, last.store⟩ last)
      (close openedAt inner last start h) := by
  by_cases hclose : last.lookahead.token = .rightParen
  · rw [close_rightParen h hclose, resume_close hclose]
    rcases last.leave.take_cases .rightParen (by decide) (by rw [State.leave, hclose]; rfl) with
      ⟨after, ha, htake, hadv⟩ | ⟨error, after, htake, hbroken⟩
    · rw [htake, Reading.andThen_done]
      refine ⟨Token.precedence_lt_factor _, hadv.depth_eq, ?_⟩
      rw [hadv.store_eq]
      exact run_of_advanced hadv
    · rw [htake, Reading.andThen_failed]
      exact run_of_broken hbroken rfl
  · rw [close_unclosed h hclose]
    exact resume_unclosed (Token.operator?_eq_none_of_precedence hbar) hclose

theorem simulates_group {state : State σ} (ht : state.lookahead.token = .leftParen)
    (h : state.depth < maxDepth)
    (ih : ∀ inside : State σ, inside.remaining < state.remaining →
      Simulates S Phrase.expression.precedence (read S .expression inside.enter)) :
    Simulates S Phrase.factor.precedence (read S .factor state) := by
  intro pending operands _ hd
  have hd' : depth pending < maxDepth := by rwa [hd]
  have hresume : resume S ⟨.wanted, pending, operands, state.store⟩ state =
      Machine.run (step S)
        ⟨.wanted, .paren state.lookahead.offset :: pending, operands, state.store⟩
        state.scanned state.upcoming := by
    simp [resume, step, begin, ht, hd']
  rw [read_group ht h, hresume]
  rcases state.take_cases .leftParen (by decide) (by rw [ht]; rfl) with
    ⟨inside, hi, htake, hadv⟩ | ⟨error, after, htake, hbroken⟩
  · rw [htake, Reading.andThen_done, run_of_advanced hadv, ← hadv.store_eq]
    have hdepth : depth (.paren state.lookahead.offset :: pending) = inside.enter.depth := by
      rw [depth_paren, hd, ← hadv.depth_eq]
      rfl
    have hinner := ih inside hi (.paren state.lookahead.offset :: pending) operands trivial hdepth
    cases hr : read S .expression inside.enter with
    | failed error after =>
        rw [hr] at hinner
        exact hinner
    | done inner last hl =>
        rw [hr] at hinner
        obtain ⟨hbar, hlast, hfound⟩ := hinner
        have hleave : state.depth = last.depth - 1 := by
          rw [hlast, ← hadv.depth_eq]
          rfl
        rw [Reading.andThen_done, hleave]
        exact hfound ▸ agrees_close (Nat.lt_trans hl hi) hbar
  · rw [htake, Reading.andThen_failed]
    exact run_of_broken hbroken rfl

/-- A token that does not join the chain leaves the machine as it is. -/
theorem simulates_finish {level : Chain} {left : α} {state start : State σ}
    (h : state.remaining < start.remaining)
    (hne : state.lookahead.token.precedence ≠ level.precedence) :
    SimulatesChain S level left state (chain S level left state start h) := by
  intro pending operands _ _ hle
  rw [chain_end h hne]
  exact ⟨Nat.lt_of_le_of_ne hle hne, rfl, rfl⟩

theorem simulates_link {level : Chain} {left : α} {state start : State σ}
    (h : state.remaining < start.remaining) {op : Operator}
    (ht : state.lookahead.token = .operator op) (hop : op.precedence = level.precedence)
    (ihOperand : ∀ behind : State σ, behind.remaining < state.remaining →
      Simulates S level.operand.precedence (read S level.operand behind))
    (ihChain : ∀ (behind : State σ) (hb : behind.remaining < state.remaining) (after : State σ)
      (ha : after.remaining < behind.remaining) output store,
      SimulatesChain S level output { after with store := store }
        (chain S level output { after with store := store } start
          (Nat.lt_trans ha (Nat.lt_trans hb h)))) :
    SimulatesChain S level left state (chain S level left state start h) := by
  intro pending operands hb hd _
  rw [chain_link h ht hop, resume_operator ht (by rwa [hop])]
  rcases state.take_cases (.operator op) (kind_operator_ne_endOfInput op) (by rw [ht]; rfl)
    with ⟨behind, hlt, htake, hadv⟩ | ⟨error, after, htake, hbroken⟩
  · rw [htake, Reading.andThen_done, run_of_advanced hadv, ← hadv.store_eq]
    have hright := ihOperand behind hlt
      (.operator op state.lookahead.offset :: pending) (left :: operands)
      (by simp [Below, hop]) (by rw [depth_operator, hd, hadv.depth_eq])
    cases hr : read S level.operand behind with
    | failed error after =>
        rw [hr] at hright
        exact hright
    | done right after ha =>
        rw [hr] at hright
        obtain ⟨hbar, hdepth, hfound⟩ := hright
        rw [Chain.precedence_operand, Nat.lt_succ_iff] at hbar
        -- The token behind the right operand settles the operator and nothing below it.
        have hstate : state.depth = after.depth := (hdepth.trans hadv.depth_eq).symm
        rw [hstate] at hd ⊢
        rw [hfound, resume_apply (by rwa [hop]), Reading.andThen_done]
        rcases S.binary op left right state.lookahead.offset after.store with
          ⟨error | output, store⟩
        · rfl
        · exact ihChain behind hlt after ha output store pending operands hb hd hbar
  · rw [htake, Reading.andThen_failed]
    exact run_of_broken hbroken rfl

/-- The machine does what the descent does, for every phrase and from every state. -/
theorem simulates_read (phrase : Phrase) (state : State σ) :
    Simulates S phrase.precedence (read S phrase state) := by
  refine read_induction
    (fun phrase state => Simulates S phrase.precedence (read S phrase state))
    (fun level left state start h =>
      SimulatesChain S level left state (chain S level left state start h))
    ?_ ?_ ?_ ?_ ?_ ?_ ?_ phrase state
  · intro level state ho hc
    exact simulates_first ho hc
  · intro state value ht
    exact simulates_literal ht
  · intro state ht hd ih
    exact simulates_group ht hd ih
  · intro state ht hd
    exact simulates_too_deep ht hd
  · intro state hv hp
    exact simulates_no_operand hv hp
  · intro level left state start h op ht hop ihOperand ihChain
    exact simulates_link h ht hop ihOperand ihChain
  · intro level left state start h hne
    exact simulates_finish h hne

/-! ## Runs -/

/-- Behind a whole expression with no parenthesis open there has to be the end of the text. -/
theorem resume_whole {value : α} {state : State σ} (ho : state.lookahead.token.operator? = none) :
    resume S ⟨.complete, [], [value], state.store⟩ state =
      stop state (if state.lookahead.token = .endOfInput then .ok value
        else .error (.syntactic (.trailingInput state.lookahead))) := by
  by_cases he : state.lookahead.token = .endOfInput
  · simp [resume, step, proceed, settle, judge, he, Token.operator?, stop]
  · simp [resume, step, proceed, settle, judge, he, ho, reject, stop]

theorem resume_start {state : State σ} (hd : state.depth = 0)
    (hl : state.lookahead.token ≠ .endOfInput) :
    (resume S (start state.store) state).map toRun = some (state.parse S) := by
  have hsim := (simulates_read .expression state : Simulates S _ _) [] [] trivial hd.symm
  rw [State.parse]
  cases hr : read S .expression state with
  | failed error after =>
      rw [hr] at hsim
      rw [readWhole_failed hl hr, start, hsim]
      rfl
  | done value after h =>
      rw [hr] at hsim
      obtain ⟨hbar, _, hfound⟩ := hsim
      rw [readWhole_done hl hr, start, hfound,
        resume_whole (Token.operator?_eq_none_of_precedence hbar)]
      split <;> rfl

variable (S)

/-- On the scans of a text the machine does all that the reader does. -/
theorem parse_untilEnd (text : String) (store : σ) :
    parse S (Cursor.ofText text).untilEnd store = some (Expression.parse S text store) := by
  unfold Expression.parse
  cases hs : State.ofText text store with
  | error error =>
      rw [State.untilEnd_of_ofText hs]
      rfl
  | ok state =>
      have hinitial := State.initial_of_ofText hs
      rw [← hinitial.sight_eq, ← hinitial.store_eq, parse, Machine.process]
      by_cases he : state.lookahead.token = .endOfInput
      · simp [Machine.isEmpty, State.sight, State.parse, readWhole_empty he, he, Reading.run,
          State.run, hinitial.scanned_eq, toRun]
      · have hempty : Machine.isEmpty state.sight = false := by
          simp [Machine.isEmpty, State.sight, he]
        rw [hempty, if_neg Bool.false_ne_true, run_eq_resume hinitial.scanned_eq]
        exact resume_start hinitial.depth_eq he

/-- The scans of a run are the first ones of the text, and they are all that the machine needs. -/
theorem parse_scans (text : String) (store : σ) :
    (∃ unread, (Cursor.ofText text).untilEnd = (Expression.parse S text store).scans ++ unread) ∧
      ∀ others, parse S ((Expression.parse S text store).scans ++ others) store =
        some (Expression.parse S text store) := by
  obtain ⟨found, hp, hrun⟩ := Option.map_eq_some_iff.mp (parse_untilEnd S text store)
  obtain ⟨hunread, hothers⟩ := Machine.process_of_read hp
  rw [← hrun]
  refine ⟨hunread, ?_⟩
  intro others
  exact Option.map_eq_some_iff.mpr ⟨found, hothers others, rfl⟩

end Shunting

end Calculator.Expression
