import Calculator.Proofs.Trace.Conditions

/-!
# Where a reader stands

What a reader has done so far tells which parentheses are open and which phrases it is reading.
`Stands` ties both to its state, with one lemma for each thing that it may do; `Act.Counted` is
what follows for the act.
-/

namespace Calculator

/-- The open parentheses behind a token, given those in front of it; the innermost comes first. -/
def Token.Placed.nest (opened : List Token.Placed) (placed : Token.Placed) : List Token.Placed :=
  match placed.token with
  | .leftParen => placed :: opened
  | .rightParen => opened.tail
  | .integer _ | .operator _ | .endOfInput => opened

namespace Token.Placed

variable {placed : Token.Placed} {opened : List Token.Placed}

theorem nest_leftParen (h : placed.token = .leftParen) : nest opened placed = placed :: opened := by
  rw [nest, h]

theorem nest_rightParen (h : placed.token = .rightParen) : nest opened placed = opened.tail := by
  rw [nest, h]

theorem nest_of_ne (hl : placed.token ≠ .leftParen) (hr : placed.token ≠ .rightParen) :
    nest opened placed = opened := by
  unfold nest
  cases ht : placed.token with
  | leftParen => exact absurd ht hl
  | rightParen => exact absurd ht hr
  | integer _ | operator _ | endOfInput => rfl

end Token.Placed

namespace Expression

variable {σ α : Type}

def unclosed (tokens : List Token.Placed) : List Token.Placed := tokens.foldl Token.Placed.nest []

theorem unclosed_append (first second : List Token.Placed) :
    unclosed (first ++ second) = second.foldl Token.Placed.nest (unclosed first) :=
  List.foldl_append

/-- In a phrase each parenthesis is closed. -/
theorem Derivation.foldl_nest {phrase : Phrase} (derivation : Derivation phrase)
    (opened : List Token.Placed) : derivation.tokens.foldl Token.Placed.nest opened = opened := by
  revert opened
  refine Derivation.induction
    (fun _ derivation => ∀ opened, derivation.tokens.foldl Token.Placed.nest opened = opened)
    (fun _ links => ∀ opened, links.tokens.foldl Token.Placed.nest opened = opened)
    ?literal ?group ?chain ?nil ?cons derivation
  case literal =>
    intro value offset opened
    rfl
  case group =>
    intro openedAt inner closedAt ih opened
    rw [Derivation.tokens, List.foldl_cons, List.foldl_append, ih]
    rfl
  case chain =>
    intro level first rest ihFirst ihRest opened
    rw [Derivation.tokens_chain, List.foldl_append, ihFirst, ihRest]
  case nil =>
    intro level opened
    rfl
  case cons =>
    intro level op joins offset operand rest ihOperand ihRest opened
    rw [Links.tokens, List.foldl_cons, List.foldl_append, ihOperand, ihRest]
    rfl

structure Sibling where
  operand : Derivation .factor
  op : Operator
  offset : Nat

def Sibling.tokens (sibling : Sibling) : List Token.Placed :=
  sibling.operand.tokens ++ [⟨.operator sibling.op, sibling.offset⟩]

/-- However many operands stand side by side, behind them no parenthesis is open that was not open
in front of them. -/
theorem foldl_nest_siblings (siblings : List Sibling) (opened : List Token.Placed) :
    (siblings.flatMap Sibling.tokens).foldl Token.Placed.nest opened = opened := by
  induction siblings with
  | nil => rfl
  | cons sibling rest ih =>
      rw [List.flatMap_cons, List.foldl_append, Sibling.tokens, List.foldl_append,
        sibling.operand.foldl_nest]
      exact ih

/-! ## Acts -/

def Act.state : Act σ → State σ
  | .begins _ state | .asks _ state | .completes _ _ state => state

/-- The closing parenthesis that a reader has come to with an act. It has not been taken then. -/
def Act.closing : Act σ → List Token.Placed
  | .asks expected state => if expected = .rightParen then [state.lookahead] else []
  | .begins _ _ | .completes _ _ _ => []

def Act.call (calls : List (Phrase × State σ)) : Act σ → List (Phrase × State σ)
  | .begins phrase state => (phrase, state) :: calls
  | .asks _ _ => calls
  | .completes _ _ _ => calls.tail

/-- The phrases that have begun and are not completed, the latest first. -/
def active (acts : List (Act σ)) : List (Phrase × State σ) := acts.foldl Act.call []

def nested (calls : List (Phrase × State σ)) : Nat :=
  calls.countP fun call => call.1 = .expression

@[simp] theorem active_concat (past : List (Act σ)) (act : Act σ) :
    active (past ++ [act]) = act.call (active past) := by
  simp [active]

theorem nested_cons (phrase : Phrase) (start : State σ) (calls : List (Phrase × State σ)) :
    nested ((phrase, start) :: calls) = nested calls + if phrase = .expression then 1 else 0 := by
  simp [nested, List.countP_cons]

/-! ## Conditions -/

/-- Where a reader of the scans `whole` stands with an act, in view of what it has done before. -/
structure Act.Counted (S : Semantics σ α) (whole : List Scan) (before : List (Act σ))
    (act : Act σ) : Prop where
  passed : act.state.Passed whole (asked before)
  depth_eq : act.state.depth = (unclosed (asked before ++ act.closing)).length
  depth_le : act.state.depth ≤ maxDepth
  nested_le : nested (active (before ++ [act])) ≤ act.state.depth + 1
  -- What is completed is the reading that began last.
  completed : ∀ phrase start after, act = .completes phrase start after →
    (active before).head? = some (phrase, start) ∧
      ∃ value shorter, read S phrase start = .done value after shorter

/-- How the depth of a reader that has failed stands to the parentheses that are open. One that
meets something else where a parenthesis has to be closed has come to the end of the innermost. -/
def Stranded (past : List (Act σ)) (final : State σ) : Error → Prop
  | .lexical _ => ∃ before expected state, past = before ++ [.asks expected state] ∧
      final.lookahead = state.lookahead ∧ final.depth = state.depth
  | .syntactic (.unclosedParenthesis openedAt _) => ∃ paren opened,
      unclosed (asked past) = paren :: opened ∧ paren.offset = openedAt ∧
        final.depth = opened.length
  | .syntactic _ | .evaluation _ => final.depth = (unclosed (asked past)).length

def counting (S : Semantics σ α) (whole : List Scan) : Conditions σ where
  act := Act.Counted S whole
  failed past error final := Stranded past final error ∧ final.depth ≤ maxDepth

/-- A reader has done `past`. In `state` the parentheses `opened` are open, and of the phrases that
it reads `calls` are not completed. -/
structure Stands (whole : List Scan) (opened : List Token.Placed)
    (calls : List (Phrase × State σ)) (past : List (Act σ)) (state : State σ) : Prop where
  passed : state.Passed whole (asked past)
  unclosed_eq : unclosed (asked past) = opened
  depth_eq : state.depth = opened.length
  depth_le : opened.length ≤ maxDepth
  active_eq : active past = calls
  nested_le : nested calls ≤ opened.length + 1

namespace Stands

variable {S : Semantics σ α} {whole : List Scan} {past : List (Act σ)}
  {opened : List Token.Placed} {calls : List (Phrase × State σ)} {state after : State σ}

theorem with_store (h : Stands whole opened calls past state) (store : σ) :
    Stands whole opened calls past { state with store := store } where
  passed := h.passed.with_store store
  unclosed_eq := h.unclosed_eq
  depth_eq := h.depth_eq
  depth_le := h.depth_le
  active_eq := h.active_eq
  nested_le := h.nested_le

theorem begins (h : Stands whole opened calls past state) {phrase : Phrase}
    (hn : nested ((phrase, state) :: calls) ≤ opened.length + 1) :
    Stands whole opened ((phrase, state) :: calls) (past ++ [.begins phrase state]) state where
  passed := by rw [asked_begins]; exact h.passed
  unclosed_eq := by rw [asked_begins, h.unclosed_eq]
  depth_eq := h.depth_eq
  depth_le := h.depth_le
  active_eq := by rw [active_concat, h.active_eq]; rfl
  nested_le := hn

theorem completes {phrase : Phrase} {start : State σ}
    (h : Stands whole opened ((phrase, start) :: calls) past state) :
    Stands whole opened calls (past ++ [.completes phrase start state]) state where
  passed := by rw [asked_completes]; exact h.passed
  unclosed_eq := by rw [asked_completes, h.unclosed_eq]
  depth_eq := h.depth_eq
  depth_le := h.depth_le
  active_eq := by rw [active_concat, h.active_eq]; rfl
  nested_le := by
    have hn := h.nested_le
    rw [nested_cons] at hn
    omega

/-- Taking a token that is no parenthesis. -/
theorem takes (h : Stands whole opened calls past state) {expected : Token.Kind}
    (hl : state.lookahead.token ≠ .leftParen) (hr : state.lookahead.token ≠ .rightParen)
    (ha : state.Advanced after) :
    Stands whole opened calls (past ++ [.asks expected state]) after where
  passed := by rw [asked_asks]; exact h.passed.advanced ha
  unclosed_eq := by
    rw [asked_asks, unclosed_append, h.unclosed_eq]
    exact Token.Placed.nest_of_ne hl hr
  depth_eq := ha.depth_eq.trans h.depth_eq
  depth_le := h.depth_le
  active_eq := by rw [active_concat, h.active_eq]; rfl
  nested_le := h.nested_le

theorem opens (h : Stands whole opened calls past state) {expected : Token.Kind}
    (hl : state.lookahead.token = .leftParen) (hd : state.depth < maxDepth)
    (ha : state.Advanced after) :
    Stands whole (state.lookahead :: opened) calls (past ++ [.asks expected state])
      after.enter where
  passed := by rw [asked_asks]; exact (h.passed.advanced ha).enter
  unclosed_eq := by
    rw [asked_asks, unclosed_append, h.unclosed_eq]
    exact Token.Placed.nest_leftParen hl
  depth_eq := congrArg Nat.succ (ha.depth_eq.trans h.depth_eq)
  depth_le := by rwa [h.depth_eq] at hd
  active_eq := by rw [active_concat, h.active_eq]; rfl
  nested_le := Nat.le_succ_of_le h.nested_le

/-- `state` is that of a reader which has counted the parenthesis as closed and has not taken it. -/
theorem closes {paren : Token.Placed} (h : Stands whole (paren :: opened) calls past state)
    (hn : nested calls ≤ opened.length + 1) (hr : state.lookahead.token = .rightParen)
    {expected : Token.Kind} (ha : state.leave.Advanced after) :
    Stands whole opened calls (past ++ [.asks expected state.leave]) after where
  passed := by rw [asked_asks]; exact h.passed.leave.advanced ha
  unclosed_eq := by
    rw [asked_asks, unclosed_append, h.unclosed_eq]
    exact Token.Placed.nest_rightParen hr
  depth_eq := by
    rw [ha.depth_eq, State.leave, h.depth_eq]
    rfl
  depth_le := Nat.le_of_succ_le h.depth_le
  active_eq := by rw [active_concat, h.active_eq]; rfl
  nested_le := hn

/-! ## What the acts meet -/

theorem counted_begins (h : Stands whole opened calls past state) {phrase : Phrase}
    (hn : nested ((phrase, state) :: calls) ≤ opened.length + 1) :
    (Act.begins phrase state).Counted S whole past where
  passed := h.passed
  depth_eq := by
    rw [Act.closing, List.append_nil, h.unclosed_eq]
    exact h.depth_eq
  depth_le := Nat.le_trans (Nat.le_of_eq h.depth_eq) h.depth_le
  nested_le := by
    rw [active_concat, h.active_eq, Act.state, h.depth_eq]
    exact hn
  completed := fun _ _ _ hact => by cases hact

theorem counted_asks (h : Stands whole opened calls past state) {expected : Token.Kind}
    (hr : expected ≠ .rightParen) : (Act.asks expected state).Counted S whole past where
  passed := h.passed
  depth_eq := by
    rw [Act.closing, if_neg hr, List.append_nil, h.unclosed_eq]
    exact h.depth_eq
  depth_le := Nat.le_trans (Nat.le_of_eq h.depth_eq) h.depth_le
  nested_le := by
    rw [active_concat, h.active_eq, Act.state, h.depth_eq]
    exact h.nested_le
  completed := fun _ _ _ hact => by cases hact

theorem counted_closes {paren : Token.Placed} (h : Stands whole (paren :: opened) calls past state)
    (hn : nested calls ≤ opened.length + 1) (hr : state.lookahead.token = .rightParen) :
    (Act.asks .rightParen state.leave).Counted S whole past := by
  have hdepth : state.leave.depth = opened.length := congrArg (· - 1) h.depth_eq
  constructor
  case passed => exact h.passed.leave
  case depth_eq =>
    rw [Act.closing, if_pos rfl, unclosed_append, h.unclosed_eq, Act.state, hdepth]
    have hnest : Token.Placed.nest (paren :: opened) state.lookahead = opened :=
      Token.Placed.nest_rightParen hr
    exact congrArg List.length hnest.symm
  case depth_le => exact Nat.le_trans (Nat.le_of_eq hdepth) (Nat.le_of_succ_le h.depth_le)
  case nested_le =>
    rw [active_concat, h.active_eq, Act.state, hdepth]
    exact hn
  case completed =>
    intro _ _ _ hact
    cases hact

theorem counted_completes {phrase : Phrase} {start : State σ} {value : α}
    {shorter : state.remaining < start.remaining}
    (h : Stands whole opened ((phrase, start) :: calls) past state)
    (hread : read S phrase start = .done value state shorter) :
    (Act.completes phrase start state).Counted S whole past where
  passed := h.passed
  depth_eq := by
    rw [Act.closing, List.append_nil, h.unclosed_eq]
    exact h.depth_eq
  depth_le := Nat.le_trans (Nat.le_of_eq h.depth_eq) h.depth_le
  nested_le := by
    have hn := h.completes.nested_le
    rw [active_concat, h.active_eq, Act.state, h.depth_eq]
    exact hn
  completed := by
    intro _ _ _ hact
    cases hact
    exact ⟨by rw [h.active_eq]; rfl, value, shorter, hread⟩

theorem stranded (h : Stands whole opened calls past state) :
    state.depth = (unclosed (asked past)).length ∧ state.depth ≤ maxDepth := by
  rw [h.unclosed_eq, h.depth_eq]
  exact ⟨rfl, h.depth_le⟩

end Stands

end Expression

end Calculator
