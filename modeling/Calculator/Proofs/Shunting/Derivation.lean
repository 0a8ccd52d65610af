import Calculator.Proofs.Shunting.Descent

/-!
# Shunting yard on derivations

On the tokens of a derivation the machine makes the calls of the walk through its tree, and then
has the value of the tree as an operand, or has stopped at the call that failed.
-/

namespace Calculator.Expression

variable {σ α : Type} (S : Semantics σ α)

namespace Shunting

/-- What the machine comes to when a walk has given the next operand, or has failed. -/
def afterWalk (pending : List Mark) (operands : List α) (scans : List Scan) :
    Except EvaluationError α × σ → Option (Except Error α × σ)
  | (.ok value, store) =>
      Machine.verdict (step S) ⟨.complete, pending, value :: operands, store⟩ scans
  | (.error error, store) => some (.error (.evaluation error), store)

/-- The machine walks through the tree of a phrase, wherever the phrase stands. -/
def Walks {phrase : Phrase} (derivation : Derivation phrase) : Prop :=
  ∀ pending operands store scans, Below phrase.precedence pending →
    depth pending + derivation.nesting ≤ maxDepth → Stops phrase.precedence scans →
    Machine.verdict (step S) ⟨.wanted, pending, operands, store⟩
        (scansOf derivation.tokens ++ scans) =
      afterWalk S pending operands scans (derivation.tree.walk S store)

def WalksOn {level : Chain} (links : Links level) : Prop :=
  ∀ pending operands store tree scans, Below level.precedence pending →
    depth pending + links.nesting ≤ maxDepth → Stops level.precedence scans →
    afterWalk S pending operands (scansOf links.tokens ++ scans) (tree.walk S store) =
      afterWalk S pending operands scans ((links.tree tree).walk S store)

variable {S}

theorem walks_literal (value : Int64) (offset : Nat) : Walks S (.literal value offset) := by
  intro pending operands store scans _ _ hs
  obtain ⟨next, rest, rfl, _⟩ := hs
  rfl

theorem verdict_leftParen {pending : List Mark} (h : depth pending < maxDepth) (operands : List α)
    (store : σ) (openedAt : Nat) (scans : List Scan) :
    Machine.verdict (step S) ⟨.wanted, pending, operands, store⟩
        (.ok ⟨.leftParen, openedAt⟩ :: scans) =
      Machine.verdict (step S) ⟨.wanted, .paren openedAt :: pending, operands, store⟩ scans := by
  simp [Machine.verdict, step, begin, h]

/-- What stands behind a closing parenthesis does not matter. -/
theorem verdict_group {inner : Derivation .expression} (ih : Walks S inner) {pending : List Mark}
    (hd : depth pending + inner.nesting < maxDepth) (operands : List α) (store : σ)
    (openedAt closedAt : Nat) (scans : List Scan) :
    Machine.verdict (step S) ⟨.wanted, pending, operands, store⟩
        (scansOf (Derivation.group openedAt inner closedAt).tokens ++ scans) =
      afterWalk S pending operands scans (inner.tree.walk S store) := by
  have hdepth : depth pending < maxDepth := by omega
  have hinner := ih (.paren openedAt :: pending) operands store
    (.ok ⟨.rightParen, closedAt⟩ :: scans) trivial (by rw [depth_paren]; omega)
    (stops_rightParen closedAt scans)
  rw [scansOf_group, verdict_leftParen hdepth, hinner]
  rcases inner.tree.walk S store with ⟨error | value, after⟩
  · rfl
  · rfl

theorem walks_group (openedAt : Nat) {inner : Derivation .expression} (closedAt : Nat)
    (ih : Walks S inner) : Walks S (.group openedAt inner closedAt) := by
  intro pending operands store scans _ hd _
  rw [Derivation.nesting] at hd
  exact verdict_group ih (by omega) operands store openedAt closedAt scans

theorem walks_chain {level : Chain} {first : Derivation level.operand} {rest : Links level}
    (ihFirst : Walks S first) (ihRest : WalksOn S rest) :
    Walks S (.chain level first rest) := by
  intro pending operands store scans hb hd hs
  rw [Chain.precedence_phrase] at hb hs
  rw [Derivation.nesting_chain] at hd
  have hfirst := ihFirst pending operands store (scansOf rest.tokens ++ scans)
    (hb.mono (by simp)) (by omega) (rest.stops hs)
  have hrest := ihRest pending operands store first.tree scans hb (by omega) hs
  rw [Derivation.tokens_chain, scansOf_append, List.append_assoc, hfirst, hrest,
    Derivation.tree_chain]

theorem walksOn_nil (level : Chain) : WalksOn S (.nil : Links level) := by
  intro pending operands store tree scans _ _ _
  rfl

/-- An operator waits if no operator on top binds as tightly. -/
theorem afterWalk_operator {op : Operator} {pending : List Mark} (hb : Below op.precedence pending)
    (operands : List α) (offset : Nat) (left : α) (store : σ) (scans : List Scan) :
    afterWalk S pending operands (.ok ⟨.operator op, offset⟩ :: scans) (.ok left, store) =
      Machine.verdict (step S) ⟨.wanted, .operator op offset :: pending, left :: operands, store⟩
        scans := by
  simp [afterWalk, Machine.verdict, step, proceed, settle_of_below hb, judge, Token.operator?]

/-- It is applied when its right operand is there and the next token binds no tighter. -/
theorem afterWalk_apply {op : Operator} {scans : List Scan} (hs : Stops (op.precedence + 1) scans)
    (pending : List Mark) (operands : List α) (offset : Nat) (left right : α) (store : σ) :
    afterWalk S (.operator op offset :: pending) (left :: operands) scans (.ok right, store) =
      afterWalk S pending operands scans (S.binary op left right offset store) := by
  obtain ⟨next, rest, rfl, hnext⟩ := hs
  simp only [afterWalk, Machine.verdict, step, proceed, settle_operator (Nat.le_of_lt_succ hnext)]
  rcases S.binary op left right offset store with ⟨error | output, after⟩
  · rfl
  · rfl

theorem walksOn_cons {level : Chain} {op : Operator} (joins : level.joins op = true)
    (offset : Nat) {operand : Derivation level.operand} {rest : Links level}
    (ihOperand : Walks S operand) (ihRest : WalksOn S rest) :
    WalksOn S (.cons op joins offset operand rest) := by
  intro pending operands store tree scans hb hd hs
  have hop := Chain.joins_iff.mp joins
  simp only [Links.nesting] at hd
  have hrest := ihRest pending operands store (.node op offset tree operand.tree) scans hb
    (by omega) hs
  have hstops := rest.stops hs
  rw [Links.tree, ← hrest, Links.tokens]
  -- If the walk has failed before this link, both sides have stopped with its error.
  rcases hleft : tree.walk S store with ⟨error | left, middle⟩
  · rw [Tree.walk_node_left hleft]
    rfl
  · rw [scansOf_cons, scansOf_append, List.cons_append, List.append_assoc,
      afterWalk_operator (by rwa [hop])]
    have hright := ihOperand (.operator op offset :: pending) (left :: operands) middle
      (scansOf rest.tokens ++ scans) (by simp [Below, hop]) (by rw [depth_operator]; omega) hstops
    rw [hright]
    rcases hwalk : operand.tree.walk S middle with ⟨error | right, after⟩
    · rw [Tree.walk_node_right hleft hwalk]
      rfl
    · rw [Tree.walk_node hleft hwalk]
      rw [Chain.precedence_operand, ← hop] at hstops
      exact afterWalk_apply hstops pending operands offset left right after

theorem walks_derivation {phrase : Phrase} (derivation : Derivation phrase) :
    Walks S derivation := by
  refine Derivation.induction (fun _ derivation => Walks S derivation)
    (fun _ links => WalksOn S links) walks_literal ?_ ?_ walksOn_nil ?_ derivation
  · intro openedAt inner closedAt ih
    exact walks_group openedAt closedAt ih
  · intro level first rest ihFirst ihRest
    exact walks_chain ihFirst ihRest
  · intro level op joins offset operand rest ihOperand ihRest
    exact walksOn_cons joins offset ihOperand ihRest

theorem afterWalk_end (offset : Nat) (found : Except EvaluationError α × σ) :
    afterWalk S [] [] [.ok ⟨.endOfInput, offset⟩] found =
      some (found.1.mapError .evaluation, found.2) := by
  rcases found with ⟨error | value, store⟩
  · rfl
  · rfl

variable (S)

/-- A text whose tokens have a derivation is read as its tree is walked. -/
theorem parse_derivation {text : String} {derivation : Derivation .expression} {offset : Nat}
    (hscans : (Cursor.ofText text).untilEnd =
      scansOf derivation.tokens ++ [.ok ⟨.endOfInput, offset⟩])
    (hn : derivation.nesting ≤ maxDepth) (store : σ) :
    ((Expression.parse S text store).result, (Expression.parse S text store).store) =
      ((derivation.tree.walk S store).1.mapError .evaluation,
        (derivation.tree.walk S store).2) := by
  obtain ⟨⟨verdict, scans⟩, hp, hrun⟩ :=
    Option.map_eq_some_iff.mp (parse_untilEnd S text store)
  have hempty : Machine.isEmpty (Cursor.ofText text).untilEnd = false := by
    obtain ⟨head, rest, htokens, hhead⟩ := derivation.exists_first
    rw [hscans, htokens]
    simpa [Machine.isEmpty] using hhead
  rw [Machine.process, hempty, if_neg Bool.false_ne_true] at hp
  have hverdict := Machine.map_run (step S) (start store) [] (Cursor.ofText text).untilEnd
  have hwalk := walks_derivation derivation (S := S) [] [] store _ trivial
    (by simpa [depth] using hn) (stops_endOfInput offset)
  rw [hp, hscans, start, hwalk, afterWalk_end] at hverdict
  rw [← hrun]
  exact Option.some.inj hverdict

end Shunting

/-!
## Phrases that are nested too deep

Where the parentheses of a phrase are too many for those around it, the machine stops at the first
one that is over the limit, unless a call fails before.
-/

variable {S}

/-- A walk that fails at the first operand of a chain is over. -/
theorem Links.walk_of_error {store after : σ} {error : EvaluationError} :
    ∀ {level : Chain} (links : Links level) {tree : Tree},
      tree.walk S store = (.error error, after) →
        (links.tree tree).walk S store = (.error error, after)
  | _, .nil, _, h => h
  | _, .cons _ _ _ _ rest, _, h => rest.walk_of_error (Tree.walk_node_left h)

namespace Shunting

/-- The machine has met a parenthesis over the limit, or the call at which the walk fails. -/
def Sinks (walk : Except EvaluationError α × σ) (found : Option (Except Error α × σ)) : Prop :=
  (∃ offset after,
    found = some (.error (.syntactic (.nestingTooDeep maxDepth offset)), after)) ∨
  ∃ error after, walk = (.error error, after) ∧
    found = some (.error (.evaluation error), after)

/-- Only where the walk fails matters. -/
theorem Sinks.mono {walk walk' : Except EvaluationError α × σ}
    {found : Option (Except Error α × σ)} (h : Sinks walk found)
    (hwalk : ∀ error after, walk = (.error error, after) → walk' = (.error error, after)) :
    Sinks walk' found := by
  rcases h with hdeep | ⟨error, after, herror, hfound⟩
  · exact .inl hdeep
  · exact .inr ⟨error, after, hwalk error after herror, hfound⟩

variable (S)

/-- The machine does not get through a phrase that is too deep where it stands. -/
def SinksIn {phrase : Phrase} (derivation : Derivation phrase) : Prop :=
  ∀ pending operands store scans, Below phrase.precedence pending → depth pending ≤ maxDepth →
    maxDepth < depth pending + derivation.nesting → Stops phrase.precedence scans →
    Sinks (derivation.tree.walk S store)
      (Machine.verdict (step S) ⟨.wanted, pending, operands, store⟩
        (scansOf derivation.tokens ++ scans))

def SinksOn {level : Chain} (links : Links level) : Prop :=
  ∀ pending operands store tree scans, Below level.precedence pending → depth pending ≤ maxDepth →
    maxDepth < depth pending + links.nesting → Stops level.precedence scans →
    Sinks ((links.tree tree).walk S store)
      (afterWalk S pending operands (scansOf links.tokens ++ scans) (tree.walk S store))

variable {S}

theorem sinks_group {inner : Derivation .expression} (ih : SinksIn S inner) {pending : List Mark}
    (hn : maxDepth ≤ depth pending + inner.nesting) (operands : List α) (store : σ)
    (openedAt closedAt : Nat) (scans : List Scan) :
    Sinks (inner.tree.walk S store)
      (Machine.verdict (step S) ⟨.wanted, pending, operands, store⟩
        (scansOf (Derivation.group openedAt inner closedAt).tokens ++ scans)) := by
  rw [scansOf_group]
  by_cases hlimit : depth pending < maxDepth
  · rw [verdict_leftParen hlimit]
    have hdepth := depth_paren openedAt pending
    exact ih (.paren openedAt :: pending) operands store _ trivial (by omega) (by omega)
      (stops_rightParen closedAt scans)
  · refine .inl ⟨openedAt, store, ?_⟩
    simp [Machine.verdict, step, begin, hlimit, reject]

theorem sinksIn_group (openedAt : Nat) {inner : Derivation .expression} (closedAt : Nat)
    (ih : SinksIn S inner) : SinksIn S (.group openedAt inner closedAt) := by
  intro pending operands store scans _ _ hn _
  rw [Derivation.nesting] at hn
  exact sinks_group ih (by omega) operands store openedAt closedAt scans

theorem sinksIn_chain {level : Chain} {first : Derivation level.operand} {rest : Links level}
    (ihFirst : SinksIn S first) (ihRest : SinksOn S rest) :
    SinksIn S (.chain level first rest) := by
  intro pending operands store scans hb hd hn hs
  rw [Chain.precedence_phrase] at hb hs
  rw [Derivation.nesting_chain] at hn
  rw [Derivation.tokens_chain, scansOf_append, List.append_assoc, Derivation.tree_chain]
  have hstops := rest.stops hs
  have hbelow : Below level.operand.precedence pending := hb.mono (by simp)
  by_cases hfirst : depth pending + first.nesting ≤ maxDepth
  · rw [walks_derivation first pending operands store _ hbelow hfirst hstops]
    exact ihRest pending operands store first.tree scans hb hd (by omega) hs
  · have hsinks := ihFirst pending operands store (scansOf rest.tokens ++ scans) hbelow hd
      (by omega) hstops
    exact hsinks.mono fun error after herror => rest.walk_of_error herror

theorem sinksOn_cons {level : Chain} {op : Operator} (joins : level.joins op = true)
    (offset : Nat) {operand : Derivation level.operand} {rest : Links level}
    (ihOperand : SinksIn S operand) (ihRest : SinksOn S rest) :
    SinksOn S (.cons op joins offset operand rest) := by
  intro pending operands store tree scans hb hd hn hs
  have hop := Chain.joins_iff.mp joins
  have hstops := rest.stops hs
  have hoperator : Below op.precedence pending := by rwa [hop]
  have hbelow : Below level.operand.precedence (.operator op offset :: pending) := by
    simp [Below, hop]
  rw [Links.nesting] at hn
  rw [Links.tree, Links.tokens, scansOf_cons, scansOf_append, List.cons_append, List.append_assoc]
  rcases hleft : tree.walk S store with ⟨error | left, middle⟩
  · have hnode : (Tree.node op offset tree operand.tree).walk S store = (.error error, middle) :=
      Tree.walk_node_left hleft
    exact .inr ⟨error, middle, rest.walk_of_error hnode, rfl⟩
  rw [afterWalk_operator hoperator]
  by_cases hoperand : depth pending + operand.nesting ≤ maxDepth
  · -- The operand is read, so it is the rest of the chain that is too deep.
    have hwalks := walks_derivation operand (S := S) (.operator op offset :: pending)
      (left :: operands) middle (scansOf rest.tokens ++ scans) hbelow hoperand hstops
    have hrest := ihRest pending operands store (.node op offset tree operand.tree) scans hb hd
      (by omega) hs
    rw [hwalks]
    rcases hright : operand.tree.walk S middle with ⟨error | right, after⟩
    · have hnode : (Tree.node op offset tree operand.tree).walk S store = (.error error, after) :=
        Tree.walk_node_right hleft hright
      exact .inr ⟨error, after, rest.walk_of_error hnode, rfl⟩
    · rw [Tree.walk_node hleft hright] at hrest
      rw [Chain.precedence_operand, ← hop] at hstops
      rw [afterWalk_apply hstops]
      exact hrest
  · have hsinks := ihOperand (.operator op offset :: pending) (left :: operands) middle
      (scansOf rest.tokens ++ scans) hbelow hd (by rw [depth_operator]; omega) hstops
    refine hsinks.mono ?_
    intro error after herror
    exact rest.walk_of_error (Tree.walk_node_right hleft herror)

theorem sinks_derivation {phrase : Phrase} (derivation : Derivation phrase) :
    SinksIn S derivation := by
  refine Derivation.induction (fun _ derivation => SinksIn S derivation)
    (fun _ links => SinksOn S links) ?_ ?_ ?_ ?_ ?_ derivation
  · intro value offset pending operands store scans _ hd hn _
    rw [Derivation.nesting] at hn
    omega
  · intro openedAt inner closedAt ih
    exact sinksIn_group openedAt closedAt ih
  · intro level first rest ihFirst ihRest
    exact sinksIn_chain ihFirst ihRest
  · intro level pending operands store tree scans _ hd hn _
    rw [Links.nesting] at hn
    omega
  · intro level op joins offset operand rest ihOperand ihRest
    exact sinksOn_cons joins offset ihOperand ihRest

end Shunting

end Calculator.Expression
