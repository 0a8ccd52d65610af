import Calculator.Proofs.Acceptance

/-!
# Exact values

An expression is worth an integer, without bounds, unless it divides by zero. Evaluation gives
this integer if the exact value of every operator is in the range of values, and otherwise the
error of the first operator, from left to right and operands first, that has no such value.
-/

namespace Calculator

namespace Arithmetic

theorem apply_eq_error {op : Operator} {left right : Int64} {offset : Nat}
    {error : EvaluationError} (h : apply op left right offset = .error error) :
    (op = .divide ∧ right = 0) ∧ error = .divisionByZero offset ∨
      ¬ (op = .divide ∧ right = 0) ∧ ¬ Range.Fits (op.exact left.toInt right.toInt) ∧
        error = .overflow op offset := by
  unfold apply at h
  split at h
  · rename_i hz
    cases h
    exact .inl ⟨hz, rfl⟩
  · rename_i hz
    split at h
    · cases h
    · rename_i hn
      cases h
      exact .inr ⟨hz, Range.fit?_eq_none_iff.mp hn, rfl⟩

end Arithmetic

namespace Expression

namespace Tree

/-- The value in the integers. There is none where a divisor is zero. -/
def worth? : Tree → Option Int
  | .literal value => some value.toInt
  | .node op _ left right =>
      match left.worth?, right.worth? with
      | some l, some r => if op = .divide ∧ r = 0 then none else some (op.exact l r)
      | _, _ => none

theorem worth?_node {op : Operator} {left right : Tree} {l r : Int} (offset : Nat)
    (hl : left.worth? = some l) (hr : right.worth? = some r) (hz : ¬ (op = .divide ∧ r = 0)) :
    (node op offset left right).worth? = some (op.exact l r) := by
  rw [worth?, hl, hr]
  exact if_neg hz

theorem worth?_divide_zero {left right : Tree} (offset : Nat) (hr : right.worth? = some 0) :
    (node .divide offset left right).worth? = none := by
  rw [worth?, hr]
  cases left.worth? with
  | none => rfl
  | some l => exact if_pos ⟨rfl, rfl⟩

end Tree

structure Operation where
  op : Operator
  offset : Nat
  left : Tree
  right : Tree

namespace Operation

def tree (operation : Operation) : Tree :=
  .node operation.op operation.offset operation.left operation.right

def DividesByZero (operation : Operation) : Prop :=
  operation.op = .divide ∧ operation.right.worth? = some 0

instance (operation : Operation) : Decidable operation.DividesByZero :=
  inferInstanceAs (Decidable (_ ∧ _))

def Overflows (operation : Operation) : Prop :=
  ∃ n, operation.tree.worth? = some n ∧ ¬ Range.Fits n

def Offends (operation : Operation) : Prop :=
  operation.DividesByZero ∨ operation.Overflows

def Sound (operation : Operation) : Prop :=
  ∃ n, operation.tree.worth? = some n ∧ Range.Fits n

def error (operation : Operation) : EvaluationError :=
  if operation.DividesByZero then .divisionByZero operation.offset
  else .overflow operation.op operation.offset

theorem Sound.not_dividesByZero {operation : Operation} (h : operation.Sound) :
    ¬ operation.DividesByZero := by
  intro hz
  rcases h with ⟨n, hworth, _⟩
  rcases hz with ⟨hop, hr⟩
  rw [tree, hop, Tree.worth?_divide_zero operation.offset hr] at hworth
  cases hworth

theorem Sound.not_overflows {operation : Operation} (h : operation.Sound) :
    ¬ operation.Overflows := by
  intro ho
  rcases h with ⟨n, hworth, hrange⟩
  rcases ho with ⟨m, hm, hout⟩
  rw [hworth] at hm
  cases hm
  exact hout hrange

theorem Sound.not_offends {operation : Operation} (h : operation.Sound) :
    ¬ operation.Offends := by
  intro hoffends
  rcases hoffends with hz | ho
  · exact h.not_dividesByZero hz
  · exact h.not_overflows ho

end Operation

/-- The operators of a tree from left to right, each behind those of its operands. -/
def Tree.operations : Tree → List Operation
  | .literal _ => []
  | .node op offset left right =>
      left.operations ++ right.operations ++ [⟨op, offset, left, right⟩]

/-- The error is that of the first operation that offends. -/
def FirstOffence (operations : List Operation) (error : EvaluationError) : Prop :=
  ∃ before first after, operations = before ++ first :: after ∧
    (∀ operation ∈ before, ¬ operation.Offends) ∧ first.Offends ∧ error = first.error

theorem FirstOffence.append {operations : List Operation} {error : EvaluationError}
    (h : FirstOffence operations error) (more : List Operation) :
    FirstOffence (operations ++ more) error := by
  obtain ⟨before, first, after, rfl, hbefore, hfirst, herror⟩ := h
  exact ⟨before, first, after ++ more, by simp, hbefore, hfirst, herror⟩

theorem FirstOffence.behind {operations more : List Operation} {error : EvaluationError}
    (h : FirstOffence operations error) (hmore : ∀ operation ∈ more, operation.Sound) :
    FirstOffence (more ++ operations) error := by
  obtain ⟨before, first, after, rfl, hbefore, hfirst, herror⟩ := h
  refine ⟨more ++ before, first, after, by simp, ?_, hfirst, herror⟩
  intro operation hmem
  rcases List.mem_append.mp hmem with hm | hb
  · exact (hmore operation hm).not_offends
  · exact hbefore operation hb

/-! ## Operations whose operands have been evaluated -/

section Applied

variable {operation : Operation} {l r : Int64}

theorem Operation.dividesByZero_iff (hr : operation.right.worth? = some r.toInt) :
    operation.DividesByZero ↔ operation.op = .divide ∧ r = 0 := by
  have hzero : r.toInt = 0 ↔ r = 0 := by
    rw [← Int64.toInt_inj, Int64.toInt_zero]
  rw [DividesByZero, hr, Option.some.injEq, hzero]

theorem Operation.worth?_tree (hl : operation.left.worth? = some l.toInt)
    (hr : operation.right.worth? = some r.toInt) (hz : ¬ (operation.op = .divide ∧ r = 0)) :
    operation.tree.worth? = some (operation.op.exact l.toInt r.toInt) := by
  rw [← dividesByZero_iff hr, DividesByZero, hr, Option.some.injEq] at hz
  exact Tree.worth?_node operation.offset hl hr hz

theorem Operation.worth?_of_apply (hl : operation.left.worth? = some l.toInt)
    (hr : operation.right.worth? = some r.toInt) {value : Int64}
    (h : Arithmetic.apply operation.op l r operation.offset = .ok value) :
    operation.tree.worth? = some value.toInt := by
  obtain ⟨hz, hvalue⟩ := Arithmetic.apply_eq_ok_iff.mp h
  rw [hvalue]
  exact worth?_tree hl hr hz

theorem Operation.offends_of_apply (hl : operation.left.worth? = some l.toInt)
    (hr : operation.right.worth? = some r.toInt) {error : EvaluationError}
    (h : Arithmetic.apply operation.op l r operation.offset = .error error) :
    operation.Offends ∧ error = operation.error := by
  rcases Arithmetic.apply_eq_error h with ⟨hz, rfl⟩ | ⟨hz, hfits, rfl⟩
  · have hdivides := (dividesByZero_iff hr).mpr hz
    exact ⟨.inl hdivides, (if_pos hdivides).symm⟩
  · have hdivides := mt (dividesByZero_iff hr).mp hz
    exact ⟨.inr ⟨_, worth?_tree hl hr hz, hfits⟩, (if_neg hdivides).symm⟩

end Applied

/-! ## Walks -/

def Tree.Judged (tree : Tree) : Except EvaluationError Int64 → Prop
  | .ok value =>
      tree.worth? = some value.toInt ∧ ∀ operation ∈ tree.operations, operation.Sound
  | .error error => FirstOffence tree.operations error

/-- With the values of both operands the operation is sound, or its error is the first one. -/
theorem judged_node {op : Operator} {offset : Nat} {left right : Tree} {l r : Int64}
    (hl : left.Judged (.ok l)) (hr : right.Judged (.ok r)) :
    (Tree.node op offset left right).Judged (Arithmetic.apply op l r offset) := by
  obtain ⟨hleft, hlsound⟩ := hl
  obtain ⟨hright, hrsound⟩ := hr
  have hsound : ∀ operation ∈ left.operations ++ right.operations, operation.Sound := by
    intro operation hmem
    rcases List.mem_append.mp hmem with hm | hm
    · exact hlsound operation hm
    · exact hrsound operation hm
  let last : Operation := ⟨op, offset, left, right⟩
  cases ha : Arithmetic.apply op l r offset with
  | ok value =>
      have hworth : last.tree.worth? = some value.toInt :=
        Operation.worth?_of_apply hleft hright ha
      refine ⟨hworth, ?_⟩
      intro operation hmem
      rcases List.mem_append.mp hmem with hm | hm
      · exact hsound operation hm
      · rw [List.mem_singleton.mp hm]
        exact ⟨value.toInt, hworth, Range.fits_toInt value⟩
  | error error =>
      have hlast : last.Offends ∧ error = last.error :=
        Operation.offends_of_apply hleft hright ha
      -- The operands have values, so all that is before the operation is sound.
      refine ⟨left.operations ++ right.operations, last, [], rfl, ?_, hlast⟩
      intro operation hmem
      exact (hsound operation hmem).not_offends

theorem judged_walk (tree : Tree) : tree.Judged (tree.walk arithmetic ()).1 := by
  induction tree with
  | literal value =>
      refine ⟨rfl, ?_⟩
      intro operation hmem
      cases hmem
  | node op offset left right ihLeft ihRight =>
      rcases hl : left.walk arithmetic () with ⟨error | l, middle⟩
      · rw [hl] at ihLeft
        rw [Tree.walk_node_left hl, Tree.Judged, Tree.operations, List.append_assoc]
        exact FirstOffence.append ihLeft _
      · rw [hl] at ihLeft
        rcases hr : right.walk arithmetic () with ⟨error | r, after⟩
        · rw [hr] at ihRight
          rw [Tree.walk_node_right hl hr]
          exact (FirstOffence.behind ihRight ihLeft.2).append _
        · rw [hr] at ihRight
          rw [Tree.walk_node hl hr]
          exact judged_node ihLeft ihRight

/-- The result of evaluating a tree, as far as exact arithmetic decides it. -/
structure Tree.Exact (tree : Tree) (result : Except Error Int64) : Prop where
  value : ∀ value, result = .ok value → tree.worth? = some value.toInt
  succeeds_iff : (∃ value, result = .ok value) ↔
    (∀ operation ∈ tree.operations, ¬ operation.DividesByZero) ∧
      ∀ operation ∈ tree.operations, operation.Sound
  fails : ¬ (∃ value, result = .ok value) →
    ∃ error, FirstOffence tree.operations error ∧ result = .error (.evaluation error)

theorem exact_of_judged {tree : Tree} {result : Except EvaluationError Int64}
    (h : tree.Judged result) : tree.Exact (result.mapError .evaluation) := by
  cases result with
  | ok value =>
      obtain ⟨hworth, hsound⟩ := h
      have hok : ∃ found, (Except.ok value : Except Error Int64) = .ok found := ⟨value, rfl⟩
      refine ⟨?_, ?_, ?_⟩
      · intro found hfound
        cases hfound
        exact hworth
      · refine ⟨fun _ => ⟨?_, hsound⟩, fun _ => hok⟩
        intro operation hmem
        exact (hsound operation hmem).not_dividesByZero
      · intro hno
        exact absurd hok hno
  | error error =>
      have hno :
          ¬ ∃ found, (Except.error (.evaluation error) : Except Error Int64) = .ok found := by
        simp
      refine ⟨?_, ?_, fun _ => ⟨error, h, rfl⟩⟩
      · intro found hfound
        exact absurd ⟨found, hfound⟩ hno
      · refine ⟨fun hok => absurd hok hno, ?_⟩
        intro hall
        rcases h with ⟨before, first, after, hoperations, _, hfirst, _⟩
        have hmem : first ∈ tree.operations := by simp [hoperations]
        exact absurd hfirst (Operation.Sound.not_offends (hall.2 first hmem))

/-- A text that can be translated has a tree, and evaluating it is exact. -/
theorem evaluate_exact {style : Notation} {text answer : String}
    (h : translate style text = .ok answer) :
    ∃ derivation : Derivation .expression,
      derivation.Covers text ∧ (∀ other, other.Covers text → other = derivation) ∧
        derivation.tree.Exact (evaluate text) := by
  obtain ⟨derivation, hcovers, hn, _⟩ := exists_derivation_of_parse h
  refine ⟨derivation, hcovers, fun other ho => hcovers.unique ho, ?_⟩
  have hevaluate : evaluate text =
      (derivation.tree.walk arithmetic ()).1.mapError .evaluation :=
    congrArg Prod.fst (parse_of_covers hcovers hn ())
  rw [hevaluate]
  exact exact_of_judged (judged_walk derivation.tree)

/-- The sum overflows, although the whole expression is worth the greatest value. -/
theorem evaluate_exact_of_overflow :
    (Tree.node .subtract 21 (.node .add 19 (.literal 9223372036854775807) (.literal 1))
      (.literal 1)).Exact (evaluate "9223372036854775807+1-1") := by
  let derivation : Derivation .expression :=
    .expression (.term (.literal 9223372036854775807 0) .nil)
      (.cons .add rfl 19 (.term (.literal 1 20) .nil)
        (.cons .subtract rfl 21 (.term (.literal 1 22) .nil) .nil))
  have hcovers : derivation.Covers "9223372036854775807+1-1" := by
    refine Derivation.covers_iff.mpr ⟨23, ?_⟩
    simp only [Cursor.ofText, String.reduceToList]
    iterate 5 rw [Cursor.untilEnd_token rfl (by decide)]
    rw [Cursor.untilEnd_endOfInput rfl rfl]
    rfl
  have htranslate : translate .reversePolish "9223372036854775807+1-1" = .ok _ :=
    congrArg Prod.fst (parse_of_covers hcovers (Nat.zero_le _) ())
  obtain ⟨found, _, hunique, hexact⟩ := evaluate_exact htranslate
  rw [← hunique derivation hcovers] at hexact
  exact hexact

end Expression

end Calculator
