import Calculator.Proofs.Acceptance
import Calculator.Proofs.Relocation

/-!
# Replaying a translation

The reverse Polish spelling of a text is a program for the stack machine. With any semantics it
makes the calls of the tree in their order, so that the machine comes to what the text itself
comes to; only the places that operators are told are those of the program.
-/

namespace Calculator

variable {σ α : Type}

namespace StackMachine

def conclude (stack : List α) :
    List (Except EvaluationError (List α)) → Except EvaluationError (List α)
  | [] => .ok stack
  | .ok stack :: steps => conclude stack steps
  | .error error :: _ => .error error

def replay (S : Semantics σ α) (offset : Nat) (machine : StackMachine σ α)
    (program : List Instruction) : Option (Except EvaluationError (List α)) :=
  (machine.run S offset program).map (conclude machine.stack)

variable {S : Semantics σ α} {offset : Nat} {machine after : StackMachine σ α}
  {instruction : Instruction} {program rest : List Instruction}

theorem replay_of_ok (h : machine.step S offset instruction = some (.ok (), after)) :
    machine.replay S offset (instruction :: rest) = after.replay S (offset + 1) rest := by
  unfold replay
  rw [run, h]
  simp only [Option.map_map]
  rfl

/-- The machine goes on behind an error, and may lack operands later. -/
theorem replay_of_error {error : EvaluationError}
    {steps : List (Except EvaluationError (List α))}
    (h : machine.step S offset instruction = some (.error error, after))
    (hrun : after.run S (offset + 1) rest = some steps) :
    machine.replay S offset (instruction :: rest) = some (.error error) := by
  unfold replay
  rw [run, h]
  simp only [hrun]
  rfl

section Applied

variable {op : Operator} {left right : α} {stack : List α} {store next : σ}

theorem step_apply_ok {output : α}
    (h : S.binary op left right offset store = (.ok output, next)) :
    step S offset ⟨right :: left :: stack, store⟩ (.apply op) =
      some (.ok (), ⟨output :: stack, next⟩) := by
  simp only [step, h]

theorem step_apply_error {error : EvaluationError}
    (h : S.binary op left right offset store = (.error error, next)) :
    step S offset ⟨right :: left :: stack, store⟩ (.apply op) =
      some (.error error, ⟨right :: left :: stack, next⟩) := by
  simp only [step, h]

end Applied

/-! ## Programs that never lack operands -/

/-- With at least `height` operands on the stack no operator of the program lacks any. -/
def Supplied : Nat → List Instruction → Prop
  | _, [] => True
  | height, .push _ :: rest => Supplied (height + 1) rest
  | height, .apply _ :: rest => 2 ≤ height ∧ Supplied (height - 1) rest

theorem Supplied.mono {height other : Nat} (h : Supplied height program)
    (hle : height ≤ other) : Supplied other program := by
  induction program generalizing height other with
  | nil => trivial
  | cons instruction rest ih =>
      cases instruction with
      | push value =>
          have hrest : Supplied (height + 1) rest := h
          exact ih hrest (by omega)
      | apply op =>
          obtain ⟨htwo, hrest⟩ := h
          exact ⟨by omega, ih hrest (by omega)⟩

/-- An operator that fails leaves one operand more than it would have. -/
theorem Supplied.step (S : Semantics σ α) (offset : Nat)
    (h : Supplied machine.stack.length (instruction :: rest)) :
    ∃ outcome after, machine.step S offset instruction = some (outcome, after) ∧
      Supplied after.stack.length rest := by
  obtain ⟨stack, store⟩ := machine
  cases instruction with
  | push value => exact ⟨_, _, rfl, h⟩
  | apply op =>
      obtain ⟨htwo, hrest⟩ := h
      match stack, htwo, hrest with
      | right :: left :: below, _, hrest =>
          rcases hb : S.binary op left right offset store with ⟨error | output, next⟩
          · exact ⟨_, _, step_apply_error hb, hrest.mono (Nat.sub_le _ _)⟩
          · exact ⟨_, _, step_apply_ok hb, hrest⟩

theorem Supplied.run (S : Semantics σ α) (offset : Nat) (machine : StackMachine σ α)
    (h : Supplied machine.stack.length program) :
    ∃ steps, machine.run S offset program = some steps := by
  induction program generalizing machine offset with
  | nil => exact ⟨[], rfl⟩
  | cons instruction rest ih =>
      obtain ⟨outcome, after, hstep, hrest⟩ := h.step S offset
      obtain ⟨steps, hsteps⟩ := ih (offset + 1) after hrest
      rw [StackMachine.run, hstep]
      simp only [hsteps]
      exact ⟨_, rfl⟩

end StackMachine

namespace Expression.Tree

open StackMachine

theorem code_append (op : Operator) (offset : Nat) (left right : Tree) (rest : List Instruction) :
    (node op offset left right).code ++ rest = left.code ++ (right.code ++ .apply op :: rest) := by
  simp [code]

theorem length_code (op : Operator) (offset start : Nat) (left right : Tree) :
    start + (node op offset left right).code.length =
      start + left.code.length + right.code.length + 1 := by
  simp only [code, List.length_append, List.length_singleton]
  omega

theorem supplied_code (tree : Tree) {height : Nat} {rest : List Instruction}
    (h : Supplied (height + 1) rest) : Supplied height (tree.code ++ rest) := by
  induction tree generalizing height rest with
  | literal value => exact h
  | node op offset left right ihLeft ihRight =>
      rw [code_append]
      exact ihLeft (ihRight ⟨by omega, h⟩)

/-- The same tree with the operators at their places in its code, which starts at `start`. -/
def numbered (start : Nat) : Tree → Tree
  | .literal value => .literal value
  | .node op _ left right =>
      .node op (start + left.code.length + right.code.length) (left.numbered start)
        (right.numbered (start + left.code.length))

theorem spell_numbered (style : Notation) (tree : Tree) (start : Nat) :
    (tree.numbered start).spell style = tree.spell style := by
  induction tree generalizing start with
  | literal value => rfl
  | node op offset left right ihLeft ihRight => rw [numbered, spell, spell, ihLeft, ihRight]

/-! ## Code on the machine -/

def resume (S : Semantics σ α) (offset : Nat) (stack : List α) (rest : List Instruction) :
    Except EvaluationError α × σ → Option (Except EvaluationError (List α))
  | (.ok value, store) => replay S offset ⟨value :: stack, store⟩ rest
  | (.error error, _) => some (.error error)

theorem replay_code (S : Semantics σ α) (tree : Tree) {offset : Nat} {stack : List α} {store : σ}
    {rest : List Instruction} (h : Supplied (stack.length + 1) rest) :
    replay S offset ⟨stack, store⟩ (tree.code ++ rest) =
      resume S (offset + tree.code.length) stack rest ((tree.numbered offset).walk S store) := by
  induction tree generalizing offset stack store rest with
  | literal value => exact replay_of_ok rfl
  | node op place left right ihLeft ihRight =>
      have hop : Supplied (stack.length + 2) (.apply op :: rest) := ⟨by omega, h⟩
      rw [code_append, ihLeft (right.supplied_code hop), numbered]
      rcases hl : (left.numbered offset).walk S store with ⟨error | l, middle⟩
      · rw [walk_node_left hl]
        rfl
      have hbelow : Supplied ((l :: stack).length + 1) (.apply op :: rest) := hop
      rw [resume, ihRight hbelow]
      rcases hr : (right.numbered _).walk S middle with ⟨error | r, last⟩
      · rw [walk_node_right hl hr]
        rfl
      rw [walk_node hl hr, resume]
      rcases hb : S.binary op l r _ last with ⟨error | output, next⟩
      · have hrest : Supplied (r :: l :: stack).length rest := h.mono (Nat.le_succ _)
        obtain ⟨steps, hsteps⟩ := Supplied.run S _ ⟨r :: l :: stack, next⟩ hrest
        exact replay_of_error (step_apply_error hb) hsteps
      · rw [replay_of_ok (step_apply_ok hb), length_code, resume]

/-- From an empty stack, the whole code of a tree leaves nothing but the value of the walk. -/
theorem replay_code_alone (S : Semantics σ α) (tree : Tree) (offset : Nat) (store : σ) :
    replay S offset ⟨[], store⟩ tree.code =
      some (((tree.numbered offset).walk S store).1.map fun value => [value]) := by
  have hcode : replay S offset ⟨[], store⟩ (tree.code ++ []) =
      resume S (offset + tree.code.length) [] [] ((tree.numbered offset).walk S store) :=
    replay_code S tree trivial
  rw [List.append_nil] at hcode
  rw [hcode]
  rcases (tree.numbered offset).walk S store with ⟨error | value, after⟩
  · rfl
  · rfl

theorem replay_spell (style : Notation) (tree : Tree) (offset : Nat) :
    replay style.semantics offset ⟨[], ()⟩ tree.code = some (.ok [tree.spell style]) := by
  rw [replay_code_alone, walk_spell, spell_numbered]
  rfl

end Expression.Tree

/-! ## Errors at other places -/

def EvaluationError.moveTo (place : Nat) : EvaluationError → EvaluationError
  | .divisionByZero _ => .divisionByZero place
  | .overflow op _ => .overflow op place

theorem Arithmetic.apply_moveTo (op : Operator) (left right : Int64) (offset place : Nat) :
    apply op left right place = (apply op left right offset).mapError (·.moveTo place) := by
  have hmove : EvaluationError.moveTo place = EvaluationError.relocate fun _ => place := by
    funext error
    cases error <;> rfl
  rw [hmove]
  exact apply_relocate (fun _ => place) op left right offset

/-- Where the operators stand only shows in the place of an error. -/
theorem Expression.Tree.exists_moveTo (tree : Tree) (start : Nat) :
    ∃ place, (tree.walk arithmetic ()).1 =
      ((tree.numbered start).walk arithmetic ()).1.mapError (·.moveTo place) := by
  induction tree generalizing start with
  | literal value => exact ⟨0, rfl⟩
  | node op offset left right ihLeft ihRight =>
      rw [numbered]
      obtain ⟨leftPlace, hleft⟩ := ihLeft start
      rcases hl : (left.numbered start).walk arithmetic () with ⟨error | l, middle⟩
      · rw [hl] at hleft
        have hleft' : left.walk arithmetic () = (.error (error.moveTo leftPlace), ()) :=
          Prod.ext hleft rfl
        rw [walk_node_left hl, walk_node_left hleft']
        exact ⟨leftPlace, rfl⟩
      rw [hl] at hleft
      have hleft' : left.walk arithmetic () = (.ok l, ()) := Prod.ext hleft rfl
      obtain ⟨rightPlace, hright⟩ := ihRight (start + left.code.length)
      rcases hr : (right.numbered (start + left.code.length)).walk arithmetic ()
        with ⟨error | r, after⟩
      · rw [hr] at hright
        have hright' : right.walk arithmetic () = (.error (error.moveTo rightPlace), ()) :=
          Prod.ext hright rfl
        rw [walk_node_right hl hr, walk_node_right hleft' hright']
        exact ⟨rightPlace, rfl⟩
      rw [hr] at hright
      have hright' : right.walk arithmetic () = (.ok r, ()) := Prod.ext hright rfl
      rw [walk_node hl hr, walk_node hleft' hright']
      exact ⟨offset, Arithmetic.apply_moveTo op l r _ offset⟩

/-! ## Translations -/

namespace Expression

open StackMachine

/-- What the machine comes to with arithmetic, and the evaluation next to it: one value alone is
the value of the text, and an error is its error up to the place of the operator. -/
inductive Replayed : Except EvaluationError (List Int64) → Except Error Int64 → Prop
  | value (value : Int64) : Replayed (.ok [value]) (.ok value)
  | failure (error : EvaluationError) (place : Nat) :
      Replayed (.error error) (.error (.evaluation (error.moveTo place)))

theorem replayed_walk (tree : Tree) (start : Nat) :
    Replayed (((tree.numbered start).walk arithmetic ()).1.map fun value => [value])
      ((tree.walk arithmetic ()).1.mapError .evaluation) := by
  obtain ⟨place, hplace⟩ := tree.exists_moveTo start
  rw [hplace]
  cases ((tree.numbered start).walk arithmetic ()).1 with
  | ok value => exact .value value
  | error error => exact .failure error place

/-- The words of `answer` are the program, and with each semantics it comes to what `text` does. -/
structure Replays (text answer : String) (start : Nat) (program : List Instruction) : Prop where
  words : Instruction.program? answer = some program
  evaluated : ∃ result, replay arithmetic start ⟨[], ()⟩ program = some result ∧
    Replayed result (evaluate text)
  lisp : ∃ written, translate .lisp text = .ok written ∧
    replay Notation.lisp.semantics start ⟨[], ()⟩ program = some (.ok [written])
  reversePolish :
    replay Notation.reversePolish.semantics start ⟨[], ()⟩ program = some (.ok [answer])

theorem replays_code {text : String} {tree : Tree} (start : Nat)
    (hevaluate : evaluate text = (tree.walk arithmetic ()).1.mapError .evaluation)
    (hlisp : translate .lisp text = .ok (tree.spell .lisp)) :
    Replays text (tree.spell .reversePolish) start tree.code where
  words := tree.program?_spell
  evaluated := by
    rw [hevaluate]
    exact ⟨_, tree.replay_code_alone arithmetic start (), replayed_walk tree start⟩
  lisp := ⟨_, hlisp, tree.replay_spell .lisp start⟩
  reversePolish := tree.replay_spell .reversePolish start

/-- A reverse Polish translation can be replayed on the stack machine. -/
theorem replay_translation {text answer : String} (start : Nat)
    (h : translate .reversePolish text = .ok answer) :
    ∃ program, Replays text answer start program := by
  obtain ⟨derivation, hcovers, hn, _⟩ := exists_derivation_of_parse h
  have hanswer : derivation.tree.spell .reversePolish = answer := by
    rw [translate_of_covers .reversePolish hcovers hn] at h
    exact Except.ok.inj h
  have hevaluate : evaluate text =
      (derivation.tree.walk arithmetic ()).1.mapError .evaluation :=
    congrArg Prod.fst (parse_of_covers hcovers hn ())
  have hlisp := translate_of_covers .lisp hcovers hn
  rw [← hanswer]
  exact ⟨derivation.tree.code, replays_code start hevaluate hlisp⟩

/-- The division is the fifth word of the translation, and stands at offset 1 of the text. -/
theorem replay_translation_of_zero :
    translate .reversePolish "8/(2-2)" = .ok "8 2 2 - /" ∧
      replay arithmetic 0 ⟨[], ()⟩
          [.push 8, .push 2, .push 2, .apply .subtract, .apply .divide] =
        some (.error (.divisionByZero 4)) ∧
      Replayed (.error (.divisionByZero 4)) (evaluate "8/(2-2)") := by
  let difference : Derivation .expression :=
    .expression (.term (.literal 2 3) .nil) (.cons .subtract rfl 4 (.term (.literal 2 5) .nil) .nil)
  let derivation : Derivation .expression :=
    .expression (.term (.literal 8 0) (.cons .divide rfl 1 (.group 2 difference 6) .nil)) .nil
  have hcovers : derivation.Covers "8/(2-2)" := by
    refine Derivation.covers_iff.mpr ⟨7, ?_⟩
    simp only [Cursor.ofText, String.reduceToList]
    iterate 7 rw [Cursor.untilEnd_token rfl (by decide)]
    rw [Cursor.untilEnd_endOfInput rfl rfl]
    rfl
  have htranslate : translate .reversePolish "8/(2-2)" = .ok "8 2 2 - /" :=
    translate_of_covers .reversePolish hcovers (by decide)
  obtain ⟨program, hreplays⟩ := replay_translation 0 htranslate
  have hprogram : some [.push 8, .push 2, .push 2, .apply .subtract, .apply .divide] =
      some program := hreplays.words
  have hzero : replay arithmetic 0 ⟨[], ()⟩
      [.push 8, .push 2, .push 2, .apply .subtract, .apply .divide] =
        some (.error (.divisionByZero 4)) := rfl
  obtain ⟨result, hresult, hreplayed⟩ := hreplays.evaluated
  rw [← Option.some.inj hprogram, hzero] at hresult
  rw [← Option.some.inj hresult] at hreplayed
  exact ⟨htranslate, hzero, hreplayed⟩

end Expression

end Calculator
