import Calculator.Answer
import Calculator.Proofs.Shunting.Calls

/-!
# Pushdown automaton

Whether a text is an expression, and what is wrong with it if not, depends on two things at each
token: whether an operand is wanted or complete, and which parentheses are open.
-/

namespace Calculator

def Semantics.blank : Semantics Unit Unit := .pure (fun _ => ()) fun _ _ _ _ => .ok ()

/-- Writing never fails. -/
theorem Notation.semantics_blank (style : Notation) :
    style.semantics.Morphism .blank (fun _ => ()) fun _ => () where
  integer _ _ := rfl
  binary _ _ _ _ _ := rfl

namespace Expression

/-- The innermost of the open parentheses comes first. -/
structure Automaton where
  complete : Bool
  opened : List Nat

namespace Automaton

abbrev Step := Machine.Step Automaton (Except Error Unit)

def reject (error : SyntaxError) : Step := .halt (.error (.syntactic error))

def want (opened : List Nat) (placed : Token.Placed) : Step :=
  match placed.token with
  | .integer _ => .next ⟨true, opened⟩
  | .leftParen =>
      if opened.length < 256 then .next ⟨false, placed.offset :: opened⟩
      else reject (.nestingTooDeep 256 placed.offset)
  | .operator _ | .rightParen | .endOfInput => reject (.expectedOperand placed)

def follow (opened : List Nat) (placed : Token.Placed) : Step :=
  match placed.token.operator? with
  | some _ => .next ⟨false, opened⟩
  | none =>
      match opened with
      | [] =>
          if placed.token = .endOfInput then .halt (.ok ())
          else reject (.trailingInput placed)
      | openedAt :: below =>
          if placed.token = .rightParen then .next ⟨true, below⟩
          else reject (.unclosedParenthesis openedAt placed)

def step (automaton : Automaton) : Scan → Step
  | .error error => .halt (.error (.lexical error))
  | .ok placed =>
      if automaton.complete then follow automaton.opened placed
      else want automaton.opened placed

/-- The verdict on a row of scans, and the scans that were looked at. -/
def run (scans : List Scan) : Option (Except Error Unit × List Scan) :=
  Machine.process step ⟨false, []⟩ (.error (.syntactic .emptyExpression)) scans

end Automaton

/-! ## Shunting without operands -/

def Phase.isComplete : Phase → Bool
  | .wanted => false
  | .literal _ | .complete => true

namespace Shunting

def openings (pending : List Mark) : List Nat := pending.filterMap Mark.openedAt?

def view (machine : Shunting Unit Unit) : Automaton :=
  ⟨machine.phase.isComplete, openings machine.pending⟩

def report (verdict : Except Error Unit × Unit) : Except Error Unit := verdict.1

@[simp] theorem openings_paren (openedAt : Nat) (pending : List Mark) :
    openings (.paren openedAt :: pending) = openedAt :: openings pending := rfl

@[simp] theorem openings_operator (op : Operator) (offset : Nat) (pending : List Mark) :
    openings (.operator op offset :: pending) = openings pending := rfl

theorem length_openings (pending : List Mark) : (openings pending).length = depth pending := by
  induction pending with
  | nil => rfl
  | cons mark pending ih =>
      cases mark with
      | operator op offset => simp [ih]
      | paren openedAt => simp [ih]

/-- The operators that are settled leave the parentheses as they were. -/
theorem settle_blank (bar : Nat) (pending : List Mark) (operands : List Unit) :
    ∃ rest operands', settle .blank bar pending operands () = (.ok (rest, operands'), ()) ∧
      openings rest = openings pending := by
  induction pending generalizing operands with
  | nil => exact ⟨[], operands, by simp [settle], rfl⟩
  | cons mark pending ih =>
      rcases mark with ⟨op, offset⟩ | openedAt
      · rcases operands with _ | ⟨right, _ | ⟨left, operands⟩⟩
        · exact ⟨.operator op offset :: pending, [], by simp [settle], rfl⟩
        · exact ⟨.operator op offset :: pending, [right], by simp [settle], rfl⟩
        · by_cases hb : bar ≤ op.precedence
          · rw [settle_operator hb]
            exact ih (() :: operands)
          · exact ⟨.operator op offset :: pending, right :: left :: operands,
              by simp [settle, hb], rfl⟩
      · exact ⟨.paren openedAt :: pending, operands, by simp [settle], rfl⟩

abbrev Seen (first : Step Unit Unit) (second : Automaton.Step) : Prop :=
  first.Shown view report second

theorem seen_begin (pending : List Mark) (operands : List Unit) (placed : Token.Placed) :
    Seen (begin ⟨.wanted, pending, operands, ()⟩ placed)
      (Automaton.want (openings pending) placed) := by
  unfold begin Automaton.want
  cases placed.token with
  | integer value => rfl
  | leftParen =>
      simp only [length_openings]
      by_cases hd : depth pending < maxDepth
      · rw [if_pos hd, if_pos (show depth pending < 256 from hd)]
        rfl
      · rw [if_neg hd, if_neg (show ¬ depth pending < 256 from hd)]
        rfl
  | operator op => rfl
  | rightParen => rfl
  | endOfInput => rfl

theorem seen_judge (pending : List Mark) (operands : List Unit) (placed : Token.Placed) :
    Seen (judge ⟨.complete, pending, operands, ()⟩ placed)
      (Automaton.follow (openings pending) placed) := by
  unfold judge Automaton.follow
  cases placed.token.operator? with
  | some op => rfl
  | none =>
      rcases pending with _ | ⟨_ | openedAt, pending⟩
      · by_cases he : placed.token = .endOfInput
        · simp only [if_pos he]
          rcases operands with _ | ⟨value, _ | ⟨other, operands⟩⟩
          · trivial
          · rfl
          · trivial
        · simp only [if_neg he]
          rfl
      · trivial
      · by_cases hp : placed.token = .rightParen
        · simp only [if_pos hp]
          rfl
        · simp only [if_neg hp]
          rfl

theorem seen_proceed (pending : List Mark) (operands : List Unit) (placed : Token.Placed) :
    Seen (proceed .blank pending operands () placed)
      (Automaton.follow (openings pending) placed) := by
  obtain ⟨rest, operands', hsettle, hopen⟩ :=
    settle_blank placed.token.precedence pending operands
  rw [proceed, hsettle, ← hopen]
  exact seen_judge rest operands' placed

theorem seen_step (machine : Shunting Unit Unit) (scan : Scan) :
    Seen (step .blank machine scan) (Automaton.step (view machine) scan) := by
  obtain ⟨phase, pending, operands, store⟩ := machine
  rcases scan with error | placed
  · rfl
  · cases phase with
    | wanted => exact seen_begin pending operands placed
    | literal value => exact seen_proceed pending (() :: operands) placed
    | complete => exact seen_proceed pending operands placed

end Shunting

/-- The automaton decides as a reader does that cannot fail to apply an operator. -/
theorem automaton_run_eq {σ α : Type} {S : Semantics σ α}
    (hS : S.Morphism .blank (fun _ => ()) fun _ => ()) (text : String) (store : σ) :
    Automaton.run (Cursor.ofText text).untilEnd =
      some ((parse S text store).result.map fun _ => (), (parse S text store).scans) := by
  have hblank := Shunting.parse_untilEnd .blank text ()
  rw [parse_map hS text store] at hblank
  obtain ⟨⟨verdict, scans⟩, hp, hfound⟩ := Option.map_eq_some_iff.mp hblank
  have hrun := Machine.process_of_shown Shunting.seen_step hp
  have hresult := congrArg Run.result hfound
  have hscans := congrArg Run.scans hfound
  simp only [Shunting.toRun, Run.map] at hresult hscans
  rw [← hresult, ← hscans]
  exact hrun

/-- Whether a text can be translated, and the error if not, is what the automaton decides from
the scans of the text, and only from those that the translation makes. -/
theorem translate_eq_automaton (style : Notation) (text : String) :
    Automaton.run (Cursor.ofText text).untilEnd =
        some ((translate style text).map fun _ => (), (translation style text).scans) ∧
      (∃ unread, (Cursor.ofText text).untilEnd = (translation style text).scans ++ unread) ∧
      ∀ others, Automaton.run ((translation style text).scans ++ others) =
        some ((translate style text).map fun _ => (), (translation style text).scans) := by
  have hrun := automaton_run_eq style.semantics_blank text ()
  exact ⟨hrun, Machine.process_of_read hrun⟩

end Expression

end Calculator
