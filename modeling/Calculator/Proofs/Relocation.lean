import Calculator.Answer
import Calculator.Proofs.Shunting.Descent
import Calculator.Proofs.Tiling

/-!
# Places moved

A map of offsets moves tokens, errors and scans to other places. What an operator gives does not
depend on its place, and lexemes that stand behind another text than before are scanned as before,
at places that are moved by the difference.
-/

namespace Calculator

def Token.Placed.relocate (place : Nat → Nat) (placed : Token.Placed) : Token.Placed :=
  { placed with offset := place placed.offset }

def LexError.relocate (place : Nat → Nat) : LexError → LexError
  | .unrecognizedCharacter character offset => .unrecognizedCharacter character (place offset)
  | .integerOverflow literal offset => .integerOverflow literal (place offset)

def SyntaxError.relocate (place : Nat → Nat) : SyntaxError → SyntaxError
  | .emptyExpression => .emptyExpression
  | .unexpectedToken expected found => .unexpectedToken expected (found.relocate place)
  | .expectedOperand found => .expectedOperand (found.relocate place)
  | .unclosedParenthesis openedAt found =>
      .unclosedParenthesis (place openedAt) (found.relocate place)
  | .trailingInput found => .trailingInput (found.relocate place)
  | .nestingTooDeep limit offset => .nestingTooDeep limit (place offset)

def EvaluationError.relocate (place : Nat → Nat) : EvaluationError → EvaluationError
  | .divisionByZero offset => .divisionByZero (place offset)
  | .overflow op offset => .overflow op (place offset)

def Error.relocate (place : Nat → Nat) : Error → Error
  | .lexical error => .lexical (error.relocate place)
  | .syntactic error => .syntactic (error.relocate place)
  | .evaluation error => .evaluation (error.relocate place)

def Scan.relocate (place : Nat → Nat) : Scan → Scan
  | .ok placed => .ok (placed.relocate place)
  | .error error => .error (error.relocate place)

namespace Scan

@[simp] theorem relocate_ending (place : Nat → Nat) (offset : Nat) :
    (ending offset).relocate place = ending (place offset) := rfl

theorem relocate_of_fixed {place : Nat → Nat} {scan : Scan} (h : place scan.offset = scan.offset) :
    scan.relocate place = scan := by
  rcases scan with (_ | _) | ⟨token, offset⟩
  all_goals
    simp only [Scan.offset, LexError.offset] at h
    simp only [Scan.relocate, LexError.relocate, Token.Placed.relocate, h]

theorem map_relocate_relocate (place place' : Nat → Nat) (scans : List Scan) :
    (scans.map (Scan.relocate place')).map (Scan.relocate place) =
      scans.map (Scan.relocate (place ∘ place')) := by
  rw [List.map_map]
  apply List.map_congr_left
  intro scan _
  rcases scan with (_ | _) | placed
  all_goals rfl

theorem map_relocate_of_fixed {place : Nat → Nat} {scans : List Scan}
    (h : ∀ scan ∈ scans, place scan.offset = scan.offset) :
    scans.map (Scan.relocate place) = scans := by
  have hid : scans.map (Scan.relocate place) = scans.map id := by
    apply List.map_congr_left
    intro scan hmem
    exact relocate_of_fixed (h scan hmem)
  rw [hid, List.map_id]

end Scan

def shift (start count : Nat) (position : Nat) : Nat :=
  if start ≤ position then position + count else position

theorem shift_of_le {start count position : Nat} (h : start ≤ position) :
    shift start count position = position + count := if_pos h

theorem shift_of_lt {start count position : Nat} (h : position < start) :
    shift start count position = position := if_neg (Nat.not_le.mpr h)

/-! ### Calls -/

/-- Where an operator stands only shows in the place of its error. -/
def Semantics.Movable {σ α : Type} (S : Semantics σ α) : Prop :=
  ∀ (place : Nat → Nat) (op : Operator) (left right : α) (offset : Nat) (before : σ),
    S.binary op left right (place offset) before =
      ((S.binary op left right offset before).1.mapError (·.relocate place),
        (S.binary op left right offset before).2)

theorem Arithmetic.apply_relocate (place : Nat → Nat) (op : Operator) (left right : Int64)
    (offset : Nat) :
    apply op left right (place offset) =
      (apply op left right offset).mapError (·.relocate place) := by
  unfold apply
  by_cases hz : op = .divide ∧ right = 0
  · rw [if_pos hz, if_pos hz]
    rfl
  · rw [if_neg hz, if_neg hz]
    cases Range.fit? (op.exact left.toInt right.toInt) with
    | none => rfl
    | some value => rfl

theorem arithmetic_movable : arithmetic.Movable := by
  intro place op left right offset before
  exact Prod.ext (Arithmetic.apply_relocate place op left right offset) rfl

theorem Notation.semantics_movable (style : Notation) : style.semantics.Movable := by
  intro place op left right offset before
  rfl

/-! ### Lexemes -/

namespace Cursor

variable {place : Nat → Nat} {passed passed' : List Char}

theorem DigitRun.behind_other {digits after : List Char} (h : DigitRun passed digits after)
    (ha : Apart passed' (digits ++ after)) : DigitRun passed' digits after :=
  .of_apart h.ne_nil h.isDigit ha (apart_of_first h.stops _)

theorem Lexeme.relocate {lexeme after : List Char} {scan : Scan}
    (h : Lexeme passed lexeme after scan) (ha : Apart passed' (lexeme ++ after))
    (hplace : place (Text.width passed) = Text.width passed') :
    Lexeme passed' lexeme after (scan.relocate place) := by
  cases h with
  | operator op =>
      simp only [Scan.relocate, Token.Placed.relocate, hplace]
      exact .operator op after
  | leftParen =>
      simp only [Scan.relocate, Token.Placed.relocate, hplace]
      exact .leftParen after
  | rightParen =>
      simp only [Scan.relocate, Token.Placed.relocate, hplace]
      exact .rightParen after
  | integer run value exact =>
      simp only [Scan.relocate, Token.Placed.relocate, hplace]
      exact .integer (run.behind_other ha) value exact
  | tooLarge run exceeds =>
      simp only [Scan.relocate, LexError.relocate, hplace]
      exact .tooLarge (run.behind_other ha) exceeds
  | unrecognized noSpace noDigit noSymbol =>
      simp only [Scan.relocate, LexError.relocate, hplace]
      exact .unrecognized noSpace noDigit noSymbol after

/-- The same lexemes behind another text. -/
theorem Tiling.relocate {text : List Char} {found : List Scan} (h : Tiling passed text found)
    (ha : Apart passed' text)
    (hplace : ∀ n, place (Text.width passed + n) = Text.width passed' + n) :
    Tiling passed' text (found.map (Scan.relocate place)) := by
  induction h generalizing passed' with
  | gap passed blank => exact .gap passed' blank
  | @lexeme passed gap lexeme rest scan others blank first further ih =>
      rw [List.append_assoc] at ha
      have hfirst : Lexeme (passed' ++ gap) lexeme rest (scan.relocate place) := by
        refine first.relocate (ha.gap blank) ?_
        rw [Text.width_append, Text.width_append]
        exact hplace (Text.width gap)
      refine .lexeme blank hfirst (ih hfirst.apart_right ?_)
      intro n
      have hmoved := hplace (Text.width gap + Text.width lexeme + n)
      simp only [Text.width_append]
      rw [← Nat.add_assoc, ← Nat.add_assoc] at hmoved
      rw [hmoved]
      omega

end Cursor

/-!
## Shunting yard at other places

The machine never looks at an offset. If the scans stand elsewhere, it takes the same steps, and
its verdict is the same up to the places that an error speaks of.
-/

variable {σ α : Type}

theorem Machine.verdict_of_shown {μ ν ω ψ : Type} {step : μ → Scan → Step μ ω}
    {step' : ν → Scan → Step ν ψ} {view : μ → ν} {report : ω → ψ} {change : Scan → Scan}
    (h : ∀ machine scan,
      (step machine scan).Shown view report (step' (view machine) (change scan)))
    {machine : μ} {scans : List Scan} {found : ω} (hv : verdict step machine scans = some found) :
    verdict step' (view machine) (scans.map change) = some (report found) := by
  induction scans generalizing machine with
  | nil => cases hv
  | cons scan rest ih =>
      have hs := h machine scan
      simp only [List.map_cons, verdict] at hv ⊢
      cases hstep : step machine scan with
      | next after =>
          rw [hstep] at hs hv
          rw [show step' (view machine) (change scan) = .next (view after) from hs]
          exact ih hv
      | halt verdict =>
          rw [hstep] at hs hv
          rw [show step' (view machine) (change scan) = .halt (report verdict) from hs]
          cases hv
          rfl
      | stuck =>
          rw [hstep] at hv
          cases hv

namespace Expression

def Mark.relocate (place : Nat → Nat) : Mark → Mark
  | .operator op offset => .operator op (place offset)
  | .paren openedAt => .paren (place openedAt)

namespace Shunting

def relocate (place : Nat → Nat) (machine : Shunting σ α) : Shunting σ α :=
  { machine with pending := machine.pending.map (Mark.relocate place) }

def relocateVerdict (place : Nat → Nat) (verdict : Except Error α × σ) : Except Error α × σ :=
  (verdict.1.mapError (Error.relocate place), verdict.2)

variable {S : Semantics σ α} (place : Nat → Nat)

theorem depth_relocate (pending : List Mark) :
    depth (pending.map (Mark.relocate place)) = depth pending := by
  unfold depth
  rw [List.countP_map]
  congr 1
  funext mark
  cases mark <;> rfl

theorem settle_relocate (h : S.Movable) (bar : Nat) (pending : List Mark) (operands : List α)
    (before : σ) :
    settle S bar (pending.map (Mark.relocate place)) operands before =
      (((settle S bar pending operands before).1.map fun rest =>
          (rest.1.map (Mark.relocate place), rest.2)).mapError (·.relocate place),
        (settle S bar pending operands before).2) := by
  induction pending generalizing operands before with
  | nil => rfl
  | cons mark pending ih =>
      rcases mark with ⟨op, offset⟩ | openedAt
      · rcases operands with _ | ⟨right, _ | ⟨left, operands⟩⟩
        · rfl
        · rfl
        · by_cases hb : bar ≤ op.precedence
          · have hcall := h place op left right offset before
            rw [List.map_cons, Mark.relocate, settle_operator hb, settle_operator hb, hcall]
            rcases S.binary op left right offset before with ⟨error | output, after⟩
            · rfl
            · exact ih (output :: operands) after
          · rw [List.map_cons, Mark.relocate]
            simp only [settle, if_neg hb]
            rfl
      · rfl

abbrev Moves (first second : Step σ α) : Prop :=
  first.Shown (relocate place) (relocateVerdict place) second

theorem moves_begin (machine : Shunting σ α) (placed : Token.Placed) :
    Moves place (begin machine placed)
      (begin (relocate place machine) (placed.relocate place)) := by
  obtain ⟨token, offset⟩ := placed
  obtain ⟨phase, pending, operands, before⟩ := machine
  unfold begin
  cases token with
  | integer value => rfl
  | leftParen =>
      simp only [relocate, Token.Placed.relocate, depth_relocate]
      by_cases hd : depth pending < maxDepth
      · rw [if_pos hd, if_pos hd]
        rfl
      · rw [if_neg hd, if_neg hd]
        rfl
  | operator op => rfl
  | rightParen => rfl
  | endOfInput => rfl

theorem moves_judge (machine : Shunting σ α) (placed : Token.Placed) :
    Moves place (judge machine placed)
      (judge (relocate place machine) (placed.relocate place)) := by
  obtain ⟨token, offset⟩ := placed
  obtain ⟨phase, pending, operands, before⟩ := machine
  unfold judge
  simp only [Token.Placed.relocate]
  cases token.operator? with
  | some op => rfl
  | none =>
      rcases pending with _ | ⟨_ | openedAt, pending⟩
      · by_cases he : token = .endOfInput
        · simp only [relocate, List.map_nil, if_pos he]
          rcases operands with _ | ⟨value, _ | ⟨other, operands⟩⟩
          · trivial
          · rfl
          · trivial
        · simp only [relocate, List.map_nil, if_neg he]
          rfl
      · trivial
      · by_cases hp : token = .rightParen
        · simp only [relocate, List.map_cons, Mark.relocate, if_pos hp]
          rfl
        · simp only [relocate, List.map_cons, Mark.relocate, if_neg hp]
          rfl

theorem moves_proceed (h : S.Movable) (pending : List Mark) (operands : List α) (before : σ)
    (placed : Token.Placed) :
    Moves place (proceed S pending operands before placed)
      (proceed S (pending.map (Mark.relocate place)) operands before (placed.relocate place)) := by
  unfold proceed
  rw [settle_relocate place h, show (placed.relocate place).token = placed.token from rfl]
  rcases settle S placed.token.precedence pending operands before with
    ⟨error | ⟨pending, operands⟩, after⟩
  · rfl
  · exact moves_judge place ⟨.complete, pending, operands, after⟩ placed

theorem moves_step (h : S.Movable) (machine : Shunting σ α) (scan : Scan) :
    Moves place (step S machine scan) (step S (relocate place machine) (scan.relocate place)) := by
  obtain ⟨phase, pending, operands, before⟩ := machine
  rcases scan with error | placed
  · rfl
  · cases phase with
    | wanted => exact moves_begin place ⟨.wanted, pending, operands, before⟩ placed
    | literal value =>
        exact moves_proceed place h pending ((S.integer value before).1 :: operands)
          (S.integer value before).2 placed
    | complete => exact moves_proceed place h pending operands before placed

/-- The same scans at other places lead to the same verdict, with the places moved. -/
theorem verdict_relocate (h : S.Movable) {machine : Shunting σ α} {scans : List Scan}
    {result : Except Error α} {final : σ}
    (hv : Machine.verdict (step S) machine scans = some (result, final)) :
    Machine.verdict (step S) (relocate place machine) (scans.map (Scan.relocate place)) =
      some (result.mapError (Error.relocate place), final) :=
  Machine.verdict_of_shown (moves_step place h) hv

end Shunting

end Expression

end Calculator
