import Calculator.Proofs.Grammar

/-!
# Shunting yard

An expression read with two stacks in place of recursion: operands on one, and on the other the
operators and opening parentheses that wait for what is behind them. Operators are told apart by
their precedence alone.
-/

namespace Calculator

/-!
## Machines on scans

A machine is given scans one at a time, until it halts with a verdict. A machine may also be
stuck: then it has no verdict, as when the scans run out.
-/

namespace Machine

inductive Step (μ ω : Type) where
  | next (machine : μ)
  | halt (verdict : ω)
  | stuck

variable {μ ν ω ψ : Type}

/-- The verdict, and all scans that the machine was given. `given` holds those before the first
of the list, the latest first. -/
def run (step : μ → Scan → Step μ ω) (machine : μ) (given : List Scan) :
    List Scan → Option (ω × List Scan)
  | [] => none
  | scan :: rest =>
      match step machine scan with
      | .next machine => run step machine (scan :: given) rest
      | .halt verdict => some (verdict, (scan :: given).reverse)
      | .stuck => none

def verdict (step : μ → Scan → Step μ ω) (machine : μ) : List Scan → Option ω
  | [] => none
  | scan :: rest =>
      match step machine scan with
      | .next machine => verdict step machine rest
      | .halt verdict => some verdict
      | .stuck => none

theorem map_run (step : μ → Scan → Step μ ω) (machine : μ) (given scans : List Scan) :
    (run step machine given scans).map Prod.fst = verdict step machine scans := by
  induction scans generalizing machine given with
  | nil => rfl
  | cons scan rest ih =>
      rw [run, verdict]
      cases step machine scan with
      | next after => exact ih after (scan :: given)
      | halt found => rfl
      | stuck => rfl

/-- `second` does what `first` does, seen through `view` and `report`. -/
def Step.Shown (view : μ → ν) (report : ω → ψ) (first : Step μ ω) (second : Step ν ψ) : Prop :=
  match first with
  | .next machine => second = .next (view machine)
  | .halt verdict => second = .halt (report verdict)
  | .stuck => True

theorem Step.Shown.trans {ξ χ : Type} {view : μ → ν} {view' : ν → ξ} {report : ω → ψ}
    {report' : ψ → χ} {first : Step μ ω} {second : Step ν ψ} {third : Step ξ χ}
    (h : first.Shown view report second) (h' : second.Shown view' report' third) :
    first.Shown (view' ∘ view) (report' ∘ report) third := by
  cases first with
  | next machine =>
      rw [show second = .next (view machine) from h] at h'
      exact h'
  | halt verdict =>
      rw [show second = .halt (report verdict) from h] at h'
      exact h'
  | stuck => trivial

theorem run_of_shown {step : μ → Scan → Step μ ω} {step' : ν → Scan → Step ν ψ}
    {view : μ → ν} {report : ω → ψ}
    (h : ∀ machine scan, (step machine scan).Shown view report (step' (view machine) scan))
    {machine : μ} {given scans : List Scan} {verdict : ω} {all : List Scan}
    (hr : run step machine given scans = some (verdict, all)) :
    run step' (view machine) given scans = some (report verdict, all) := by
  induction scans generalizing machine given with
  | nil => cases hr
  | cons scan rest ih =>
      have hs := h machine scan
      simp only [run] at hr ⊢
      cases hstep : step machine scan with
      | next after =>
          rw [hstep] at hs hr
          rw [show step' (view machine) scan = .next (view after) from hs]
          exact ih hr
      | halt found =>
          rw [hstep] at hs hr
          rw [show step' (view machine) scan = .halt (report found) from hs]
          cases hr
          rfl
      | stuck =>
          rw [hstep] at hr
          cases hr

/-- What follows the scan that a machine halts at does not matter. -/
theorem run_of_given {step : μ → Scan → Step μ ω} {machine : μ} {given scans : List Scan}
    {verdict : ω} {all : List Scan} (hr : run step machine given scans = some (verdict, all)) :
    ∃ read unread, scans = read ++ unread ∧ all = given.reverse ++ read ∧
      ∀ other, run step machine given (read ++ other) = some (verdict, all) := by
  induction scans generalizing machine given with
  | nil => cases hr
  | cons scan rest ih =>
      simp only [run] at hr
      cases hstep : step machine scan with
      | next after =>
          rw [hstep] at hr
          obtain ⟨read, unread, hrest, hall, hother⟩ := ih hr
          refine ⟨scan :: read, unread, by simp [hrest], by simp [hall], ?_⟩
          intro other
          simp only [List.cons_append, run, hstep]
          exact hother other
      | halt found =>
          rw [hstep] at hr
          cases hr
          refine ⟨[scan], rest, rfl, by simp, ?_⟩
          intro other
          simp [run, hstep]
      | stuck =>
          rw [hstep] at hr
          cases hr

/-! ### Whole texts -/

/-- There is nothing to read if the first scan meets the end of the text. -/
def isEmpty : List Scan → Bool
  | .ok placed :: _ => placed.token = .endOfInput
  | _ => false

/-- The verdict on a whole text. A text without tokens is not given to the machine. -/
def process (step : μ → Scan → Step μ ω) (machine : μ) (empty : ω) (scans : List Scan) :
    Option (ω × List Scan) :=
  if isEmpty scans then some (empty, scans.take 1) else run step machine [] scans

theorem isEmpty_append {read : List Scan} (hr : read ≠ []) (other : List Scan) :
    isEmpty (read ++ other) = isEmpty read := by
  rcases read with _ | ⟨_ | placed, read⟩
  · exact absurd rfl hr
  · rfl
  · rfl

theorem process_of_shown {step : μ → Scan → Step μ ω} {step' : ν → Scan → Step ν ψ}
    {view : μ → ν} {report : ω → ψ}
    (h : ∀ machine scan, (step machine scan).Shown view report (step' (view machine) scan))
    {machine : μ} {empty verdict : ω} {scans all : List Scan}
    (hp : process step machine empty scans = some (verdict, all)) :
    process step' (view machine) (report empty) scans = some (report verdict, all) := by
  unfold process at hp ⊢
  split at hp
  · rename_i he
    rw [if_pos he]
    cases hp
    rfl
  · rename_i he
    rw [if_neg he]
    exact run_of_shown h hp

/-- A verdict rests on the scans that led to it, whatever may stand behind them. -/
theorem process_of_read {step : μ → Scan → Step μ ω} {machine : μ} {empty verdict : ω}
    {scans all : List Scan} (hp : process step machine empty scans = some (verdict, all)) :
    (∃ unread, scans = all ++ unread) ∧
      ∀ other, process step machine empty (all ++ other) = some (verdict, all) := by
  unfold process at hp
  split at hp
  · rename_i he
    cases hp
    rcases scans with _ | ⟨scan, rest⟩
    · cases he
    · refine ⟨⟨rest, rfl⟩, ?_⟩
      intro other
      have hfirst : isEmpty ([scan] ++ other) = true := by
        rw [isEmpty_append (by simp)]
        cases scan <;> exact he
      exact if_pos hfirst
  · rename_i he
    obtain ⟨read, unread, hscans, hall, hother⟩ := run_of_given hp
    have hread : all = read := by simpa using hall
    subst hread
    refine ⟨⟨unread, hscans⟩, ?_⟩
    intro other
    have hne : all ≠ [] := by
      rintro rfl
      have hnone := hother []
      simp [run] at hnone
    rw [hscans, isEmpty_append hne] at he
    rw [process, isEmpty_append hne, if_neg he]
    exact hother other

end Machine

/-! ## The machine with two stacks -/

namespace Expression

inductive Mark where
  | operator (op : Operator) (offset : Nat)
  | paren (openedAt : Nat)

namespace Mark

def openedAt? : Mark → Option Nat
  | .operator _ _ => none
  | .paren openedAt => some openedAt

def isParen (mark : Mark) : Bool := mark.openedAt?.isSome

end Mark

/-- Whether an operand is wanted or complete. A literal is kept until the token behind it has been
scanned. -/
inductive Phase where
  | wanted
  | literal (value : Int64)
  | complete

/-- The tops of both stacks come first. -/
structure Shunting (σ α : Type) where
  phase : Phase
  pending : List Mark
  operands : List α
  store : σ

namespace Shunting

variable {σ α : Type}

abbrev Step (σ α : Type) := Machine.Step (Shunting σ α) (Except Error α × σ)

def reject (machine : Shunting σ α) (error : SyntaxError) : Step σ α :=
  .halt (.error (.syntactic error), machine.store)

def depth (pending : List Mark) : Nat := pending.countP Mark.isParen

@[simp] theorem depth_operator (op : Operator) (offset : Nat) (pending : List Mark) :
    depth (.operator op offset :: pending) = depth pending := rfl

@[simp] theorem depth_paren (openedAt : Nat) (pending : List Mark) :
    depth (.paren openedAt :: pending) = depth pending + 1 := List.countP_cons_of_pos rfl

def begin (machine : Shunting σ α) (placed : Token.Placed) : Step σ α :=
  match placed.token with
  | .integer value => .next { machine with phase := .literal value }
  | .leftParen =>
      if depth machine.pending < maxDepth then
        .next { machine with pending := .paren placed.offset :: machine.pending }
      else machine.reject (.nestingTooDeep maxDepth placed.offset)
  | .operator _ | .rightParen | .endOfInput => machine.reject (.expectedOperand placed)

/-- Apply the operators above the innermost open parenthesis, as long as their precedence is at
least `bar`. -/
def settle (S : Semantics σ α) (bar : Nat) :
    List Mark → List α → σ → Except EvaluationError (List Mark × List α) × σ
  | .operator op offset :: pending, right :: left :: operands, store =>
      if bar ≤ op.precedence then
        match S.binary op left right offset store with
        | (.ok output, store) => settle S bar pending (output :: operands) store
        | (.error error, store) => (.error error, store)
      else (.ok (.operator op offset :: pending, right :: left :: operands), store)
  | pending, operands, store => (.ok (pending, operands), store)

/-- A token behind a complete operand, when all operators that bind more tightly are settled. -/
def judge (machine : Shunting σ α) (placed : Token.Placed) : Step σ α :=
  match placed.token.operator? with
  | some op =>
      .next { machine with
        phase := .wanted, pending := .operator op placed.offset :: machine.pending }
  | none =>
      match machine.pending with
      | [] =>
          if placed.token = .endOfInput then
            match machine.operands with
            | [value] => .halt (.ok value, machine.store)
            | _ => .stuck
          else machine.reject (.trailingInput placed)
      | .paren openedAt :: pending =>
          if placed.token = .rightParen then .next { machine with pending := pending }
          else machine.reject (.unclosedParenthesis openedAt placed)
      | .operator _ _ :: _ => .stuck

def proceed (S : Semantics σ α) (pending : List Mark) (operands : List α) (store : σ)
    (placed : Token.Placed) : Step σ α :=
  match settle S placed.token.precedence pending operands store with
  | (.ok (pending, operands), store) => judge ⟨.complete, pending, operands, store⟩ placed
  | (.error error, store) => .halt (.error (.evaluation error), store)

def step (S : Semantics σ α) (machine : Shunting σ α) : Scan → Step σ α
  | .error error => .halt (.error (.lexical error), machine.store)
  | .ok placed =>
      match machine.phase with
      | .wanted => machine.begin placed
      | .literal value =>
          let (output, store) := S.integer value machine.store
          proceed S machine.pending (output :: machine.operands) store placed
      | .complete => proceed S machine.pending machine.operands machine.store placed

def start (store : σ) : Shunting σ α := ⟨.wanted, [], [], store⟩

def toRun (found : (Except Error α × σ) × List Scan) : Run σ α :=
  ⟨found.1.1, found.1.2, found.2⟩

def parse (S : Semantics σ α) (scans : List Scan) (store : σ) : Option (Run σ α) :=
  (Machine.process (step S) (start store) (.error (.syntactic .emptyExpression), store) scans).map
    toRun

end Shunting

end Expression

end Calculator
