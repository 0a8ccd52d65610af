import Calculator.Proofs.Lexemes
import Calculator.Proofs.Shunting.Calls

/-!
# Calls that fail

A semantics may give up where another goes on. Up to the call that fails the machine does the same
with both, and the call is one for an operator that was waiting on the stack.
-/

namespace Calculator

variable {σ τ α β : Type}

/-- `T` gives what `S` gives, wherever `S` does not fail. -/
structure Semantics.Outlasted (S : Semantics σ α) (T : Semantics τ β) (output : α → β)
    (store : σ → τ) : Prop where
  integer : ∀ value before, T.integer value (store before) =
    (output (S.integer value before).1, store (S.integer value before).2)
  binary : ∀ {op left right offset before found after},
    S.binary op left right offset before = (.ok found, after) →
      T.binary op (output left) (output right) offset (store before) =
        (.ok (output found), store after)

def Semantics.Located (S : Semantics σ α) : Prop :=
  ∀ {op left right offset before error after},
    S.binary op left right offset before = (.error error, after) → error.offset = offset

namespace Expression

def Mark.offset : Mark → Nat
  | .operator _ offset => offset
  | .paren openedAt => openedAt

inductive Mark.Fails (S : Semantics σ α) : Mark → EvaluationError → σ → Prop where
  | intro {op : Operator} {offset : Nat} {error : EvaluationError} {after : σ} (left right : α)
      (before : σ) (call : S.binary op left right offset before = (.error error, after)) :
      Mark.Fails S (.operator op offset) error after

namespace Shunting

def FailedCall (S : Semantics σ α) (pending : List Mark) (error : EvaluationError)
    (after : σ) : Prop :=
  ∃ mark ∈ pending, mark.Fails S error after

variable {S : Semantics σ α} {T : Semantics τ β} {output : α → β} {store : σ → τ}

theorem settle_of_ok (h : S.Outlasted T output store) {bar : Nat} {pending rest : List Mark}
    {operands left : List α} {before after : σ}
    (hs : settle S bar pending operands before = (.ok (rest, left), after)) :
    settle T bar pending (operands.map output) (store before) =
      (.ok (rest, left.map output), store after) := by
  fun_induction settle S bar pending operands before with
  | case1 op offset pending right first operands before hb found middle hcall ih =>
      simp only [List.map_cons]
      rw [settle_operator hb, h.binary hcall]
      exact ih hs
  | case2 op offset pending right first operands before hb error middle hcall => cases hs
  | case3 op offset pending right first operands before hb =>
      cases hs
      simp [settle, hb]
  | case4 pending operands before hno =>
      have hT : settle T bar pending (operands.map output) (store before) =
          (.ok (pending, operands.map output), store before) := by
        rcases pending with _ | ⟨⟨op, offset⟩ | openedAt, pending⟩
        · simp [settle]
        · rcases operands with _ | ⟨right, _ | ⟨first, operands⟩⟩
          · simp [settle]
          · simp [settle]
          · exact (hno op offset pending right first operands rfl rfl).elim
        · simp [settle]
      cases hs
      exact hT

/-- Settling takes marks off and puts none on. -/
theorem settle_suffix {bar : Nat} {pending rest : List Mark} {operands left : List α}
    {before after : σ} (hs : settle S bar pending operands before = (.ok (rest, left), after)) :
    rest <:+ pending := by
  fun_induction settle S bar pending operands before with
  | case1 op offset pending right first operands before hb found middle hcall ih =>
      exact (ih hs).trans (List.suffix_cons _ _)
  | case2 => cases hs
  | case3 =>
      cases hs
      exact List.suffix_refl _
  | case4 =>
      cases hs
      exact List.suffix_refl _

theorem settle_error {bar : Nat} {pending : List Mark} {operands : List α}
    {error : EvaluationError} {before after : σ}
    (hs : settle S bar pending operands before = (.error error, after)) :
    FailedCall S pending error after := by
  fun_induction settle S bar pending operands before with
  | case1 op offset pending right first operands before hb found middle hcall ih =>
      obtain ⟨mark, hmem, hfails⟩ := ih hs
      exact ⟨mark, List.mem_cons_of_mem _ hmem, hfails⟩
  | case2 op offset pending right first operands before hb error middle hcall =>
      cases hs
      exact ⟨_, List.mem_cons_self, .intro first right before hcall⟩
  | case3 => cases hs
  | case4 => cases hs

/-! ### Steps -/

/-- Both machines do the same, or the first one stops at a call that failed. -/
def Strays (S : Semantics σ α) (output : α → β) (store : σ → τ) (pending : List Mark)
    (first : Step σ α) (second : Step τ β) : Prop :=
  Maps output store first second ∨
    ∃ error after, first = .halt (.error (.evaluation error), after) ∧
      FailedCall S pending error after

theorem strays_proceed (h : S.Outlasted T output store) (pending : List Mark) (operands : List α)
    (before : σ) (placed : Token.Placed) :
    Strays S output store pending (proceed S pending operands before placed)
      (proceed T pending (operands.map output) (store before) placed) := by
  unfold proceed
  rcases hs : settle S placed.token.precedence pending operands before with
    ⟨error | ⟨rest, left⟩, after⟩
  · exact .inr ⟨error, after, rfl, settle_error hs⟩
  · rw [settle_of_ok h hs]
    exact .inl (maps_judge ⟨.complete, rest, left, after⟩ placed)

theorem strays_step (h : S.Outlasted T output store) (machine : Shunting σ α) (scan : Scan) :
    Strays S output store machine.pending (step S machine scan)
      (step T (map output store machine) scan) := by
  obtain ⟨phase, pending, operands, before⟩ := machine
  rcases scan with error | placed
  · exact .inl rfl
  · cases phase with
    | wanted => exact .inl (maps_begin ⟨.wanted, pending, operands, before⟩ placed)
    | literal value =>
        have hnext := strays_proceed h pending ((S.integer value before).1 :: operands)
          (S.integer value before).2 placed
        have hinteger := h.integer value before
        have hout := congrArg Prod.fst hinteger
        have hafter := congrArg Prod.snd hinteger
        dsimp only at hout hafter
        rw [← hafter, List.map_cons, ← hout] at hnext
        exact hnext
    | complete => exact strays_proceed h pending operands before placed

theorem pending_of_begin {machine after : Shunting σ α} {placed : Token.Placed}
    (h : begin machine placed = .next after) {mark : Mark} (hm : mark ∈ after.pending) :
    mark ∈ machine.pending ∨ mark.offset = placed.offset := by
  unfold begin at h
  split at h
  · cases h
    exact .inl hm
  · split at h
    · cases h
      rcases List.mem_cons.mp hm with rfl | hm
      · exact .inr rfl
      · exact .inl hm
    · cases h
  all_goals cases h

theorem pending_of_judge {machine after : Shunting σ α} {placed : Token.Placed}
    (h : judge machine placed = .next after) {mark : Mark} (hm : mark ∈ after.pending) :
    mark ∈ machine.pending ∨ mark.offset = placed.offset := by
  obtain ⟨phase, pending, operands, before⟩ := machine
  unfold judge at h
  split at h
  · cases h
    rcases List.mem_cons.mp hm with rfl | hm
    · exact .inr rfl
    · exact .inl hm
  · dsimp only at h
    split at h
    · split at h
      · split at h <;> cases h
      · cases h
    · split at h
      · cases h
        exact .inl (List.mem_cons_of_mem _ hm)
      · cases h
    · cases h

theorem pending_of_proceed {pending : List Mark} {operands : List α} {before : σ}
    {after : Shunting σ α} {placed : Token.Placed}
    (h : proceed S pending operands before placed = .next after) {mark : Mark}
    (hm : mark ∈ after.pending) : mark ∈ pending ∨ mark.offset = placed.offset := by
  unfold proceed at h
  rcases hs : settle S placed.token.precedence pending operands before with
    ⟨error | ⟨rest, left⟩, middle⟩
  · rw [hs] at h
    cases h
  · rw [hs] at h
    rcases pending_of_judge h hm with hr | ho
    · exact .inl ((settle_suffix hs).subset hr)
    · exact .inr ho

/-- Every mark on the stack stands where one of the scans was made. -/
theorem pending_of_step {machine after : Shunting σ α} {scan : Scan}
    (h : step S machine scan = .next after) {mark : Mark} (hm : mark ∈ after.pending) :
    mark ∈ machine.pending ∨ mark.offset = scan.offset := by
  obtain ⟨phase, pending, operands, before⟩ := machine
  rcases scan with error | placed
  · cases h
  · cases phase with
    | wanted => exact pending_of_begin h hm
    | literal value => exact pending_of_proceed h hm
    | complete => exact pending_of_proceed h hm

end Shunting

end Expression

/-!
## Interrupted runs

Of two semantics one may stop at calls that the other answers, while both leave the same in the
store. Then a run with the one is a run with the other, or it stops with the store and the scans
from which the other goes on.
-/

/-- `T` answers the calls that `S` stops at. -/
structure Semantics.Interrupts (S T : Semantics σ α) : Prop where
  integer : ∀ value before, T.integer value before = S.integer value before
  binary_ok : ∀ {op left right offset before found after},
    S.binary op left right offset before = (.ok found, after) →
      T.binary op left right offset before = (.ok found, after)
  binary_error : ∀ {op left right offset before error after},
    S.binary op left right offset before = (.error error, after) →
      ∃ found, T.binary op left right offset before = (.ok found, after)

/-- No call changes that `P` is true of the store, unless it fails. -/
structure Semantics.Keeps (S : Semantics σ α) (P : σ → Prop) : Prop where
  integer : ∀ value {before}, P before → P (S.integer value before).2
  binary : ∀ {op left right offset before found after},
    S.binary op left right offset before = (.ok found, after) → P before → P after

variable {S T : Semantics σ α} {P : σ → Prop}

theorem Semantics.Interrupts.outlasted (h : S.Interrupts T) : S.Outlasted T id id where
  integer := h.integer
  binary := h.binary_ok

namespace Expression

namespace Shunting

/-! ### What is kept -/

theorem settle_keeps (h : S.Keeps P) {bar : Nat} {pending : List Mark} {operands : List α}
    {before after : σ} {found : List Mark × List α} (hP : P before)
    (hs : settle S bar pending operands before = (.ok found, after)) : P after := by
  fun_induction settle S bar pending operands before with
  | case1 op offset pending right left operands before hb output middle hcall ih =>
      exact ih (h.binary hcall hP) hs
  | case2 => cases hs
  | case3 =>
      cases hs
      exact hP
  | case4 =>
      cases hs
      exact hP

def Leaves (P : σ → Prop) : Step σ α → Prop
  | .next machine => P machine.store
  | .halt (result, store) => (∀ error, result ≠ .error (.evaluation error)) → P store
  | .stuck => True

theorem leaves_begin {machine : Shunting σ α} (hP : P machine.store) (placed : Token.Placed) :
    Leaves P (begin machine placed) := by
  unfold begin
  split
  · exact hP
  · split
    · exact hP
    · exact fun _ => hP
  all_goals exact fun _ => hP

theorem leaves_judge {machine : Shunting σ α} (hP : P machine.store) (placed : Token.Placed) :
    Leaves P (judge machine placed) := by
  unfold judge
  split
  · exact hP
  · split
    · split
      · split
        · exact fun _ => hP
        · trivial
      · exact fun _ => hP
    · split
      · exact hP
      · exact fun _ => hP
    · trivial

theorem leaves_proceed (h : S.Keeps P) {pending : List Mark} {operands : List α} {before : σ}
    (hP : P before) (placed : Token.Placed) :
    Leaves P (proceed S pending operands before placed) := by
  unfold proceed
  rcases hs : settle S placed.token.precedence pending operands before with
    ⟨error | ⟨rest, left⟩, after⟩
  · exact fun hne => absurd rfl (hne error)
  · exact leaves_judge (settle_keeps h hP hs) placed

theorem leaves_step (h : S.Keeps P) {machine : Shunting σ α} (hP : P machine.store)
    (scan : Scan) : Leaves P (step S machine scan) := by
  obtain ⟨phase, pending, operands, before⟩ := machine
  rcases scan with error | placed
  · exact fun _ => hP
  · cases phase with
    | wanted => exact leaves_begin hP placed
    | literal value => exact leaves_proceed h (h.integer value hP) placed
    | complete => exact leaves_proceed h hP placed

theorem run_keeps (h : S.Keeps P) {machine : Shunting σ α} {given scans all : List Scan}
    {result : Except Error α} {after : σ} (hP : P machine.store)
    (hr : Machine.run (step S) machine given scans = some ((result, after), all))
    (hne : ∀ error, result ≠ .error (.evaluation error)) : P after := by
  induction scans generalizing machine given with
  | nil => cases hr
  | cons scan scans ih =>
      have hleaves := leaves_step h hP scan
      simp only [Machine.run] at hr
      cases hstep : step S machine scan with
      | next machine =>
          rw [hstep] at hr hleaves
          exact ih hleaves hr
      | halt verdict =>
          rw [hstep] at hr hleaves
          cases hr
          exact hleaves hne
      | stuck =>
          rw [hstep] at hr
          cases hr

/-! ### Interruptions -/

/-- Settling goes on from the store that the interrupted one stopped with. -/
theorem settle_interrupted (h : S.Interrupts T) (hT : T.Keeps P) {bar : Nat}
    {pending : List Mark} {operands : List α} {before after last : σ} {error : EvaluationError}
    {found : List Mark × List α}
    (hs : settle S bar pending operands before = (.error error, after))
    (ht : settle T bar pending operands before = (.ok found, last)) (hP : P after) : P last := by
  fun_induction settle S bar pending operands before with
  | case1 op offset pending right left operands before hb output middle hcall ih =>
      rw [settle_operator hb, h.binary_ok hcall] at ht
      exact ih hs ht
  | case2 op offset pending right left operands before hb error middle hcall =>
      cases hs
      obtain ⟨output, hanswer⟩ := h.binary_error hcall
      rw [settle_operator hb, hanswer] at ht
      exact settle_keeps hT hP ht
  | case3 => cases hs
  | case4 => cases hs

/-- Both steps are the same, or the first is a halt for a call that failed, and the second goes on
from what the call left in the store. -/
inductive Parted (S T : Semantics σ α) : Step σ α → Step σ α → Prop where
  | same (first : Step σ α) : Parted S T first first
  | stopped {mark : Mark} {error : EvaluationError} {after : σ} {second : Step σ α}
      (failed : mark.Fails S error after)
      (kept : ∀ {P : σ → Prop}, T.Keeps P → P after → Leaves P second) :
      Parted S T (.halt (.error (.evaluation error), after)) second

theorem parted_proceed (h : S.Interrupts T) (pending : List Mark) (operands : List α) (before : σ)
    (placed : Token.Placed) :
    Parted S T (proceed S pending operands before placed)
      (proceed T pending operands before placed) := by
  unfold proceed
  rcases hs : settle S placed.token.precedence pending operands before with
    ⟨error | ⟨rest, left⟩, after⟩
  · obtain ⟨mark, _, hfailed⟩ := settle_error hs
    refine .stopped hfailed fun hT hP => ?_
    rcases ht : settle T placed.token.precedence pending operands before with
      ⟨other | ⟨rest, left⟩, last⟩
    · exact fun hne => absurd rfl (hne other)
    · exact leaves_judge (settle_interrupted h hT hs ht hP) placed
  · have ht := settle_of_ok h.outlasted hs
    rw [List.map_id, List.map_id] at ht
    rw [show settle T placed.token.precedence pending operands before =
      (.ok (rest, left), after) from ht]
    exact .same _

theorem parted_step (h : S.Interrupts T) (machine : Shunting σ α) (scan : Scan) :
    Parted S T (step S machine scan) (step T machine scan) := by
  obtain ⟨phase, pending, operands, before⟩ := machine
  rcases scan with error | placed
  · exact .same _
  · cases phase with
    | wanted => exact .same _
    | literal value =>
        simp only [step, h.integer]
        exact parted_proceed h pending _ _ placed
    | complete => exact parted_proceed h pending operands before placed

/-- The call that failed was the last one and the last scan has been made, while the run that is
not interrupted goes on from there. -/
structure Interrupted (S T : Semantics σ α) (result : Except Error α) (after : σ)
    (scans : List Scan) (full : Option ((Except Error α × σ) × List Scan)) : Prop where
  failed : ∃ (mark : Mark) (error : EvaluationError), mark.Fails S error after ∧
    result = .error (.evaluation error)
  prefix_scans : ∀ {verdict all}, full = some (verdict, all) → scans <+: all
  kept : ∀ {P : σ → Prop} {result' last all}, T.Keeps P → P after →
    full = some ((result', last), all) →
      (∀ error, result' ≠ .error (.evaluation error)) → P last

theorem run_interrupted (h : S.Interrupts T) {machine : Shunting σ α} {given scans all : List Scan}
    {result : Except Error α} {after : σ}
    (hr : Machine.run (step S) machine given scans = some ((result, after), all)) :
    Machine.run (step T) machine given scans = some ((result, after), all) ∨
      Interrupted S T result after all (Machine.run (step T) machine given scans) := by
  induction scans generalizing machine given with
  | nil => cases hr
  | cons scan scans ih =>
      -- Up to the step where they part, both runs have the same machine.
      have hparted := parted_step h machine scan
      simp only [Machine.run] at hr ⊢
      generalize hfirst : step S machine scan = first at hr hparted
      generalize hsecond : step T machine scan = second at hparted ⊢
      cases hparted with
      | same =>
          cases first with
          | next machine => exact ih hr
          | halt verdict => exact .inl hr
          | stuck => cases hr
      | stopped failed kept =>
          cases hr
          refine .inr ⟨⟨_, _, failed, rfl⟩, ?_, ?_⟩
          · intro verdict all hfull
            cases second with
            | next machine =>
                obtain ⟨read, _, _, hall, _⟩ := Machine.run_of_given hfull
                exact hall ▸ List.prefix_append _ read
            | halt verdict =>
                cases hfull
                exact List.prefix_refl _
            | stuck => cases hfull
          · intro P result' last all hT hP hfull hne
            have hleaves := kept hT hP
            cases second with
            | next machine => exact run_keeps hT hleaves hfull hne
            | halt verdict =>
                cases hfull
                exact hleaves hne
            | stuck => cases hfull

end Shunting

end Expression

end Calculator
