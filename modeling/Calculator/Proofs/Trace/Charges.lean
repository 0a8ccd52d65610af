import Mathlib.Data.List.Perm.Subperm
import Calculator.Proofs.Shunting.Calls
import Calculator.Proofs.Trace.Conditions

/-!
# Charges

Each call of its semantics that a reader makes is charged to a token that it has taken: a number to
a literal, an application to an operator. An operator is taken before its right operand is read, so
it is pending for a while.
-/

namespace Calculator

variable {σ α : Type}

namespace Call

def literal? : Call α → Option Int64
  | .integer value => some value
  | .binary .. => none

def operator? : Call α → Option Token.Placed
  | .integer _ => none
  | .binary op _ _ offset => some ⟨.operator op, offset⟩

end Call

namespace Expression

/-! ## Calls -/

def literals (tokens : List Token.Placed) : List Int64 := tokens.filterMap (·.token.literal?)

def operators (tokens : List Token.Placed) : List Token.Placed :=
  tokens.filter (·.token.operator?.isSome)

def integers (calls : List (Call α)) : List Int64 := calls.filterMap Call.literal?

def applications (calls : List (Call α)) : List Token.Placed := calls.filterMap Call.operator?

section

variable (tokens : List Token.Placed) (placed : Token.Placed) (calls : List (Call α))
  (call : Call α)

theorem literals_concat :
    literals (tokens ++ [placed]) = literals tokens ++ placed.token.literal?.toList := by
  cases hl : placed.token.literal? <;> simp [literals, hl]

theorem operators_concat_of_none (h : placed.token.operator? = none) :
    operators (tokens ++ [placed]) = operators tokens := by
  simp [operators, h]

theorem operators_concat_of_some {op : Operator} (h : placed.token.operator? = some op) :
    operators (tokens ++ [placed]) = operators tokens ++ [placed] := by
  simp [operators, h]

theorem integers_concat : integers (calls ++ [call]) = integers calls ++ call.literal?.toList := by
  cases hl : call.literal? <;> simp [integers, hl]

theorem applications_concat :
    applications (calls ++ [call]) = applications calls ++ call.operator?.toList := by
  cases ho : call.operator? <;> simp [applications, ho]

end

/-- No two of the calls are made for the same token. -/
structure Covers (tokens : List Token.Placed) (calls : List (Call α)) : Prop where
  integers_prefix : integers calls <+: literals tokens
  applications_subperm : (applications calls).Subperm (operators tokens)

/-- The calls have been made for all literals, and for all operators but `pending`. -/
structure Charged (tokens pending : List Token.Placed) (calls : List (Call α)) : Prop where
  integers_eq : integers calls = literals tokens
  applications_perm : (applications calls ++ pending).Perm (operators tokens)

theorem Covers.append {tokens : List Token.Placed} {calls : List (Call α)} (h : Covers tokens calls)
    (others : List Token.Placed) : Covers (tokens ++ others) calls where
  integers_prefix := by
    rw [literals, List.filterMap_append]
    exact h.integers_prefix.trans (List.prefix_append _ _)
  applications_subperm := by
    rw [operators, List.filter_append]
    exact h.applications_subperm.trans (List.sublist_append_left _ _).subperm

namespace Charged

variable {tokens pending : List Token.Placed} {placed : Token.Placed} {calls : List (Call α)}

theorem nil : Charged [] [] ([] : List (Call α)) := ⟨rfl, .refl _⟩

theorem covers (h : Charged tokens pending calls) : Covers tokens calls where
  integers_prefix := h.integers_eq ▸ List.prefix_rfl
  applications_subperm :=
    (List.sublist_append_left _ _).subperm.trans h.applications_perm.subperm

/-- No call is made for other tokens. -/
theorem skip (h : Charged tokens pending calls) (hl : placed.token.literal? = none)
    (ho : placed.token.operator? = none) : Charged (tokens ++ [placed]) pending calls where
  integers_eq := by
    rw [literals_concat, hl, Option.toList_none, List.append_nil]
    exact h.integers_eq
  applications_perm := by
    rw [operators_concat_of_none _ _ ho]
    exact h.applications_perm

theorem integer (h : Charged tokens pending calls) {value : Int64}
    (ht : placed.token = .integer value) :
    Charged (tokens ++ [placed]) pending (calls ++ [.integer value]) where
  integers_eq := by
    rw [integers_concat, literals_concat, ht, h.integers_eq]
    rfl
  applications_perm := by
    rw [applications_concat, operators_concat_of_none _ _ (by rw [ht]; rfl), Call.operator?,
      Option.toList_none, List.append_nil]
    exact h.applications_perm

theorem operator (h : Charged tokens pending calls) {op : Operator}
    (ht : placed.token = .operator op) :
    Charged (tokens ++ [placed]) (placed :: pending) calls where
  integers_eq := by
    rw [literals_concat, ht, Token.literal?, Option.toList_none, List.append_nil]
    exact h.integers_eq
  applications_perm := by
    rw [operators_concat_of_some _ _ (by rw [ht]; rfl)]
    exact List.perm_middle.trans
      ((h.applications_perm.cons placed).trans (List.perm_append_singleton _ _).symm)

/-- The operator that was taken last is applied. -/
theorem binary {op : Operator} {offset : Nat}
    (h : Charged tokens (⟨.operator op, offset⟩ :: pending) calls) (left right : α) :
    Charged tokens pending (calls ++ [.binary op left right offset]) where
  integers_eq := by
    rw [integers_concat, Call.literal?, Option.toList_none, List.append_nil]
    exact h.integers_eq
  applications_perm := by
    rw [applications_concat, List.append_assoc]
    exact h.applications_perm

end Charged

abbrev Ledger (σ α : Type) : Type := σ × List (Call α)

section

variable {past : List (Act (Ledger σ α))} {pending : List Token.Placed}
  {state : State (Ledger σ α)}

def charging : Conditions (Ledger σ α) where
  act _ _ := True
  failed past _ final := Covers (asked past) final.store.2

theorem keeps_charging {expected : Token.Kind} {hx : expected ≠ .endOfInput}
    {Q : List (Act (Ledger σ α)) → State (Ledger σ α) → Prop}
    (hk : state.lookahead.token.kind = expected) (h : Covers (asked past) state.store.2)
    (hdone : ∀ after, state.Advanced after → Q (past ++ [.asks expected state]) after) :
    (state.takeTraced expected hx).Keeps charging past Q := by
  refine Traced.keeps_take hk trivial hdone ?_
  intro error final hbroken _ _
  dsimp only [charging]
  rw [asked_asks, hbroken.store_eq]
  exact h.append _

def Pays (pending : List Token.Placed) (past : List (Act (Ledger σ α)))
    (state : State (Ledger σ α)) : Prop :=
  Charged (asked past) pending state.store.2

theorem Pays.covers (h : Pays pending past state) : Covers (asked past) state.store.2 :=
  Charged.covers h

theorem Pays.keeps_phrase (h : Pays pending past state) {phrase : Phrase}
    {traced : Traced (Ledger σ α) α state}
    (htraced : ∀ {past}, Pays pending past state →
      traced.Keeps charging past (Pays pending)) :
    (Traced.ofPhrase phrase traced).Keeps charging past (Pays pending) := by
  have hbegun : Pays pending (past ++ [.begins phrase state]) state := by
    rw [Pays, asked_begins]
    exact h
  refine Traced.Keeps.ofPhrase trivial (htraced hbegun) ?_
  intro value after shorter past' _ hafter
  refine ⟨trivial, ?_⟩
  rw [Pays, asked_completes]
  exact hafter

theorem Pays.skips (h : Pays pending past state) {expected : Token.Kind}
    {after : State (Ledger σ α)} (hl : state.lookahead.token.literal? = none)
    (ho : state.lookahead.token.operator? = none) (ha : state.Advanced after) :
    Pays pending (past ++ [.asks expected state]) after := by
  rw [Pays, asked_asks, ha.store_eq]
  exact Charged.skip h hl ho

theorem Pays.keeps_close {last start : State (Ledger σ α)} {value : α} {openedAt : Nat}
    (h : Pays pending past last) (hl : last.remaining < start.remaining) :
    (closeAs (Traced _) openedAt value last start hl).Keeps charging past (Pays pending) := by
  have hleft : Pays pending past last.leave := h
  refine Traced.keeps_close hl ?_ fun _ => h.covers
  intro hclose
  exact keeps_charging (by rw [hclose]; rfl) hleft.covers fun after ha =>
    hleft.skips (by rw [hclose]; rfl) (by rw [hclose]; rfl) ha

/-! ## Readings -/

def Traced.Charges {start : State (Ledger σ α)} (traced : Traced (Ledger σ α) α start)
    (state : State (Ledger σ α)) : Prop :=
  ∀ {past pending}, Pays pending past state → traced.Keeps charging past (Pays pending)

variable {S : Semantics σ α}

theorem charges_first {level : Chain}
    (hoperand : (readAs (Traced _) S.logging level.operand state).Charges state)
    (hchain : ∀ left after h,
      (chainAs (Traced _) S.logging level left after state h).Charges after) :
    (readAs (Traced _) S.logging level.phrase state).Charges state := by
  intro past pending h
  rw [readAs_chain]
  refine h.keeps_phrase fun hbegun => (hoperand hbegun).andThen ?_
  intro left after shorter past' _ hafter
  exact hchain left after shorter hafter

theorem charges_literal {value : Int64} (ht : state.lookahead.token = .integer value) :
    (readAs (Traced _) S.logging .factor state).Charges state := by
  intro past pending h
  rw [readAs_literal ht]
  -- Between the literal and its call, the log is one call behind.
  refine h.keeps_phrase fun hbegun => Traced.Keeps.andThen
    (Q := fun past' after => Pays pending past'
      { after with store := (S.logging.integer value after.store).2 })
    (keeps_charging (by rw [ht]; rfl) hbegun.covers fun after ha => ?_) ?_
  · rw [Pays, asked_asks, ha.store_eq]
    exact Charged.integer hbegun ht
  · intro _ after shorter past' _ hcalled
    exact Traced.keeps_done _ _ hcalled

theorem charges_group (ht : state.lookahead.token = .leftParen) (hd : state.depth < maxDepth)
    (ih : ∀ inside : State (Ledger σ α), inside.remaining < state.remaining →
      (readAs (Traced _) S.logging .expression inside.enter).Charges inside.enter) :
    (readAs (Traced _) S.logging .factor state).Charges state := by
  intro past pending h
  rw [readAs_group ht hd]
  refine h.keeps_phrase fun hbegun => Traced.Keeps.andThen (Q := Pays pending)
    (keeps_charging (by rw [ht]; rfl) hbegun.covers fun after ha =>
      hbegun.skips (by rw [ht]; rfl) (by rw [ht]; rfl) ha) ?_
  intro opened inside hi past' _ hinside
  refine (ih inside hi hinside).andThen ?_
  intro inner last hl past'' _ hlast
  exact hlast.keeps_close _

theorem charges_rejected (error : Error) :
    (Traced.ofPhrase .factor
      { reading := .failed error state : Traced (Ledger σ α) α state }).Charges state := by
  intro past pending h
  exact h.keeps_phrase fun hbegun => Traced.keeps_failed hbegun.covers

/-- The call that applies an operator is in the log also if it fails. -/
theorem Pays.applied {op : Operator} {left right : α} {result : Except EvaluationError α}
    {store : Ledger σ α} {after : State (Ledger σ α)} (ht : state.lookahead.token = .operator op)
    (h : Pays (state.lookahead :: pending) past after)
    (hbinary : S.logging.binary op left right state.lookahead.offset after.store =
      (result, store)) : Charged (asked past) pending store.2 := by
  rw [Pays, state.lookahead_eq ht] at h
  exact congrArg (·.2.2) hbinary ▸ h.binary left right

theorem charges_link {level : Chain} {left : α} {start : State (Ledger σ α)}
    (hl : state.remaining < start.remaining) {op : Operator}
    (ht : state.lookahead.token = .operator op) (hop : op.precedence = level.precedence)
    (ihOperand : ∀ behind : State (Ledger σ α), behind.remaining < state.remaining →
      (readAs (Traced _) S.logging level.operand behind).Charges behind)
    (ihChain : ∀ (behind : State (Ledger σ α)) (hb : behind.remaining < state.remaining)
      (after : State (Ledger σ α)) (ha : after.remaining < behind.remaining) output store,
      (chainAs (Traced _) S.logging level output { after with store := store } start
        (Nat.lt_trans ha (Nat.lt_trans hb hl))).Charges { after with store := store }) :
    (chainAs (Traced _) S.logging level left state start hl).Charges state := by
  intro past pending h
  refine Traced.keeps_link hl ht hop (Q := Pays (state.lookahead :: pending))
    (R := Pays (state.lookahead :: pending))
    (keeps_charging (by rw [ht]; rfl) h.covers ?_) ?_ ?_ ?_
  · intro after ha
    rw [Pays, asked_asks, ha.store_eq]
    exact Charged.operator h ht
  · intro behind past' hb hbehind
    exact ihOperand behind hb hbehind
  · intro right after past' error store hafter hbinary
    exact (hafter.applied ht hbinary).covers
  · intro behind hb right after ha past' output store hafter hbinary
    exact ihChain behind hb after ha output store (hafter.applied ht hbinary)

theorem charges_finish {level : Chain} {left : α} {start : State (Ledger σ α)}
    (hl : state.remaining < start.remaining)
    (hp : state.lookahead.token.precedence ≠ level.precedence) :
    (chainAs (Traced _) S.logging level left state start hl).Charges state := by
  intro past pending h
  rw [chainAs_end hl hp]
  exact Traced.keeps_done _ _ h

variable (S) in
theorem charges_read (phrase : Phrase) (state : State (Ledger σ α)) :
    (readAs (Traced _) S.logging phrase state).Charges state := by
  refine read_induction
    (fun phrase state => (readAs (Traced _) S.logging phrase state).Charges state)
    (fun level left state start h =>
      (chainAs (Traced _) S.logging level left state start h).Charges state)
    ?first ?literal ?group ?tooDeep ?noOperand ?link ?finish phrase state
  case first =>
    intro level state ihOperand ihChain
    exact charges_first ihOperand ihChain
  case literal =>
    intro state value ht
    exact charges_literal ht
  case group =>
    intro state ht hd ih
    exact charges_group ht hd ih
  case tooDeep =>
    intro state ht hd
    rw [readAs_too_deep ht hd]
    exact charges_rejected _
  case noOperand =>
    intro state hv hp
    rw [readAs_no_operand hv hp]
    exact charges_rejected _
  case link =>
    intro level left state start h op ht hop ihOperand ihChain
    exact charges_link h ht hop ihOperand ihChain
  case finish =>
    intro level left state start h hp
    exact charges_finish h hp

variable (S) in
theorem charges_readWhole (state : State (Ledger σ α)) :
    (readWholeAs (Traced _) S.logging state).Charges state := by
  intro past pending h
  refine Traced.keeps_readWhole (charges_read S .expression state h) (fun _ => h.covers) ?_
  intro after past' hafter _
  exact hafter.covers

end

end Expression

end Calculator
