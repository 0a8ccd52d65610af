import Calculator.Proofs.Trace.Conditions

/-!
# Length of traces

Each token that is taken pays for seven acts: a reader asks for it, and may begin and complete three
phrases for it. What is not paid for is at most the beginnings of the phrases of a reading that
fails.
-/

namespace Calculator.Expression

variable {σ : Type}

/-- The acts that are not paid for if each token that is taken pays for seven. -/
def weight (acts : List (Act σ)) : Int := acts.length - 7 * (asked acts).length

variable {α : Type} {S : Semantics σ α} {past : List (Act σ)} {state : State σ} {bound limit : Int}

theorem weight_begins (phrase : Phrase) :
    weight (past ++ [.begins phrase state]) = weight past + 1 := by
  simp only [weight, asked_begins, List.length_append, List.length_singleton]
  omega

theorem weight_asks (expected : Token.Kind) :
    weight (past ++ [.asks expected state]) = weight past - 6 := by
  simp only [weight, asked_asks, List.length_append, List.length_singleton]
  omega

theorem weight_completes (phrase : Phrase) (start : State σ) :
    weight (past ++ [.completes phrase start state]) = weight past + 1 := by
  simp only [weight, asked_completes, List.length_append, List.length_singleton]
  omega

def Light (limit : Int) (past : List (Act σ)) (_ : State σ) : Prop := weight past ≤ limit

def lightness (bound : Int) : Conditions σ where
  act _ _ := True
  failed past _ _ := weight past ≤ bound

theorem light_take {expected : Token.Kind} {hx : expected ≠ .endOfInput} (limit : Int)
    (hk : state.lookahead.token.kind = expected) (hbound : weight past ≤ bound + 6)
    (hlimit : weight past ≤ limit + 6) :
    (state.takeTraced expected hx).Keeps (lightness bound) past (Light limit) := by
  have hasks : weight (past ++ [.asks expected state]) = weight past - 6 := weight_asks expected
  refine Traced.keeps_take hk trivial ?_ ?_
  · intro after _
    rw [Light, hasks]
    omega
  · intro error final _ _ _
    dsimp only [lightness]
    rw [hasks]
    omega

theorem light_phrase {phrase : Phrase} {traced : Traced σ α state}
    (htraced : ∀ past', weight past' = weight past + 1 →
      traced.Keeps (lightness bound) past' (Light (limit - 1))) :
    (Traced.ofPhrase phrase traced).Keeps (lightness bound) past (Light limit) := by
  refine Traced.Keeps.ofPhrase trivial (htraced _ (weight_begins phrase)) ?_
  intro value after shorter past' _ hafter
  refine ⟨trivial, ?_⟩
  rw [Light] at hafter ⊢
  rw [weight_completes]
  omega

theorem light_close {last start : State σ} {value : α} {openedAt : Nat}
    (hl : last.remaining < start.remaining) (hbound : weight past ≤ bound)
    (hlimit : weight past ≤ limit) :
    (closeAs (Traced σ) openedAt value last start hl).Keeps (lightness bound) past
      (Light limit) := by
  refine Traced.keeps_close hl ?_ fun _ => hbound
  intro hclose
  exact light_take limit (by rw [hclose]; rfl) (by omega) (by omega)

/-! ## Readings -/

/-- A completed phrase is paid for by its first token. A failed one leaves no more than the
beginning of one phrase of each rank. -/
def LightPhrase (phrase : Phrase) (traced : Traced σ α state) : Prop :=
  ∀ {past bound} limit, weight past + phrase.rank ≤ bound →
    weight past + 2 * phrase.rank ≤ limit + 6 → traced.Keeps (lightness bound) past (Light limit)

def LightChain {start : State σ} (traced : Traced σ α start) : Prop :=
  ∀ {past bound limit}, weight past ≤ bound → weight past ≤ limit →
    traced.Keeps (lightness bound) past (Light limit)

theorem light_first {level : Chain}
    (hoperand : LightPhrase level.operand (readAs (Traced σ) S level.operand state))
    (hchain : ∀ left after h, LightChain (chainAs (Traced σ) S level left after state h)) :
    LightPhrase level.phrase (readAs (Traced σ) S level.phrase state) := by
  intro past bound limit hbound hlimit
  have hrank : level.phrase.rank = level.operand.rank + 1 := by cases level <;> rfl
  have hlt := level.operand.rank_lt
  rw [readAs_chain]
  -- What the operand gives back is enough for this phrase to be completed, whatever follows.
  refine light_phrase fun past' hbegun => (hoperand
    (weight past' + 2 * level.operand.rank - 6) (by omega) (by omega)).andThen ?_
  intro left after shorter past'' _ hafter
  rw [Light] at hafter
  exact hchain left after shorter (by omega) (by omega)

theorem light_literal {value : Int64} (ht : state.lookahead.token = .integer value) :
    LightPhrase .factor (readAs (Traced σ) S .factor state) := by
  intro past bound limit hbound hlimit
  rw [Phrase.rank] at hbound hlimit
  rw [readAs_literal ht]
  refine light_phrase fun past' hbegun =>
    (light_take (limit - 1) (by rw [ht]; rfl) (by omega) (by omega)).andThen ?_
  intro _ after shorter past'' _ hafter
  exact Traced.keeps_done _ _ hafter

theorem light_group (ht : state.lookahead.token = .leftParen) (hd : state.depth < maxDepth)
    (ih : ∀ inside : State σ, inside.remaining < state.remaining →
      LightPhrase .expression (readAs (Traced σ) S .expression inside.enter)) :
    LightPhrase .factor (readAs (Traced σ) S .factor state) := by
  intro past bound limit hbound hlimit
  rw [Phrase.rank] at hbound hlimit
  rw [readAs_group ht hd]
  refine light_phrase fun past' hbegun =>
    (light_take (weight past - 5) (by rw [ht]; rfl) (by omega) (by omega)).andThen ?_
  intro opened inside hi past'' _ hinside
  rw [Light] at hinside
  refine (ih inside hi (weight past'') ?_ ?_).andThen ?_
  · rw [Phrase.rank]
    omega
  · rw [Phrase.rank]
    omega
  · intro inner last hl later _ hlast
    rw [Light] at hlast
    exact light_close _ (by omega) (by omega)

/-- A factor that does not begin as one costs its beginning. -/
theorem light_rejected (error : Error) (final : State σ) :
    LightPhrase .factor
      (Traced.ofPhrase .factor { reading := .failed error final : Traced σ α state }) := by
  intro past bound limit hbound _
  rw [Phrase.rank] at hbound
  exact light_phrase fun past' hbegun =>
    Traced.keeps_failed (Int.le_trans (Int.le_of_eq hbegun) hbound)

theorem light_link {level : Chain} {left : α} {start : State σ}
    (hl : state.remaining < start.remaining) {op : Operator}
    (ht : state.lookahead.token = .operator op) (hop : op.precedence = level.precedence)
    (ihOperand : ∀ behind : State σ, behind.remaining < state.remaining →
      LightPhrase level.operand (readAs (Traced σ) S level.operand behind))
    (ihChain : ∀ (behind : State σ) (hb : behind.remaining < state.remaining) (after : State σ)
      (ha : after.remaining < behind.remaining) output store,
      LightChain (chainAs (Traced σ) S level output { after with store := store } start
        (Nat.lt_trans ha (Nat.lt_trans hb hl)))) :
    LightChain (chainAs (Traced σ) S level left state start hl) := by
  intro past bound limit hbound hlimit
  have hlt := level.operand.rank_lt
  refine Traced.keeps_link hl ht hop (R := Light (min bound limit))
    (light_take (weight past - 6) (by rw [ht]; rfl) (by omega) (by omega)) ?_ ?_ ?_
  · intro behind past' hb hbehind
    rw [Light] at hbehind
    exact ihOperand behind hb _ (by omega) (by omega)
  · intro right after past' error store hafter _
    exact Int.le_trans hafter (Int.min_le_left bound limit)
  · intro behind hb right after ha past' output store hafter _
    exact ihChain behind hb after ha output store
      (Int.le_trans hafter (Int.min_le_left bound limit))
      (Int.le_trans hafter (Int.min_le_right bound limit))

theorem light_finish {level : Chain} {left : α} {start : State σ}
    (hl : state.remaining < start.remaining)
    (hp : state.lookahead.token.precedence ≠ level.precedence) :
    LightChain (chainAs (Traced σ) S level left state start hl) := by
  intro past bound limit _ hlimit
  rw [chainAs_end hl hp]
  exact Traced.keeps_done _ _ hlimit

variable (S) in
theorem light_read (phrase : Phrase) (state : State σ) :
    LightPhrase phrase (readAs (Traced σ) S phrase state) := by
  refine read_induction
    (fun phrase state => LightPhrase phrase (readAs (Traced σ) S phrase state))
    (fun level left state start h => LightChain (chainAs (Traced σ) S level left state start h))
    ?first ?literal ?group ?tooDeep ?noOperand ?link ?finish phrase state
  case first =>
    intro level state ihOperand ihChain
    exact light_first ihOperand ihChain
  case literal =>
    intro state value ht
    exact light_literal ht
  case group =>
    intro state ht hd ih
    exact light_group ht hd ih
  case tooDeep =>
    intro state ht hd
    rw [readAs_too_deep ht hd]
    exact light_rejected _ _
  case noOperand =>
    intro state hv hp
    rw [readAs_no_operand hv hp]
    exact light_rejected _ _
  case link =>
    intro level left state start h op ht hop ihOperand ihChain
    exact light_link h ht hop ihOperand ihChain
  case finish =>
    intro level left state start h hp
    exact light_finish h hp

variable (S) in
theorem length_readWholeAs_le (state : State σ) :
    (readWholeAs (Traced σ) S state).acts.length ≤
      7 * (asked (readWholeAs (Traced σ) S state).acts).length + 3 := by
  have hweight : weight ([] : List (Act σ)) = 0 := rfl
  have hkeeps : (readWholeAs (Traced σ) S state).Keeps (lightness 3) [] (Light 3) := by
    refine Traced.keeps_readWhole (light_read S .expression state 3 ?_ ?_) ?_ ?_
    · rw [hweight, Phrase.rank]
      omega
    · rw [hweight, Phrase.rank]
      omega
    · intro _
      dsimp only [lightness]
      omega
    · intro after past' hafter _
      exact hafter
  have hle : weight (readWholeAs (Traced σ) S state).acts ≤ 3 := by
    cases hreading : (readWholeAs (Traced σ) S state).reading with
    | done value after shorter => exact hkeeps.done value after shorter hreading
    | failed error final => exact hkeeps.failed error final hreading
  rw [weight] at hle
  omega

end Calculator.Expression
