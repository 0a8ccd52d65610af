import Calculator.Proofs.Trace

/-!
# Conditions on traces

What may be asked of a reader: of each act in view of those before it, and of the state in which it
fails. There is one rule for each way in which readings are put together, and one each for the end
of a parenthesis, for the next operand of a chain and for a whole text.
-/

namespace Calculator.Expression

variable {σ α β : Type}

/-- Each act meets `P`, which is told the acts before it; `past` come before all of them. -/
def Throughout (P : List (Act σ) → Act σ → Prop) : List (Act σ) → List (Act σ) → Prop
  | _, [] => True
  | past, act :: rest => P past act ∧ Throughout P (past ++ [act]) rest

theorem throughout_append {P : List (Act σ) → Act σ → Prop} {past : List (Act σ)}
    (first second : List (Act σ)) :
    Throughout P past (first ++ second) ↔
      Throughout P past first ∧ Throughout P (past ++ first) second := by
  induction first generalizing past with
  | nil => simp [Throughout]
  | cons act rest ih => simp [Throughout, ih, and_assoc]

theorem Throughout.of_append {P : List (Act σ) → Act σ → Prop} {past before behind : List (Act σ)}
    {act : Act σ} (h : Throughout P past (before ++ act :: behind)) : P (past ++ before) act :=
  ((throughout_append before (act :: behind)).mp h).2.1

def Reading.final {start : State σ} : Reading σ α start → State σ
  | .done _ after _ => after
  | .failed _ final => final

theorem State.advanced_of_takeTraced {state after : State σ} {expected : Token.Kind}
    {hx : expected ≠ .endOfInput} {placed : Token.Placed}
    {shorter : after.remaining < state.remaining} (hk : state.lookahead.token.kind = expected)
    (h : (state.takeTraced expected hx).reading = .done placed after shorter) :
    placed = state.lookahead ∧ state.Advanced after :=
  advanced_of_take hk (show state.take expected hx = .done placed after shorter from h)

/-- A token that is not taken stays the lookahead. -/
theorem State.kept_of_takeTraced {state final : State σ} {expected : Token.Kind}
    {hx : expected ≠ .endOfInput} {error : Error}
    (h : (state.takeTraced expected hx).reading = .failed error final) :
    final.lookahead = state.lookahead ∧ final.depth = state.depth := by
  unfold takeTraced take at h
  split at h
  · split at h
    · cases h
    · rename_i failure after hadvance
      cases h
      unfold advance at hadvance
      split at hadvance <;> cases hadvance
      exact ⟨rfl, rfl⟩
  · cases h
    exact ⟨rfl, rfl⟩

/-- What is asked of an act, and of a state in which a reading fails. Both are told all that has
been done before, also before the reading began. -/
structure Conditions (σ : Type) where
  act : List (Act σ) → Act σ → Prop
  failed : List (Act σ) → Error → State σ → Prop

namespace Traced

/-- A reading that comes behind the acts `past` meets the conditions. If it is completed, `Q` is
true of what has been done then and of the state. -/
structure Keeps {start : State σ} (P : Conditions σ) (past : List (Act σ))
    (Q : List (Act σ) → State σ → Prop) (traced : Traced σ α start) : Prop where
  act : Throughout P.act past traced.acts
  done : ∀ value after shorter, traced.reading = .done value after shorter →
    Q (past ++ traced.acts) after
  failed : ∀ error final, traced.reading = .failed error final →
    P.failed (past ++ traced.acts) error final

variable {P : Conditions σ} {past : List (Act σ)} {Q R : List (Act σ) → State σ → Prop}
  {start first state : State σ}

theorem keeps_done (value : α) {after : State σ} (shorter : after.remaining < start.remaining)
    (h : Q past after) : Keeps P past Q { reading := .done value after shorter } := by
  constructor
  case act => exact trivial
  case done =>
    intro _ _ _ hdone
    cases hdone
    rwa [List.append_nil]
  case failed =>
    intro error final hfailed
    cases hfailed

theorem keeps_failed {error : Error} {final : State σ} (h : P.failed past error final) :
    Keeps P past Q { reading := .failed error final : Traced σ α start } := by
  constructor
  case act => exact trivial
  case done =>
    intro value after shorter hdone
    cases hdone
  case failed =>
    intro _ _ hfailed
    cases hfailed
    rwa [List.append_nil]

theorem keeps_take {expected : Token.Kind} {hx : expected ≠ .endOfInput}
    (hk : state.lookahead.token.kind = expected) (hact : P.act past (.asks expected state))
    (hdone : ∀ after, state.Advanced after → Q (past ++ [.asks expected state]) after)
    (hfailed : ∀ error final, state.Broken error final → final.lookahead = state.lookahead →
      final.depth = state.depth →
        P.failed (past ++ [.asks expected state]) (.lexical error) final) :
    (state.takeTraced expected hx).Keeps P past Q := by
  constructor
  case act => exact ⟨hact, trivial⟩
  case done =>
    intro value after shorter htake
    exact hdone after (State.advanced_of_takeTraced hk htake).2
  case failed =>
    intro error final htake
    obtain ⟨hlookahead, hdepth⟩ := State.kept_of_takeTraced htake
    rcases state.take_cases expected hx hk with
      ⟨after, shorter, htaken, _⟩ | ⟨failure, after, hmissed, hbroken⟩
    · cases htake.symm.trans htaken
    · cases htake.symm.trans hmissed
      exact hfailed failure final hbroken hlookahead hdepth

theorem Keeps.andThen {traced : Traced σ α first} (h : traced.Keeps P past Q)
    {next : (value : α) → (state : State σ) → state.remaining < first.remaining → Traced σ β start}
    (hnext : ∀ value after shorter past', traced.reading = .done value after shorter →
      Q past' after → (next value after shorter).Keeps P past' R) :
    (traced.andThen next).Keeps P past R := by
  rcases traced with ⟨acts, ⟨value, after, shorter⟩ | ⟨error, final⟩⟩
  · have hthen := hnext value after shorter _ rfl (h.done value after shorter rfl)
    constructor
    case act => exact (throughout_append _ _).mpr ⟨h.act, hthen.act⟩
    case done =>
      intro value' after' shorter' hdone
      have hR := hthen.done value' after' shorter' hdone
      rwa [List.append_assoc] at hR
    case failed =>
      intro error final hfailed
      have hP := hthen.failed error final hfailed
      rwa [List.append_assoc] at hP
  · constructor
    case act => exact h.act
    case done =>
      intro value after shorter hdone
      cases hdone
    case failed =>
      intro _ _ hfailed
      cases hfailed
      exact h.failed error final rfl

theorem Keeps.ofPhrase {traced : Traced σ α start} {phrase : Phrase}
    (hbegins : P.act past (.begins phrase start))
    (h : traced.Keeps P (past ++ [.begins phrase start]) Q)
    (hcompletes : ∀ value after shorter past', traced.reading = .done value after shorter →
      Q past' after → P.act past' (.completes phrase start after) ∧
        R (past' ++ [.completes phrase start after]) after) :
    (ofPhrase phrase traced).Keeps P past R := by
  have hpast : ∀ acts, past ++ .begins phrase start :: acts =
      past ++ [.begins phrase start] ++ acts := by simp
  rcases traced with ⟨acts, ⟨value, after, shorter⟩ | ⟨error, final⟩⟩
  · obtain ⟨hact, hR⟩ :=
      hcompletes value after shorter _ rfl (h.done value after shorter rfl)
    constructor
    case act =>
      exact ⟨hbegins, (throughout_append acts _).mpr ⟨h.act, hact, trivial⟩⟩
    case done =>
      intro _ _ _ hdone
      cases hdone
      rw [List.append_assoc, ← hpast] at hR
      exact hR
    case failed =>
      intro _ _ hfailed
      cases hfailed
  · constructor
    case act =>
      exact ⟨hbegins, (throughout_append acts _).mpr ⟨h.act, trivial⟩⟩
    case done =>
      intro _ _ _ hdone
      cases hdone
    case failed =>
      intro _ _ hfailed
      cases hfailed
      have hP := h.failed error final rfl
      rw [← hpast] at hP
      simpa [Traced.ofPhrase] using hP

theorem keeps_close {openedAt : Nat} {value : α} {last : State σ}
    (hl : last.remaining < start.remaining)
    (htake : last.leave.lookahead.token = .rightParen →
      (last.leave.takeTraced .rightParen kind_rightParen_ne_endOfInput).Keeps P past Q)
    (hfailed : last.lookahead.token ≠ .rightParen →
      P.failed past (.syntactic (.unclosedParenthesis openedAt last.lookahead)) last.leave) :
    (closeAs (Traced σ) openedAt value last start hl).Keeps P past Q := by
  unfold closeAs
  split
  · rename_i hclose
    refine (htake hclose).andThen ?_
    intro _ after shorter past' _ hafter
    exact keeps_done _ _ hafter
  · rename_i hclose
    exact keeps_failed (hfailed hclose)

theorem keeps_link {S : Semantics σ α} {level : Chain} {left : α}
    (hl : state.remaining < start.remaining) {op : Operator}
    (ht : state.lookahead.token = .operator op) (hop : op.precedence = level.precedence)
    {T : List (Act σ) → State σ → Prop}
    (htake : (state.takeTraced (.operator op) (kind_operator_ne_endOfInput op)).Keeps P past Q)
    (hoperand : ∀ (behind : State σ) past', behind.remaining < state.remaining → Q past' behind →
      (readAs (Traced σ) S level.operand behind).Keeps P past' R)
    (hfailed : ∀ right (after : State σ) past' error store, R past' after →
      S.binary op left right state.lookahead.offset after.store = (.error error, store) →
        P.failed past' (.evaluation error) { after with store := store })
    (hchain : ∀ (behind : State σ) (hb : behind.remaining < state.remaining) right
      (after : State σ) (ha : after.remaining < behind.remaining) past' output store,
      R past' after →
      S.binary op left right state.lookahead.offset after.store = (.ok output, store) →
        (chainAs (Traced σ) S level output { after with store := store } start
          (Nat.lt_trans ha (Nat.lt_trans hb hl))).Keeps P past' T) :
    (chainAs (Traced σ) S level left state start hl).Keeps P past T := by
  rw [chainAs_link hl ht hop]
  refine htake.andThen ?_
  intro mark behind hb past' htaken hbehind
  obtain ⟨rfl, _⟩ := State.advanced_of_takeTraced (by rw [ht]; rfl) htaken
  refine (hoperand behind past' hb hbehind).andThen ?_
  intro right after ha past'' _ hafter
  rcases hbinary : S.binary op left right state.lookahead.offset after.store with
    ⟨error | output, store⟩
  · exact keeps_failed (hfailed right after past'' error store hafter hbinary)
  · exact hchain behind hb right after ha past'' output store hafter hbinary

theorem keeps_readWhole {S : Semantics σ α}
    (hread : (readAs (Traced σ) S .expression state).Keeps P past Q)
    (hempty : state.lookahead.token = .endOfInput →
      P.failed past (.syntactic .emptyExpression) state)
    (htrailing : ∀ (after : State σ) past', Q past' after →
      after.lookahead.token ≠ .endOfInput →
        P.failed past' (.syntactic (.trailingInput after.lookahead)) after) :
    (readWholeAs (Traced σ) S state).Keeps P past Q := by
  unfold readWholeAs
  split
  · rename_i hl
    exact keeps_failed (hempty hl)
  · refine hread.andThen ?_
    intro value after shorter past' _ hafter
    split
    · exact keeps_done value shorter hafter
    · rename_i hl
      exact keeps_failed (htrailing after past' hafter hl)

end Traced

end Calculator.Expression
