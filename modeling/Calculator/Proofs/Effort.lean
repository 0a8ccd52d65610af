import Calculator.Proofs.Depth
import Calculator.Proofs.Records
import Calculator.Proofs.Trace.Charges
import Calculator.Proofs.Trace.Length

/-!
# Effort of a reader

A reader comes to its result with a bounded effort, whether it accepts the text or not. It scans
each token at most once and nothing behind the end, hands over each literal and applies each
operator at most once, and does not nest deeper than parentheses may.
-/

namespace Calculator.Expression

variable {σ α : Type} {S : Semantics σ α} {text : String}

/-! ## Turns of a loop -/

/-- What one turn of the loop over a chain comes to, if the lookahead of `state` joins the chain. -/
inductive Turn (S : Semantics σ α) (level : Chain) (state start : State σ) :
    Reading σ α start → Prop where
  /-- The scan behind the operator fails. -/
  | broken {error : LexError} {final : State σ} (h : state.Broken error final) :
      Turn S level state start (.failed (.lexical error) final)
  /-- The operator is taken, and what is behind it cannot be read or applied. -/
  | stopped {error : Error} {behind final : State σ} (taken : state.Advanced behind) :
      Turn S level state start (.failed error final)
  /-- An operator and its operand are taken, and the loop goes on behind them. -/
  | goesOn (operand : Derivation level.operand) {output : α} {next : State σ}
      {shorter : next.remaining < start.remaining}
      (sight_eq : state.sight = scansOf (state.lookahead :: operand.tokens) ++ next.sight) :
      Turn S level state start (chain S level output next start shorter)

variable (S) in
theorem chain_turn {level : Chain} (left : α) {state start : State σ}
    (h : state.remaining < start.remaining) {op : Operator}
    (ht : state.lookahead.token = .operator op) (hj : level.joins op = true) :
    Turn S level state start (chain S level left state start h) := by
  rw [chain_link h ht (Chain.joins_iff.mp hj)]
  rcases state.take_cases (.operator op) (kind_operator_ne_endOfInput op) (by rw [ht]; rfl) with
    ⟨behind, hb, htake, hadv⟩ | ⟨error, final, htake, hbroken⟩
  · rw [htake, Reading.andThen_done]
    cases hread : read S level.operand behind with
    | failed error final => exact .stopped hadv
    | done right after ha =>
        obtain ⟨operand, hreads⟩ := reads_of_done hread
        rw [Reading.andThen_done]
        rcases S.binary op left right state.lookahead.offset after.store with
          ⟨error | output, store⟩
        · exact .stopped hadv
        · refine .goesOn operand ?_
          rw [hadv.sight_eq, hreads.sight_eq]
          rfl
  · rw [htake, Reading.andThen_failed]
    exact .broken hbroken

/-! ## Scans and calls -/

theorem Scanned.asked_prefix {tokens : List Token.Placed} {last : Scan}
    (h : Scanned text tokens last) (S : Semantics σ α) (store : σ) :
    asked (parseTraced S text store).1 <+: tokens := by
  obtain ⟨found, hscans⟩ := scans_of_asks S text store
  obtain ⟨unread, hunread⟩ := (Shunting.parse_scans S text store).1
  rw [hscans, List.append_assoc] at hunread
  rcases h.cut hunread with ⟨hasked, _⟩ | ⟨placed, more, _, htokens⟩
  · exact hasked ▸ List.prefix_rfl
  · exact ⟨_, htokens.symm⟩

/-- If all scans of a text have been made, all its tokens have been asked for. -/
theorem Scanned.asked_eq {tokens : List Token.Placed} {last : Scan} (h : Scanned text tokens last)
    {store : σ} {value : α} (hv : (parse S text store).result = .ok value) :
    asked (parseTraced S text store).1 = tokens := by
  obtain ⟨found, hscans⟩ := scans_of_asks S text store
  rw [(concluded_parse S text store).of_ok value hv, h.untilEnd_eq] at hscans
  exact (scansOf_injective (List.append_inj' hscans rfl).1).symm

/-- What a reader has scanned before its last scan is a token of the text. -/
theorem Scanned.token_of_scan {tokens : List Token.Placed} {last scan : Scan}
    (h : Scanned text tokens last) {store : σ} {front behind : List Scan}
    (hscans : (parse S text store).scans = front ++ scan :: behind) (hbehind : behind ≠ []) :
    ∃ placed, scan = .ok placed ∧ placed.token ≠ .endOfInput := by
  obtain ⟨found, hfound⟩ := scans_of_asks S text store
  rcases List.eq_nil_or_concat behind with rfl | ⟨more, other, rfl⟩
  · exact absurd rfl hbehind
  · rw [hfound, List.concat_eq_append, ← List.cons_append, ← List.append_assoc] at hscans
    have hasked := (List.append_inj' hscans rfl).1
    have hmem : scan ∈ scansOf (asked (parseTraced S text store).1) := by
      rw [hasked]
      exact List.mem_append_right _ List.mem_cons_self
    obtain ⟨placed, hplaced, rfl⟩ := List.mem_map.mp hmem
    exact ⟨placed, rfl, h.ne_ending placed ((h.asked_prefix S store).subset hplaced)⟩

theorem State.Initial.pays {store : σ} {state : State (Ledger σ α)}
    (h : state.Initial text (store, [])) : Pays [] [] state := by
  rw [Pays, h.store_eq]
  exact .nil

theorem State.Initial.charges {store : σ} {state : State (Ledger σ α)}
    (h : state.Initial text (store, [])) :
    Covers (asked (state.parseTraced S.logging).1) (state.final S.logging).store.2 ∧
      ∀ value, (state.parse S.logging).result = .ok value →
        Charged (asked (state.parseTraced S.logging).1) [] (state.final S.logging).store.2 := by
  have hkeeps := charges_readWhole S state h.pays
  have hreading := (meets_readWhole S.logging state).reading_eq
  unfold State.parse State.parseTraced State.final
  cases hread : readWhole S.logging state with
  | failed error final =>
      exact ⟨hkeeps.failed error final (hreading.trans hread), fun value hv => by cases hv⟩
  | done value after shorter =>
      have hpays := hkeeps.done value after shorter (hreading.trans hread)
      exact ⟨hpays.covers, fun _ _ => hpays⟩

variable (S text) in
theorem charges_calls (store : σ) :
    Covers (asked (parseTraced S.logging text (store, [])).1) (calls S text store) ∧
      ∀ value, (parse S.logging text (store, [])).result = .ok value →
        Charged (asked (parseTraced S.logging text (store, [])).1) [] (calls S text store) := by
  unfold calls Run.logged parse parseTraced
  cases hstate : State.ofText text (store, ([] : List (Call α))) with
  | error error => exact ⟨Charged.nil.covers, fun value hv => by cases hv⟩
  | ok state =>
      have hcharges := (State.initial_of_ofText hstate).charges (S := S)
      dsimp only
      rw [state.parse_eq_final]
      exact hcharges

/-! ## Acts -/

variable (S text) in
theorem acts_le_scans (store : σ) :
    (parseTraced S text store).1.length ≤ 7 * (parse S text store).scans.length := by
  have hacts : (parseTraced S text store).1.length ≤
      7 * (asked (parseTraced S text store).1).length + 3 := by
    unfold parseTraced
    cases State.ofText text store with
    | error error => exact Nat.zero_le _
    | ok state => exact length_readWholeAs_le S state
  obtain ⟨last, hscans⟩ := scans_of_asks S text store
  rw [hscans, List.length_append, List.length_singleton, scansOf, List.length_map]
  omega

theorem nested_active_le {store : σ} {front : List (Act σ)}
    (h : front <+: (parseTraced S text store).1) : nested (active front) ≤ maxDepth + 1 := by
  obtain ⟨behind, hacts⟩ := h
  rcases List.eq_nil_or_concat front with rfl | ⟨before, act, rfl⟩
  · exact Nat.zero_le _
  · rw [List.concat_eq_append, List.append_assoc] at hacts
    have hcounted := counted_of_acts hacts.symm
    rw [List.concat_eq_append]
    exact Nat.le_trans hcounted.nested_le (Nat.succ_le_succ hcounted.depth_le)

/-! ## Whole texts -/

/-- What the effort of a reader is bounded by. The text has `tokens`, behind which `last` ends it:
its end, or a lexeme that is none. -/
structure Bounded (S : Semantics σ α) (text : String) (store : σ) (tokens : List Token.Placed)
    (last : Scan) : Prop where
  scanned : Scanned text tokens last
  places : tokens.Pairwise fun first second => first.offset < second.offset
  turn : ∀ (level : Chain) (left : α) (state start : State σ) h op,
    state.lookahead.token = .operator op → level.joins op = true →
      Turn S level state start (chain S level left state start h)
  factor : ∀ (start after : State σ) value shorter,
    read S .factor start = .done value after shorter →
      ∃ derivation : Derivation .factor, derivation.tokens ≠ [] ∧
        start.sight = scansOf derivation.tokens ++ after.sight
  run_eq : (parseTraced S text store).2 = parse S text store
  scans_prefix : (parse S text store).scans <+: scansOf tokens ++ [last]
  scans_stop : ∀ front scan behind, (parse S text store).scans = front ++ scan :: behind →
    behind ≠ [] → ∃ placed, scan = .ok placed ∧ placed.token ≠ .endOfInput
  log_eq : (parse S.logging text (store, [])).map id Prod.fst = parse S text store
  covers : Covers tokens (calls S text store)
  charged : ∀ value, (parse S text store).result = .ok value →
    Charged tokens [] (calls S text store)
  acts_le : (parseTraced S text store).1.length ≤ 7 * (parse S text store).scans.length
  nested_le : ∀ front, front <+: (parseTraced S text store).1 → nested (active front) ≤ 257

/-- Each text is read with bounded effort: in each turn of a loop and for each factor tokens are
taken, and scans, calls, acts and open expressions are no more than the tokens and the limit on
nesting allow. -/
theorem effort_bounded (S : Semantics σ α) (text : String) (store : σ) :
    ∃ tokens last, Bounded S text store tokens last := by
  obtain ⟨tokens, last, hs⟩ := exists_scanned text
  have hlog := parse_logging S text store []
  refine ⟨tokens, last, ?_⟩
  constructor
  case scanned => exact hs
  case places => exact hs.pairwise_offset
  case turn =>
    intro level left state start h op ht hj
    exact chain_turn S left h ht hj
  case factor =>
    intro start after value shorter hread
    obtain ⟨derivation, htaken⟩ := taken_of_done hread
    exact ⟨derivation, htaken.ne_nil, htaken.sight_eq⟩
  case run_eq => exact parseTraced_run S text store
  case scans_prefix =>
    obtain ⟨unread, hunread⟩ := (Shunting.parse_scans S text store).1
    rw [← hs.untilEnd_eq]
    exact ⟨unread, hunread.symm⟩
  case scans_stop =>
    intro front scan behind hscans hbehind
    exact hs.token_of_scan hscans hbehind
  case log_eq => exact hlog
  case covers =>
    obtain ⟨others, rfl⟩ := hs.asked_prefix S.logging (store, ([] : List (Call α)))
    exact (charges_calls S text store).1.append others
  case charged =>
    intro value hv
    have hlogged : (parse S.logging text (store, [])).result = .ok value := by
      rw [← hv, ← hlog]
      exact (congrFun Except.map_id _).symm
    rw [← hs.asked_eq hlogged]
    exact (charges_calls S text store).2 value hlogged
  case acts_le => exact acts_le_scans S text store
  case nested_le =>
    intro front hfront
    exact nested_active_le hfront

end Calculator.Expression
