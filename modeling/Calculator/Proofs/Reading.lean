import Calculator.Proofs.Grammar

/-!
# Reading

How a phrase is read, and what has been read once a reading is completed.
-/

namespace Calculator.Expression

variable {σ α : Type} {S : Semantics σ α}

/-!
## Rules of reading

One equation for each way in which a phrase or the rest of a chain is read, and the induction that
has these ways as its cases.
-/

theorem Reading.andThen_eq_done {β : Type} {start first : State σ} {reading : Reading σ α first}
    {next : (value : α) → (state : State σ) → state.remaining < first.remaining →
      Reading σ β start} {value : β} {after : State σ} {h : after.remaining < start.remaining}
    (hr : reading.andThen next = .done value after h) :
    ∃ inner middle hm, reading = .done inner middle hm ∧
      next inner middle hm = .done value after h := by
  cases reading with
  | done inner middle hm => exact ⟨inner, middle, hm, rfl, hr⟩
  | failed error middle => cases hr

theorem literal?_eq_none {token : Token} (h : ∀ value, token ≠ .integer value) :
    token.literal? = none := by
  cases hv : token.literal? with
  | none => rfl
  | some value => exact absurd (Token.literal?_eq_some_iff.mp hv) (h value)

/-! ### Any reader -/

section

open Account

variable {R : Type → State σ → Type} [Account R]

theorem readAs_chain (level : Chain) (state : State σ) :
    readAs R S level.phrase state =
      ofPhrase level.phrase (andThen (readAs R S level.operand state) fun left after h =>
        chainAs R S level left after state h) := by
  cases level
  all_goals rw [Chain.phrase, readAs, Chain.operand]

theorem readAs_literal {state : State σ} {value : Int64}
    (ht : state.lookahead.token = .integer value) :
    readAs R S .factor state =
      ofPhrase .factor (andThen (take .integer (by decide) state) fun _ after h =>
        done (S.integer value after.store).1
          { after with store := (S.integer value after.store).2 } h) := by
  rw [readAs, factorAs, Token.literal?_eq_some_iff.mpr ht]

theorem readAs_no_operand {state : State σ}
    (hv : ∀ value, state.lookahead.token ≠ .integer value)
    (hp : state.lookahead.token ≠ .leftParen) :
    readAs R S .factor state =
      ofPhrase .factor (failed (.syntactic (.expectedOperand state.lookahead)) state) := by
  rw [readAs, factorAs, literal?_eq_none hv]
  simp only [if_neg hp]

theorem readAs_leftParen {state : State σ} (ht : state.lookahead.token = .leftParen) :
    readAs R S .factor state = ofPhrase .factor (parenthesizedAs R S state) := by
  rw [readAs, factorAs, literal?_eq_none (by simp [ht])]
  simp only [if_pos ht]

theorem readAs_too_deep {state : State σ} (ht : state.lookahead.token = .leftParen)
    (hd : ¬ state.depth < maxDepth) :
    readAs R S .factor state =
      ofPhrase .factor
        (failed (.syntactic (.nestingTooDeep maxDepth state.lookahead.offset)) state) := by
  rw [readAs_leftParen ht, parenthesizedAs, if_neg hd]

theorem readAs_group {state : State σ} (ht : state.lookahead.token = .leftParen)
    (hd : state.depth < maxDepth) :
    readAs R S .factor state =
      ofPhrase .factor (andThen (take .leftParen (by decide) state) fun opened inside hi =>
        andThen (readAs R S .expression inside.enter) fun inner last hl =>
          closeAs R opened.offset inner last state (Nat.lt_trans hl hi)) := by
  rw [readAs_leftParen ht, parenthesizedAs, if_pos hd]

theorem chainAs_link {level : Chain} {left : α} {state start : State σ}
    (h : state.remaining < start.remaining) {op : Operator}
    (ht : state.lookahead.token = .operator op) (hop : op.precedence = level.precedence) :
    chainAs R S level left state start h =
      andThen (take (.operator op) (kind_operator_ne_endOfInput op) state) fun mark behind hb =>
        andThen (readAs R S level.operand behind) fun right after ha =>
          match S.binary op left right mark.offset after.store with
          | (.ok output, store) =>
              chainAs R S level output { after with store := store } start
                (Nat.lt_trans ha (Nat.lt_trans hb h))
          | (.error error, store) =>
              failed (.evaluation error) { after with store := store } := by
  rw [chainAs, Token.operator?_eq_some_iff.mpr ht]
  exact if_pos (Chain.joins_iff.mpr hop)

theorem chainAs_end {level : Chain} {left : α} {state start : State σ}
    (h : state.remaining < start.remaining)
    (hp : state.lookahead.token.precedence ≠ level.precedence) :
    chainAs R S level left state start h = done left state h := by
  rw [chainAs]
  cases ho : state.lookahead.token.operator? with
  | none => rfl
  | some op =>
      rw [Token.precedence_of_operator? ho] at hp
      simp only [if_neg (mt Chain.joins_iff.mp hp)]

end

/-! ### The reader alone -/

theorem read_chain (level : Chain) (state : State σ) :
    read S level.phrase state =
      (read S level.operand state).andThen fun left after h =>
        chain S level left after state h :=
  readAs_chain level state

theorem read_literal {state : State σ} {value : Int64}
    (ht : state.lookahead.token = .integer value) :
    read S .factor state =
      (state.take .integer (by decide)).andThen fun _ after h =>
        .done (S.integer value after.store).1
          { after with store := (S.integer value after.store).2 } h :=
  readAs_literal ht

theorem read_no_operand {state : State σ} (hv : ∀ value, state.lookahead.token ≠ .integer value)
    (hp : state.lookahead.token ≠ .leftParen) :
    read S .factor state = .failed (.syntactic (.expectedOperand state.lookahead)) state :=
  readAs_no_operand hv hp

theorem read_too_deep {state : State σ} (ht : state.lookahead.token = .leftParen)
    (hd : ¬ state.depth < maxDepth) :
    read S .factor state =
      .failed (.syntactic (.nestingTooDeep maxDepth state.lookahead.offset)) state :=
  readAs_too_deep ht hd

theorem read_group {state : State σ} (ht : state.lookahead.token = .leftParen)
    (hd : state.depth < maxDepth) :
    read S .factor state =
      (state.take .leftParen (by decide)).andThen fun opened inside hi =>
        (read S .expression inside.enter).andThen fun inner last hl =>
          close opened.offset inner last state (Nat.lt_trans hl hi) :=
  readAs_group ht hd

theorem chain_link {level : Chain} {left : α} {state start : State σ}
    (h : state.remaining < start.remaining) {op : Operator}
    (ht : state.lookahead.token = .operator op) (hop : op.precedence = level.precedence) :
    chain S level left state start h =
      (state.take (.operator op) (kind_operator_ne_endOfInput op)).andThen fun mark behind hb =>
        (read S level.operand behind).andThen fun right after ha =>
          match S.binary op left right mark.offset after.store with
          | (.ok output, store) =>
              chain S level output { after with store := store } start
                (Nat.lt_trans ha (Nat.lt_trans hb h))
          | (.error error, store) =>
              .failed (.evaluation error) { after with store := store } :=
  chainAs_link h ht hop

theorem chain_end {level : Chain} {left : α} {state start : State σ}
    (h : state.remaining < start.remaining)
    (hp : state.lookahead.token.precedence ≠ level.precedence) :
    chain S level left state start h = .done left state h :=
  chainAs_end h hp

theorem close_rightParen {openedAt : Nat} {inner : α} {last start : State σ}
    (h : last.remaining < start.remaining) (hclose : last.lookahead.token = .rightParen) :
    close openedAt inner last start h =
      (last.leave.take .rightParen kind_rightParen_ne_endOfInput).andThen fun _ after ha =>
        .done inner after (State.shorter_of_leave ha h) :=
  if_pos hclose

theorem close_unclosed {openedAt : Nat} {inner : α} {last start : State σ}
    (h : last.remaining < start.remaining) (hclose : last.lookahead.token ≠ .rightParen) :
    close openedAt inner last start h =
      .failed (.syntactic (.unclosedParenthesis openedAt last.lookahead)) last.leave :=
  if_neg hclose

theorem readWhole_empty {state : State σ} (hl : state.lookahead.token = .endOfInput) :
    readWhole S state = .failed (.syntactic .emptyExpression) state :=
  if_pos hl

theorem readWhole_failed {state final : State σ} {error : Error}
    (hl : state.lookahead.token ≠ .endOfInput)
    (hr : read S .expression state = .failed error final) :
    readWhole S state = .failed error final :=
  (if_neg hl).trans (congrArg (Reading.andThen · _) hr)

theorem readWhole_done {state after : State σ} {value : α} {h : after.remaining < state.remaining}
    (hl : state.lookahead.token ≠ .endOfInput)
    (hr : read S .expression state = .done value after h) :
    readWhole S state =
      if after.lookahead.token = .endOfInput then .done value after h
      else .failed (.syntactic (.trailingInput after.lookahead)) after :=
  (if_neg hl).trans (congrArg (Reading.andThen · _) hr)

/-- To show something of all phrases and of all chains behind their first operands, show it for
each way in which they are read. -/
theorem read_induction (phrases : Phrase → State σ → Prop)
    (chains : Chain → α → (state start : State σ) → state.remaining < start.remaining → Prop)
    (first : ∀ level state, phrases level.operand state →
      (∀ left after h, chains level left after state h) → phrases level.phrase state)
    (literal : ∀ state value, state.lookahead.token = .integer value → phrases .factor state)
    (group : ∀ state, state.lookahead.token = .leftParen → state.depth < maxDepth →
      (∀ inside : State σ, inside.remaining < state.remaining →
        phrases .expression inside.enter) → phrases .factor state)
    (tooDeep : ∀ state, state.lookahead.token = .leftParen → ¬ state.depth < maxDepth →
      phrases .factor state)
    (noOperand : ∀ state, (∀ value, state.lookahead.token ≠ .integer value) →
      state.lookahead.token ≠ .leftParen → phrases .factor state)
    (link : ∀ level left state start h op, state.lookahead.token = .operator op →
      op.precedence = level.precedence →
      (∀ behind : State σ, behind.remaining < state.remaining → phrases level.operand behind) →
      (∀ (behind : State σ) (hb : behind.remaining < state.remaining) (after : State σ)
        (ha : after.remaining < behind.remaining) output store,
        chains level output { after with store := store } start
          (Nat.lt_trans ha (Nat.lt_trans hb h))) →
      chains level left state start h)
    (finish : ∀ level left state start h, state.lookahead.token.precedence ≠ level.precedence →
      chains level left state start h)
    (phrase : Phrase) (state : State σ) : phrases phrase state := by
  let factors : State σ → Prop := fun state => phrases .factor state
  refine (readAs.mutual_induct phrases factors
    (fun state => state.lookahead.token = .leftParen → factors state) chains
    (first .sum) (first .product) (fun _ h => h) ?_ (fun state _ ht hp => hp ht) ?_
    (fun state hd ih ht => group state ht hd ih) (fun state hd ht => tooDeep state ht hd)
    ?_ ?_ ?_).1 phrase state
  · intro state value hv
    exact literal state value (Token.literal?_eq_some_iff.mp hv)
  · intro state hv hp
    refine noOperand state ?_ hp
    intro value ht
    simp [ht, Token.literal?] at hv
  · intro level left state start h op ho hj
    exact link level left state start h op (Token.operator?_eq_some_iff.mp ho)
      (Chain.joins_iff.mp hj)
  · intro level left state start h op ho hj
    refine finish level left state start h ?_
    rw [Token.precedence_of_operator? ho]
    exact mt Chain.joins_iff.mpr hj
  · intro level left state start h ho
    refine finish level left state start h ?_
    rw [Token.precedence_of_not_operator ho]
    exact Nat.ne_of_lt level.precedence_pos

/-!
## Scans to come

A reader has made some of the scans of a text; the others are still to come. Taking a token makes
the first of those, which becomes the lookahead or ends the reading with its error.
-/

namespace State

/-- The scans behind the lookahead. There are none behind the end of the text. -/
def upcoming (state : State σ) : List Scan :=
  if state.lookahead.token = .endOfInput then [] else state.cursor.untilEnd

def sight (state : State σ) : List Scan := .ok state.lookahead :: state.upcoming

theorem lookahead_eq (state : State σ) {token : Token} (h : state.lookahead.token = token) :
    state.lookahead = ⟨token, state.lookahead.offset⟩ := by
  rw [← h]

theorem sight_of_endOfInput {state : State σ} (h : state.lookahead.token = .endOfInput) :
    state.sight = [.ok ⟨.endOfInput, state.lookahead.offset⟩] := by
  rw [sight, upcoming, if_pos h, ← state.lookahead_eq h]

/-- One scan more has been made, and what it found is the lookahead. -/
structure Advanced (state after : State σ) : Prop where
  upcoming_eq : state.upcoming = after.sight
  scanned_eq : after.scanned = .ok after.lookahead :: state.scanned
  depth_eq : after.depth = state.depth
  store_eq : after.store = state.store

theorem Advanced.sight_eq {state after : State σ} (h : state.Advanced after) :
    state.sight = .ok state.lookahead :: after.sight :=
  congrArg (Except.ok state.lookahead :: ·) h.upcoming_eq

structure Broken (error : LexError) (state after : State σ) : Prop where
  upcoming_eq : state.upcoming = [.error error]
  scanned_eq : after.scanned = .error error :: state.scanned
  store_eq : after.store = state.store

structure Initial (text : String) (store : σ) (state : State σ) : Prop where
  sight_eq : state.sight = (Cursor.ofText text).untilEnd
  scanned_eq : state.scanned = [.ok state.lookahead]
  depth_eq : state.depth = 0
  store_eq : state.store = store

/-- What a cursor scans up to the end, in terms of its next scan. -/
theorem sight_of_next {state : State σ} {cursor : Cursor}
    (h : cursor.next = (.ok state.lookahead, state.cursor)) : state.sight = cursor.untilEnd := by
  unfold sight upcoming
  by_cases he : state.lookahead.token = .endOfInput
  · rw [if_pos he, Cursor.untilEnd_endOfInput h he]
  · rw [if_neg he, Cursor.untilEnd_token h he]

theorem initial_of_ofText {text : String} {store : σ} {state : State σ}
    (h : ofText text store = .ok state) : Initial text store state := by
  unfold ofText at h
  split at h
  · rename_i placed cursor hn
    cases h
    exact ⟨sight_of_next hn, rfl, rfl, rfl⟩
  · cases h

theorem untilEnd_of_ofText {text : String} {store : σ} {error : LexError}
    (h : ofText text store = .error error) : (Cursor.ofText text).untilEnd = [.error error] := by
  unfold ofText at h
  split at h
  · cases h
  · rename_i found cursor hn
    cases h
    exact Cursor.untilEnd_error hn

theorem advanced_of_advance {state after : State σ}
    (hl : state.lookahead.token ≠ .endOfInput) (h : state.advance = (.ok (), after)) :
    state.Advanced after := by
  unfold advance at h
  split at h
  · rename_i placed cursor hn
    cases h
    refine ⟨?_, rfl, rfl, rfl⟩
    rw [upcoming, if_neg hl]
    exact (sight_of_next hn).symm
  · cases h

theorem broken_of_advance {state after : State σ} {error : LexError}
    (hl : state.lookahead.token ≠ .endOfInput) (h : state.advance = (.error error, after)) :
    Broken error state after := by
  unfold advance at h
  split at h
  · cases h
  · rename_i found cursor hn
    cases h
    refine ⟨?_, rfl, rfl⟩
    rw [upcoming, if_neg hl]
    exact Cursor.untilEnd_error hn

/-- A lookahead of the expected kind is taken, unless the scan behind it fails. -/
theorem take_cases (state : State σ) (expected : Token.Kind) (hx : expected ≠ .endOfInput)
    (hk : state.lookahead.token.kind = expected) :
    (∃ after shorter, state.take expected hx = .done state.lookahead after shorter ∧
      state.Advanced after) ∨
    (∃ error after, state.take expected hx = .failed (.lexical error) after ∧
      Broken error state after) := by
  have hl : state.lookahead.token ≠ .endOfInput := by
    intro he
    rw [he] at hk
    exact hx hk.symm
  unfold take
  rw [dif_pos hk]
  split
  · rename_i after h
    exact .inl ⟨after, remaining_lt_of_advance hl h, rfl, advanced_of_advance hl h⟩
  · rename_i error after h
    exact .inr ⟨error, after, rfl, broken_of_advance hl h⟩

theorem advanced_of_take {state after : State σ} {expected : Token.Kind}
    {hx : expected ≠ .endOfInput} {placed : Token.Placed}
    {h : after.remaining < state.remaining} (hk : state.lookahead.token.kind = expected)
    (ht : state.take expected hx = .done placed after h) :
    placed = state.lookahead ∧ state.Advanced after := by
  rcases state.take_cases expected hx hk with
    ⟨behind, shorter, htake, hadv⟩ | ⟨error, behind, htake, _⟩
  · rw [htake] at ht
    cases ht
    exact ⟨rfl, hadv⟩
  · rw [htake] at ht
    cases ht

end State

/-!
## Completed readings

A reading that is completed has gone over the tokens of a derivation and has made the calls of the
walk through its tree.
-/

variable (S)

/-- The derivation is one of the tokens from `state` up to `after`, within the limit on nesting,
and its tree means `value`. -/
structure Derivation.Reads {phrase : Phrase} (derivation : Derivation phrase) (state : State σ)
    (value : α) (after : State σ) : Prop where
  sight_eq : state.sight = scansOf derivation.tokens ++ after.sight
  depth_eq : after.depth = state.depth
  -- Cut off at zero: without parentheses a phrase is read at any depth.
  nesting_le : derivation.nesting ≤ maxDepth - state.depth
  stops : after.lookahead.token.precedence < phrase.precedence
  walk_eq : derivation.tree.walk S state.store = (.ok value, after.store)

/-- The same of the part of a chain behind the operands that mean `left`. -/
structure Links.Reads {level : Chain} (links : Links level) (left : α) (state : State σ)
    (value : α) (after : State σ) : Prop where
  sight_eq : state.sight = scansOf links.tokens ++ after.sight
  depth_eq : after.depth = state.depth
  nesting_le : links.nesting ≤ maxDepth - state.depth
  stops : after.lookahead.token.precedence < level.precedence
  walk_eq : ∀ tree store, tree.walk S store = (.ok left, state.store) →
    (links.tree tree).walk S store = (.ok value, after.store)

variable {S}

theorem reads_enclosed {state inside last after : State σ} {inner value : α}
    {derivation : Derivation .expression} {openedAt : Nat}
    {hl : last.remaining < state.remaining} {h : after.remaining < state.remaining}
    (ht : state.lookahead.token = .leftParen) (hd : state.depth < maxDepth)
    (hadv : state.Advanced inside) (hinner : derivation.Reads S inside.enter inner last)
    (hr : close openedAt inner last state hl = .done value after h) :
    (Derivation.group state.lookahead.offset derivation last.lookahead.offset).Reads S state
      value after := by
  by_cases hclose : last.lookahead.token = .rightParen
  · rw [close_rightParen hl hclose] at hr
    obtain ⟨placed, behind, hb, htake, hdone⟩ := Reading.andThen_eq_done hr
    obtain ⟨rfl, hleft⟩ := State.advanced_of_take (by rw [State.leave, hclose]; rfl) htake
    cases hdone
    have hinside : inside.enter.depth = state.depth + 1 :=
      congrArg Nat.succ hadv.depth_eq
    refine ⟨?_, ?_, ?_, Token.precedence_lt_factor _, ?_⟩
    · have hopen : state.sight = .ok state.lookahead :: inside.enter.sight := hadv.sight_eq
      have hlast : last.sight = .ok last.lookahead :: after.sight := hleft.sight_eq
      rw [hopen, hinner.sight_eq, hlast, state.lookahead_eq ht, last.lookahead_eq hclose]
      simp [Derivation.tokens]
    · rw [hleft.depth_eq, State.leave, hinner.depth_eq, hinside]
      rfl
    · have hn := hinner.nesting_le
      rw [hinside] at hn
      rw [Derivation.nesting]
      omega
    · rw [Derivation.tree, hleft.store_eq, ← hadv.store_eq]
      exact hinner.walk_eq
  · rw [close_unclosed hl hclose] at hr
    cases hr

theorem reads_chain {level : Chain} {state middle after : State σ} {left value : α}
    {first : Derivation level.operand} {rest : Links level}
    (hfirst : first.Reads S state left middle) (hrest : rest.Reads S left middle value after) :
    (Derivation.chain level first rest).Reads S state value after := by
  refine ⟨?_, ?_, ?_, ?_, ?_⟩
  · rw [hfirst.sight_eq, hrest.sight_eq, Derivation.tokens_chain, scansOf_append,
      List.append_assoc]
  · rw [hrest.depth_eq, hfirst.depth_eq]
  · have hn := hrest.nesting_le
    rw [hfirst.depth_eq] at hn
    rw [Derivation.nesting_chain]
    exact Nat.max_le.mpr ⟨hfirst.nesting_le, hn⟩
  · rw [Chain.precedence_phrase]
    exact hrest.stops
  · rw [Derivation.tree_chain]
    exact hrest.walk_eq first.tree state.store hfirst.walk_eq

theorem reads_nil {level : Chain} {state : State σ} (left : α)
    (h : state.lookahead.token.precedence < level.precedence) :
    (Links.nil : Links level).Reads S left state left state :=
  ⟨rfl, rfl, Nat.zero_le _, h, fun _ _ hwalk => hwalk⟩

theorem reads_cons {level : Chain} {op : Operator} (joins : level.joins op = true)
    {state behind middle after : State σ} {left right output value : α} {store : σ}
    {operand : Derivation level.operand} {rest : Links level}
    (ht : state.lookahead.token = .operator op) (hadv : state.Advanced behind)
    (hoperand : operand.Reads S behind right middle)
    (hbinary : S.binary op left right state.lookahead.offset middle.store = (.ok output, store))
    (hrest : rest.Reads S output { middle with store := store } value after) :
    (Links.cons op joins state.lookahead.offset operand rest).Reads S left state value after := by
  have hsight : middle.sight = scansOf rest.tokens ++ after.sight := hrest.sight_eq
  have hdepth : middle.depth = state.depth := hoperand.depth_eq.trans hadv.depth_eq
  refine ⟨?_, ?_, ?_, hrest.stops, ?_⟩
  · rw [hadv.sight_eq, hoperand.sight_eq, hsight, state.lookahead_eq ht]
    simp [Links.tokens]
  · exact hrest.depth_eq.trans hdepth
  · have hn := hoperand.nesting_le
    have hm : rest.nesting ≤ maxDepth - middle.depth := hrest.nesting_le
    rw [hadv.depth_eq] at hn
    rw [hdepth] at hm
    exact Nat.max_le.mpr ⟨hn, hm⟩
  · intro tree before hwalk
    rw [Links.tree]
    apply hrest.walk_eq
    have hright := hoperand.walk_eq
    rw [hadv.store_eq] at hright
    rw [Tree.walk_node hwalk hright]
    exact hbinary

/-! ### One lemma for each way of reading -/

/-- If the reading is completed, what has been read is a phrase. -/
def ReadsPhrase (S : Semantics σ α) (phrase : Phrase) {state : State σ}
    (reading : Reading σ α state) : Prop :=
  ∀ {value after h}, reading = .done value after h →
    ∃ derivation : Derivation phrase, derivation.Reads S state value after

def ReadsChain (S : Semantics σ α) (level : Chain) (left : α) (state : State σ) {start : State σ}
    (reading : Reading σ α start) : Prop :=
  ∀ {value after h}, reading = .done value after h →
    ∃ links : Links level, links.Reads S left state value after

theorem reads_first {level : Chain} {state : State σ}
    (hoperand : ReadsPhrase S level.operand (read S level.operand state))
    (hchain : ∀ left after h, after.lookahead.token.precedence ≤ level.precedence →
      ReadsChain S level left after (chain S level left after state h)) :
    ReadsPhrase S level.phrase (read S level.phrase state) := by
  intro value after h hr
  rw [read_chain] at hr
  obtain ⟨left, middle, hm, hleft, hrest⟩ := Reading.andThen_eq_done hr
  obtain ⟨first, hfirst⟩ := hoperand hleft
  have hstops := hfirst.stops
  rw [Chain.precedence_operand] at hstops
  obtain ⟨rest, hreads⟩ := hchain left middle hm (Nat.le_of_lt_succ hstops) hrest
  exact ⟨_, reads_chain hfirst hreads⟩

theorem reads_literal {state : State σ} {literal : Int64}
    (ht : state.lookahead.token = .integer literal) :
    ReadsPhrase S .factor (read S .factor state) := by
  intro value after h hr
  rw [read_literal ht] at hr
  obtain ⟨placed, behind, hb, htake, hdone⟩ := Reading.andThen_eq_done hr
  obtain ⟨rfl, hadv⟩ := State.advanced_of_take (by rw [ht]; rfl) htake
  cases hdone
  refine ⟨.literal literal state.lookahead.offset, ?_, hadv.depth_eq, Nat.zero_le _,
    Token.precedence_lt_factor _, ?_⟩
  · rw [hadv.sight_eq, state.lookahead_eq ht]
    rfl
  · rw [Derivation.tree, Tree.walk, hadv.store_eq]

theorem reads_group {state : State σ} (ht : state.lookahead.token = .leftParen)
    (hd : state.depth < maxDepth)
    (ih : ∀ inside : State σ, inside.remaining < state.remaining →
      ReadsPhrase S .expression (read S .expression inside.enter)) :
    ReadsPhrase S .factor (read S .factor state) := by
  intro value after h hr
  rw [read_group ht hd] at hr
  obtain ⟨opened, inside, hi, htake, hrest⟩ := Reading.andThen_eq_done hr
  obtain ⟨rfl, hadv⟩ := State.advanced_of_take (by rw [ht]; rfl) htake
  obtain ⟨inner, last, hl, hinner, hclose⟩ := Reading.andThen_eq_done hrest
  obtain ⟨derivation, hreads⟩ := ih inside hi hinner
  exact ⟨_, reads_enclosed ht hd hadv hreads hclose⟩

theorem reads_link {level : Chain} {left : α} {state start : State σ}
    (h : state.remaining < start.remaining) {op : Operator}
    (ht : state.lookahead.token = .operator op) (hop : op.precedence = level.precedence)
    (ihOperand : ∀ behind : State σ, behind.remaining < state.remaining →
      ReadsPhrase S level.operand (read S level.operand behind))
    (ihChain : ∀ (behind : State σ) (hb : behind.remaining < state.remaining) (after : State σ)
      (ha : after.remaining < behind.remaining) output store,
      after.lookahead.token.precedence ≤ level.precedence →
        ReadsChain S level output { after with store := store }
          (chain S level output { after with store := store } start
            (Nat.lt_trans ha (Nat.lt_trans hb h)))) :
    ReadsChain S level left state (chain S level left state start h) := by
  intro value after h' hr
  rw [chain_link h ht hop] at hr
  obtain ⟨mark, behind, hb, htake, hrest⟩ := Reading.andThen_eq_done hr
  obtain ⟨rfl, hadv⟩ := State.advanced_of_take (by rw [ht]; rfl) htake
  obtain ⟨right, middle, hm, hright, hlink⟩ := Reading.andThen_eq_done hrest
  obtain ⟨operand, hoperand⟩ := ihOperand behind hb hright
  split at hlink
  · rename_i output store hbinary
    have hstops := hoperand.stops
    rw [Chain.precedence_operand] at hstops
    obtain ⟨rest, hreads⟩ :=
      ihChain behind hb middle hm output store (Nat.le_of_lt_succ hstops) hlink
    exact ⟨_, reads_cons (Chain.joins_iff.mpr hop) ht hadv hoperand hbinary hreads⟩
  · cases hlink

theorem reads_finish {level : Chain} {left : α} {state start : State σ}
    (h : state.remaining < start.remaining)
    (hle : state.lookahead.token.precedence ≤ level.precedence)
    (hne : state.lookahead.token.precedence ≠ level.precedence) :
    ReadsChain S level left state (chain S level left state start h) := by
  intro value after h' hr
  rw [chain_end h hne] at hr
  cases hr
  exact ⟨_, reads_nil left (Nat.lt_of_le_of_ne hle hne)⟩

/-- What has been read is a phrase. -/
theorem reads_of_done {phrase : Phrase} {state after : State σ} {value : α}
    {h : after.remaining < state.remaining} (hr : read S phrase state = .done value after h) :
    ∃ derivation : Derivation phrase, derivation.Reads S state value after := by
  -- A chain goes on where its first operand stops, so what stands there does not bind tighter.
  suffices hreads : ReadsPhrase S phrase (read S phrase state) from hreads hr
  refine read_induction
    (fun phrase state => ReadsPhrase S phrase (read S phrase state))
    (fun level left state start h => state.lookahead.token.precedence ≤ level.precedence →
      ReadsChain S level left state (chain S level left state start h))
    ?first ?literal ?group ?tooDeep ?noOperand ?link ?finish phrase state
  case first =>
    intro level state ihOperand ihChain
    exact reads_first ihOperand ihChain
  case literal =>
    intro state literal ht
    exact reads_literal ht
  case group =>
    intro state ht hd ih
    exact reads_group ht hd ih
  case tooDeep =>
    intro state ht hd value after h hr
    rw [read_too_deep ht hd] at hr
    cases hr
  case noOperand =>
    intro state hv hp value after h hr
    rw [read_no_operand hv hp] at hr
    cases hr
  case link =>
    intro level left state start h op ht hop ihOperand ihChain _
    exact reads_link h ht hop ihOperand ihChain
  case finish =>
    intro level left state start h hne hle
    exact reads_finish h hle hne

end Calculator.Expression
