import Calculator.Expression

/-!
# Grammar

The grammar of expressions by itself, without a reader: which rows of tokens are phrases, what tree
each has, and where the longest phrase ends.
-/

namespace Calculator

/-!
## Precedence of phrases

The levels of the grammar in terms of precedence. The operators of a chain have one precedence,
and its operands hold, outside parentheses, only operators of a greater one.
-/

/-- A token that is no operator is below all operators. -/
def Token.precedence (token : Token) : Nat :=
  match token.operator? with
  | some op => op.precedence
  | none => 0

namespace Expression

def Chain.precedence : Chain → Nat
  | .sum => 1
  | .product => 2

/-- The least precedence that an operator of a phrase has outside parentheses. -/
def Phrase.precedence : Phrase → Nat
  | .expression => 1
  | .term => 2
  | .factor => 3

def Chain.phrase : Chain → Phrase
  | .sum => .expression
  | .product => .term

theorem Chain.joins_iff {level : Chain} {op : Operator} :
    level.joins op = true ↔ op.precedence = level.precedence := by
  cases level <;> simp [joins, precedence, Operator.isAdditive, Operator.isMultiplicative]

@[simp] theorem Chain.precedence_operand (level : Chain) :
    level.operand.precedence = level.precedence + 1 := by
  cases level <;> rfl

@[simp] theorem Chain.precedence_phrase (level : Chain) :
    level.phrase.precedence = level.precedence := by
  cases level <;> rfl

theorem Chain.precedence_pos (level : Chain) : 0 < level.precedence := by
  cases level <;> decide

end Expression

namespace Token

@[simp] theorem precedence_operator (op : Operator) :
    (Token.operator op).precedence = op.precedence := rfl

theorem precedence_of_operator? {token : Token} {op : Operator} (h : token.operator? = some op) :
    token.precedence = op.precedence := by
  simp [precedence, h]

theorem precedence_of_not_operator {token : Token} (h : token.operator? = none) :
    token.precedence = 0 := by
  simp [precedence, h]

theorem operator?_eq_none_of_precedence {token : Token}
    (h : token.precedence < Expression.Phrase.expression.precedence) : token.operator? = none := by
  cases ho : token.operator? with
  | none => rfl
  | some op =>
      rw [precedence_of_operator? ho] at h
      cases op <;> exact absurd h (by decide)

/-- No operator binds more tightly than a factor holds together. -/
theorem precedence_lt_factor (token : Token) :
    token.precedence < Expression.Phrase.factor.precedence := by
  cases h : token.operator? with
  | none =>
      rw [precedence_of_not_operator h]
      decide
  | some op =>
      rw [precedence_of_operator? h]
      cases op <;> decide

end Token

namespace Expression

/-!
## Expression trees

What an expression means apart from how it is written: operators applied to what their operands
mean, down to the literals.
-/

inductive Tree where
  | literal (value : Int64)
  | node (op : Operator) (offset : Nat) (left right : Tree)
deriving DecidableEq

namespace Tree

variable {σ α : Type} (S : Semantics σ α)

/-- The calls for a tree from left to right, operands before their operator. Nothing is called
behind a call that fails. -/
def walk : Tree → σ → Except EvaluationError α × σ
  | .literal value, store => (.ok (S.integer value store).1, (S.integer value store).2)
  | .node op offset left right, store =>
      match left.walk store with
      | (.error error, store) => (.error error, store)
      | (.ok leftValue, store) =>
          match right.walk store with
          | (.error error, store) => (.error error, store)
          | (.ok rightValue, store) => S.binary op leftValue rightValue offset store

variable {S}

theorem walk_node_left {op : Operator} {offset : Nat} {left right : Tree} {store after : σ}
    {error : EvaluationError} (hl : left.walk S store = (.error error, after)) :
    (node op offset left right).walk S store = (.error error, after) := by
  rw [walk, hl]

theorem walk_node_right {op : Operator} {offset : Nat} {left right : Tree}
    {store middle after : σ} {leftValue : α} {error : EvaluationError}
    (hl : left.walk S store = (.ok leftValue, middle))
    (hr : right.walk S middle = (.error error, after)) :
    (node op offset left right).walk S store = (.error error, after) := by
  rw [walk, hl]
  simp only [hr]

theorem walk_node {op : Operator} {offset : Nat} {left right : Tree} {store middle after : σ}
    {leftValue rightValue : α} (hl : left.walk S store = (.ok leftValue, middle))
    (hr : right.walk S middle = (.ok rightValue, after)) :
    (node op offset left right).walk S store =
      S.binary op leftValue rightValue offset after := by
  rw [walk, hl]
  simp only [hr]

end Tree

/-!
## Derivations

A derivation says which rule makes which part of a row of tokens; it has a tree, in which the
operators of a chain group to the left. A row of tokens has at most one derivation.
-/

mutual

/-- How a phrase is made of tokens. The tokens keep their places. -/
inductive Derivation : Phrase → Type where
  | literal (value : Int64) (offset : Nat) : Derivation .factor
  | group (openedAt : Nat) (inner : Derivation .expression) (closedAt : Nat) : Derivation .factor
  | term (first : Derivation .factor) (rest : Links .product) : Derivation .term
  | expression (first : Derivation .term) (rest : Links .sum) : Derivation .expression

/-- The part of a chain behind its first operand. -/
inductive Links : Chain → Type where
  | nil {level : Chain} : Links level
  | cons {level : Chain} (op : Operator) (joins : level.joins op = true) (offset : Nat)
      (operand : Derivation level.operand) (rest : Links level) : Links level

end

mutual

def Derivation.tokens {phrase : Phrase} : Derivation phrase → List Token.Placed
  | .literal value offset => [⟨.integer value, offset⟩]
  | .group openedAt inner closedAt =>
      ⟨.leftParen, openedAt⟩ :: (inner.tokens ++ [⟨.rightParen, closedAt⟩])
  | .term first rest => first.tokens ++ rest.tokens
  | .expression first rest => first.tokens ++ rest.tokens

def Links.tokens {level : Chain} : Links level → List Token.Placed
  | .nil => []
  | .cons op _ offset operand rest =>
      ⟨.operator op, offset⟩ :: (operand.tokens ++ rest.tokens)

end

mutual

/-- How many parentheses are open at once where most are. -/
def Derivation.nesting {phrase : Phrase} : Derivation phrase → Nat
  | .literal _ _ => 0
  | .group _ inner _ => inner.nesting + 1
  | .term first rest => max first.nesting rest.nesting
  | .expression first rest => max first.nesting rest.nesting

def Links.nesting {level : Chain} : Links level → Nat
  | .nil => 0
  | .cons _ _ _ operand rest => max operand.nesting rest.nesting

end

mutual

def Derivation.tree {phrase : Phrase} : Derivation phrase → Tree
  | .literal value _ => .literal value
  | .group _ inner _ => inner.tree
  | .term first rest => rest.tree first.tree
  | .expression first rest => rest.tree first.tree

/-- The tree of a chain, given the tree of what stands in front of the rest. -/
def Links.tree {level : Chain} : Links level → Tree → Tree
  | .nil, left => left
  | .cons op _ offset operand rest, left => rest.tree (.node op offset left operand.tree)

end

def Derivation.chain : (level : Chain) → Derivation level.operand → Links level →
    Derivation level.phrase
  | .sum, first, rest => .expression first rest
  | .product, first, rest => .term first rest

namespace Derivation

variable {level : Chain} (first : Derivation level.operand) (rest : Links level)

@[simp] theorem tokens_chain : (chain level first rest).tokens = first.tokens ++ rest.tokens := by
  cases level <;> rfl

@[simp] theorem nesting_chain :
    (chain level first rest).nesting = max first.nesting rest.nesting := by
  cases level <;> rfl

@[simp] theorem tree_chain : (chain level first rest).tree = rest.tree first.tree := by
  cases level <;> rfl

theorem exists_chain (derivation : Derivation level.phrase) :
    ∃ first rest, derivation = chain level first rest := by
  cases level with
  | sum =>
      cases derivation with
      | expression first rest => exact ⟨first, rest, rfl⟩
  | product =>
      cases derivation with
      | term first rest => exact ⟨first, rest, rfl⟩

end Derivation

/-- Induction in which sums and products are one case. -/
theorem Derivation.induction (phrases : (phrase : Phrase) → Derivation phrase → Prop)
    (links : (level : Chain) → Links level → Prop)
    (literal : ∀ value offset, phrases .factor (.literal value offset))
    (group : ∀ openedAt inner closedAt, phrases .expression inner →
      phrases .factor (.group openedAt inner closedAt))
    (chain : ∀ level first rest, phrases level.operand first → links level rest →
      phrases level.phrase (.chain level first rest))
    (nil : ∀ level, links level .nil)
    (cons : ∀ level op joins offset operand rest, phrases level.operand operand →
      links level rest → links level (.cons op joins offset operand rest))
    {phrase : Phrase} (derivation : Derivation phrase) : phrases phrase derivation :=
  @Derivation.rec phrases links literal group (chain .product) (chain .sum)
    (fun {level} => nil level) (fun {level} => cons level) phrase derivation

/-- A phrase has at least one token, and the end of the text is no part of it. -/
theorem Derivation.exists_first {phrase : Phrase} (derivation : Derivation phrase) :
    ∃ head rest, derivation.tokens = head :: rest ∧ head.token ≠ .endOfInput := by
  refine Derivation.induction
    (fun _ derivation => ∃ head rest, derivation.tokens = head :: rest ∧ head.token ≠ .endOfInput)
    (fun _ _ => True) ?_ ?_ ?_ (fun _ => trivial) (fun _ _ _ _ _ _ _ _ => trivial) derivation
  · intro value offset
    exact ⟨_, _, rfl, by simp⟩
  · intro openedAt inner closedAt _
    exact ⟨_, _, rfl, by simp⟩
  · intro level first rest hfirst _
    obtain ⟨head, more, htokens, hhead⟩ := hfirst
    exact ⟨head, more ++ rest.tokens, by rw [tokens_chain, htokens, List.cons_append], hhead⟩

/-! ### At most one derivation -/

def scansOf (tokens : List Token.Placed) : List Scan := tokens.map .ok

@[simp] theorem scansOf_nil : scansOf [] = [] := rfl

@[simp] theorem scansOf_cons (placed : Token.Placed) (tokens : List Token.Placed) :
    scansOf (placed :: tokens) = .ok placed :: scansOf tokens := rfl

@[simp] theorem scansOf_append (first second : List Token.Placed) :
    scansOf (first ++ second) = scansOf first ++ scansOf second := List.map_append

theorem scansOf_injective {first second : List Token.Placed} (h : scansOf first = scansOf second) :
    first = second :=
  (List.map_inj_right fun _ _ => Except.ok.inj).mp h

theorem scansOf_group (openedAt : Nat) (inner : Derivation .expression) (closedAt : Nat)
    (scans : List Scan) :
    scansOf (Derivation.group openedAt inner closedAt).tokens ++ scans =
      .ok ⟨.leftParen, openedAt⟩ ::
        (scansOf inner.tokens ++ .ok ⟨.rightParen, closedAt⟩ :: scans) := by
  simp [Derivation.tokens]

/-- The next token is none of the operators of precedence `bar` or a greater one. -/
def Stops (bar : Nat) (scans : List Scan) : Prop :=
  ∃ next rest, scans = .ok next :: rest ∧ next.token.precedence < bar

theorem Stops.mono {bar bar' : Nat} {scans : List Scan} (h : Stops bar scans) (hle : bar ≤ bar') :
    Stops bar' scans := by
  obtain ⟨next, rest, hscans, hbar⟩ := h
  exact ⟨next, rest, hscans, Nat.lt_of_lt_of_le hbar hle⟩

/-- An operand of a chain ends where an operator of the chain stands. -/
theorem stops_operator {level : Chain} {op : Operator} (joins : level.joins op = true)
    (offset : Nat) (scans : List Scan) :
    Stops level.operand.precedence (.ok ⟨.operator op, offset⟩ :: scans) := by
  refine ⟨⟨.operator op, offset⟩, _, rfl, ?_⟩
  rw [Chain.precedence_operand, Token.precedence_operator, Chain.joins_iff.mp joins]
  exact Nat.lt_succ_self _

theorem Links.stops {level : Chain} (links : Links level) {scans : List Scan}
    (h : Stops level.precedence scans) :
    Stops level.operand.precedence (scansOf links.tokens ++ scans) := by
  cases links with
  | nil =>
      rw [Chain.precedence_operand]
      exact h.mono (Nat.le_succ _)
  | cons op joins offset operand rest => exact stops_operator joins offset _

theorem Stops.operator {bar : Nat} {op : Operator} {offset : Nat} {scans : List Scan}
    (h : Stops bar (.ok ⟨.operator op, offset⟩ :: scans)) : op.precedence < bar := by
  obtain ⟨next, rest, hscans, hbar⟩ := h
  cases hscans
  exact hbar

theorem stops_rightParen (offset : Nat) (scans : List Scan) :
    Stops Phrase.expression.precedence (.ok ⟨.rightParen, offset⟩ :: scans) :=
  ⟨_, _, rfl, Nat.zero_lt_one⟩

/-- Rows that start with this phrase start with no other of its kind. -/
def Derivation.Unique {phrase : Phrase} (derivation : Derivation phrase) : Prop :=
  ∀ (other : Derivation phrase) (scans scans' : List Scan),
    scansOf derivation.tokens ++ scans = scansOf other.tokens ++ scans' →
    Stops phrase.precedence scans → Stops phrase.precedence scans' →
    derivation = other ∧ scans = scans'

def Links.Unique {level : Chain} (links : Links level) : Prop :=
  ∀ (other : Links level) (scans scans' : List Scan),
    scansOf links.tokens ++ scans = scansOf other.tokens ++ scans' →
    Stops level.precedence scans → Stops level.precedence scans' →
    links = other ∧ scans = scans'

theorem unique_literal (value : Int64) (offset : Nat) :
    (Derivation.literal value offset).Unique := by
  intro other scans scans' h _ _
  cases other with
  | literal value' offset' =>
      cases h
      exact ⟨rfl, rfl⟩
  | group openedAt inner closedAt => cases h

theorem unique_group (openedAt : Nat) {inner : Derivation .expression} (closedAt : Nat)
    (ih : inner.Unique) : (Derivation.group openedAt inner closedAt).Unique := by
  intro other scans scans' h _ _
  cases other with
  | literal value' offset' => cases h
  | group openedAt' inner' closedAt' =>
      simp only [Derivation.tokens, scansOf_cons, scansOf_append, scansOf_nil, List.cons_append,
        List.append_assoc, List.nil_append] at h
      obtain ⟨hopen, hrest⟩ := List.cons.inj h
      obtain ⟨rfl, hclose⟩ :=
        ih inner' _ _ hrest (stops_rightParen _ _) (stops_rightParen _ _)
      cases hopen
      cases hclose
      exact ⟨rfl, rfl⟩

theorem unique_chain {level : Chain} {first : Derivation level.operand} {rest : Links level}
    (ihFirst : first.Unique) (ihRest : rest.Unique) :
    (Derivation.chain level first rest).Unique := by
  intro other scans scans' h hs hs'
  obtain ⟨first', rest', rfl⟩ := other.exists_chain
  rw [Derivation.tokens_chain, Derivation.tokens_chain, scansOf_append, scansOf_append,
    List.append_assoc, List.append_assoc] at h
  rw [Chain.precedence_phrase] at hs hs'
  -- On both sides the operand ends at an operator of the chain or at what stops the chain.
  obtain ⟨rfl, htail⟩ := ihFirst first' _ _ h (rest.stops hs) (rest'.stops hs')
  obtain ⟨rfl, rfl⟩ := ihRest rest' scans scans' htail hs hs'
  exact ⟨rfl, rfl⟩

theorem unique_nil (level : Chain) : (Links.nil : Links level).Unique := by
  intro other scans scans' h hs _
  cases other with
  | nil => exact ⟨rfl, h⟩
  | cons op joins offset operand rest =>
      simp only [Links.tokens, scansOf_nil, scansOf_cons, List.nil_append, List.cons_append] at h
      rw [h] at hs
      exact absurd (Chain.joins_iff.mp joins) (Nat.ne_of_lt hs.operator)

theorem unique_cons {level : Chain} {op : Operator} (joins : level.joins op = true)
    (offset : Nat) {operand : Derivation level.operand} {rest : Links level}
    (ihOperand : operand.Unique) (ihRest : rest.Unique) :
    (Links.cons op joins offset operand rest).Unique := by
  intro other scans scans' h hs hs'
  cases other with
  | nil =>
      simp only [Links.tokens, scansOf_nil, scansOf_cons, List.nil_append, List.cons_append] at h
      rw [← h] at hs'
      exact absurd (Chain.joins_iff.mp joins) (Nat.ne_of_lt hs'.operator)
  | cons op' joins' offset' operand' rest' =>
      simp only [Links.tokens, scansOf_cons, scansOf_append, List.cons_append,
        List.append_assoc] at h
      obtain ⟨hop, htail⟩ := List.cons.inj h
      obtain ⟨rfl, hrest⟩ := ihOperand operand' _ _ htail (rest.stops hs) (rest'.stops hs')
      obtain ⟨rfl, rfl⟩ := ihRest rest' scans scans' hrest hs hs'
      cases hop
      exact ⟨rfl, rfl⟩

/-- A phrase at the front of a row is known by the tokens, and so is its derivation. -/
theorem Derivation.unique {phrase : Phrase} (derivation : Derivation phrase) :
    derivation.Unique := by
  refine Derivation.induction (fun _ derivation => derivation.Unique) (fun _ links => links.Unique)
    unique_literal ?_ ?_ unique_nil ?_ derivation
  · intro openedAt inner closedAt ih
    exact unique_group openedAt closedAt ih
  · intro level first rest ihFirst ihRest
    exact unique_chain ihFirst ihRest
  · intro level op joins offset operand rest ihOperand ihRest
    exact unique_cons joins offset ihOperand ihRest

theorem stops_endOfInput (offset : Nat) :
    Stops Phrase.expression.precedence [.ok ⟨.endOfInput, offset⟩] :=
  ⟨_, _, rfl, Nat.zero_lt_one⟩

/-- The grammar is not ambiguous. -/
theorem Derivation.eq_of_tokens_eq {derivation other : Derivation .expression}
    (h : derivation.tokens = other.tokens) : derivation = other :=
  (derivation.unique other _ _ (by rw [h]) (stops_endOfInput 0) (stops_endOfInput 0)).1

/-!
## Longest phrases

Where a phrase stops, no longer one of its kind starts at the same place: each of the others ends
inside it, so it is the longest.
-/

/-- Other phrases of this kind that start a row of scans with this one end in it. -/
def Derivation.Longest {phrase : Phrase} (derivation : Derivation phrase) : Prop :=
  ∀ (other : Derivation phrase) (scans scans' : List Scan),
    scansOf derivation.tokens ++ scans = scansOf other.tokens ++ scans' →
    Stops phrase.precedence scans → other.tokens <+: derivation.tokens

def Links.Longest {level : Chain} (links : Links level) : Prop :=
  ∀ (other : Links level) (scans scans' : List Scan),
    scansOf links.tokens ++ scans = scansOf other.tokens ++ scans' →
    Stops level.precedence scans → other.tokens <+: links.tokens

theorem longest_group (openedAt : Nat) (inner : Derivation .expression) (closedAt : Nat) :
    (Derivation.group openedAt inner closedAt).Longest := by
  intro other scans scans' h _
  cases other with
  | literal value offset => cases h
  | group openedAt' inner' closedAt' =>
      rw [scansOf_group, scansOf_group] at h
      obtain ⟨hopen, hrest⟩ := List.cons.inj h
      -- Both end in front of their closing parenthesis, so they are the same.
      obtain ⟨rfl, hclose⟩ :=
        inner.unique inner' _ _ hrest (stops_rightParen _ _) (stops_rightParen _ _)
      cases hopen
      cases hclose
      exact List.prefix_rfl

/-- An operand with more of a chain behind it. -/
theorem longest_operand {level : Chain} {operand other : Derivation level.operand}
    {rest more : Links level} (ihOperand : operand.Longest) (ihRest : rest.Longest)
    {scans scans' : List Scan}
    (h : scansOf operand.tokens ++ (scansOf rest.tokens ++ scans) =
      scansOf other.tokens ++ (scansOf more.tokens ++ scans'))
    (hs : Stops level.precedence scans) :
    other.tokens ++ more.tokens <+: operand.tokens ++ rest.tokens := by
  cases more with
  | nil =>
      have hprefix := ihOperand other _ _ h (rest.stops hs)
      simpa [Links.tokens] using hprefix.trans (List.prefix_append _ rest.tokens)
  | cons op joins offset next others =>
      obtain ⟨rfl, htail⟩ :=
        operand.unique other _ _ h (rest.stops hs) (stops_operator joins offset _)
      exact (List.prefix_append_right_inj _).mpr (ihRest _ _ _ htail hs)

theorem longest_chain {level : Chain} {first : Derivation level.operand} {rest : Links level}
    (ihFirst : first.Longest) (ihRest : rest.Longest) :
    (Derivation.chain level first rest).Longest := by
  intro other scans scans' h hs
  obtain ⟨first', rest', rfl⟩ := other.exists_chain
  rw [Derivation.tokens_chain, Derivation.tokens_chain, scansOf_append, scansOf_append,
    List.append_assoc, List.append_assoc] at h
  rw [Chain.precedence_phrase] at hs
  rw [Derivation.tokens_chain, Derivation.tokens_chain]
  exact longest_operand ihFirst ihRest h hs

theorem longest_nil (level : Chain) : (Links.nil : Links level).Longest := by
  intro other scans scans' h hs
  cases other with
  | nil => exact List.prefix_rfl
  | cons op joins offset operand rest =>
      simp only [Links.tokens, scansOf_nil, scansOf_cons, List.nil_append, List.cons_append] at h
      rw [h] at hs
      exact absurd (Chain.joins_iff.mp joins) (Nat.ne_of_lt hs.operator)

theorem longest_cons {level : Chain} {op : Operator} (joins : level.joins op = true)
    (offset : Nat) {operand : Derivation level.operand} {rest : Links level}
    (ihOperand : operand.Longest) (ihRest : rest.Longest) :
    (Links.cons op joins offset operand rest).Longest := by
  intro other scans scans' h hs
  cases other with
  | nil => exact List.nil_prefix
  | cons op' joins' offset' operand' rest' =>
      simp only [Links.tokens, scansOf_cons, scansOf_append, List.cons_append,
        List.append_assoc] at h
      obtain ⟨hop, htail⟩ := List.cons.inj h
      cases hop
      exact (List.prefix_cons_inj _).mpr (longest_operand ihOperand ihRest htail hs)

/-- A phrase behind which none of its operators stands is the longest of its kind there. -/
theorem Derivation.longest {phrase : Phrase} (derivation : Derivation phrase) :
    derivation.Longest := by
  refine Derivation.induction (fun _ derivation => derivation.Longest)
    (fun _ links => links.Longest) ?literal ?group ?chain longest_nil ?cons derivation
  case literal =>
    intro value offset other scans scans' h _
    cases other with
    | literal value' offset' =>
        cases h
        exact List.prefix_rfl
    | group openedAt inner closedAt => cases h
  case group =>
    intro openedAt inner closedAt _
    exact longest_group openedAt inner closedAt
  case chain =>
    intro level first rest ihFirst ihRest
    exact longest_chain ihFirst ihRest
  case cons =>
    intro level op joins offset operand rest ihOperand ihRest
    exact longest_cons joins offset ihOperand ihRest

/-!
## Left recursion

The grammar reads a chain from its first operand on. Seen from its last operator a chain is a
phrase of the same kind, that operator, and one operand more, which is how trees are made.
-/

def Links.snoc {level : Chain} (op : Operator) (joins : level.joins op = true) (offset : Nat)
    (operand : Derivation level.operand) : Links level → Links level
  | .nil => .cons op joins offset operand .nil
  | .cons op' joins' offset' operand' rest =>
      .cons op' joins' offset' operand' (rest.snoc op joins offset operand)

section

variable {level : Chain} (op : Operator) (joins : level.joins op = true) (offset : Nat)
  (operand : Derivation level.operand)

theorem Links.tokens_snoc : ∀ links : Links level,
    (links.snoc op joins offset operand).tokens =
      links.tokens ++ ⟨.operator op, offset⟩ :: operand.tokens
  | .nil => by simp [snoc, tokens]
  | .cons op' joins' offset' operand' rest => by
      rw [snoc, tokens, tokens_snoc rest, tokens, List.cons_append, List.append_assoc]

theorem Links.nesting_snoc : ∀ links : Links level,
    (links.snoc op joins offset operand).nesting = max links.nesting operand.nesting
  | .nil => by simp [snoc, nesting]
  | .cons op' joins' offset' operand' rest => by
      rw [snoc, nesting, nesting_snoc rest, nesting, Nat.max_assoc]

theorem Links.tree_snoc : ∀ (links : Links level) (tree : Tree),
    (links.snoc op joins offset operand).tree tree =
      .node op offset (links.tree tree) operand.tree
  | .nil, _ => rfl
  | .cons _ _ _ _ rest, _ => tree_snoc rest _

end

/-- The tokens are those of a phrase with this tree; where most of its parentheses are open at
once, `nesting` are. -/
def Phrase.Yields (phrase : Phrase) (tokens : List Token.Placed) (tree : Tree) (nesting : Nat) :
    Prop :=
  ∃ derivation : Derivation phrase, derivation.tokens = tokens ∧ derivation.tree = tree ∧
    derivation.nesting = nesting

theorem Derivation.yields {phrase : Phrase} (derivation : Derivation phrase) :
    phrase.Yields derivation.tokens derivation.tree derivation.nesting :=
  ⟨derivation, rfl, rfl, rfl⟩

theorem yields_literal (value : Int64) (offset : Nat) :
    Phrase.factor.Yields [⟨.integer value, offset⟩] (.literal value) 0 :=
  (Derivation.literal value offset).yields

namespace Phrase.Yields

variable {tokens : List Token.Placed} {tree : Tree} {nesting : Nat}

theorem group (h : Phrase.expression.Yields tokens tree nesting) (openedAt closedAt : Nat) :
    Phrase.factor.Yields (⟨.leftParen, openedAt⟩ :: (tokens ++ [⟨.rightParen, closedAt⟩])) tree
      (nesting + 1) := by
  rcases h with ⟨inner, rfl, rfl, rfl⟩
  exact (Derivation.group openedAt inner closedAt).yields

/-- An operand alone is a chain. -/
theorem chain (level : Chain) (h : level.operand.Yields tokens tree nesting) :
    level.phrase.Yields tokens tree nesting := by
  rcases h with ⟨operand, rfl, rfl, rfl⟩
  refine ⟨.chain level operand .nil, ?_, ?_, ?_⟩
  · rw [Derivation.tokens_chain, Links.tokens, List.append_nil]
  · rw [Derivation.tree_chain, Links.tree]
  · rw [Derivation.nesting_chain, Links.nesting, Nat.max_zero]

/-- What binds more tightly may stand for what binds less tightly. -/
theorem lift {phrase other : Phrase} (h : phrase.Yields tokens tree nesting)
    (hle : other.precedence ≤ phrase.precedence) : other.Yields tokens tree nesting := by
  have hfactor : Phrase.factor.Yields tokens tree nesting →
      Phrase.term.Yields tokens tree nesting := fun hf => hf.chain .product
  have hterm : Phrase.term.Yields tokens tree nesting →
      Phrase.expression.Yields tokens tree nesting := fun ht => ht.chain .sum
  cases phrase with
  | expression =>
      cases other with
      | expression => exact h
      | term => exact absurd hle (by decide)
      | factor => exact absurd hle (by decide)
  | term =>
      cases other with
      | expression => exact hterm h
      | term => exact h
      | factor => exact absurd hle (by decide)
  | factor =>
      cases other with
      | expression => exact hterm (hfactor h)
      | term => exact hfactor h
      | factor => exact h

/-- A chain, an operator of its level and an operand are a chain. -/
theorem join {level : Chain} {op : Operator} {tokens' : List Token.Placed} {tree' : Tree}
    {nesting' : Nat} (hl : level.phrase.Yields tokens tree nesting)
    (hop : op.precedence = level.precedence) (offset : Nat)
    (hr : level.operand.Yields tokens' tree' nesting') :
    level.phrase.Yields (tokens ++ ⟨.operator op, offset⟩ :: tokens') (.node op offset tree tree')
      (max nesting nesting') := by
  rcases hl with ⟨left, rfl, rfl, rfl⟩
  rcases hr with ⟨operand, rfl, rfl, rfl⟩
  obtain ⟨first, rest, rfl⟩ := left.exists_chain
  have joins := Chain.joins_iff.mpr hop
  refine ⟨.chain level first (rest.snoc op joins offset operand), ?_, ?_, ?_⟩
  · rw [Derivation.tokens_chain, Derivation.tokens_chain, Links.tokens_snoc, List.append_assoc]
  · rw [Derivation.tree_chain, Derivation.tree_chain, Links.tree_snoc]
  · rw [Derivation.nesting_chain, Derivation.nesting_chain, Links.nesting_snoc, Nat.max_assoc]

end Phrase.Yields

def Chain.ofOperator (op : Operator) : Chain :=
  if op.isAdditive then .sum else .product

theorem Chain.precedence_ofOperator (op : Operator) :
    (Chain.ofOperator op).precedence = op.precedence := by
  cases op <;> rfl

end Expression

end Calculator
