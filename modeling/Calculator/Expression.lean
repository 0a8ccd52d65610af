import Calculator.Cursor
import Calculator.Semantics

/-!
# Expressions

An expression is read in one pass by descending into its parts, with one token of lookahead. No tree
is built: literals and operator applications go to a semantics as soon as they are complete.
-/

namespace Calculator.Expression

/-!
## Phrases

The grammar has three kinds of phrase:

    expression := term (('+' | '-') term)*
    term       := factor (('*' | '/') factor)*
    factor     := integer | '(' expression ')'

The first two are chains: operands of the next kind, joined by the operators of one level.
-/

inductive Phrase where
  | expression
  | term
  | factor
deriving DecidableEq

/-- A phrase may start with a phrase of smaller rank. -/
def Phrase.rank : Phrase → Nat
  | .expression => 3
  | .term => 2
  | .factor => 1

theorem Phrase.rank_lt (phrase : Phrase) : phrase.rank < 4 := by
  cases phrase <;> decide

inductive Chain where
  | sum
  | product
deriving DecidableEq

namespace Chain

def joins : Chain → Operator → Bool
  | .sum, op => op.isAdditive
  | .product, op => op.isMultiplicative

def operand : Chain → Phrase
  | .sum => .term
  | .product => .factor

end Chain

/-!
## State of a reader

`remaining` bounds what is left to read; it shrinks with each token that is taken.
-/

variable {σ α β : Type}

/-- `scanned` holds the scans made so far, the latest first; `depth` counts open parentheses. -/
structure State (σ : Type) where
  lookahead : Token.Placed
  cursor : Cursor
  depth : Nat
  store : σ
  scanned : List Scan

namespace State

/-- The first token is scanned before anything is read. -/
def ofText (text : String) (store : σ) : Except LexError (State σ) :=
  match (Cursor.ofText text).next with
  | (.ok placed, cursor) => .ok ⟨placed, cursor, 0, store, [.ok placed]⟩
  | (.error error, _) => .error error

def remaining (state : State σ) : Nat :=
  if state.lookahead.token = .endOfInput then 0 else state.cursor.rest.length + 1

def advance (state : State σ) : Except LexError Unit × State σ :=
  match state.cursor.next with
  | (.ok placed, cursor) =>
      (.ok (), { state with
        lookahead := placed, cursor := cursor, scanned := .ok placed :: state.scanned })
  | (.error error, cursor) =>
      (.error error, { state with cursor := cursor, scanned := .error error :: state.scanned })

def enter (state : State σ) : State σ := { state with depth := state.depth + 1 }

def leave (state : State σ) : State σ := { state with depth := state.depth - 1 }

theorem remaining_lt_of_advance {state after : State σ}
    (hl : state.lookahead.token ≠ .endOfInput) (h : state.advance = (.ok (), after)) :
    after.remaining < state.remaining := by
  unfold advance at h
  split at h
  · rename_i placed cursor hn
    cases h
    simp only [remaining, if_neg hl]
    split
    · omega
    · rename_i hp
      have hlt := Cursor.next_length_lt hn hp
      omega
  · cases h

@[simp] theorem remaining_with_store (state : State σ) (store : σ) :
    ({ state with store := store } : State σ).remaining = state.remaining := rfl

@[simp] theorem remaining_enter (state : State σ) : state.enter.remaining = state.remaining := rfl

end State

/-!
## Readings

The outcome of reading a phrase from a given state. A failed reading keeps the state in which it
failed. A completed one says that less remains than at the start, which is why chains end.

A reader gives back the reading alone, or with an account of what it did for it. What it needs of
either is an `Account`, so that its rules stand once.
-/

inductive Reading (σ α : Type) (start : State σ) where
  | done (value : α) (state : State σ) (shorter : state.remaining < start.remaining)
  | failed (error : Error) (state : State σ)

namespace Reading

@[inline] def andThen {start first : State σ} (reading : Reading σ α first)
    (next : (value : α) → (state : State σ) → state.remaining < first.remaining →
      Reading σ β start) : Reading σ β start :=
  match reading with
  | .done value state shorter => next value state shorter
  | .failed error state => .failed error state

@[simp] theorem andThen_done {start first : State σ} (value : α) (state : State σ)
    (shorter : state.remaining < first.remaining)
    (next : (value : α) → (state : State σ) → state.remaining < first.remaining →
      Reading σ β start) :
    (done value state shorter).andThen next = next value state shorter := rfl

@[simp] theorem andThen_failed {start first : State σ} (error : Error) (state : State σ)
    (next : (value : α) → (state : State σ) → state.remaining < first.remaining →
      Reading σ β start) :
    (failed error state : Reading σ α first).andThen next = failed error state := rfl

end Reading

namespace State

/-- Take the lookahead, which has to be of the kind `expected`, and scan the token behind it. -/
def take (expected : Token.Kind) (hx : expected ≠ .endOfInput) (state : State σ) :
    Reading σ Token.Placed state :=
  if hk : state.lookahead.token.kind = expected then
    match h : state.advance with
    | (.ok (), after) =>
        .done state.lookahead after (remaining_lt_of_advance (by
          intro hl
          simp [hl, Token.kind] at hk
          exact hx hk.symm) h)
    | (.error error, after) => .failed (.lexical error) after
  else .failed (.syntactic (.unexpectedToken expected state.lookahead)) state

theorem shorter_of_leave {after last start : State σ}
    (ha : after.remaining < last.leave.remaining) (h : last.remaining < start.remaining) :
    after.remaining < start.remaining := Nat.lt_trans ha h

end State

/-- `R α start` holds a reading from `start` on, and may hold more. -/
class Account (R : Type → State σ → Type) where
  done {α : Type} {start : State σ} (value : α) (state : State σ)
    (shorter : state.remaining < start.remaining) : R α start
  failed {α : Type} {start : State σ} (error : Error) (state : State σ) : R α start
  andThen {α β : Type} {start first : State σ} (reading : R α first)
    (next : (value : α) → (state : State σ) → state.remaining < first.remaining → R β start) :
    R β start
  take (expected : Token.Kind) (hx : expected ≠ .endOfInput) (state : State σ) :
    R Token.Placed state
  /-- The reading is one of the whole `phrase`. -/
  ofPhrase {α : Type} (phrase : Phrase) {start : State σ} (reading : R α start) : R α start

@[inline] instance : Account (Reading σ) where
  done := .done
  failed := .failed
  andThen := Reading.andThen
  take := State.take
  ofPhrase _ _ reading := reading

/-!
## Reading phrases

Each kind of phrase is read by descending into its parts. A literal and an operator application
go to the semantics as soon as they are complete, so no tree is built: a literal once the token
behind it has been scanned, an application once its right operand has been read. Chains group to
the left.
-/

/-- How many parentheses may be open at once. -/
def maxDepth : Nat := 256

theorem kind_operator_ne_endOfInput (op : Operator) :
    Token.Kind.operator op ≠ .endOfInput := by
  simp

theorem kind_rightParen_ne_endOfInput : Token.Kind.rightParen ≠ .endOfInput := by
  decide

section

open Account

variable (R : Type → State σ → Type) [Account R] (S : Semantics σ α)

/-- What closes a parenthesis that was opened at `openedAt`, behind its expression. -/
@[specialize] def closeAs (openedAt : Nat) (inner : α) (last start : State σ)
    (h : last.remaining < start.remaining) : R α start :=
  if last.lookahead.token = .rightParen then
    andThen (take .rightParen kind_rightParen_ne_endOfInput last.leave) fun _ after ha =>
      done inner after (State.shorter_of_leave ha h)
  else failed (.syntactic (.unclosedParenthesis openedAt last.lookahead)) last.leave

mutual

@[specialize] def readAs (phrase : Phrase) (state : State σ) : R α state :=
  match phrase with
  | .expression =>
      ofPhrase .expression <| andThen (readAs .term state) fun left after h =>
        chainAs .sum left after state h
  | .term =>
      ofPhrase .term <| andThen (readAs .factor state) fun left after h =>
        chainAs .product left after state h
  | .factor => ofPhrase .factor (factorAs state)
termination_by 5 * state.remaining + phrase.rank + 1
decreasing_by all_goals (simp only [Phrase.rank]; omega)

@[specialize] def factorAs (state : State σ) : R α state :=
  match state.lookahead.token.literal? with
  | some value =>
      andThen (take .integer (by decide) state) fun _ after h =>
        let (output, store) := S.integer value after.store
        done output { after with store := store } h
  | none =>
      if state.lookahead.token = .leftParen then parenthesizedAs state
      else failed (.syntactic (.expectedOperand state.lookahead)) state
termination_by 5 * state.remaining + 1
decreasing_by omega

/-- The limit on nesting is looked at before the text behind the parenthesis is. -/
@[specialize] def parenthesizedAs (state : State σ) : R α state :=
  if state.depth < maxDepth then
    andThen (take .leftParen (by decide) state) fun opened inside hi =>
      andThen (readAs .expression inside.enter) fun inner last hl =>
        closeAs R opened.offset inner last state (Nat.lt_trans hl hi)
  else failed (.syntactic (.nestingTooDeep maxDepth state.lookahead.offset)) state
termination_by 5 * state.remaining
decreasing_by simp only [Phrase.rank, State.remaining_enter]; omega

/-- The rest of a chain behind the operands that `left` stands for. -/
@[specialize] def chainAs (level : Chain) (left : α) (state start : State σ)
    (h : state.remaining < start.remaining) : R α start :=
  match state.lookahead.token.operator? with
  | some op =>
      if level.joins op then
        andThen (take (.operator op) (kind_operator_ne_endOfInput op) state) fun mark behind hb =>
          andThen (readAs level.operand behind) fun right after ha =>
            match S.binary op left right mark.offset after.store with
            | (.ok output, store) =>
                chainAs level output { after with store := store } start
                  (Nat.lt_trans ha (Nat.lt_trans hb h))
            | (.error error, store) => failed (.evaluation error) { after with store := store }
      else done left state h
  | none => done left state h
termination_by 5 * state.remaining
decreasing_by
  · have hr := level.operand.rank_lt
    omega
  · simp only [State.remaining_with_store]
    omega

end

/-- One expression and nothing behind it. -/
@[specialize] def readWholeAs (state : State σ) : R α state :=
  if state.lookahead.token = .endOfInput then failed (.syntactic .emptyExpression) state
  else
    andThen (readAs R S .expression state) fun value after h =>
      if after.lookahead.token = .endOfInput then done value after h
      else failed (.syntactic (.trailingInput after.lookahead)) after

end

/-! ### The reader alone -/

section

def close (openedAt : Nat) (inner : α) (last start : State σ)
    (h : last.remaining < start.remaining) : Reading σ α start :=
  closeAs (Reading σ) openedAt inner last start h

variable (S : Semantics σ α)

def read (phrase : Phrase) (state : State σ) : Reading σ α state :=
  readAs (Reading σ) S phrase state

def chain (level : Chain) (left : α) (state start : State σ)
    (h : state.remaining < start.remaining) : Reading σ α start :=
  chainAs (Reading σ) S level left state start h

def readWhole (state : State σ) : Reading σ α state := readWholeAs (Reading σ) S state

end

/-!
## Whole expressions

A text is one expression and nothing behind it. A run keeps what a semantics left in its store
and every scan that was made, whatever the result.
-/

/-- The scans stand in the order in which they were made. -/
structure Run (σ α : Type) where
  result : Except Error α
  store : σ
  scans : List Scan

def Run.started (run : Run σ α) : Bool :=
  match run.scans with
  | .error _ :: _ => false
  | _ => true

def State.run (state : State σ) (result : Except Error α) : Run σ α :=
  ⟨result, state.store, state.scanned.reverse⟩

def Run.unstarted (store : σ) (error : LexError) : Run σ α :=
  ⟨.error (.lexical error), store, [.error error]⟩

def Reading.run {start : State σ} : Reading σ α start → Run σ α
  | .done value state _ => state.run (.ok value)
  | .failed error state => state.run (.error error)

def State.parse (S : Semantics σ α) (state : State σ) : Run σ α := (readWhole S state).run

def parse (S : Semantics σ α) (text : String) (store : σ) : Run σ α :=
  match State.ofText text store with
  | .ok state => state.parse S
  | .error error => .unstarted store error

end Calculator.Expression
