import Calculator.Error

/-!
# What messages tell

A message is the place of an error and its reason. A reason begins with words that no other kind of
error has, and goes on with the details of the error. All of them can be read off the message again,
so different errors have different messages. So can a token off the words for it.
-/

namespace Calculator

/-! ## Words for tokens -/

namespace Token

def numberless : List Token :=
  Operator.all.map .operator ++ [.leftParen, .rightParen, .endOfInput]

def ofText? (words : List Char) : Option Token :=
  if "integer ".toList <+: words then
    ((Text.Decimal.read? (words.drop "integer ".length)).bind Range.fit?).map .integer
  else numberless.find? fun token => token.text.toList == words

theorem ofText?_integer (value : Int64) :
    ofText? (integer value).text.toList = some (.integer value) := by
  have htext : (integer value).text.toList =
      "integer ".toList ++ (Text.Decimal.write value.toInt).toList := String.toList_append
  rw [htext, ofText?, if_pos (List.prefix_append _ _), ← String.length_toList, List.drop_left,
    Text.Decimal.read?_write, Option.bind_some, Range.fit?_toInt, Option.map_some]

@[simp] theorem ofText?_text (token : Token) : ofText? token.text.toList = some token := by
  cases token with
  | integer value => exact ofText?_integer value
  | operator op => cases op <;> decide
  | leftParen => decide
  | rightParen => decide
  | endOfInput => decide

end Token

/-! ## Kinds of errors -/

namespace Error

/-- Errors of one kind have one opening. -/
inductive Kind where
  | unrecognizedCharacter
  | integerOverflow
  | emptyExpression
  | unexpectedToken (expected : Token.Kind)
  | expectedOperand
  | unclosedParenthesis
  | trailingInput
  | nestingTooDeep
  | divisionByZero
  | overflow
deriving DecidableEq

def kind : Error → Kind
  | .lexical (.unrecognizedCharacter _ _) => .unrecognizedCharacter
  | .lexical (.integerOverflow _ _) => .integerOverflow
  | .syntactic .emptyExpression => .emptyExpression
  | .syntactic (.unexpectedToken expected _) => .unexpectedToken expected
  | .syntactic (.expectedOperand _) => .expectedOperand
  | .syntactic (.unclosedParenthesis _ _) => .unclosedParenthesis
  | .syntactic (.trailingInput _) => .trailingInput
  | .syntactic (.nestingTooDeep _ _) => .nestingTooDeep
  | .evaluation (.divisionByZero _) => .divisionByZero
  | .evaluation (.overflow _ _) => .overflow

namespace Kind

def sample : Kind → Error
  | .unrecognizedCharacter => .lexical (.unrecognizedCharacter '?' 0)
  | .integerOverflow => .lexical (.integerOverflow "" 0)
  | .emptyExpression => .syntactic .emptyExpression
  | .unexpectedToken expected => .syntactic (.unexpectedToken expected ⟨.endOfInput, 0⟩)
  | .expectedOperand => .syntactic (.expectedOperand ⟨.endOfInput, 0⟩)
  | .unclosedParenthesis => .syntactic (.unclosedParenthesis 0 ⟨.endOfInput, 0⟩)
  | .trailingInput => .syntactic (.trailingInput ⟨.rightParen, 0⟩)
  | .nestingTooDeep => .syntactic (.nestingTooDeep 0 0)
  | .divisionByZero => .evaluation (.divisionByZero 0)
  | .overflow => .evaluation (.overflow .add 0)

def opening (kind : Kind) : String := kind.sample.reason.opening

def all : List Kind :=
  [.unrecognizedCharacter, .integerOverflow, .emptyExpression, .expectedOperand,
    .unclosedParenthesis, .trailingInput, .nestingTooDeep, .divisionByZero, .overflow,
    .unexpectedToken .integer, .unexpectedToken .leftParen, .unexpectedToken .rightParen,
    .unexpectedToken .endOfInput] ++ Operator.all.map fun op => .unexpectedToken (.operator op)

theorem mem_all (kind : Kind) : kind ∈ all := by
  cases kind with
  | unexpectedToken expected =>
      cases expected with
      | operator op => cases op <;> decide
      | integer | leftParen | rightParen | endOfInput => decide
  | _ => decide

/-- No opening can be taken for the beginning of another. -/
theorem eq_of_isPrefix {first second : Kind}
    (h : first.opening.toList <+: second.opening.toList) : first = second := by
  have hall : ∀ first ∈ all, ∀ second ∈ all,
      first.opening.toList <+: second.opening.toList → first = second := by
    decide +kernel
  exact hall first (mem_all first) second (mem_all second) h

end Kind

theorem opening_eq (error : Error) : error.reason.opening = error.kind.opening := by
  rcases error with (_ | _) | (_ | _ | _ | _ | _ | _) | (_ | _)
  all_goals rfl

theorem toList_reason (error : Error) :
    error.reason.text.toList = error.kind.opening.toList ++ error.reason.details.toList := by
  rw [Reason.text, String.toList_append, opening_eq]

/-- The opening of a reason shows where its details begin. -/
theorem parts_eq_of_reason_eq {first second : Error}
    (h : first.reason.text = second.reason.text) :
    first.kind = second.kind ∧ first.reason.details = second.reason.details := by
  have hlist := congrArg String.toList h
  rw [toList_reason, toList_reason] at hlist
  have hfirst : first.kind.opening.toList <+:
      second.kind.opening.toList ++ second.reason.details.toList := ⟨_, hlist⟩
  have hkind : first.kind = second.kind := by
    rcases List.prefix_or_prefix_of_prefix hfirst (List.prefix_append _ _) with h | h
    · exact Kind.eq_of_isPrefix h
    · exact (Kind.eq_of_isPrefix h).symm
  rw [hkind] at hlist
  exact ⟨hkind, String.toList_inj.mp (List.append_cancel_left hlist)⟩

/-- No other error has the reason of an empty expression. -/
theorem eq_of_reason_eq {error : Error}
    (h : error.reason.text = (Error.syntactic .emptyExpression).reason.text) :
    error = .syntactic .emptyExpression := by
  have hkind : error.kind = .emptyExpression := (parts_eq_of_reason_eq h).1
  rcases error with (_ | _) | (_ | _ | _ | _ | _ | _) | (_ | _)
  case syntactic.emptyExpression => rfl
  all_goals cases hkind

/-! ## Reading -/

/-- A token in front of the full stop of a reason. -/
def found? (words : List Char) (offset : Nat) : Option Token.Placed :=
  (Token.ofText? words.dropLast).map fun token => ⟨token, offset⟩

/-- The error at `offset` of a kind that has these words for its details. -/
def ofDetails? (offset : Nat) (words : List Char) : Kind → Option Error
  | .unrecognizedCharacter =>
      words.head?.map fun character => .lexical (.unrecognizedCharacter character offset)
  | .integerOverflow =>
      let literal := words.take (words.length - " is too large.".length)
      some (.lexical (.integerOverflow (String.ofList literal) offset))
  | .emptyExpression => some (.syntactic .emptyExpression)
  | .unexpectedToken expected =>
      (found? words offset).map fun found => .syntactic (.unexpectedToken expected found)
  | .expectedOperand => (found? words offset).map fun found => .syntactic (.expectedOperand found)
  | .unclosedParenthesis =>
      let openedAt := Text.Decimal.value (words.takeWhile Char.isDigit)
      (found? ((words.dropWhile Char.isDigit).drop ", found ".length) offset).map fun found =>
        .syntactic (.unclosedParenthesis openedAt found)
  | .trailingInput => (found? words offset).map fun found => .syntactic (.trailingInput found)
  | .nestingTooDeep =>
      let limit := Text.Decimal.value (words.takeWhile Char.isDigit)
      some (.syntactic (.nestingTooDeep limit offset))
  | .divisionByZero => some (.evaluation (.divisionByZero offset))
  | .overflow =>
      (words.head?.bind Operator.ofSymbol?).map fun op => .evaluation (.overflow op offset)

theorem found?_text (found : Token.Placed) :
    found? (found.token.text ++ ".").toList found.offset = some found := by
  have hwords : (found.token.text ++ ".").toList = found.token.text.toList ++ ['.'] :=
    String.toList_append
  rw [hwords, found?, List.dropLast_concat, Token.ofText?_text, Option.map_some]

theorem ofDetails?_unclosedParenthesis (openedAt : Nat) (found : Token.Placed) :
    ofDetails? found.offset
        (SyntaxError.unclosedParenthesis openedAt found).reason.details.toList
        .unclosedParenthesis =
      some (.syntactic (.unclosedParenthesis openedAt found)) := by
  have hwords : (SyntaxError.unclosedParenthesis openedAt found).reason.details.toList =
      Nat.toDigits 10 openedAt ++ (", found ".toList ++ (found.token.text ++ ".").toList) := by
    rw [SyntaxError.reason, String.toList_append, String.toList_append,
      Text.Decimal.toList_toString]
  have hcomma : ∀ c ∈ (", found ".toList ++ (found.token.text ++ ".").toList).head?,
      c.isDigit = false := by
    rintro c ⟨⟩
    rfl
  rw [hwords]
  simp only [ofDetails?]
  rw [Text.Decimal.takeWhile_toDigits _ hcomma, Text.Decimal.dropWhile_toDigits _ hcomma,
    ← String.length_toList, List.drop_left, found?_text, Text.Decimal.value_toDigits]
  rfl

theorem ofDetails?_nestingTooDeep (limit offset : Nat) :
    ofDetails? offset (SyntaxError.nestingTooDeep limit offset).reason.details.toList
        .nestingTooDeep =
      some (.syntactic (.nestingTooDeep limit offset)) := by
  have hwords : (SyntaxError.nestingTooDeep limit offset).reason.details.toList =
      Nat.toDigits 10 limit ++ " levels.".toList := by
    rw [SyntaxError.reason, String.toList_append, Text.Decimal.toList_toString]
  have hspace : ∀ c ∈ " levels.".toList.head?, c.isDigit = false := by
    rintro c ⟨⟩
    rfl
  rw [hwords]
  simp only [ofDetails?]
  rw [Text.Decimal.takeWhile_toDigits _ hspace, Text.Decimal.value_toDigits]

theorem ofDetails?_details (error : Error) :
    ofDetails? error.offset error.reason.details.toList error.kind = some error := by
  have hfound (found : Token.Placed) (wrong : Token.Placed → Error) :
      (found? (found.token.text ++ ".").toList found.offset).map wrong = some (wrong found) := by
    rw [found?_text, Option.map_some]
  rcases error with (⟨character, offset⟩ | ⟨literal, offset⟩) |
    (_ | ⟨expected, found⟩ | found | ⟨openedAt, found⟩ | found | ⟨limit, offset⟩) |
    (offset | ⟨op, offset⟩)
  case lexical.unrecognizedCharacter =>
    rw [reason, LexError.reason, String.toList_append, Char.toString, String.toList_singleton]
    rfl
  case lexical.integerOverflow =>
    have hlength : (literal ++ " is too large.").toList.length - " is too large.".length =
        literal.toList.length := by
      rw [String.toList_append, List.length_append, ← String.length_toList, Nat.add_sub_cancel]
    show some _ = _
    rw [reason, LexError.reason, hlength, String.toList_append, List.take_left,
      String.ofList_toList]
    rfl
  case syntactic.emptyExpression => rfl
  case syntactic.unexpectedToken => exact hfound found _
  case syntactic.expectedOperand => exact hfound found _
  case syntactic.unclosedParenthesis => exact ofDetails?_unclosedParenthesis openedAt found
  case syntactic.trailingInput => exact hfound found _
  case syntactic.nestingTooDeep => exact ofDetails?_nestingTooDeep limit offset
  case evaluation.divisionByZero => rfl
  case evaluation.overflow =>
    rw [reason, EvaluationError.reason, Operator.text, String.toList_append, Char.toString,
      String.toList_singleton]
    show ((some op.symbol).bind Operator.ofSymbol?).map _ = _
    rw [Option.bind_some, Operator.ofSymbol?_symbol]
    rfl

/-! ## Messages -/

theorem toList_message (error : Error) :
    error.message.toList =
      "Error at offset ".toList ++
        (Nat.toDigits 10 error.offset ++ (": ".toList ++ error.reason.text.toList)) := by
  unfold message
  rw [String.toList_append, String.toList_append, String.toList_append,
    Text.Decimal.toList_toString, List.append_assoc, List.append_assoc]

theorem message_eq_iff {first second : Error} :
    first.message = second.message ↔
      first.offset = second.offset ∧ first.reason.text = second.reason.text := by
  constructor
  · intro h
    have hcolon : ∀ (reason : String), ∀ c ∈ (": ".toList ++ reason.toList).head?,
        c.isDigit = false := by
      rintro reason c ⟨⟩
      rfl
    have hlist := congrArg String.toList h
    rw [toList_message, toList_message] at hlist
    have hrest := List.append_cancel_left hlist
    have hdigits := congrArg (List.takeWhile Char.isDigit) hrest
    rw [Text.Decimal.takeWhile_toDigits _ (hcolon _),
      Text.Decimal.takeWhile_toDigits _ (hcolon _)] at hdigits
    rw [hdigits] at hrest
    have hreason := List.append_cancel_left (List.append_cancel_left hrest)
    have hoffset := congrArg Text.Decimal.value hdigits
    rw [Text.Decimal.value_toDigits, Text.Decimal.value_toDigits] at hoffset
    exact ⟨hoffset, String.toList_inj.mp hreason⟩
  · rintro ⟨hoffset, hreason⟩
    unfold message
    rw [hoffset, hreason]

theorem eq_of_message_eq {first second : Error} (h : first.message = second.message) :
    first = second := by
  rcases message_eq_iff.mp h with ⟨hoffset, hreason⟩
  rcases parts_eq_of_reason_eq hreason with ⟨hkind, hdetails⟩
  have hfirst := ofDetails?_details first
  rw [hoffset, hkind, hdetails, ofDetails?_details] at hfirst
  exact (Option.some.inj hfirst).symm

/-- A message tells its error from every other, and begins with the place of the error. -/
theorem message_identifies (first second : Error) :
    (first.message = second.message ↔ first = second) ∧
      ("Error at offset " ++ Text.Decimal.write first.offset ++ ": ").toList <+:
        first.message.toList := by
  constructor
  · constructor
    · exact eq_of_message_eq
    · rintro rfl
      rfl
  · refine ⟨first.reason.text.toList, ?_⟩
    rw [toList_message, String.toList_append, String.toList_append,
      Text.Decimal.toList_write_natCast, List.append_assoc, List.append_assoc]

end Error

end Calculator
