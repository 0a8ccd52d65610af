import Calculator.Error

/-!
# Scanning

A cursor stands between what has been scanned of a text and what has not. `next` scans one token
and moves behind it. A scan that fails also moves: behind the character that is no token, or
behind the number that is too large. At the end of the text every scan gives `endOfInput`.
-/

namespace Calculator

/-- What is left of a text, and the byte offset at which that starts. -/
structure Cursor where
  rest : List Char
  offset : Nat
deriving DecidableEq

abbrev Scan := Except LexError Token.Placed

namespace Cursor

def ofText (text : String) : Cursor := ⟨text.toList, 0⟩

/-- The characters that may stand between tokens. They are not all that Unicode counts as white
space. -/
def isSpace (c : Char) : Bool :=
  c == ' ' || c == '\t' || c == '\n' || c == '\r' || c == '\x0c'

def number (digits : List Char) (offset : Nat) : Scan :=
  match Range.fit? (Text.Decimal.value digits) with
  | some value => .ok ⟨.integer value, offset⟩
  | none => .error (.integerOverflow (String.ofList digits) offset)

def symbol (c : Char) (offset : Nat) : Scan :=
  match Token.ofSymbol? c with
  | some token => .ok ⟨token, offset⟩
  | none => .error (.unrecognizedCharacter c offset)

/-- Spaces are passed over, digits are taken as far as they go, and any other character is
scanned alone. -/
def scan : List Char → Nat → Scan × Cursor
  | [], offset => (.ok ⟨.endOfInput, offset⟩, ⟨[], offset⟩)
  | c :: rest, offset =>
      if isSpace c then scan rest (offset + c.utf8Size)
      else if c.isDigit then
        let digits := c :: rest.takeWhile Char.isDigit
        (number digits offset, ⟨rest.dropWhile Char.isDigit, offset + Text.width digits⟩)
      else (symbol c offset, ⟨rest, offset + c.utf8Size⟩)

def next (cursor : Cursor) : Scan × Cursor := scan cursor.rest cursor.offset

/-- The first `count` scans, whether they fail or not. -/
def scans : Nat → Cursor → List Scan
  | 0, _ => []
  | count + 1, cursor => cursor.next.1 :: scans count cursor.next.2

theorem isDigit_eq_false_of_isSpace {c : Char} (h : isSpace c = true) : c.isDigit = false := by
  simp only [isSpace, Bool.or_eq_true, beq_iff_eq] at h
  rcases h with (((rfl | rfl) | rfl) | rfl) | rfl <;> rfl

theorem scan_space {c : Char} (h : isSpace c = true) (rest : List Char) (offset : Nat) :
    scan (c :: rest) offset = scan rest (offset + c.utf8Size) := by
  simp [scan, h]

theorem scan_digit {c : Char} (h : c.isDigit = true) (rest : List Char) (offset : Nat) :
    scan (c :: rest) offset =
      (number (c :: rest.takeWhile Char.isDigit) offset,
        ⟨rest.dropWhile Char.isDigit,
          offset + Text.width (c :: rest.takeWhile Char.isDigit)⟩) := by
  have hb : isSpace c = false := by
    cases hc : isSpace c with
    | false => rfl
    | true => simp [isDigit_eq_false_of_isSpace hc] at h
  simp [scan, h, hb]

theorem scan_symbol {c : Char} (hb : isSpace c = false) (hd : c.isDigit = false)
    (rest : List Char) (offset : Nat) :
    scan (c :: rest) offset = (symbol c offset, ⟨rest, offset + c.utf8Size⟩) := by
  simp [scan, hb, hd]

/-- A scan that does not meet the end takes at least one character. -/
theorem scan_length_lt {chars : List Char} {offset : Nat}
    (h : ∀ placed, (scan chars offset).1 = .ok placed → placed.token ≠ .endOfInput) :
    (scan chars offset).2.rest.length < chars.length := by
  induction chars generalizing offset with
  | nil => simp [scan] at h
  | cons c rest ih =>
      cases hb : isSpace c with
      | true =>
          rw [scan_space hb] at h ⊢
          exact Nat.lt_succ_of_lt (ih h)
      | false =>
          cases hd : c.isDigit with
          | true =>
              rw [scan_digit hd]
              exact Nat.lt_succ_of_le (List.dropWhile_suffix _).length_le
          | false =>
              rw [scan_symbol hb hd]
              exact Nat.lt_succ_self _

theorem next_length_lt {cursor after : Cursor} {placed : Token.Placed}
    (h : cursor.next = (.ok placed, after)) (hp : placed.token ≠ .endOfInput) :
    after.rest.length < cursor.rest.length := by
  have hlt : (scan cursor.rest cursor.offset).2.rest.length < cursor.rest.length := by
    apply scan_length_lt
    intro other ho
    have heq : cursor.next.1 = .ok other := ho
    rw [h] at heq
    cases heq
    exact hp
  have heq : (scan cursor.rest cursor.offset).2 = after := congrArg Prod.snd h
  rwa [heq] at hlt

example : scans 3 (ofText "é7") =
    [.error (.unrecognizedCharacter 'é' 0), .ok ⟨.integer 7, 2⟩, .ok ⟨.endOfInput, 3⟩] := by cbv

end Cursor

/-!
## All tokens of a text

`untilEnd` scans as far as a reader without errors would: to the end of the text, or to the first
scan that fails. `tokenize` keeps the tokens of a text in which no scan fails.
-/

namespace Cursor

def untilEnd (cursor : Cursor) : List Scan :=
  match _ : cursor.next with
  | (.ok placed, after) =>
      if _ : placed.token = .endOfInput then [.ok placed]
      else .ok placed :: untilEnd after
  | (.error error, _) => [.error error]
termination_by cursor.rest.length
decreasing_by exact next_length_lt ‹_› ‹_›

theorem untilEnd_error {cursor after : Cursor} {error : LexError}
    (h : cursor.next = (.error error, after)) : cursor.untilEnd = [.error error] := by
  rw [untilEnd]
  split <;> simp_all

theorem untilEnd_endOfInput {cursor after : Cursor} {placed : Token.Placed}
    (h : cursor.next = (.ok placed, after)) (he : placed.token = .endOfInput) :
    cursor.untilEnd = [.ok placed] := by
  rw [untilEnd]
  split <;> simp_all

theorem untilEnd_token {cursor after : Cursor} {placed : Token.Placed}
    (h : cursor.next = (.ok placed, after)) (he : placed.token ≠ .endOfInput) :
    cursor.untilEnd = .ok placed :: after.untilEnd := by
  rw [untilEnd]
  split <;> simp_all

end Cursor

def gather : List Scan → Except LexError (List Token.Placed)
  | [] => .ok []
  | .error error :: _ => .error error
  | .ok placed :: rest =>
      match gather rest with
      | .ok tokens => .ok (placed :: tokens)
      | .error error => .error error

/-- The last token is `endOfInput`. -/
def tokenize (text : String) : Except LexError (List Token.Placed) :=
  gather (Cursor.ofText text).untilEnd

@[simp] theorem gather_map_ok (tokens : List Token.Placed) :
    gather (tokens.map .ok) = .ok tokens := by
  induction tokens with
  | nil => rfl
  | cons placed rest ih => simp [gather, ih]

theorem gather_eq_ok_iff {scans : List Scan} {tokens : List Token.Placed} :
    gather scans = .ok tokens ↔ scans = tokens.map .ok := by
  constructor
  · intro h
    induction scans generalizing tokens with
    | nil =>
        cases h
        rfl
    | cons scan rest ih =>
        cases scan with
        | error error => cases h
        | ok placed =>
            simp only [gather] at h
            split at h
            · rename_i more hm
              cases h
              simp [ih hm]
            · cases h
  · rintro rfl
    exact gather_map_ok tokens

/-!
## Token listings

One token a line: the offset in a column of four, two blanks, the words for the token. Offsets
that are wider than the column push the words to the right.
-/

namespace Token

def Placed.line (placed : Placed) : String :=
  String.ofList (List.leftpad 4 ' ' (Nat.toDigits 10 placed.offset)) ++ "  " ++ placed.token.text

def listing (tokens : List Placed) : String :=
  String.intercalate "\n" (tokens.map Placed.line)

example : listing [⟨.integer (-5), 3⟩, ⟨.endOfInput, 12345⟩] =
    "   3  integer -5\n12345  end of input" := by decide

end Token

end Calculator
