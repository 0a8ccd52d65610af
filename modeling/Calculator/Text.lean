/-!
# Text

What the calculator needs of characters: the bytes that they take, white space, lines, texts between
quotes, and decimal numerals.
-/

namespace Calculator.Text

/-!
## Byte widths

Positions in a text are counted in bytes of its UTF-8 form.
-/

def width : List Char → Nat
  | [] => 0
  | c :: rest => c.utf8Size + width rest

@[simp] theorem width_nil : width [] = 0 := rfl

@[simp] theorem width_cons (c : Char) (rest : List Char) :
    width (c :: rest) = c.utf8Size + width rest := rfl

@[simp] theorem width_append (a b : List Char) : width (a ++ b) = width a + width b := by
  induction a with
  | nil => simp
  | cons c rest ih => simp [ih, Nat.add_assoc]

theorem length_le_width (chars : List Char) : chars.length ≤ width chars := by
  induction chars with
  | nil => simp
  | cons c rest ih =>
      have hc := c.utf8Size_pos
      simp only [List.length_cons, width_cons]
      omega

theorem utf8ByteSize_ofList (chars : List Char) :
    (String.ofList chars).utf8ByteSize = width chars := by
  induction chars with
  | nil => rfl
  | cons c rest ih =>
      have hsplit : String.ofList (c :: rest) = String.singleton c ++ String.ofList rest := by
        rw [String.singleton_eq_ofList, ← String.ofList_append, List.singleton_append]
      rw [width_cons, ← ih, hsplit, String.utf8ByteSize_append, String.utf8ByteSize_singleton]

theorem width_toList (text : String) : width text.toList = text.utf8ByteSize := by
  rw [← utf8ByteSize_ofList, String.ofList_toList]

/-!
## White space

The characters with the Unicode property White_Space, as ranges of code points.
-/

def whiteSpaceRanges : List (Nat × Nat) :=
  [(0x9, 0xD), (0x20, 0x20), (0x85, 0x85), (0xA0, 0xA0), (0x1680, 0x1680), (0x2000, 0x200A),
    (0x2028, 0x2029), (0x202F, 0x202F), (0x205F, 0x205F), (0x3000, 0x3000)]

def isWhiteSpace (c : Char) : Bool :=
  whiteSpaceRanges.any fun range => range.1 ≤ c.toNat && c.toNat ≤ range.2

def isBlank (text : List Char) : Bool := text.all isWhiteSpace

/-- There are 25 of them. -/
example : (whiteSpaceRanges.map fun range => range.2 + 1 - range.1).sum = 25 := rfl

/-!
## Lines

A line ends at a line feed. One carriage return right before the line feed belongs to the line
end; any other is part of its line. The last line needs no line end, and a text that ends with a
line end has no empty line behind it. The rule is the same for characters and for bytes.
-/

section

variable {α : Type} [DecidableEq α]

def consLine (a : α) : List (List α) → List (List α)
  | [] => [[a]]
  | line :: lines => (a :: line) :: lines

def splitLines (feed carriage : α) : List α → List (List α)
  | [] => []
  | a :: rest =>
      if a = feed then [] :: splitLines feed carriage rest
      else if a = carriage ∧ rest.head? = some feed then splitLines feed carriage rest
      else consLine a (splitLines feed carriage rest)

def lines (text : List Char) : List (List Char) := splitLines '\n' '\r' text

def byteLines (bytes : List UInt8) : List (List UInt8) := splitLines 10 13 bytes

def decode? (bytes : List UInt8) : Option String := String.fromUTF8? ⟨⟨bytes⟩⟩

theorem splitLines_line {feed carriage : α} (line rest : List α)
    (h : ∀ a ∈ line, a ≠ feed ∧ a ≠ carriage) :
    splitLines feed carriage (line ++ feed :: rest) =
      line :: splitLines feed carriage rest := by
  induction line with
  | nil => simp [splitLines]
  | cons a line ih =>
      have ha := h a (by simp)
      have hl := ih fun b hb => h b (List.mem_cons_of_mem a hb)
      simp [splitLines, ha.1, ha.2, hl, consLine]

end

example : lines ['a', '\r', '\n', '\n', 'b', '\r'] = [['a'], [], ['b', '\r']] := by decide

/-!
## Quoted text

Records show a text between quotes on one line: quotes and backslashes have a backslash in front,
and control characters are written by name or number. Only accepted expressions are quoted, and
those are ASCII; a character beyond ASCII stands for itself.
-/

/-- A control character without a name, by its code in base sixteen. -/
def escapeCode (c : Char) : List Char :=
  ['\\', 'u', '\x7b'] ++ Nat.toDigits 16 c.toNat ++ ['\x7d']

def escape (c : Char) : List Char :=
  match c with
  | '"' => ['\\', '"']
  | '\\' => ['\\', '\\']
  | '\n' => ['\\', 'n']
  | '\r' => ['\\', 'r']
  | '\t' => ['\\', 't']
  | '\x00' => ['\\', '0']
  | c => if c.toNat < 0x20 ∨ c.toNat = 0x7F then escapeCode c else [c]

def quote (text : String) : String :=
  String.ofList ('"' :: text.toList.flatMap escape ++ ['"'])

example : quote "1\x0c+\t\"" = "\"1\\u\x7bc\x7d+\\t\\\"\"" := by decide

/-!
## Decimal numerals

Integers are written in base ten with a minus sign in front of negative ones. Reading allows
more: leading zeros and a plus sign. `read?_write` says that reading gives back what was written.
-/

namespace Decimal

def value (digits : List Char) : Nat := Nat.ofDigitChars 10 digits 0

def write (n : Int) : String := toString n

def readNat? (digits : List Char) : Option Nat :=
  if digits ≠ [] ∧ digits.all Char.isDigit then some (value digits) else none

/-- One sign may stand in front of the digits. -/
def read? : List Char → Option Int
  | '-' :: digits => (readNat? digits).map fun n => -(n : Int)
  | '+' :: digits => (readNat? digits).map fun n => (n : Int)
  | digits => (readNat? digits).map fun n => (n : Int)

@[simp] theorem value_toDigits (n : Nat) : value (Nat.toDigits 10 n) = n :=
  Nat.ofDigitChars_toDigits (by decide) (by decide)

theorem toDigits_all_isDigit (n : Nat) : (Nat.toDigits 10 n).all Char.isDigit = true :=
  List.all_eq_true.mpr fun _ h => Nat.isDigit_of_mem_toDigits (by decide) (by decide) h

theorem isDigit_of_mem_head? {n : Nat} {rest : List Char} {c : Char}
    (h : c ∈ (Nat.toDigits 10 n ++ rest).head?) : c.isDigit = true := by
  cases hd : Nat.toDigits 10 n with
  | nil => exact absurd hd Nat.toDigits_ne_nil
  | cons d digits =>
      rw [hd] at h
      cases h
      exact List.all_eq_true.mp (toDigits_all_isDigit n) c (by simp [hd])

@[simp] theorem readNat?_toDigits (n : Nat) : readNat? (Nat.toDigits 10 n) = some n := by
  simp only [readNat?, toDigits_all_isDigit, value_toDigits]
  rw [if_pos ⟨Nat.toDigits_ne_nil, trivial⟩]

theorem toList_toString (n : Nat) : (toString n).toList = Nat.toDigits 10 n := Nat.toList_repr

theorem toList_write_natCast (n : Nat) : (write n).toList = Nat.toDigits 10 n := by
  show (Int.repr (Int.ofNat n)).toList = _
  simp [Int.repr]

theorem toList_write_negSucc (n : Nat) :
    (write (Int.negSucc n)).toList = '-' :: Nat.toDigits 10 (n + 1) := by
  show (Int.repr (Int.negSucc n)).toList = _
  simp [Int.repr]

theorem read?_of_head {c : Char} {digits : List Char} (h : c.isDigit = true) :
    read? (c :: digits) = (readNat? (c :: digits)).map fun n => (n : Int) := by
  unfold read?
  split
  · rename_i heq
    cases heq
    simp at h
  · rename_i heq
    cases heq
    simp at h
  · rfl

theorem read?_toDigits (n : Nat) : read? (Nat.toDigits 10 n) = some (n : Int) := by
  cases h : Nat.toDigits 10 n with
  | nil => exact absurd h Nat.toDigits_ne_nil
  | cons c digits =>
      have hc : c.isDigit = true :=
        Nat.isDigit_of_mem_toDigits (b := 10) (n := n) (by decide) (by decide) (by simp [h])
      rw [read?_of_head hc, ← h, readNat?_toDigits]
      rfl

theorem read?_write (n : Int) : read? (write n).toList = some n := by
  cases n with
  | ofNat n =>
      rw [Int.ofNat_eq_natCast, toList_write_natCast, read?_toDigits]
  | negSucc n =>
      rw [toList_write_negSucc]
      simp only [read?, readNat?_toDigits]
      congr 1

theorem isDigit_or_minus_of_mem_write {n : Int} {c : Char} (h : c ∈ (write n).toList) :
    c.isDigit = true ∨ c = '-' := by
  cases n with
  | ofNat n =>
      rw [Int.ofNat_eq_natCast, toList_write_natCast] at h
      exact .inl (List.all_eq_true.mp (toDigits_all_isDigit n) c h)
  | negSucc n =>
      rw [toList_write_negSucc] at h
      rcases List.mem_cons.mp h with rfl | h
      · exact .inr rfl
      · exact .inl (List.all_eq_true.mp (toDigits_all_isDigit (n + 1)) c h)

/-! ### Rows of characters

A row of characters of one class ends where a character of another class stands.
-/

section

variable {p : Char → Bool} {row rest : List Char}

theorem takeWhile_row (hrow : ∀ c ∈ row, p c = true) (hrest : ∀ c ∈ rest.head?, p c = false) :
    (row ++ rest).takeWhile p = row := by
  rw [List.takeWhile_append_of_pos hrow]
  cases rest with
  | nil => simp
  | cons c rest => simp [hrest c rfl]

theorem dropWhile_row (hrow : ∀ c ∈ row, p c = true) (hrest : ∀ c ∈ rest.head?, p c = false) :
    (row ++ rest).dropWhile p = rest := by
  rw [List.dropWhile_append_of_pos hrow]
  cases rest with
  | nil => rfl
  | cons c rest => simp [hrest c rfl]

end

theorem takeWhile_toDigits (n : Nat) {rest : List Char}
    (h : ∀ c ∈ rest.head?, c.isDigit = false) :
    (Nat.toDigits 10 n ++ rest).takeWhile Char.isDigit = Nat.toDigits 10 n :=
  takeWhile_row (List.all_eq_true.mp (toDigits_all_isDigit n)) h

theorem dropWhile_toDigits (n : Nat) {rest : List Char}
    (h : ∀ c ∈ rest.head?, c.isDigit = false) :
    (Nat.toDigits 10 n ++ rest).dropWhile Char.isDigit = rest :=
  dropWhile_row (List.all_eq_true.mp (toDigits_all_isDigit n)) h

end Decimal

end Calculator.Text
