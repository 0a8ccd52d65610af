import Calculator.Cursor

/-!
# Lexemes

What a scan takes off a text: a symbol, a number, or a character that is neither. A lexeme is told
from the characters around it alone; that the scanner takes lexemes, and nothing but lexemes and
the spaces in front of them, is shown for one scan here.
-/

namespace Calculator

def Scan.offset : Scan → Nat
  | .ok placed => placed.offset
  | .error error => error.offset

def Scan.ending (offset : Nat) : Scan := .ok ⟨.endOfInput, offset⟩

namespace Cursor

def spaces : List Char := [' ', '\t', '\n', '\r', '\x0c']

def symbols : List Char := ['+', '-', '*', '/', '(', ')']

/-- What may stand between two lexemes. -/
def Gap (chars : List Char) : Prop := ∀ c ∈ chars, c ∈ spaces

/-- All of a row of digits: none stands in front of them or behind them. -/
structure DigitRun (before digits after : List Char) : Prop where
  ne_nil : digits ≠ []
  isDigit : ∀ c ∈ digits, c.isDigit = true
  starts : ∀ c ∈ before.getLast?, c.isDigit = false
  stops : ∀ c ∈ after.head?, c.isDigit = false

/-- What a scan has to find where a lexeme stands between `before` and `after`. -/
inductive Lexeme (before : List Char) : List Char → List Char → Scan → Prop where
  | operator (op : Operator) (after : List Char) :
      Lexeme before [op.symbol] after (.ok ⟨.operator op, Text.width before⟩)
  | leftParen (after : List Char) :
      Lexeme before ['('] after (.ok ⟨.leftParen, Text.width before⟩)
  | rightParen (after : List Char) :
      Lexeme before [')'] after (.ok ⟨.rightParen, Text.width before⟩)
  | integer {digits after : List Char} (run : DigitRun before digits after) (value : Int64)
      (exact : value.toInt = Text.Decimal.value digits) :
      Lexeme before digits after (.ok ⟨.integer value, Text.width before⟩)
  | tooLarge {digits after : List Char} (run : DigitRun before digits after)
      (exceeds : Int64.maxValue.toInt < Text.Decimal.value digits) :
      Lexeme before digits after
        (.error (.integerOverflow (String.ofList digits) (Text.width before)))
  | unrecognized {c : Char} (noSpace : c ∉ spaces) (noDigit : c.isDigit = false)
      (noSymbol : c ∉ symbols) (after : List Char) :
      Lexeme before [c] after (.error (.unrecognizedCharacter c (Text.width before)))

/-- No row of digits goes on from one text into the other. -/
def Apart (before after : List Char) : Prop :=
  ∀ c ∈ before.getLast?, c.isDigit = true → ∀ d ∈ after.head?, d.isDigit = false

/-! ## Classes of characters -/

theorem isSpace_iff {c : Char} : isSpace c = true ↔ c ∈ spaces := by
  simp [isSpace, spaces, or_assoc]

theorem isSpace_eq_false {c : Char} (h : c ∉ spaces) : isSpace c = false := by
  rwa [← isSpace_iff, Bool.not_eq_true] at h

theorem isDigit_of_mem_spaces {c : Char} (h : c ∈ spaces) : c.isDigit = false :=
  isDigit_eq_false_of_isSpace (isSpace_iff.mpr h)

theorem isDigit_of_mem_symbols {c : Char} (h : c ∈ symbols) : c.isDigit = false := by
  have hall : symbols.all (!·.isDigit) = true := by decide
  simpa only [Bool.not_eq_true'] using List.all_eq_true.mp hall c h

theorem isSpace_of_mem_symbols {c : Char} (h : c ∈ symbols) : isSpace c = false := by
  have hall : symbols.all (!isSpace ·) = true := by decide
  simpa only [Bool.not_eq_true'] using List.all_eq_true.mp hall c h

theorem symbol_mem_symbols (op : Operator) : op.symbol ∈ symbols := by
  cases op <;> decide

theorem mem_symbols_iff {c : Char} :
    c ∈ symbols ↔ (∃ op : Operator, op.symbol = c) ∨ c = '(' ∨ c = ')' := by
  constructor
  · intro h
    simp only [symbols, List.mem_cons, List.not_mem_nil, or_false] at h
    rcases h with rfl | rfl | rfl | rfl | rfl | rfl
    · exact .inl ⟨.add, rfl⟩
    · exact .inl ⟨.subtract, rfl⟩
    · exact .inl ⟨.multiply, rfl⟩
    · exact .inl ⟨.divide, rfl⟩
    · exact .inr (.inl rfl)
    · exact .inr (.inr rfl)
  · rintro (⟨op, rfl⟩ | rfl | rfl)
    · exact symbol_mem_symbols op
    · decide
    · decide

def Plain (chars : List Char) : Prop := ∀ c ∈ chars, c ∉ symbols

theorem Gap.plain {gap : List Char} (h : Gap gap) : Plain gap := by
  intro c hc hsymbol
  have hspace := isSpace_iff.mpr (h c hc)
  rw [isSpace_of_mem_symbols hsymbol] at hspace
  cases hspace

theorem DigitRun.plain {before digits after : List Char} (h : DigitRun before digits after) :
    Plain digits := by
  intro c hc hsymbol
  have hdigit := h.isDigit c hc
  rw [isDigit_of_mem_symbols hsymbol] at hdigit
  cases hdigit

/-- A character that is no symbol is no token. -/
theorem ofSymbol?_eq_none {c : Char} (h : c ∉ symbols) : Token.ofSymbol? c = none := by
  have hc := mt mem_symbols_iff.mpr h
  unfold Token.ofSymbol?
  split
  · simp at hc
  · simp at hc
  · rw [Option.map_eq_none_iff]
    cases ho : Operator.ofSymbol? c with
    | none => rfl
    | some op => exact absurd (.inl ⟨op, Operator.symbol_of_ofSymbol? ho⟩) hc

theorem ofSymbol?_symbol (op : Operator) : Token.ofSymbol? op.symbol = some (.operator op) := by
  cases op <;> rfl

/-! ## Lexemes among other characters -/

theorem Apart.nil_left (after : List Char) : Apart [] after := by
  intro c hc
  simp at hc

theorem Apart.nil_right (before : List Char) : Apart before [] := by
  intro c _ _ d hd
  simp at hd

theorem apart_of_last {before : List Char} (h : ∀ c ∈ before.getLast?, c.isDigit = false)
    (after : List Char) : Apart before after := by
  intro c hc hdigit
  rw [h c hc] at hdigit
  cases hdigit

theorem apart_of_first {after : List Char} (h : ∀ c ∈ after.head?, c.isDigit = false)
    (before : List Char) : Apart before after :=
  fun _ _ _ => h

/-- A gap that is not empty keeps rows of digits apart. -/
theorem Apart.gap {passed gap rest : List Char} (h : Apart passed (gap ++ rest)) (hg : Gap gap) :
    Apart (passed ++ gap) rest := by
  rcases List.eq_nil_or_concat gap with rfl | ⟨front, c, rfl⟩
  · simpa using h
  · refine apart_of_last ?_ rest
    intro d hd
    have hmem : c ∈ spaces := hg c (by simp)
    rw [List.concat_eq_append, ← List.append_assoc, List.getLast?_concat] at hd
    cases hd
    exact isDigit_of_mem_spaces hmem

theorem Apart.behind_gap {before gap after : List Char} (h : Apart before after) (hg : Gap gap) :
    Apart before (gap ++ after) := by
  cases gap with
  | nil => exact h
  | cons c gap =>
      have hspace := isDigit_of_mem_spaces (hg c List.mem_cons_self)
      exact apart_of_first (by simpa using hspace) before

/-- A row of digits is all of one if none goes on into it, and it into none. -/
theorem DigitRun.of_apart {before digits after : List Char} (hne : digits ≠ [])
    (hd : ∀ c ∈ digits, c.isDigit = true) (hb : Apart before (digits ++ after))
    (ha : Apart digits after) : DigitRun before digits after := by
  refine ⟨hne, hd, ?_, ?_⟩
  · cases digits with
    | nil => exact absurd rfl hne
    | cons first digits =>
        intro c hc
        cases hcd : c.isDigit with
        | false => rfl
        | true =>
            have hno := hb c hc hcd first rfl
            rw [hd first List.mem_cons_self] at hno
            cases hno
  · have hlast := List.getLast?_eq_some_getLast hne
    exact ha _ hlast (hd _ (List.getLast_mem hne))

namespace Lexeme

variable {before lexeme after : List Char} {scan : Scan}

theorem offset_eq (h : Lexeme before lexeme after scan) : scan.offset = Text.width before := by
  cases h <;> rfl

theorem ne_ending (h : Lexeme before lexeme after scan) (offset : Nat) :
    scan ≠ Scan.ending offset := by
  cases h <;> simp [Scan.ending]

theorem token_ne {placed : Token.Placed} (h : Lexeme before lexeme after (.ok placed)) :
    placed.token ≠ .endOfInput := by
  intro he
  refine h.ne_ending placed.offset ?_
  rw [Scan.ending, ← he]

/-- A lexeme is a row of digits, or one character that is none. -/
theorem run_or_single (h : Lexeme before lexeme after scan) :
    DigitRun before lexeme after ∨ ∃ c, lexeme = [c] ∧ c ∉ spaces ∧ c.isDigit = false := by
  have hsymbol : ∀ {c : Char}, c ∈ symbols → c ∉ spaces ∧ c.isDigit = false := by
    intro c hc
    have hs := isSpace_of_mem_symbols hc
    exact ⟨by rw [← isSpace_iff, hs]; simp, isDigit_of_mem_symbols hc⟩
  cases h with
  | operator op => exact .inr ⟨_, rfl, hsymbol (symbol_mem_symbols op)⟩
  | leftParen => exact .inr ⟨_, rfl, hsymbol (by decide)⟩
  | rightParen => exact .inr ⟨_, rfl, hsymbol (by decide)⟩
  | integer run value exact => exact .inl run
  | tooLarge run exceeds => exact .inl run
  | unrecognized noSpace noDigit noSymbol => exact .inr ⟨_, rfl, noSpace, noDigit⟩

theorem ne_nil (h : Lexeme before lexeme after scan) : lexeme ≠ [] := by
  rcases h.run_or_single with run | ⟨c, rfl, _⟩
  · exact run.ne_nil
  · simp

theorem apart_left (h : Lexeme before lexeme after scan) : Apart before (lexeme ++ after) := by
  rcases h.run_or_single with run | ⟨c, rfl, _, hd⟩
  · exact apart_of_last run.starts _
  · exact apart_of_first (by simpa using hd) _

theorem apart_right (h : Lexeme before lexeme after scan) : Apart (before ++ lexeme) after := by
  rcases h.run_or_single with run | ⟨c, rfl, _, hd⟩
  · exact apart_of_first run.stops _
  · exact apart_of_last (by simpa using hd) _

/-- Whether something is a lexeme does not depend on what stands behind it, unless that is a
digit behind a digit. -/
theorem behind (h : Lexeme before lexeme after scan) {other : List Char}
    (ho : Apart lexeme other) : Lexeme before lexeme other scan := by
  have hrun : DigitRun before lexeme after → DigitRun before lexeme other := fun run =>
    .of_apart run.ne_nil run.isDigit (apart_of_last run.starts _) ho
  cases h with
  | operator op => exact .operator op other
  | leftParen => exact .leftParen other
  | rightParen => exact .rightParen other
  | integer run value exact => exact .integer (hrun run) value exact
  | tooLarge run exceeds => exact .tooLarge (hrun run) exceeds
  | unrecognized noSpace noDigit noSymbol => exact .unrecognized noSpace noDigit noSymbol other

/-- A value that is not negative is scanned as it is written. -/
theorem written {value : Int64} (hv : 0 ≤ value.toInt)
    (hb : Apart before ((Text.Decimal.write value.toInt).toList ++ after))
    (ha : Apart (Text.Decimal.write value.toInt).toList after) :
    Lexeme before (Text.Decimal.write value.toInt).toList after
      (.ok ⟨.integer value, Text.width before⟩) := by
  have hnat : value.toInt = (value.toInt.toNat : Int) := (Int.toNat_of_nonneg hv).symm
  rw [hnat, Text.Decimal.toList_write_natCast] at hb ha ⊢
  have hdigits := List.all_eq_true.mp (Text.Decimal.toDigits_all_isDigit value.toInt.toNat)
  refine .integer (.of_apart Nat.toDigits_ne_nil hdigits hb ha) value ?_
  rw [Text.Decimal.value_toDigits, ← hnat]

end Lexeme

/-! ## One scan -/

theorem scan_gap {gap : List Char} (h : Gap gap) (rest : List Char) (offset : Nat) :
    scan (gap ++ rest) offset = scan rest (offset + Text.width gap) := by
  induction gap generalizing offset with
  | nil => rfl
  | cons c gap ih =>
      have hc : isSpace c = true := isSpace_iff.mpr (h c (by simp))
      have hgap : Gap gap := fun d hd => h d (List.mem_cons_of_mem c hd)
      rw [List.cons_append, scan_space hc, ih hgap, Text.width_cons, Nat.add_assoc]

theorem scan_run {before digits after : List Char} (h : DigitRun before digits after)
    (offset : Nat) :
    scan (digits ++ after) offset =
      (number digits offset, ⟨after, offset + Text.width digits⟩) := by
  cases digits with
  | nil => exact absurd rfl h.ne_nil
  | cons c digits =>
      have hdigits : ∀ d ∈ digits, d.isDigit = true :=
        fun d hd => h.isDigit d (List.mem_cons_of_mem c hd)
      rw [List.cons_append, scan_digit (h.isDigit c (by simp)),
        Text.Decimal.takeWhile_row hdigits h.stops, Text.Decimal.dropWhile_row hdigits h.stops]

theorem number_of_fits {digits : List Char} {value : Int64}
    (h : value.toInt = Text.Decimal.value digits) (offset : Nat) :
    number digits offset = .ok ⟨.integer value, offset⟩ := by
  rw [number, Range.fit?_eq_some_iff.mpr h]

theorem number_of_exceeds {digits : List Char}
    (h : Int64.maxValue.toInt < Text.Decimal.value digits) (offset : Nat) :
    number digits offset = .error (.integerOverflow (String.ofList digits) offset) := by
  rw [number, Range.fit?_eq_none_iff.mpr (fun hf => absurd hf.2 (Int.not_le.mpr h))]

/-- A scan takes the lexeme that it stands in front of. -/
theorem scan_lexeme {before lexeme after : List Char} {found : Scan}
    (h : Lexeme before lexeme after found) :
    scan (lexeme ++ after) (Text.width before) =
      (found, ⟨after, Text.width (before ++ lexeme)⟩) := by
  have hsingle : ∀ {c : Char}, isSpace c = false → c.isDigit = false →
      scan ([c] ++ after) (Text.width before) =
        (symbol c (Text.width before), ⟨after, Text.width (before ++ [c])⟩) := by
    intro c hs hd
    rw [List.singleton_append, scan_symbol hs hd, Text.width_append]
    rfl
  have hsymbol : ∀ {c : Char} {token : Token}, c ∈ symbols → Token.ofSymbol? c = some token →
      scan ([c] ++ after) (Text.width before) =
        (.ok ⟨token, Text.width before⟩, ⟨after, Text.width (before ++ [c])⟩) := by
    intro c token hc ht
    rw [hsingle (isSpace_of_mem_symbols hc) (isDigit_of_mem_symbols hc), symbol, ht]
  cases h with
  | operator op => exact hsymbol (symbol_mem_symbols op) (ofSymbol?_symbol op)
  | leftParen => exact hsymbol (by decide) rfl
  | rightParen => exact hsymbol (by decide) rfl
  | integer run value exact => rw [scan_run run, number_of_fits exact, Text.width_append]
  | tooLarge run exceeds => rw [scan_run run, number_of_exceeds exceeds, Text.width_append]
  | unrecognized noSpace noDigit noSymbol =>
      rw [hsingle (isSpace_eq_false noSpace) noDigit, symbol, ofSymbol?_eq_none noSymbol]

/-- Wherever a text does not start with a space, it starts with a lexeme. -/
theorem exists_lexeme {before : List Char} {c : Char} {rest : List Char} (hs : c ∉ spaces)
    (ha : Apart before (c :: rest)) :
    ∃ lexeme after found, c :: rest = lexeme ++ after ∧ Lexeme before lexeme after found := by
  by_cases hd : c.isDigit = true
  · have hrun : DigitRun before (c :: rest.takeWhile Char.isDigit)
        (rest.dropWhile Char.isDigit) := by
      refine ⟨by simp, ?_, ?_, ?_⟩
      · intro d hmem
        rcases List.mem_cons.mp hmem with rfl | hmem
        · exact hd
        · exact List.all_eq_true.mp List.all_takeWhile d hmem
      · intro b hb
        cases hbd : b.isDigit with
        | false => rfl
        | true => rw [ha b hb hbd c rfl] at hd; cases hd
      · intro d hmem
        have hnot := List.head?_dropWhile_not Char.isDigit rest
        rw [hmem] at hnot
        simpa using hnot
    have htext : c :: rest =
        (c :: rest.takeWhile Char.isDigit) ++ rest.dropWhile Char.isDigit := by
      rw [List.cons_append, List.takeWhile_append_dropWhile]
    by_cases hf : Int64.maxValue.toInt < Text.Decimal.value (c :: rest.takeWhile Char.isDigit)
    · exact ⟨_, _, _, htext, .tooLarge hrun hf⟩
    · have hfits : Range.Fits (Text.Decimal.value (c :: rest.takeWhile Char.isDigit)) := by
        refine ⟨?_, Int.not_lt.mp hf⟩
        exact Int.le_trans (by decide) (Int.natCast_nonneg _)
      exact ⟨_, _, _, htext, .integer hrun _ (Range.toInt_ofInt_of_fits hfits)⟩
  · have hd' : c.isDigit = false := Bool.not_eq_true _ ▸ hd
    by_cases hc : c ∈ symbols
    · rcases mem_symbols_iff.mp hc with ⟨op, rfl⟩ | rfl | rfl
      · exact ⟨_, rest, _, rfl, .operator op rest⟩
      · exact ⟨_, rest, _, rfl, .leftParen rest⟩
      · exact ⟨_, rest, _, rfl, .rightParen rest⟩
    · exact ⟨_, rest, _, rfl, .unrecognized hs hd' hc rest⟩

end Cursor

end Calculator
