import Calculator.Text

/-!
# Texts as rows of lines

The lines of a text, told from where its line feeds and carriage returns stand. Splitting a text
gives these lines and no others.
-/

namespace Calculator.Text

variable {α : Type} {feed carriage : α}

/-- Lines and their ends make up `text`. Only the last line may have no end, and then it is not
empty. -/
inductive Lined (feed carriage : α) : List α → List (List α) → Prop where
  | empty : Lined feed carriage [] []
  | unended {line : List α} (noFeed : feed ∉ line) (nonempty : line ≠ []) :
      Lined feed carriage line [line]
  | byFeed {line rest : List α} {lines : List (List α)} (noFeed : feed ∉ line)
      (noReturn : carriage ∉ line.getLast?) (further : Lined feed carriage rest lines) :
      Lined feed carriage (line ++ feed :: rest) (line :: lines)
  | byReturn {line rest : List α} {lines : List (List α)} (noFeed : feed ∉ line)
      (further : Lined feed carriage rest lines) :
      Lined feed carriage (line ++ carriage :: feed :: rest) (line :: lines)

theorem mem_getLast?_append {front back : List α} {a : α} (h : a ∈ back.getLast?) :
    a ∈ (front ++ back).getLast? := by
  rw [List.getLast?_append, Option.mem_def.mp h, Option.some_or]
  rfl

/-- A line feed between two texts ends the last line of the first. If there is no such line then it
is an empty line by itself. -/
theorem Lined.append_feed {front back : List α} {first rest : List (List α)}
    (hfront : Lined feed carriage front first) (hreturn : carriage ∉ front.getLast?)
    (hback : Lined feed carriage back rest) :
    Lined feed carriage (front ++ feed :: back) (first ++ rest) ∨
      Lined feed carriage (front ++ feed :: back) (first ++ [] :: rest) := by
  induction hfront with
  | empty => exact .inr (.byFeed List.not_mem_nil (by simp) hback)
  | unended noFeed nonempty => exact .inl (.byFeed noFeed hreturn hback)
  | @byFeed line further _ noFeed noReturn _ ih =>
      have hlast : carriage ∉ further.getLast? := by
        rw [List.append_cons] at hreturn
        exact mt mem_getLast?_append hreturn
      rw [List.append_assoc]
      exact (ih hlast).imp (.byFeed noFeed noReturn) (.byFeed noFeed noReturn)
  | @byReturn line further _ noFeed _ ih =>
      have hlast : carriage ∉ further.getLast? := by
        rw [List.append_cons, List.append_cons] at hreturn
        exact mt mem_getLast?_append hreturn
      rw [List.append_assoc]
      exact (ih hlast).imp (.byReturn noFeed) (.byReturn noFeed)

/-- Every text has lines. -/
theorem exists_lined (feed carriage : α) (text : List α) :
    ∃ lines, Lined feed carriage text lines := by
  by_cases hm : feed ∈ text
  · obtain ⟨line, rest, rfl, hl⟩ := List.eq_append_cons_of_mem hm
    obtain ⟨lines, hlines⟩ := exists_lined feed carriage rest
    by_cases hr : carriage ∈ line.getLast?
    · obtain ⟨line, rfl⟩ := List.getLast?_eq_some_iff.mp hr
      refine ⟨line :: lines, ?_⟩
      rw [List.append_assoc]
      exact .byReturn (fun h => hl (List.mem_append_left _ h)) hlines
    · exact ⟨line :: lines, .byFeed hl hr hlines⟩
  · cases text with
    | nil => exact ⟨[], .empty⟩
    | cons a text => exact ⟨[a :: text], .unended hm (List.cons_ne_nil a text)⟩
termination_by text.length

/-! ### Splitting -/

section

variable [DecidableEq α]

theorem splitLines_cons {a : α} {rest : List α} (ha : feed ≠ a)
    (hr : a = carriage → rest.head? ≠ some feed) :
    splitLines feed carriage (a :: rest) = consLine a (splitLines feed carriage rest) := by
  rw [splitLines, if_neg ha.symm, if_neg fun h => hr h.1 h.2]

theorem splitLines_unended {line : List α} (hl : feed ∉ line) (hne : line ≠ []) :
    splitLines feed carriage line = [line] := by
  induction line with
  | nil => exact absurd rfl hne
  | cons a line ih =>
      have hrest : feed ∉ line := List.not_mem_of_not_mem_cons hl
      have hhead : line.head? ≠ some feed := fun h => hrest (List.mem_of_head? h)
      rw [splitLines_cons (List.ne_of_not_mem_cons hl) fun _ => hhead]
      cases line with
      | nil => rfl
      | cons b line =>
          rw [ih hrest (List.cons_ne_nil b line)]
          rfl

theorem splitLines_feed {line : List α} (hl : feed ∉ line) (hr : carriage ∉ line.getLast?)
    (rest : List α) :
    splitLines feed carriage (line ++ feed :: rest) =
      line :: splitLines feed carriage rest := by
  induction line with
  | nil => simp [splitLines]
  | cons a line ih =>
      have hrest : feed ∉ line := List.not_mem_of_not_mem_cons hl
      have hlast : carriage ∉ line.getLast? := by
        cases line with
        | nil => simp
        | cons b line => rwa [List.getLast?_cons_cons] at hr
      have hjoined : a = carriage → (line ++ feed :: rest).head? ≠ some feed := by
        rintro rfl
        cases line with
        | nil => exact absurd rfl hr
        | cons b line => exact fun h => hrest (List.mem_of_head? h)
      rw [List.cons_append, splitLines_cons (List.ne_of_not_mem_cons hl) hjoined, ih hrest hlast]
      rfl

theorem splitLines_return (hne : carriage ≠ feed) {line : List α} (hl : feed ∉ line)
    (rest : List α) :
    splitLines feed carriage (line ++ carriage :: feed :: rest) =
      line :: splitLines feed carriage rest := by
  induction line with
  | nil => simp [splitLines, hne]
  | cons a line ih =>
      have hrest : feed ∉ line := List.not_mem_of_not_mem_cons hl
      have hhead : (line ++ carriage :: feed :: rest).head? ≠ some feed := by
        cases line with
        | nil => simpa using hne
        | cons b line => exact fun h => hrest (List.mem_of_head? h)
      rw [List.cons_append, splitLines_cons (List.ne_of_not_mem_cons hl) fun _ => hhead, ih hrest]
      rfl

/-- A text has only one row of lines. -/
theorem Lined.splitLines_eq (hne : carriage ≠ feed) {text : List α} {lines : List (List α)}
    (h : Lined feed carriage text lines) : splitLines feed carriage text = lines := by
  induction h with
  | empty => rfl
  | unended noFeed nonempty => exact splitLines_unended noFeed nonempty
  | byFeed noFeed noReturn further ih => rw [splitLines_feed noFeed noReturn, ih]
  | byReturn noFeed further ih => rw [splitLines_return hne noFeed, ih]

theorem lined_splitLines (hne : carriage ≠ feed) (text : List α) :
    Lined feed carriage text (splitLines feed carriage text) := by
  obtain ⟨lines, h⟩ := exists_lined feed carriage text
  rwa [h.splitLines_eq hne]

/-! ### Carriage returns -/

def withReturns (feed carriage : α) (text : List α) : List α :=
  text.flatMap fun a => if a = feed then [carriage, feed] else [a]

theorem withReturns_of_notMem {line : List α} (hl : feed ∉ line) :
    withReturns feed carriage line = line := by
  induction line with
  | nil => rfl
  | cons a line ih =>
      have ha : a ≠ feed := (List.ne_of_not_mem_cons hl).symm
      rw [withReturns, List.flatMap_cons, if_neg ha, ← withReturns,
        ih (List.not_mem_of_not_mem_cons hl)]
      rfl

theorem withReturns_feed {line : List α} (hl : feed ∉ line) (rest : List α) :
    withReturns feed carriage (line ++ feed :: rest) =
      line ++ carriage :: feed :: withReturns feed carriage rest := by
  have hline : withReturns feed carriage line = line := withReturns_of_notMem hl
  unfold withReturns at hline ⊢
  rw [List.flatMap_append, hline, List.flatMap_cons, if_pos rfl]
  rfl

/-- Line ends may be written either way. -/
theorem Lined.withReturns {text : List α} {lines : List (List α)}
    (h : Lined feed carriage text lines) (hc : carriage ∉ text) :
    Lined feed carriage (withReturns feed carriage text) lines := by
  induction h with
  | empty => exact .empty
  | unended noFeed nonempty =>
      rw [withReturns_of_notMem noFeed]
      exact .unended noFeed nonempty
  | byFeed noFeed noReturn further ih =>
      rw [withReturns_feed noFeed]
      exact .byReturn noFeed (ih fun hm => hc (by simp [hm]))
  | byReturn noFeed further ih => exact absurd (by simp) hc

end

/-!
## Lines of encoded texts

In UTF-8 a line feed and a carriage return are one byte each, and no other character has such a
byte. So a text and its bytes have the same lines, and bytes are a text if each of their lines is.
-/

def encode (chars : List Char) : List UInt8 := chars.flatMap String.utf8EncodeChar

def IsText (bytes : List UInt8) : Prop := ByteArray.IsValidUTF8 ⟨⟨bytes⟩⟩

instance (bytes : List UInt8) : Decidable (IsText bytes) :=
  inferInstanceAs (Decidable (ByteArray.IsValidUTF8 _))

@[simp] theorem encode_nil : encode [] = [] := rfl

@[simp] theorem encode_cons (c : Char) (chars : List Char) :
    encode (c :: chars) = String.utf8EncodeChar c ++ encode chars := rfl

@[simp] theorem encode_append (front back : List Char) :
    encode (front ++ back) = encode front ++ encode back := List.flatMap_append

theorem encode_eq_nil_iff {chars : List Char} : encode chars = [] ↔ chars = [] := by
  cases chars <;> simp

theorem utf8Encode_eq (chars : List Char) : chars.utf8Encode = ⟨⟨encode chars⟩⟩ := by
  rw [ByteArray.ext_iff, List.utf8Encode, List.data_toByteArray]
  rfl

theorem isText_iff {bytes : List UInt8} : IsText bytes ↔ ∃ chars, encode chars = bytes := by
  constructor
  · rintro ⟨chars, h⟩
    rw [utf8Encode_eq] at h
    cases h
    exact ⟨chars, rfl⟩
  · rintro ⟨chars, rfl⟩
    exact .intro chars (utf8Encode_eq chars).symm

theorem decode?_encode (chars : List Char) :
    decode? (encode chars) = some (String.ofList chars) := by
  have hbytes : (⟨⟨encode chars⟩⟩ : ByteArray) = (String.ofList chars).toByteArray := by
    rw [String.toByteArray_ofList, utf8Encode_eq]
  rw [decode?, hbytes, String.fromUTF8?, dif_pos (String.ofList chars).isValidUTF8]
  rfl

theorem decode?_of_not_isText {bytes : List UInt8} (h : ¬ IsText bytes) : decode? bytes = none :=
  dif_neg h

theorem data_toUTF8 (text : String) : text.toUTF8.data.toList = encode text.toList := by
  rw [String.toUTF8_eq_toByteArray, ← String.utf8Encode_toList, utf8Encode_eq]

theorem exists_toUTF8 {bytes : List UInt8} (h : IsText bytes) :
    ∃ text : String, text.toUTF8.data.toList = bytes := by
  obtain ⟨chars, rfl⟩ := isText_iff.mp h
  exact ⟨.ofList chars, by rw [data_toUTF8, String.toList_ofList]⟩

/-! ### Line ends -/

/-- No byte of a character that takes several is below 128. -/
theorem toNat_of_mem_utf8EncodeChar {c : Char} {byte : UInt8}
    (hm : byte ∈ String.utf8EncodeChar c) (hb : byte.toNat < 128) : c.toNat = byte.toNat := by
  simp only [String.utf8EncodeChar] at hm
  split at hm
  · rw [List.mem_singleton.mp hm, UInt8.toNat_ofNat', Nat.mod_eq_of_lt (by omega)]
    rfl
  · exfalso
    have hhigh : ∀ {low high : Nat}, 128 ≤ low → low + high < 256 →
        byte ≠ UInt8.ofNat (high + low) := by
      rintro low high hlow hhigh rfl
      rw [UInt8.toNat_ofNat', Nat.mod_eq_of_lt (by omega)] at hb
      omega
    split at hm
    · simp only [List.mem_cons, List.not_mem_nil, or_false] at hm
      rcases hm with hm | hm <;> exact hhigh (by omega) (by omega) hm
    · split at hm
      · simp only [List.mem_cons, List.not_mem_nil, or_false] at hm
        rcases hm with hm | hm | hm <;> exact hhigh (by omega) (by omega) hm
      · simp only [List.mem_cons, List.not_mem_nil, or_false] at hm
        rcases hm with hm | hm | hm | hm <;> exact hhigh (by omega) (by omega) hm

/-- A character that is one byte stands wherever its byte does. -/
theorem mem_of_mem_encode {chars : List Char} {c : Char} {byte : UInt8}
    (hc : c.toNat = byte.toNat) (hb : byte.toNat < 128) (hm : byte ∈ encode chars) :
    c ∈ chars := by
  obtain ⟨d, hd, hbyte⟩ := List.mem_flatMap.mp hm
  have heq : d.toNat = c.toNat := (toNat_of_mem_utf8EncodeChar hbyte hb).trans hc.symm
  rwa [← Char.toNat_inj.mp heq]

theorem feed_mem_of_mem_encode {chars : List Char} (h : 10 ∈ encode chars) : '\n' ∈ chars :=
  mem_of_mem_encode rfl (by decide) h

theorem getLast?_encode {chars : List Char} (h : 13 ∈ (encode chars).getLast?) :
    '\r' ∈ chars.getLast? := by
  rcases List.eq_nil_or_concat chars with rfl | ⟨front, c, rfl⟩
  · simp at h
  · have hne : String.utf8EncodeChar c ≠ [] := String.utf8EncodeChar_ne_nil
    rw [List.concat_eq_append, encode_append, encode_cons, encode_nil, List.append_nil,
      List.getLast?_append, List.getLast?_eq_some_getLast hne, Option.some_or,
      ← List.getLast?_eq_some_getLast hne] at h
    have hc : c.toNat = 13 := toNat_of_mem_utf8EncodeChar (List.mem_of_getLast? h) (by decide)
    rw [List.concat_eq_append, List.getLast?_concat,
      Char.toNat_inj.mp (show c.toNat = '\r'.toNat from hc)]
    rfl

theorem Lined.encoded {text : List Char} {lines : List (List Char)}
    (h : Lined '\n' '\r' text lines) :
    Lined 10 13 (encode text) (lines.map encode) := by
  induction h with
  | empty => exact .empty
  | unended noFeed nonempty =>
      refine .unended (mt feed_mem_of_mem_encode noFeed) ?_
      rwa [Ne, encode_eq_nil_iff]
  | byFeed noFeed noReturn further ih =>
      rw [encode_append, encode_cons]
      exact .byFeed (mt feed_mem_of_mem_encode noFeed) (mt getLast?_encode noReturn) ih
  | byReturn noFeed further ih =>
      rw [encode_append, encode_cons, encode_cons]
      exact .byReturn (mt feed_mem_of_mem_encode noFeed) ih

/-- The lines of a text in UTF-8 are the lines of the text. -/
theorem byteLines_encode (text : List Char) :
    byteLines (encode text) = (lines text).map encode :=
  (lined_splitLines (by decide) text).encoded.splitLines_eq (by decide)

/-- Lines in UTF-8 make up bytes in UTF-8. -/
theorem isText_of_lined {bytes : List UInt8} {lines : List (List UInt8)}
    (h : Lined 10 13 bytes lines) (hl : ∀ line ∈ lines, IsText line) : IsText bytes := by
  simp only [isText_iff] at hl ⊢
  induction h with
  | empty => exact ⟨[], rfl⟩
  | unended noFeed nonempty => exact hl _ List.mem_cons_self
  | byFeed noFeed noReturn further ih =>
      obtain ⟨chars, rfl⟩ := hl _ List.mem_cons_self
      obtain ⟨more, rfl⟩ := ih fun line hm => hl line (List.mem_cons_of_mem _ hm)
      exact ⟨chars ++ '\n' :: more, by rw [encode_append]; rfl⟩
  | byReturn noFeed further ih =>
      obtain ⟨chars, rfl⟩ := hl _ List.mem_cons_self
      obtain ⟨more, rfl⟩ := ih fun line hm => hl line (List.mem_cons_of_mem _ hm)
      exact ⟨chars ++ '\r' :: '\n' :: more, by rw [encode_append]; rfl⟩

theorem texts_or_exists_bad (lines : List (List UInt8)) :
    (∀ line ∈ lines, IsText line) ∨
      ∃ (texts : List (List Char)) (bad : List UInt8) (rest : List (List UInt8)),
        lines = texts.map encode ++ bad :: rest ∧ ¬ IsText bad := by
  induction lines with
  | nil => exact .inl (by simp)
  | cons line lines ih =>
      by_cases hline : IsText line
      · rcases ih with hall | ⟨texts, bad, rest, rfl, hbad⟩
        · exact .inl (List.forall_mem_cons.mpr ⟨hline, hall⟩)
        · obtain ⟨chars, rfl⟩ := isText_iff.mp hline
          exact .inr ⟨chars :: texts, bad, rest, rfl, hbad⟩
      · exact .inr ⟨[], line, lines, rfl, hline⟩

/-- Bytes that are not a text have a first line that is not. -/
theorem exists_bad_line {bytes : List UInt8} (h : ¬ IsText bytes) :
    ∃ (texts : List (List Char)) (bad : List UInt8) (rest : List (List UInt8)),
      Lined 10 13 bytes (texts.map encode ++ bad :: rest) ∧ ¬ IsText bad := by
  have hlined := lined_splitLines (show (13 : UInt8) ≠ 10 by decide) bytes
  rcases texts_or_exists_bad (byteLines bytes) with hall | ⟨texts, bad, rest, heq, hbad⟩
  · exact absurd (isText_of_lined hlined hall) h
  · exact ⟨texts, bad, rest, heq ▸ hlined, hbad⟩

end Calculator.Text
