import Calculator.Proofs.Concatenation
import Calculator.Proofs.Lines
import Calculator.Proofs.Messages

/-!
# Listings read back

Each line of a listing is one token: behind the blanks of the column stand the digits of the offset,
and what stands behind two more blanks are the words for the token. Blanks within those words come
too late to be taken for either.
-/

namespace Calculator.Token

def Placed.ofLine? (line : List Char) : Option Placed :=
  let entry := line.dropWhile (· == ' ')
  match entry.dropWhile Char.isDigit with
  | ' ' :: ' ' :: words =>
      match Text.Decimal.readNat? (entry.takeWhile Char.isDigit), ofText? words with
      | some offset, some token => some ⟨token, offset⟩
      | _, _ => none
  | _ => none

def ofListing? (text : String) : Option (List Placed) :=
  (Text.lines text.toList).mapM Placed.ofLine?

/-! ## Lines -/

namespace Placed

theorem toList_line (placed : Placed) :
    placed.line.toList =
      List.replicate (4 - (Nat.toDigits 10 placed.offset).length) ' ' ++
        (Nat.toDigits 10 placed.offset ++ ' ' :: ' ' :: placed.token.text.toList) := by
  unfold line
  rw [String.toList_append, String.toList_append, String.toList_ofList, List.leftpad,
    List.append_assoc, List.append_assoc]
  rfl

@[simp] theorem ofLine?_line (placed : Placed) : ofLine? placed.line.toList = some placed := by
  have hentry : placed.line.toList.dropWhile (· == ' ') =
      Nat.toDigits 10 placed.offset ++ ' ' :: ' ' :: placed.token.text.toList := by
    rw [toList_line]
    apply Text.Decimal.dropWhile_row
    · intro c hc
      simp [List.eq_of_mem_replicate hc]
    · intro c hc
      have hdigit := Text.Decimal.isDigit_of_mem_head? hc
      rw [beq_eq_false_iff_ne]
      rintro rfl
      cases hdigit
  have hblank : ∀ c ∈ (' ' :: ' ' :: placed.token.text.toList).head?, c.isDigit = false := by
    rintro c ⟨⟩
    rfl
  simp only [ofLine?, hentry, Text.Decimal.takeWhile_toDigits _ hblank,
    Text.Decimal.dropWhile_toDigits _ hblank, Text.Decimal.readNat?_toDigits, ofText?_text]

end Placed

theorem ne_of_isDigit {c : Char} (h : c.isDigit = true) : c ≠ '\n' ∧ c ≠ '\r' := by
  constructor
  all_goals
    rintro rfl
    cases h

theorem ne_of_mem_text {token : Token} : ∀ c ∈ token.text.toList, c ≠ '\n' ∧ c ≠ '\r' := by
  cases token with
  | integer value =>
      have hword : ∀ c ∈ "integer ".toList, c ≠ '\n' ∧ c ≠ '\r' := by simp
      intro c h
      rw [text, String.toList_append] at h
      rcases List.mem_append.mp h with h | h
      · exact hword c h
      · rcases Text.Decimal.isDigit_or_minus_of_mem_write h with hdigit | rfl
        · exact ne_of_isDigit hdigit
        · decide
  | operator op => cases op <;> simp [text, Kind.text, Operator.text, Operator.symbol]
  | leftParen => simp [text, Kind.text]
  | rightParen => simp [text, Kind.text]
  | endOfInput => simp [text, Kind.text]

theorem Placed.ne_of_mem_line {placed : Placed} :
    ∀ c ∈ placed.line.toList, c ≠ '\n' ∧ c ≠ '\r' := by
  intro c h
  rw [toList_line] at h
  simp only [List.mem_append, List.mem_cons] at h
  rcases h with hpad | hdigits | rfl | rfl | htext
  · rw [List.eq_of_mem_replicate hpad]
    decide
  · exact ne_of_isDigit (Nat.isDigit_of_mem_toDigits (by decide) (by decide) hdigits)
  · decide
  · decide
  · exact ne_of_mem_text c htext

theorem Placed.line_ne_nil (placed : Placed) : placed.line.toList ≠ [] := by
  simp [toList_line]

/-- The lines of a listing are those of its tokens. -/
theorem lines_listing (tokens : List Placed) :
    Text.lines (listing tokens).toList = tokens.map fun placed => placed.line.toList := by
  induction tokens with
  | nil => rfl
  | cons placed tokens ih =>
      have hplain := placed.ne_of_mem_line
      cases tokens with
      | nil => exact Text.splitLines_unended (fun h => (hplain _ h).1 rfl) placed.line_ne_nil
      | cons next tokens =>
          have hlisting : (listing (placed :: next :: tokens)).toList =
              placed.line.toList ++ '\n' :: (listing (next :: tokens)).toList := by
            simp [listing, String.intercalate_cons_cons]
          rw [hlisting, Text.lines, Text.splitLines_line _ _ hplain, ← Text.lines, ih]
          rfl

theorem ofListing?_listing (tokens : List Placed) : ofListing? (listing tokens) = some tokens := by
  rw [ofListing?, lines_listing]
  induction tokens with
  | nil => rfl
  | cons placed tokens ih => rw [List.map_cons, List.mapM_cons, Placed.ofLine?_line, ih]; rfl

/-- A listing tells its tokens, and that of a text has a line for each of them, the last for the end
of the text. -/
theorem listing_lossless :
    (∀ tokens : List Placed, ofListing? (listing tokens) = some tokens) ∧
    (∀ first second : List Placed, listing first = listing second ↔ first = second) ∧
    ∀ (text : String) (tokens : List Placed), tokenize text = .ok tokens →
      (Text.lines (listing tokens).toList).length = tokens.length ∧
      (Text.lines (listing tokens).toList).getLast? =
        some (List.leftpad 4 ' ' (Nat.toDigits 10 text.utf8ByteSize) ++
          "  end of input".toList) := by
  refine ⟨ofListing?_listing, ?_, ?_⟩
  · intro first second
    constructor
    · intro h
      have hfirst := ofListing?_listing first
      rw [h, ofListing?_listing] at hfirst
      exact (Option.some.inj hfirst).symm
    · rintro rfl
      rfl
  · intro text tokens h
    rw [lines_listing]
    constructor
    · exact List.length_map ..
    · rcases exists_tokens h with ⟨front, rfl⟩
      rw [List.map_append, List.map_singleton, List.getLast?_concat, Placed.line,
        String.append_assoc, String.toList_append, String.toList_ofList]
      rfl

end Calculator.Token
