import Calculator.Proofs.OnDemand
import Calculator.Proofs.Relocation

/-!
# Texts side by side

A text is scanned in two parts as it is scanned whole, wherever no number is cut: the scanner keeps
nothing but its place. Where a number is cut the parts are scanned otherwise.
-/

namespace Calculator

/-! ## Tokens of rows -/

/-- The tokens of two rows, if the first has no error. -/
theorem gather_append (first second : List Scan) :
    gather (first ++ second) =
      match gather first with
      | .ok tokens => (gather second).map (tokens ++ ·)
      | .error error => .error error := by
  induction first with
  | nil =>
      simp only [List.nil_append, gather]
      cases gather second <;> rfl
  | cons scan first ih =>
      cases scan with
      | error error => rfl
      | ok placed =>
          rw [List.cons_append, gather, ih, gather]
          cases gather first with
          | error error => rfl
          | ok tokens => cases gather second <;> rfl

theorem gather_relocate (place : Nat → Nat) (scans : List Scan) :
    gather (scans.map (Scan.relocate place)) =
      ((gather scans).map (List.map (·.relocate place))).mapError (·.relocate place) := by
  induction scans with
  | nil => rfl
  | cons scan scans ih =>
      cases scan with
      | error error => rfl
      | ok placed =>
          rw [List.map_cons, Scan.relocate, gather, ih, gather]
          cases gather scans <;> rfl

theorem tokenize_eq_map {text : String} {found : List Scan}
    (h : Cursor.Tiling [] text.toList found) :
    tokenize text = (gather found).map (· ++ [⟨.endOfInput, text.utf8ByteSize⟩]) := by
  rw [tokenize_of_tiling h, gather_append]
  cases gather found <;> rfl

namespace Cursor

/-! ## All scans -/

/-- A scan that fails leaves less of the text too. -/
theorem next_length_lt_of_error {cursor after : Cursor} {error : LexError}
    (h : cursor.next = (.error error, after)) : after.rest.length < cursor.rest.length := by
  have hlt : (scan cursor.rest cursor.offset).2.rest.length < cursor.rest.length := by
    apply scan_length_lt
    intro placed hp
    have herror : cursor.next.1 = .ok placed := hp
    rw [h] at herror
    cases herror
  have heq : (scan cursor.rest cursor.offset).2 = after := congrArg Prod.snd h
  rwa [heq] at hlt

/-- All scans up to the one that meets the end of the text, going on behind those that fail. -/
def throughEnd (cursor : Cursor) : List Scan :=
  match _ : cursor.next with
  | (.ok placed, after) =>
      if _ : placed.token = .endOfInput then [.ok placed]
      else .ok placed :: throughEnd after
  | (.error error, after) => .error error :: throughEnd after
termination_by cursor.rest.length
decreasing_by
  · exact next_length_lt ‹_› ‹_›
  · exact next_length_lt_of_error ‹_›

theorem throughEnd_endOfInput {cursor after : Cursor} {offset : Nat}
    (h : cursor.next = (Scan.ending offset, after)) :
    cursor.throughEnd = [Scan.ending offset] := by
  rw [throughEnd]
  split <;> simp_all [Scan.ending]

theorem throughEnd_lexeme {cursor after : Cursor} {scan : Scan}
    (h : cursor.next = (scan, after)) (hs : ∀ offset, scan ≠ Scan.ending offset) :
    cursor.throughEnd = scan :: after.throughEnd := by
  rw [throughEnd]
  split
  · rename_i placed behind hnext
    rw [h] at hnext
    cases hnext
    have hne : placed.token ≠ .endOfInput := fun he => hs placed.offset (by rw [Scan.ending, ← he])
    rw [dif_neg hne]
  · rename_i error behind hnext
    rw [h] at hnext
    cases hnext
    rfl

theorem Tiling.throughEnd_eq {passed text : List Char} {found : List Scan}
    (h : Tiling passed text found) :
    throughEnd ⟨text, Text.width passed⟩ =
      found ++ [Scan.ending (Text.width (passed ++ text))] := by
  induction h with
  | gap passed blank => exact throughEnd_endOfInput (next_gap blank)
  | @lexeme passed gap lexeme rest scan others blank first further ih =>
      rw [throughEnd_lexeme (next_lexeme blank first) first.ne_ending, ih]
      simp only [List.append_assoc, List.cons_append]

theorem throughEnd_of_tiling {text : String} {found : List Scan}
    (h : Tiling [] text.toList found) :
    (ofText text).throughEnd = found ++ [Scan.ending text.utf8ByteSize] := by
  rw [← Text.width_toList]
  exact h.throughEnd_eq

end Cursor

/-! ## Two texts -/

open Cursor (Apart Lexeme Tiling)

theorem Cursor.Tiling.beside {front back : String} {first second : List Scan}
    (hf : Tiling [] front.toList first) (hs : Tiling [] back.toList second)
    (ha : Apart front.toList back.toList) :
    Tiling [] (front ++ back).toList
      (first ++ second.map (Scan.relocate (front.utf8ByteSize + ·))) := by
  rw [String.toList_append]
  refine hf.append (hs.relocate ha ?_)
  intro n
  rw [Text.width_nil, Nat.zero_add, List.nil_append, Text.width_toList]

theorem exists_tokens {text : String} {tokens : List Token.Placed}
    (h : tokenize text = .ok tokens) :
    ∃ front, tokens = front ++ [⟨.endOfInput, text.utf8ByteSize⟩] := by
  obtain ⟨found, htiling⟩ := Cursor.exists_tiling_of_text text
  rw [tokenize_eq_map htiling] at h
  cases hg : gather found with
  | error error =>
      rw [hg] at h
      cases h
  | ok front =>
      rw [hg] at h
      cases h
      exact ⟨front, rfl⟩

/-- The tokens of the second text are only looked for if the first has no error. -/
theorem tokenize_append {front back : String} (ha : Apart front.toList back.toList) :
    tokenize (front ++ back) =
      match tokenize front with
      | .ok tokens =>
          ((tokenize back).map fun more =>
              tokens.dropLast ++ more.map (·.relocate (front.utf8ByteSize + ·))).mapError
            (·.relocate (front.utf8ByteSize + ·))
      | .error error => .error error := by
  obtain ⟨first, hfirst⟩ := Cursor.exists_tiling_of_text front
  obtain ⟨second, hsecond⟩ := Cursor.exists_tiling_of_text back
  rw [tokenize_eq_map (hfirst.beside hsecond ha), gather_append, gather_relocate,
    tokenize_eq_map hfirst, tokenize_eq_map hsecond]
  cases gather first with
  | error error => rfl
  | ok found =>
      cases gather second with
      | error error => rfl
      | ok found' =>
          have hdrop : ∀ last, (found ++ [last]).dropLast = found := fun _ => List.dropLast_concat
          show Except.ok (found ++ _ ++ _) = Except.ok ((found ++ _).dropLast ++ _)
          rw [hdrop, List.map_append, String.utf8ByteSize_append, List.append_assoc]
          rfl

/-- What `front ++ back` is scanned as, in terms of what each part is by itself. -/
structure Concatenated (front back : String) : Prop where
  scans_eq : ∃ found,
    (Cursor.ofText front).throughEnd = found ++ [Scan.ending front.utf8ByteSize] ∧
      (Cursor.ofText (front ++ back)).throughEnd =
        found ++ (Cursor.ofText back).throughEnd.map (Scan.relocate (front.utf8ByteSize + ·))
  tokens_eq : ∀ first second, tokenize front = .ok first → tokenize back = .ok second →
    ∃ tokens, first = tokens ++ [⟨.endOfInput, front.utf8ByteSize⟩] ∧
      tokenize (front ++ back) = .ok (tokens ++ second.map (·.relocate (front.utf8ByteSize + ·)))
  front_fails : ∀ error, tokenize front = .error error → tokenize (front ++ back) = .error error
  back_fails : ∀ first error, tokenize front = .ok first → tokenize back = .error error →
    tokenize (front ++ back) = .error (error.relocate (front.utf8ByteSize + ·))

theorem concatenated_of_apart {front back : String} (ha : Apart front.toList back.toList) :
    Concatenated front back := by
  have htokens := tokenize_append ha
  refine ⟨?_, ?_, ?_, ?_⟩
  · obtain ⟨first, hfirst⟩ := Cursor.exists_tiling_of_text front
    obtain ⟨second, hsecond⟩ := Cursor.exists_tiling_of_text back
    refine ⟨first, Cursor.throughEnd_of_tiling hfirst, ?_⟩
    rw [Cursor.throughEnd_of_tiling (hfirst.beside hsecond ha),
      Cursor.throughEnd_of_tiling hsecond, List.map_append, List.map_singleton,
      Scan.relocate_ending, String.utf8ByteSize_append, List.append_assoc]
  · intro first second hf hb
    obtain ⟨tokens, rfl⟩ := exists_tokens hf
    refine ⟨tokens, rfl, ?_⟩
    rw [htokens, hf, hb]
    show Except.ok ((tokens ++ _).dropLast ++ _) = _
    rw [List.dropLast_concat]
  · intro error hf
    rw [htokens, hf]
  · intro first error hf hb
    rw [htokens, hf, hb]
    rfl

/-! ## Numbers that are cut -/

theorem Text.eq_of_width_eq {front after front' after' : List Char}
    (h : front ++ after = front' ++ after') (hw : width front = width front') :
    front = front' := by
  have hnil : ∀ more, width more = 0 → more = [] := by
    intro more hmore
    have hlength := length_le_width more
    exact List.length_eq_zero_iff.mp (by omega)
  rcases List.append_eq_append_iff.mp h with ⟨more, rfl, _⟩ | ⟨more, rfl, _⟩
  · rw [width_append] at hw
    rw [hnil more (by omega), List.append_nil]
  · rw [width_append] at hw
    rw [hnil more (by omega), List.append_nil]

/-- A scan at the place where two texts meet keeps them apart. -/
theorem Cursor.Tiling.apart_of_mem {front back : List Char} {found : List Scan} {scan : Scan}
    (h : Tiling [] (front ++ back) found) (hm : scan ∈ found)
    (hoffset : scan.offset = Text.width front) : Apart front back := by
  obtain ⟨before, lexeme, after, htext, hlexeme⟩ := h.exists_lexeme_of_mem hm
  rw [List.append_assoc] at htext
  have hbefore : front = before := by
    refine Text.eq_of_width_eq htext ?_
    rw [← hoffset, hlexeme.offset_eq, List.nil_append]
  rw [hbefore] at htext ⊢
  rw [List.append_cancel_left htext]
  exact hlexeme.apart_left

/-- A text that starts with a digit is scanned from there. -/
theorem Cursor.Tiling.exists_first {d : Char} {rest : List Char} {found : List Scan}
    (h : Tiling [] (d :: rest) found) (hd : d.isDigit = true) :
    ∃ scan others, found = scan :: others ∧ scan.offset = 0 := by
  have hspace : ∀ gap more, Gap gap → gap ++ more = d :: rest → gap = [] := by
    intro gap more hgap htext
    cases gap with
    | nil => rfl
    | cons c gap =>
        cases htext
        rw [isDigit_of_mem_spaces (hgap d List.mem_cons_self)] at hd
        cases hd
  generalize htext : d :: rest = text at h
  cases h with
  | gap _ blank =>
      have hnil := hspace text [] blank (by rw [List.append_nil, htext])
      rw [hnil] at htext
      cases htext
  | @lexeme _ gap lexeme after scan others blank first further =>
      rw [List.append_assoc] at htext
      rw [hspace gap _ blank htext.symm] at first
      exact ⟨scan, others, rfl, first.offset_eq⟩

theorem Scan.offset_relocate (place : Nat → Nat) (scan : Scan) :
    (scan.relocate place).offset = place scan.offset := by
  rcases scan with (_ | _) | placed
  all_goals rfl

/-- If the scans of the parts are those of the whole, then no number is cut. -/
theorem Concatenated.apart {front back : String} (h : Concatenated front back) :
    Apart front.toList back.toList := by
  intro c hc hlast d hd
  cases hdigit : d.isDigit with
  | false => rfl
  | true =>
      obtain ⟨rest, hback⟩ := List.head?_eq_some_iff.mp hd
      obtain ⟨second, hsecond⟩ := Cursor.exists_tiling_of_text back
      obtain ⟨whole, hwhole⟩ := Cursor.exists_tiling_of_text (front ++ back)
      obtain ⟨found, _, hscans⟩ := h.scans_eq
      rw [Cursor.throughEnd_of_tiling hwhole, Cursor.throughEnd_of_tiling hsecond] at hscans
      have hsize : 0 < back.utf8ByteSize := by
        have hlength := Text.length_le_width back.toList
        rw [Text.width_toList, hback, List.length_cons] at hlength
        omega
      -- The first lexeme of `back` is found where `back` starts in the whole text.
      rw [hback] at hsecond
      obtain ⟨scan, others, rfl, hoffset⟩ := hsecond.exists_first hdigit
      have hmoved : (scan.relocate (front.utf8ByteSize + ·)).offset = front.utf8ByteSize := by
        rw [Scan.offset_relocate, hoffset, Nat.add_zero]
      have hmem : scan.relocate (front.utf8ByteSize + ·) ∈
          whole ++ [Scan.ending (front ++ back).utf8ByteSize] := by
        rw [hscans]
        simp
      rcases List.mem_append.mp hmem with hm | hm
      · rw [String.toList_append] at hwhole
        have hapart := hwhole.apart_of_mem hm (by rw [hmoved, Text.width_toList])
        exact hdigit.symm.trans (hapart c hc hlast d hd)
      · rw [List.mem_singleton.mp hm] at hmoved
        change (front ++ back).utf8ByteSize = _ at hmoved
        rw [String.utf8ByteSize_append] at hmoved
        omega

/-- A text is scanned as its parts are, those of the second moved behind the first, if and only if
no number is cut between them; then its tokens are theirs, and so is its first error. -/
theorem concatenated_iff_apart (front back : String) :
    Concatenated front back ↔ Apart front.toList back.toList :=
  ⟨Concatenated.apart, concatenated_of_apart⟩

end Calculator
