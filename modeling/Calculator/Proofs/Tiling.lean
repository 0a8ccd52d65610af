import Calculator.Proofs.Lexemes

/-!
# Texts as rows of lexemes

Lexemes and the gaps around them make up a text without remainder. What is scanned of the text, one
scan after the other and also behind scans that fail, is one lexeme each time and then the end.
-/

namespace Calculator.Cursor

/-- Gaps and lexemes make up `text`, which stands behind `passed`. A scan has to find the next of
`found` for each lexeme. -/
inductive Tiling : List Char → List Char → List Scan → Prop where
  | gap (passed : List Char) {gap : List Char} (blank : Gap gap) : Tiling passed gap []
  | lexeme {passed gap lexeme rest : List Char} {scan : Scan} {others : List Scan}
      (blank : Gap gap) (first : Lexeme (passed ++ gap) lexeme rest scan)
      (further : Tiling (passed ++ gap ++ lexeme) rest others) :
      Tiling passed (gap ++ lexeme ++ rest) (scan :: others)

/-! ## Every text has a tiling -/

theorem exists_gap (text : List Char) :
    ∃ gap rest, text = gap ++ rest ∧ Gap gap ∧ ∀ c ∈ rest.head?, c ∉ spaces := by
  induction text with
  | nil => exact ⟨[], [], rfl, by simp [Gap], by simp⟩
  | cons c text ih =>
      by_cases hc : c ∈ spaces
      · obtain ⟨gap, rest, rfl, hg, hrest⟩ := ih
        refine ⟨c :: gap, rest, rfl, ?_, hrest⟩
        intro d hd
        rcases List.mem_cons.mp hd with rfl | hd
        · exact hc
        · exact hg d hd
      · exact ⟨[], c :: text, rfl, by simp [Gap], by simpa using hc⟩

theorem exists_tiling {passed text : List Char} (h : Apart passed text) :
    ∃ found, Tiling passed text found := by
  obtain ⟨gap, rest, rfl, hg, hhead⟩ := exists_gap text
  cases rest with
  | nil => exact ⟨[], by simpa using Tiling.gap passed hg⟩
  | cons c rest =>
      obtain ⟨lexeme, after, scan, hrest, hlexeme⟩ := exists_lexeme (hhead c rfl) (h.gap hg)
      have hshorter : after.length < (gap ++ c :: rest).length := by
        have hlength := congrArg List.length hrest
        have hpos := List.length_pos_iff.mpr hlexeme.ne_nil
        simp only [List.length_append] at hlength ⊢
        omega
      obtain ⟨others, hothers⟩ := exists_tiling hlexeme.apart_right
      refine ⟨scan :: others, ?_⟩
      rw [hrest, ← List.append_assoc]
      exact .lexeme hg hlexeme hothers
termination_by text.length

theorem exists_tiling_of_text (text : String) : ∃ found, Tiling [] text.toList found :=
  exists_tiling (.nil_left _)

/-! ## Rows side by side -/

theorem Apart.append_right {before after : List Char} (h : Apart before after)
    (hne : after ≠ []) (more : List Char) : Apart before (after ++ more) := by
  cases after with
  | nil => exact absurd rfl hne
  | cons c after => exact h

theorem apart_append_left {lexeme : List Char} (hne : lexeme ≠ []) {before after : List Char} :
    Apart (before ++ lexeme) after ↔ Apart lexeme after := by
  unfold Apart
  rw [List.getLast?_append, List.getLast?_eq_some_getLast hne, Option.some_or]

namespace Tiling

variable {passed text : List Char} {found : List Scan}

theorem apart (h : Tiling passed text found) : Apart passed text := by
  have hspace : ∀ {c : Char} (rest : List Char), c ∈ spaces → Apart passed (c :: rest) := by
    intro c rest hc
    exact apart_of_first (by simpa using isDigit_of_mem_spaces hc) passed
  cases h with
  | gap _ blank =>
      cases text with
      | nil => exact .nil_right passed
      | cons c text => exact hspace text (blank c (by simp))
  | @lexeme _ gap lexeme rest _ _ blank first further =>
      cases gap with
      | nil => simpa using first.apart_left
      | cons c gap => exact hspace _ (blank c (by simp))

theorem gap_of_nil (h : Tiling passed text []) : Gap text := by
  cases h with
  | gap _ blank => exact blank

/-- A gap may be added in front. -/
theorem behind_gap {gap : List Char} (h : Tiling (passed ++ gap) text found) (hg : Gap gap) :
    Tiling passed (gap ++ text) found := by
  have hboth : ∀ {more : List Char}, Gap more → Gap (gap ++ more) := by
    intro more hm c hc
    rcases List.mem_append.mp hc with hc | hc
    · exact hg c hc
    · exact hm c hc
  cases h with
  | gap _ blank => exact .gap passed (hboth blank)
  | lexeme blank first further =>
      rw [← List.append_assoc, ← List.append_assoc]
      rw [List.append_assoc passed] at first further
      exact .lexeme (hboth blank) first further

theorem append {front back : List Char} {first second : List Scan}
    (hf : Tiling passed front first) (hs : Tiling (passed ++ front) back second) :
    Tiling passed (front ++ back) (first ++ second) := by
  induction hf with
  | gap passed blank => exact hs.behind_gap blank
  | @lexeme passed gap lexeme rest scan others blank first further ih =>
      have hbehind : Apart lexeme (rest ++ back) := by
        rcases List.eq_nil_or_concat rest with rfl | ⟨_, _, hrest⟩
        · rw [List.append_nil, ← List.append_assoc] at hs
          exact (apart_append_left first.ne_nil).mp hs.apart
        · exact ((apart_append_left first.ne_nil).mp first.apart_right).append_right
            (by simp [hrest]) back
      have hthen : Tiling (passed ++ gap ++ lexeme ++ rest) back second := by
        simpa only [List.append_assoc] using hs
      rw [List.append_assoc (gap ++ lexeme), List.cons_append]
      exact .lexeme blank (first.behind hbehind) (ih hthen)

/-- A tiling is cut in front of any of its lexemes. -/
theorem exists_cut {first second : List Scan} {scan : Scan}
    (h : Tiling passed text (first ++ scan :: second)) :
    ∃ front lexeme rest, text = front ++ lexeme ++ rest ∧ Tiling passed front first ∧
      Lexeme (passed ++ front) lexeme rest scan ∧
      Tiling (passed ++ front ++ lexeme) rest second := by
  generalize hfound : first ++ scan :: second = found at h
  induction h generalizing first with
  | gap passed blank => cases first <;> cases hfound
  | @lexeme passed gap lexeme rest head others blank hhead further ih =>
      cases first with
      | nil =>
          cases hfound
          exact ⟨gap, lexeme, rest, rfl, .gap passed blank, hhead, further⟩
      | cons other first =>
          obtain ⟨rfl, hothers⟩ := List.cons.inj hfound
          obtain ⟨front, inner, after, rfl, hfront, hinner, hafter⟩ := ih hothers
          -- Less stands behind the first lexeme than before, and still no digit behind a digit.
          have hnew : Lexeme (passed ++ gap) lexeme front other :=
            hhead.behind ((apart_append_left hhead.ne_nil).mp hfront.apart)
          refine ⟨gap ++ lexeme ++ front, inner, after, by simp, .lexeme blank hnew hfront, ?_, ?_⟩
          · simpa only [List.append_assoc] using hinner
          · simpa only [List.append_assoc] using hafter

theorem exists_parts {first second : List Scan}
    (h : Tiling passed text (first ++ second)) :
    ∃ front back, text = front ++ back ∧ Tiling passed front first ∧
      Tiling (passed ++ front) back second := by
  have hgap : Gap [] := by simp [Gap]
  cases second with
  | nil =>
      rw [List.append_nil] at h
      exact ⟨text, [], by simp, h, .gap _ hgap⟩
  | cons scan second =>
      obtain ⟨front, lexeme, rest, rfl, hfront, hlexeme, hrest⟩ := h.exists_cut
      refine ⟨front, lexeme ++ rest, List.append_assoc .., hfront, ?_⟩
      rw [← List.append_nil (passed ++ front)] at hlexeme hrest
      exact .lexeme hgap hlexeme hrest

/-- Each of the scans has its lexeme in the text. -/
theorem exists_lexeme_of_mem (h : Tiling passed text found) {scan : Scan} (hm : scan ∈ found) :
    ∃ front lexeme after, text = front ++ lexeme ++ after ∧
      Lexeme (passed ++ front) lexeme after scan := by
  induction h with
  | gap => simp at hm
  | @lexeme passed gap lexeme rest first others blank hfirst further ih =>
      rcases List.mem_cons.mp hm with rfl | hm
      · exact ⟨gap, lexeme, rest, rfl, hfirst⟩
      · obtain ⟨front, inner, after, rfl, hinner⟩ := ih hm
        refine ⟨gap ++ lexeme ++ front, inner, after, by simp, ?_⟩
        simpa only [List.append_assoc] using hinner

theorem ne_ending (h : Tiling passed text found) {scan : Scan} (hm : scan ∈ found) (offset : Nat) :
    scan ≠ Scan.ending offset := by
  obtain ⟨front, lexeme, after, _, hlexeme⟩ := h.exists_lexeme_of_mem hm
  exact hlexeme.ne_ending offset

theorem length_le (h : Tiling passed text found) : found.length ≤ text.length := by
  induction h with
  | gap => simp
  | lexeme blank first further ih =>
      have hpos := List.length_pos_iff.mpr first.ne_nil
      simp only [List.length_cons, List.length_append]
      omega

/-! ## Offsets -/

theorem offset_bounds (h : Tiling passed text found) {scan : Scan} (hm : scan ∈ found) :
    Text.width passed ≤ scan.offset ∧ scan.offset < Text.width (passed ++ text) := by
  obtain ⟨front, lexeme, after, rfl, hlexeme⟩ := h.exists_lexeme_of_mem hm
  have hpos := List.length_pos_iff.mpr hlexeme.ne_nil
  have hwidth := Text.length_le_width lexeme
  rw [hlexeme.offset_eq]
  simp only [Text.width_append]
  omega

/-- Each scan is of something behind what all scans before it were of. -/
theorem pairwise_offset (h : Tiling passed text found) :
    (found ++ [Scan.ending (Text.width (passed ++ text))]).Pairwise
      fun first second => first.offset < second.offset := by
  induction h with
  | gap => simp
  | @lexeme passed gap lexeme rest scan others blank first further ih =>
      have hpos := List.length_pos_iff.mpr first.ne_nil
      have hwidth := Text.length_le_width lexeme
      simp only [← List.append_assoc] at ih ⊢
      refine List.Pairwise.cons ?_ ih
      intro second hmem
      rw [first.offset_eq]
      have hlater : Text.width (passed ++ gap ++ lexeme) ≤ second.offset := by
        rcases List.mem_append.mp hmem with hm | hm
        · exact (further.offset_bounds hm).1
        · rw [List.mem_singleton.mp hm]
          simp [Scan.ending, Scan.offset]
      rw [Text.width_append] at hlater
      omega

/-! ## Scanning -/

theorem next_gap {gap : List Char} (blank : Gap gap) :
    next ⟨gap, Text.width passed⟩ =
      (Scan.ending (Text.width (passed ++ gap)), ⟨[], Text.width (passed ++ gap)⟩) := by
  have hscan := scan_gap blank [] (Text.width passed)
  rw [List.append_nil, ← Text.width_append] at hscan
  exact hscan

theorem next_lexeme {gap lexeme rest : List Char} {scan : Scan} (blank : Gap gap)
    (first : Lexeme (passed ++ gap) lexeme rest scan) :
    next ⟨gap ++ lexeme ++ rest, Text.width passed⟩ =
      (scan, ⟨rest, Text.width (passed ++ gap ++ lexeme)⟩) := by
  rw [next, List.append_assoc, scan_gap blank, ← Text.width_append]
  exact scan_lexeme first

theorem scans_ending (count offset : Nat) :
    scans count ⟨[], offset⟩ = List.replicate count (Scan.ending offset) := by
  induction count with
  | zero => rfl
  | succ count ih => exact congrArg (Scan.ending offset :: ·) ih

/-- However many scans are made: they find the lexemes, and then only the end. -/
theorem scans_eq (h : Tiling passed text found) (count : Nat) :
    scans count ⟨text, Text.width passed⟩ =
      found.take count ++
        List.replicate (count - found.length) (Scan.ending (Text.width (passed ++ text))) := by
  induction h generalizing count with
  | gap passed blank =>
      cases count with
      | zero => rfl
      | succ count =>
          rw [scans, next_gap blank, scans_ending]
          rfl
  | lexeme blank first further ih =>
      cases count with
      | zero => simp [scans]
      | succ count =>
          rw [scans, next_lexeme blank first, ih]
          simp

/-- A reader that stops at the first error makes the first of these scans. -/
theorem exists_unread (h : Tiling passed text found) :
    ∃ unread, found ++ [Scan.ending (Text.width (passed ++ text))] =
      untilEnd ⟨text, Text.width passed⟩ ++ unread := by
  induction h with
  | gap passed blank => exact ⟨[], by rw [untilEnd_endOfInput (next_gap blank) rfl]; rfl⟩
  | @lexeme passed gap lexeme rest scan others blank first further ih =>
      have hnext := next_lexeme blank first
      cases scan with
      | error error => exact ⟨_, by rw [untilEnd_error hnext]; rfl⟩
      | ok placed =>
          obtain ⟨unread, hunread⟩ := ih
          refine ⟨unread, ?_⟩
          rw [untilEnd_token hnext first.token_ne, List.cons_append, List.cons_append, ← hunread]
          simp only [List.append_assoc]

/-! ## Tokens -/

/-- The errors behind the first one are not looked at. -/
theorem gather_untilEnd (h : Tiling passed text found) :
    gather (untilEnd ⟨text, Text.width passed⟩) =
      gather (found ++ [Scan.ending (Text.width (passed ++ text))]) := by
  induction h with
  | gap passed blank => rw [untilEnd_endOfInput (next_gap blank) rfl]; rfl
  | @lexeme passed gap lexeme rest scan others blank first further ih =>
      have hnext := next_lexeme blank first
      cases scan with
      | error error => rw [untilEnd_error hnext]; rfl
      | ok placed =>
          rw [untilEnd_token hnext first.token_ne, List.cons_append, gather, gather, ih]
          simp only [List.append_assoc]

end Tiling

theorem pairwise_untilEnd (text : String) :
    (ofText text).untilEnd.Pairwise fun first second => first.offset < second.offset := by
  obtain ⟨found, h⟩ := exists_tiling_of_text text
  have hpairwise := h.pairwise_offset
  obtain ⟨unread, hunread⟩ := h.exists_unread
  rw [hunread] at hpairwise
  exact hpairwise.sublist (List.sublist_append_left _ _)

theorem gather_error (tokens : List Token.Placed) (error : LexError) (others : List Scan) :
    gather (tokens.map .ok ++ .error error :: others) = .error error := by
  induction tokens with
  | nil => rfl
  | cons placed tokens ih => simp [gather, ih]

/-- Lexemes and gaps make up every text, and any number of scans finds the lexemes in order, each
behind the one before, and then the end of the text over and over. The tokens of the text are what
was found up to the end, or the first error that was found. -/
theorem scans_cover_text (text : String) :
    ∃ found : List Scan, Tiling [] text.toList found ∧
      ((found ++ [Scan.ending text.utf8ByteSize]).map Scan.offset).Pairwise (· < ·) ∧
      (∀ offset, Scan.ending offset ∉ found) ∧ found.length ≤ text.length ∧
      (∀ count, scans count (ofText text) =
        found.take count ++
          List.replicate (count - found.length) (Scan.ending text.utf8ByteSize)) ∧
      (∀ tokens : List Token.Placed, found = tokens.map .ok →
        tokenize text = .ok (tokens ++ [⟨.endOfInput, text.utf8ByteSize⟩])) ∧
      ∀ (tokens : List Token.Placed) (error : LexError) (others : List Scan),
        found = tokens.map .ok ++ .error error :: others → tokenize text = .error error := by
  obtain ⟨found, h⟩ := exists_tiling_of_text text
  have hgather := h.gather_untilEnd
  have hpairwise := h.pairwise_offset
  have hscans := h.scans_eq
  simp only [List.nil_append, Text.width_toList] at hgather hpairwise hscans
  refine ⟨found, h, List.pairwise_map.mpr hpairwise, ?_, ?_, hscans, ?_, ?_⟩
  · intro offset hmem
    exact h.ne_ending hmem offset rfl
  · rw [← String.length_toList]
    exact h.length_le
  · rintro tokens rfl
    rw [tokenize]
    refine hgather.trans (gather_eq_ok_iff.mpr ?_)
    rw [List.map_append]
    rfl
  · rintro tokens error others rfl
    rw [List.append_assoc, List.cons_append, gather_error] at hgather
    exact hgather

end Calculator.Cursor
