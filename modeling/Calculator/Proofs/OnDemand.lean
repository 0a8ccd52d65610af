import Calculator.Proofs.Acceptance
import Calculator.Proofs.Agreement

/-!
# Scanning on demand

A reader scans a token when it comes to it, and stops at the first thing that is wrong. So it does
not find what cannot be scanned behind that; but it finds nothing that scanning the whole text
would not find, and it accepts no text that cannot be scanned to its end.
-/

namespace Calculator

/-- The error is that of the first lexeme that cannot be scanned. -/
def FirstFailure (text : String) (error : LexError) : Prop :=
  ∃ (tokens : List Token.Placed) (others : List Scan),
    Cursor.Tiling [] text.toList (tokens.map .ok ++ .error error :: others)

theorem gather_eq_error_iff {scans : List Scan} {error : LexError} :
    gather scans = .error error ↔
      ∃ (tokens : List Token.Placed) (others : List Scan),
        scans = tokens.map .ok ++ .error error :: others := by
  constructor
  · intro h
    induction scans with
    | nil => cases h
    | cons scan rest ih =>
        cases scan with
        | error first =>
            cases h
            exact ⟨[], rest, rfl⟩
        | ok placed =>
            simp only [gather] at h
            split at h
            · cases h
            · rename_i later hlater
              cases h
              obtain ⟨tokens, others, rfl⟩ := ih hlater
              exact ⟨placed :: tokens, others, rfl⟩
  · rintro ⟨tokens, others, rfl⟩
    exact Cursor.gather_error tokens error others

theorem tokenize_of_tiling {text : String} {found : List Scan}
    (h : Cursor.Tiling [] text.toList found) :
    tokenize text = gather (found ++ [Scan.ending text.utf8ByteSize]) := by
  rw [← Text.width_toList]
  exact h.gather_untilEnd

theorem tokenize_eq_error_iff {text : String} {error : LexError} :
    tokenize text = .error error ↔ FirstFailure text error := by
  constructor
  · intro h
    obtain ⟨found, htiling⟩ := Cursor.exists_tiling_of_text text
    rw [tokenize_of_tiling htiling, gather_eq_error_iff] at h
    obtain ⟨tokens, others, hscans⟩ := h
    rcases List.eq_nil_or_concat others with rfl | ⟨others, last, rfl⟩
    · cases (List.append_inj' hscans rfl).2
    · rw [List.concat_eq_append, ← List.cons_append, ← List.append_assoc] at hscans
      obtain rfl := (List.append_inj' hscans rfl).1
      exact ⟨tokens, others, htiling⟩
  · rintro ⟨tokens, others, htiling⟩
    rw [tokenize_of_tiling htiling, List.append_assoc]
    exact Cursor.gather_error tokens error _

namespace Expression

/-! ## Reading without operands -/

/-- Nothing behind a scan that failed is looked at. -/
theorem Automaton.verdict_failure (automaton : Automaton) (scans others : List Scan)
    (error : LexError) :
    Machine.verdict step automaton (scans ++ .error error :: others) =
      Machine.verdict step automaton (scans ++ [.error error]) := by
  induction scans generalizing automaton with
  | nil => rfl
  | cons scan scans ih =>
      simp only [List.cons_append, Machine.verdict]
      cases step automaton scan with
      | next after => exact ih after
      | halt found => rfl
      | stuck => rfl

theorem check_ne_lexical {text : String} {tokens : List Token.Placed}
    (h : tokenize text = .ok tokens) (error : LexError) :
    check text ≠ .error (.lexical error) := by
  intro hcheck
  obtain ⟨found, htiling⟩ := Cursor.exists_tiling_of_text text
  rw [tokenize_of_tiling htiling, gather_eq_ok_iff] at h
  cases found with
  | nil =>
      rw [check_of_gap htiling] at hcheck
      cases hcheck
  | cons scan others =>
      have hverdict := verdict_of_tiling (List.cons_ne_nil scan others) htiling
      rw [h, hcheck] at hverdict
      obtain ⟨about, hmem, habout⟩ := Automaton.verdict_about hverdict
      obtain ⟨placed, _, rfl⟩ := List.mem_map.mp hmem
      cases habout

theorem tokenize_of_check {text : String} (h : check text = .ok ()) :
    ∃ tokens, tokenize text = .ok tokens := by
  obtain ⟨derivation, ⟨offset, htokens⟩, _⟩ := exists_derivation_of_parse h
  exact ⟨_, htokens⟩

/-- What is wrong is that a lexeme cannot be scanned, or something else in front of that lexeme. -/
def Found (error : LexError) (other : Error) : Prop :=
  other = .lexical error ∨
    (∀ lexical, other ≠ .lexical lexical) ∧ other.offset < error.offset

theorem check_of_failure {text : String} {error : LexError} (h : FirstFailure text error) :
    ∃ other, check text = .error other ∧ Found error other := by
  cases hcheck : check text with
  | ok _ =>
      obtain ⟨tokens, htokens⟩ := tokenize_of_check hcheck
      rw [tokenize_eq_error_iff.mpr h] at htokens
      cases htokens
  | error other =>
      obtain ⟨tokens, others, htiling⟩ := h
      refine ⟨other, rfl, ?_⟩
      have hverdict := verdict_of_tiling (by simp) htiling
      rw [List.append_assoc, List.cons_append, Automaton.verdict_failure, hcheck] at hverdict
      -- The error is about the lexeme itself, or about one of the tokens in front of it.
      obtain ⟨scan, hmem, habout⟩ := Automaton.verdict_about hverdict
      rcases List.mem_append.mp hmem with hm | hm
      · have hsorted := htiling.pairwise_offset
        rw [List.append_assoc] at hsorted
        have hlt := (List.pairwise_append.mp hsorted).2.2 scan hm (.error error) (by simp)
        obtain ⟨placed, _, rfl⟩ := List.mem_map.mp hm
        refine .inr ⟨?_, ?_⟩
        · rintro lexical rfl
          cases habout
        · rw [habout.offset_eq]
          exact hlt
      · rw [List.mem_singleton.mp hm] at habout
        cases habout
        exact .inl rfl

/-! ## Answers -/

/-- An answer that was found scanning on demand. -/
structure OnDemand {α : Type} (text : String) (answer : Except Error α) : Prop where
  no_lexical : ∀ tokens, tokenize text = .ok tokens →
    ∀ error, answer ≠ .error (.lexical error)
  fails : ∀ error, tokenize text = .error error →
    ∃ other, answer = .error other ∧ Found error other
  tokens_of_ok : ∀ value, answer = .ok value → ∃ tokens, tokenize text = .ok tokens
  first_failure : ∀ error, answer = .error (.lexical error) → FirstFailure text error

theorem OnDemand.of_found {α : Type} {text : String} {answer : Except Error α}
    (hok : ∀ tokens, tokenize text = .ok tokens → ∀ error, answer ≠ .error (.lexical error))
    (herror : ∀ error, tokenize text = .error error →
      ∃ other, answer = .error other ∧ Found error other) : OnDemand text answer where
  no_lexical := hok
  fails := herror
  tokens_of_ok value h := by
    cases htokens : tokenize text with
    | ok tokens => exact ⟨tokens, rfl⟩
    | error error =>
        obtain ⟨other, hanswer, _⟩ := herror error htokens
        rw [h] at hanswer
        cases hanswer
  first_failure error h := by
    cases htokens : tokenize text with
    | ok tokens => exact absurd h (hok tokens htokens error)
    | error first =>
        obtain ⟨other, hanswer, rfl | ⟨hne, _⟩⟩ := herror first htokens
        · rw [h] at hanswer
          cases hanswer
          exact tokenize_eq_error_iff.mp htokens
        · rw [h] at hanswer
          cases hanswer
          exact absurd rfl (hne error)

theorem onDemand_translate (style : Notation) (text : String) :
    OnDemand text (translate style text) := by
  refine .of_found ?_ ?_
  · intro tokens htokens error h
    exact check_ne_lexical htokens error (translate_eq_error_iff.mp h)
  · intro error htokens
    obtain ⟨other, hcheck, hfound⟩ := check_of_failure (tokenize_eq_error_iff.mp htokens)
    exact ⟨other, translate_eq_error_iff.mpr hcheck, hfound⟩

/-- Of an operator that cannot be applied the right operand has been scanned, so what comes to
light instead of another error stands in front of that error. -/
theorem onDemand_evaluate (text : String) : OnDemand text (evaluate text) := by
  have hagree := agree_translate .lisp text
  refine .of_found ?_ ?_
  · intro tokens htokens error h
    have hwritten := hagree.same_error _ h (by simp)
    exact check_ne_lexical htokens error (translate_eq_error_iff.mp hwritten)
  · intro error htokens
    obtain ⟨other, hcheck, hfound⟩ := check_of_failure (tokenize_eq_error_iff.mp htokens)
    rcases hagree.no_later_error other (translate_eq_error_iff.mpr hcheck) with
      hsame | ⟨earlier, hevaluate, hlt⟩
    · exact ⟨other, hsame, hfound⟩
    · refine ⟨_, hevaluate, .inr ⟨by simp, ?_⟩⟩
      rcases hfound with rfl | ⟨_, hother⟩
      · exact hlt
      · exact Nat.lt_trans hlt hother

/-- Scanning on demand and scanning everything first agree about what cannot be scanned. -/
theorem scanning_on_demand (text : String) :
    OnDemand text (evaluate text) ∧ (∀ style, OnDemand text (translate style text)) ∧
      ∀ error, tokenize text = .error error ↔ FirstFailure text error :=
  ⟨onDemand_evaluate text, fun style => onDemand_translate style text,
    fun _ => tokenize_eq_error_iff⟩

end Expression

end Calculator
