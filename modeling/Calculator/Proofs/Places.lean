import Calculator.Proofs.Composition
import Calculator.Proofs.Nesting
import Calculator.Proofs.OnDemand

/-!
# Places of errors

What an error says of the text stands in the text where it says: the character that is no token, the
operator that cannot be applied, the token that was found, and the parenthesis that is not closed.
-/

namespace Calculator

namespace Cursor

/-! ## Scans and what they are of -/

/-- A scan found what stands between `front` and `after`: a lexeme, or the end of the text. -/
inductive Meets (front : List Char) : List Char → Scan → Prop where
  | lexeme {lexeme rest : List Char} {scan : Scan} (first : Lexeme front lexeme rest scan) :
      Meets front (lexeme ++ rest) scan
  | ending : Meets front [] (Scan.ending (Text.width front))

theorem Meets.offset_eq {front after : List Char} {scan : Scan} (h : Meets front after scan) :
    scan.offset = Text.width front := by
  cases h with
  | lexeme first => exact first.offset_eq
  | ending => rfl

/-- In front of a scan stand the lexemes of those before it. -/
theorem exists_met {text : String} {first second : List Scan} {scan : Scan}
    (h : (ofText text).untilEnd = first ++ scan :: second) :
    ∃ front after, text.toList = front ++ after ∧ Tiling [] front first ∧
      Meets front after scan := by
  obtain ⟨found, htiling⟩ := exists_tiling_of_text text
  obtain ⟨unread, hunread⟩ := htiling.exists_unread
  change _ = (ofText text).untilEnd ++ unread at hunread
  rw [h, List.append_assoc, List.cons_append] at hunread
  rcases List.eq_nil_or_concat (second ++ unread) with hnil | ⟨others, last, hlast⟩
  · rw [hnil] at hunread
    obtain ⟨rfl, hscan⟩ := List.append_inj' hunread rfl
    cases hscan
    exact ⟨text.toList, [], by simp, htiling, .ending⟩
  · rw [hlast, List.concat_eq_append, ← List.cons_append, ← List.append_assoc] at hunread
    obtain ⟨rfl, _⟩ := List.append_inj' hunread rfl
    obtain ⟨front, lexeme, rest, htext, hfront, hlexeme, _⟩ := htiling.exists_cut
    exact ⟨front, lexeme ++ rest, by rw [htext, List.append_assoc], hfront, .lexeme hlexeme⟩

def Shown (text : List Char) (scan : Scan) : Prop :=
  ∃ front after, text = front ++ after ∧ Meets front after scan

theorem shown_of_mem {text : String} {scan : Scan} (h : scan ∈ (ofText text).untilEnd) :
    Shown text.toList scan := by
  obtain ⟨first, second, hscans⟩ := List.append_of_mem h
  obtain ⟨front, after, htext, _, hmeets⟩ := exists_met hscans
  exact ⟨front, after, htext, hmeets⟩

theorem Shown.boundary {text : String} {scan : Scan} (h : Shown text.toList scan) :
    ∃ front after, text = front ++ after ∧ front.utf8ByteSize = scan.offset := by
  obtain ⟨front, after, htext, hmeets⟩ := h
  refine ⟨String.ofList front, String.ofList after, ?_, ?_⟩
  · rw [← String.ofList_append, ← htext, String.ofList_toList]
  · rw [Text.utf8ByteSize_ofList, hmeets.offset_eq]

end Cursor

namespace Expression

open Cursor (Tiling Lexeme Meets Plain Gap Shown)

/-! ## Balanced texts -/

/-- As many parentheses are closed as opened, and none before it is opened. -/
structure Balanced (chars : List Char) : Prop where
  opened_eq : opened chars = 0
  nonneg : ∀ front, front <+: chars → 0 ≤ opened front

namespace Balanced

theorem of_plain {chars : List Char} (h : Plain chars) : Balanced chars where
  opened_eq := opened_of_plain h
  nonneg _ hfront := Int.le_of_eq (opened_of_plain fun c hc => h c (hfront.subset hc)).symm

theorem operator (op : Operator) : Balanced [op.symbol] where
  opened_eq := by cases op <;> rfl
  nonneg front hfront := by
    rcases List.prefix_cons_iff.mp hfront with rfl | ⟨rest, rfl, hrest⟩
    · decide
    · rw [List.prefix_nil.mp hrest]
      cases op <;> decide

theorem append {first second : List Char} (hf : Balanced first) (hs : Balanced second) :
    Balanced (first ++ second) where
  opened_eq := by rw [opened_append, hf.opened_eq, hs.opened_eq, Int.add_zero]
  nonneg front hfront := by
    rcases List.prefix_or_prefix_of_prefix hfront (List.prefix_append first second) with
      hshorter | ⟨back, rfl⟩
    · exact hf.nonneg front hshorter
    · rw [opened_append, hf.opened_eq, Int.zero_add]
      exact hs.nonneg back ((List.prefix_append_right_inj first).mp hfront)

theorem enclose {chars : List Char} (h : Balanced chars) : Balanced ('(' :: (chars ++ [')'])) where
  opened_eq := by
    rw [← List.singleton_append, opened_append, opened_append, h.opened_eq]
    rfl
  nonneg front hfront := by
    rcases List.prefix_cons_iff.mp hfront with rfl | ⟨rest, rfl, hrest⟩
    · decide
    · rw [← List.singleton_append, opened_append]
      have hone : opened ['('] = 1 := rfl
      rcases List.prefix_concat_iff.mp hrest with rfl | hshorter
      · rw [opened_append, h.opened_eq, hone]
        decide
      · have hnonneg := h.nonneg rest hshorter
        omega

end Balanced

theorem balanced_literal {value : Int64} {offset : Nat} {passed text : List Char}
    (h : Tiling passed text [.ok ⟨.integer value, offset⟩]) : Balanced text := by
  cases h with
  | lexeme blank first further =>
      cases first with
      | integer run _ exact =>
          have hback := Balanced.of_plain further.gap_of_nil.plain
          exact ((Balanced.of_plain blank.plain).append (.of_plain run.plain)).append hback

theorem balanced_group {openedAt closedAt : Nat} {inner : List Scan} {passed text : List Char}
    (h : Tiling passed text
      (.ok ⟨.leftParen, openedAt⟩ :: (inner ++ [.ok ⟨.rightParen, closedAt⟩])))
    (ih : ∀ {passed text}, Tiling passed text inner → Balanced text) : Balanced text := by
  cases h with
  | lexeme blank first further =>
      cases first with
      | leftParen =>
          obtain ⟨middle, lexeme, rest, rfl, hmiddle, hlexeme, hrest⟩ := further.exists_cut
          cases hlexeme with
          | rightParen =>
              have hback := Balanced.of_plain hrest.gap_of_nil.plain
              have hgroup := (ih hmiddle).enclose.append hback
              simpa using (Balanced.of_plain blank.plain).append hgroup

theorem balanced_link {op : Operator} {offset : Nat} {operand rest : List Scan}
    {passed text : List Char}
    (h : Tiling passed text (.ok ⟨.operator op, offset⟩ :: (operand ++ rest)))
    (ihOperand : ∀ {passed text}, Tiling passed text operand → Balanced text)
    (ihRest : ∀ {passed text}, Tiling passed text rest → Balanced text) : Balanced text := by
  cases h with
  | lexeme blank first further =>
      cases first with
      | operator =>
          obtain ⟨front, back, rfl, hfront, hback⟩ := further.exists_parts
          have hop := (Balanced.of_plain blank.plain).append (.operator op)
          exact hop.append ((ihOperand hfront).append (ihRest hback))

/-- The text of a phrase is balanced. -/
theorem balanced_of_tiling {phrase : Phrase} (derivation : Derivation phrase)
    {passed text : List Char} (h : Tiling passed text (scansOf derivation.tokens)) :
    Balanced text := by
  revert passed text
  refine Derivation.induction
    (fun _ derivation => ∀ {passed text},
      Tiling passed text (scansOf derivation.tokens) → Balanced text)
    (fun _ links => ∀ {passed text}, Tiling passed text (scansOf links.tokens) → Balanced text)
    ?literal ?group ?chain ?nil ?cons derivation
  case literal =>
    intro value offset passed text h
    exact balanced_literal h
  case group =>
    intro openedAt inner closedAt ih passed text h
    rw [Derivation.tokens, scansOf_cons, scansOf_append] at h
    exact balanced_group h ih
  case chain =>
    intro level first rest ihFirst ihRest passed text h
    rw [Derivation.tokens_chain, scansOf_append] at h
    obtain ⟨front, back, rfl, hfront, hback⟩ := h.exists_parts
    exact (ihFirst hfront).append (ihRest hback)
  case nil =>
    intro level passed text h
    exact .of_plain h.gap_of_nil.plain
  case cons =>
    intro level op joins offset operand rest ihOperand ihRest passed text h
    rw [Links.tokens, scansOf_cons, scansOf_append] at h
    exact balanced_link h ihOperand ihRest

/-! ## Errors -/

def Translates (text : String) : Prop := ∀ style, ∃ answer, translate style text = .ok answer

def CompleteAt (text : String) (offset : Nat) : Prop :=
  ∃ front after, text = front ++ after ∧ front.utf8ByteSize = offset ∧ Translates front

/-- Between the parenthesis at `openedAt` and `offset` stands an expression. Each parenthesis in it
is closed, so of all that are still open at `offset` that one is the innermost. -/
def OpenAt (text : String) (openedAt offset : Nat) : Prop :=
  openedAt < offset ∧ ∃ front inner after, text = front ++ "(" ++ inner ++ after ∧
    front.utf8ByteSize = openedAt ∧ (front ++ "(" ++ inner).utf8ByteSize = offset ∧
    Balanced inner.toList ∧ Translates inner

/-- What an error tells of a text, it tells of the right places. -/
structure Faithful (text : String) (error : Error) : Prop where
  offset_le : error.offset ≤ text.utf8ByteSize
  boundary : ∃ front after, text = front ++ after ∧ front.utf8ByteSize = error.offset
  lexical : ∀ cause, error = .lexical cause → Shown text.toList (.error cause)
  found : ∀ cause found, error = .syntactic cause → cause.found? = some found →
    Shown text.toList (.ok found)
  operator : ∀ cause, error = .evaluation cause →
    Shown text.toList (.ok ⟨.operator cause.operator, cause.offset⟩)
  trailing : ∀ found, error = .syntactic (.trailingInput found) → CompleteAt text found.offset
  unclosed : ∀ openedAt found, error = .syntactic (.unclosedParenthesis openedAt found) →
    OpenAt text openedAt found.offset

theorem translates_of_tiling {derivation : Derivation .expression} {passed text : List Char}
    (h : Tiling passed text (scansOf derivation.tokens)) (hn : derivation.nesting ≤ maxDepth) :
    Translates (String.ofList text) := by
  let place := fun offset => offset - Text.width passed
  have hmoved : Tiling [] text (scansOf (derivation.relocate place).tokens) := by
    rw [Derivation.scansOf_relocate]
    refine h.relocate (.nil_left text) ?_
    intro n
    rw [Text.width_nil, Nat.zero_add]
    exact Nat.add_sub_cancel_left ..
  have hcovers : (derivation.relocate place).Covers (String.ofList text) := by
    rw [Derivation.covers_iff_tiling, String.toList_ofList]
    exact hmoved
  intro style
  exact ⟨_, translate_of_covers style hcovers (by rwa [Derivation.nesting_relocate])⟩

variable {σ α : Type} {S : Semantics σ α} {text : String} {passed : List Token.Placed}
  {scan : Scan} {rest : List Scan}

theorem Fault.trailing {found : Token.Placed}
    (h : Fault S passed scan (.syntactic (.trailingInput found)))
    (hscans : (Cursor.ofText text).untilEnd = scansOf passed ++ scan :: rest) :
    CompleteAt text found.offset := by
  cases h with
  | trailingInput whole hn =>
      obtain ⟨front, after, htext, htiling, hmeets⟩ := Cursor.exists_met hscans
      refine ⟨String.ofList front, String.ofList after, ?_, ?_, translates_of_tiling htiling hn⟩
      · rw [← String.ofList_append, ← htext, String.ofList_toList]
      · rw [Text.utf8ByteSize_ofList]
        exact hmeets.offset_eq.symm

theorem Fault.unclosed {openedAt : Nat} {found : Token.Placed}
    (h : Fault S passed scan (.syntactic (.unclosedParenthesis openedAt found)))
    (hscans : (Cursor.ofText text).untilEnd = scansOf passed ++ scan :: rest) :
    OpenAt text openedAt found.offset := by
  cases h with
  | unclosedParenthesis front _ inner hn =>
      obtain ⟨before, after, htext, htiling, hmeets⟩ := Cursor.exists_met hscans
      rw [scansOf_append, scansOf_cons] at htiling
      obtain ⟨outer, lexeme, middle, rfl, _, hlexeme, hmiddle⟩ := htiling.exists_cut
      cases hlexeme with
      | leftParen =>
          have hoffset : found.offset = Text.width (outer ++ ['('] ++ middle) := hmeets.offset_eq
          have hparen : Text.width ['('] = 1 := rfl
          refine ⟨?_, String.ofList outer, String.ofList middle, String.ofList after, ?_, ?_, ?_,
            ?_, translates_of_tiling hmiddle hn⟩
          · rw [hoffset, List.nil_append, Text.width_append, Text.width_append, hparen]
            omega
          · rw [← String.toList_inj, htext]
            simp [String.toList_append]
          · rw [Text.utf8ByteSize_ofList, List.nil_append]
          · rw [hoffset, ← Text.width_toList]
            simp [String.toList_append]
          · rw [String.toList_ofList]
            exact balanced_of_tiling inner hmiddle

theorem Fault.faithful {error : Error} (hS : S.Accountable) (h : Fault S passed scan error)
    (hscans : (Cursor.ofText text).untilEnd = scansOf passed ++ scan :: rest) :
    Faithful text error := by
  have hscan : Shown text.toList scan := Cursor.shown_of_mem (by simp [hscans])
  have hlexical : ∀ cause, error = .lexical cause → Shown text.toList (.error cause) := by
    rintro cause rfl
    rwa [← h.lexical_eq]
  have hfound : ∀ cause found, error = .syntactic cause → cause.found? = some found →
      Shown text.toList (.ok found) := by
    rintro cause found rfl hf
    rwa [← h.found_eq hf]
  have hoperator : ∀ cause, error = .evaluation cause →
      Shown text.toList (.ok ⟨.operator cause.operator, cause.offset⟩) := by
    rintro cause rfl
    obtain ⟨front, _, operand, _, rfl, _⟩ := h.exists_operand hS
    exact Cursor.shown_of_mem (by simp [hscans])
  have hboundary : ∃ front after, text = front ++ after ∧ front.utf8ByteSize = error.offset := by
    cases error with
    | lexical cause => exact (hlexical cause rfl).boundary
    | evaluation cause => exact (hoperator cause rfl).boundary
    | syntactic cause =>
        cases hf : cause.found? with
        | none =>
            cases cause <;> cases hf
            exact ⟨"", text, by simp, rfl⟩
        | some found =>
            rw [Error.offset, ← SyntaxError.offset_of_found hf]
            exact (hfound cause found rfl hf).boundary
  refine ⟨?_, hboundary, hlexical, hfound, hoperator, ?_, ?_⟩
  · obtain ⟨front, after, rfl, hoffset⟩ := hboundary
    rw [← hoffset, String.utf8ByteSize_append]
    exact Nat.le_add_right ..
  · rintro found rfl
    exact h.trailing hscans
  · rintro openedAt found rfl
    exact h.unclosed hscans

theorem faithful_of_parse {store : σ} {error : Error} (hS : S.Accountable)
    (h : (parse S text store).result = .error error) : Faithful text error := by
  obtain ⟨passed, scan, rest, hfault, _, hscans⟩ := (concluded_parse S text store).of_error error h
  exact hfault.faithful hS hscans

theorem faithful_of_tokenize {error : LexError} (h : tokenize text = .error error) :
    Faithful text (.lexical error) := by
  obtain ⟨tokens, others, hscans⟩ := gather_eq_error_iff.mp h
  exact (Fault.lexical (S := arithmetic) tokens error).faithful arithmetic_accountable hscans

/-- Every place that is reported is true of the text, whatever is done with it. -/
theorem errors_faithful (text : String) :
    (∀ error, evaluate text = .error error → Faithful text error) ∧
      (∀ style error, translate style text = .error error → Faithful text error) ∧
        ∀ error, tokenize text = .error error → Faithful text (.lexical error) :=
  ⟨fun _ => faithful_of_parse arithmetic_accountable,
    fun style _ => faithful_of_parse style.semantics_accountable,
    fun _ => faithful_of_tokenize⟩

end Expression

end Calculator
