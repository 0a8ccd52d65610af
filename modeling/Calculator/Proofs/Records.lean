import Calculator.Answer
import Calculator.Proofs.Faults
import Calculator.Proofs.Messages
import Calculator.Proofs.Tiling

/-!
# What logs tell

The records of a run are those of the first tokens of the text. Where they end is told by the
answer: a reader has scanned one token behind what it has taken, and no other.
-/

namespace Calculator

/-! ## Records of tokens -/

def Record.ofToken (placed : Token.Placed) : Record :=
  ⟨.trace, "lexed " ++ placed.token.text ++ " at offset " ++ toString placed.offset⟩

namespace Record

theorem ofScan?_token {placed : Token.Placed} (h : placed.token ≠ .endOfInput) :
    ofScan? (.ok placed) = some (ofToken placed) := if_neg h

/-- The offset can be read off the end of a record. -/
theorem takeWhile_reverse_text (placed : Token.Placed) :
    (ofToken placed).text.toList.reverse.takeWhile Char.isDigit =
      (Nat.toDigits 10 placed.offset).reverse := by
  have hdigits : ∀ c ∈ (Nat.toDigits 10 placed.offset).reverse, c.isDigit = true := fun c hc =>
    List.all_eq_true.mp (Text.Decimal.toDigits_all_isDigit _) c (List.mem_reverse.mp hc)
  have htext : (ofToken placed).text.toList.reverse = (Nat.toDigits 10 placed.offset).reverse ++
      ' ' :: ("lexed " ++ placed.token.text ++ " at offset").toList.reverse := by
    simp [ofToken, String.toList_append]
  rw [htext, List.takeWhile_append_of_pos hdigits]
  simp

/-- Records of tokens at different places are different. -/
theorem offset_eq_of_ofToken {first second : Token.Placed} (h : ofToken first = ofToken second) :
    first.offset = second.offset := by
  have hdigits := takeWhile_reverse_text first
  rw [h, takeWhile_reverse_text, List.reverse_inj] at hdigits
  rw [← Text.Decimal.value_toDigits first.offset, ← hdigits, Text.Decimal.value_toDigits]

end Record

namespace Expression

open Cursor (Tiling)

/-! ## Tokens of a text -/

def Leading (text : String) (tokens : List Token.Placed) : Prop :=
  ∃ others, Tiling [] text.toList (scansOf tokens ++ others) ∧
    ∀ scan ∈ others.head?, ∃ error, scan = .error error

/-- All tokens of a text have been scanned, and then something that is none. -/
structure Scanned (text : String) (tokens : List Token.Placed) (last : Scan) : Prop where
  leading : Leading text tokens
  untilEnd_eq : (Cursor.ofText text).untilEnd = scansOf tokens ++ [last]
  ne_ending : ∀ placed ∈ tokens, placed.token ≠ .endOfInput
  last_ending : ∀ placed, last = .ok placed → placed.token = .endOfInput

theorem exists_last {passed text : List Char} {found : List Scan} (h : Tiling passed text found) :
    ∃ tokens others last, found = scansOf tokens ++ others ∧
      (∀ scan ∈ others.head?, ∃ error, scan = .error error) ∧
      Cursor.untilEnd ⟨text, Text.width passed⟩ = scansOf tokens ++ [last] ∧
      (∀ placed ∈ tokens, placed.token ≠ .endOfInput) ∧
      ∀ placed, last = .ok placed → placed.token = .endOfInput := by
  induction h with
  | @gap passed gap blank =>
      refine ⟨[], [], Scan.ending (Text.width (passed ++ gap)), rfl, by simp, ?_, by simp, ?_⟩
      · exact Cursor.untilEnd_endOfInput (Tiling.next_gap blank) rfl
      · rintro placed ⟨⟩
        rfl
  | @lexeme passed gap lexeme rest scan others blank first further ih =>
      have hnext := Tiling.next_lexeme blank first
      cases scan with
      | error error =>
          refine ⟨[], .error error :: others, .error error, rfl, ?_, ?_, by simp, ?_⟩
          · rintro scan ⟨⟩
            exact ⟨error, rfl⟩
          · exact Cursor.untilEnd_error hnext
          · rintro placed ⟨⟩
      | ok placed =>
          obtain ⟨tokens, unread, last, rfl, hunread, hscans, hne, hlast⟩ := ih
          refine ⟨placed :: tokens, unread, last, rfl, hunread, ?_, ?_, hlast⟩
          · rw [Cursor.untilEnd_token hnext first.token_ne, hscans]
            rfl
          · intro other hmem
            rcases List.mem_cons.mp hmem with rfl | hmem
            · exact first.token_ne
            · exact hne other hmem

theorem exists_scanned (text : String) : ∃ tokens last, Scanned text tokens last := by
  obtain ⟨found, htiling⟩ := Cursor.exists_tiling_of_text text
  obtain ⟨tokens, others, last, rfl, hothers, hscans, hne, hlast⟩ := exists_last htiling
  exact ⟨tokens, last, ⟨others, htiling, hothers⟩, hscans, hne, hlast⟩

/-- The scans are cut at the last one, or at a token. -/
theorem Scanned.cut {text : String} {tokens passed : List Token.Placed} {last scan : Scan}
    {rest : List Scan} (h : Scanned text tokens last)
    (hcut : (Cursor.ofText text).untilEnd = scansOf passed ++ scan :: rest) :
    passed = tokens ∧ scan = last ∨
      ∃ placed more, scan = .ok placed ∧ tokens = passed ++ placed :: more := by
  rw [h.untilEnd_eq] at hcut
  rcases List.eq_nil_or_concat rest with rfl | ⟨front, other, rfl⟩
  · obtain ⟨htokens, hlast⟩ := List.append_inj' hcut rfl
    exact .inl ⟨(scansOf_injective htokens).symm, (List.singleton_inj.mp hlast).symm⟩
  · rw [List.concat_eq_append, ← List.cons_append, ← List.append_assoc] at hcut
    obtain ⟨htokens, _⟩ := List.append_inj' hcut rfl
    obtain ⟨before, behind, rfl, hbefore, hbehind⟩ := List.map_eq_append_iff.mp htokens
    obtain ⟨placed, more, rfl, rfl, _⟩ := List.map_eq_cons_iff.mp hbehind
    exact .inr ⟨placed, more, rfl, by rw [scansOf_injective hbefore]⟩

/-- `read` are the tokens that have been scanned with `next`, in front of which stand `front`. The
end of a text is none of its `tokens`, and is met behind all of them. -/
inductive ReadTo (text : String) (tokens : List Token.Placed) :
    List Token.Placed → Token.Placed → List Token.Placed → Prop where
  | ending {offset : Nat} (whole : tokenize text = .ok (tokens ++ [⟨.endOfInput, offset⟩])) :
      ReadTo text tokens tokens ⟨.endOfInput, offset⟩ tokens
  | token {front : List Token.Placed} {next : Token.Placed} (ne : next.token ≠ .endOfInput) :
      ReadTo text tokens front next (front ++ [next])

theorem ReadTo.eq_of_ending {text : String} {tokens front read : List Token.Placed} {offset : Nat}
    (h : ReadTo text tokens front ⟨.endOfInput, offset⟩ read) : read = tokens := by
  cases h with
  | ending => rfl
  | token ne => exact absurd rfl ne

/-- Which tokens of a text have been scanned, told from the answer. Behind an operator that cannot
be applied and its right operand, that is one token more. -/
def Reach {α : Type} (text : String) (tokens read : List Token.Placed) : Except Error α → Prop
  | .ok _ | .error (.lexical _) => read = tokens
  | .error (.syntactic cause) =>
      match cause.found? with
      | none => read = tokens
      | some found => ∃ front, ReadTo text tokens front found read
  | .error (.evaluation cause) =>
      ∃ (front : List Token.Placed) (level : Chain) (operand : Derivation level.operand)
        (next : Token.Placed), level.joins cause.operator = true ∧
          next.token.precedence ≤ cause.operator.precedence ∧
          ReadTo text tokens
            (front ++ ⟨.operator cause.operator, cause.offset⟩ :: operand.tokens) next read

/-! ## Logs -/

def traces (log : List Record) : List Record := log.filter (·.level = .trace)

theorem traces_ofToken (tokens : List Token.Placed) :
    traces (tokens.map Record.ofToken) = tokens.map Record.ofToken := by
  refine List.filter_eq_self.mpr ?_
  intro record hmem
  obtain ⟨placed, _, rfl⟩ := List.mem_map.mp hmem
  rfl

/-- What the log of an answer tells, and what the answer tells of the log. -/
structure Logged {α : Type} (text : String) (answer : Except Error α) (log : List Record) :
    Prop where
  traces_prefix : traces log <+: tokenizationLog text
  nodup : (traces log).Nodup
  reach : ∃ tokens read, Leading text tokens ∧ tokenizationLog text = tokens.map Record.ofToken ∧
    read <+: tokens ∧ traces log = read.map Record.ofToken ∧ Reach text tokens read answer
  debug_of_ok : ∀ value, answer = .ok value →
    ∃ conclusion, log = traces log ++ [⟨.debug, conclusion⟩]
  debug_of_error : ∀ error, answer = .error error → log = traces log

structure LoggedTokens (text : String) (log : List Record) : Prop where
  eq_tokens : ∃ tokens, Leading text tokens ∧ log = tokens.map Record.ofToken
  nodup : log.Nodup
  no_debug : ∀ record ∈ log, record.level = .trace

theorem filterMap_ofScan?_tokens {tokens : List Token.Placed}
    (h : ∀ placed ∈ tokens, placed.token ≠ .endOfInput) :
    (scansOf tokens).filterMap Record.ofScan? = tokens.map Record.ofToken := by
  induction tokens with
  | nil => rfl
  | cons placed tokens ih =>
      have hrest := ih fun other hmem => h other (List.mem_cons_of_mem placed hmem)
      have hfirst := Record.ofScan?_token (h placed List.mem_cons_self)
      rw [scansOf_cons, List.filterMap_cons_some hfirst, hrest, List.map_cons]

namespace Scanned

variable {text : String} {tokens : List Token.Placed} {last : Scan}

theorem filterMap_ofScan? (h : Scanned text tokens last) :
    (scansOf tokens ++ [last]).filterMap Record.ofScan? = tokens.map Record.ofToken := by
  have hlast : Record.ofScan? last = none := by
    rcases last with error | placed
    · rfl
    · exact if_pos (h.last_ending placed rfl)
  rw [List.filterMap_append, filterMap_ofScan?_tokens h.ne_ending,
    List.filterMap_cons_none hlast, List.filterMap_nil, List.append_nil]

theorem tokenizationLog_eq (h : Scanned text tokens last) :
    tokenizationLog text = tokens.map Record.ofToken := by
  rw [tokenizationLog, h.untilEnd_eq]
  exact h.filterMap_ofScan?

theorem pairwise_offset (h : Scanned text tokens last) :
    tokens.Pairwise fun first second => first.offset < second.offset := by
  have hsorted := Cursor.pairwise_untilEnd text
  rw [h.untilEnd_eq] at hsorted
  have htokens := List.pairwise_map.mp (List.pairwise_append.mp hsorted).1
  exact htokens

theorem nodup_ofToken (h : Scanned text tokens last) : (tokens.map Record.ofToken).Nodup := by
  refine List.pairwise_map.mpr (h.pairwise_offset.imp ?_)
  intro first second hlt hrecord
  exact Nat.ne_of_lt hlt (Record.offset_eq_of_ofToken hrecord)

/-- The tokens among the first scans of a text, the last of which is `scan`. -/
theorem exists_read {passed : List Token.Placed} {scan : Scan} {rest : List Scan}
    (h : Scanned text tokens last)
    (hcut : (Cursor.ofText text).untilEnd = scansOf passed ++ scan :: rest) :
    ∃ read, read <+: tokens ∧
      (scansOf passed ++ [scan]).filterMap Record.ofScan? = read.map Record.ofToken ∧
      (∀ error, scan = .error error → read = tokens) ∧
      ∀ next, scan = .ok next → ReadTo text tokens passed next read := by
  rcases h.cut hcut with ⟨rfl, rfl⟩ | ⟨placed, more, rfl, rfl⟩
  · refine ⟨passed, List.prefix_rfl, h.filterMap_ofScan?, fun _ _ => rfl, ?_⟩
    rintro ⟨token, offset⟩ rfl
    obtain rfl : token = .endOfInput := h.last_ending _ rfl
    refine .ending ?_
    rw [tokenize, h.untilEnd_eq]
    refine gather_eq_ok_iff.mpr ?_
    rw [List.map_append]
    rfl
  · have hne : ∀ other ∈ passed ++ [placed], other.token ≠ .endOfInput := by
      intro other hmem
      rcases List.mem_append.mp hmem with hm | hm
      · exact h.ne_ending other (List.mem_append_left _ hm)
      · rw [List.mem_singleton.mp hm]
        exact h.ne_ending placed (by simp)
    refine ⟨passed ++ [placed], ⟨more, by simp⟩, ?_, by simp, ?_⟩
    · rw [← filterMap_ofScan?_tokens hne, scansOf_append]
      rfl
    · rintro next ⟨⟩
      exact .token (hne placed (by simp))

end Scanned

variable {σ α : Type} {S : Semantics σ α}

theorem Fault.reach {text : String} {passed tokens read : List Token.Placed} {scan : Scan}
    {error : Error} (hS : S.Accountable) (h : Fault S passed scan error)
    (herror : ∀ error, scan = .error error → read = tokens)
    (hnext : ∀ next, scan = .ok next → ReadTo text tokens passed next read) :
    Reach text tokens read (.error error : Except Error α) := by
  rcases error with cause | cause | cause
  · exact herror cause h.lexical_eq
  · rw [Reach]
    split
    · rename_i hnone
      cases h with
      | emptyExpression offset => exact (hnext _ rfl).eq_of_ending
      | _ => cases hnone
    · rename_i found hfound
      exact ⟨passed, hnext found (h.found_eq hfound)⟩
  · obtain ⟨front, level, operand, next, rfl, joins, stops, hscan⟩ := h.exists_operand hS
    exact ⟨front, level, operand, next, joins, stops, hnext next hscan⟩

namespace Run

variable {run : Run σ α} {read : List Token.Placed}

theorem Concluded.exists_read {text : String} (hS : S.Accountable) (h : run.Concluded S text)
    {tokens : List Token.Placed} {last : Scan} (hs : Scanned text tokens last) :
    ∃ read, read <+: tokens ∧
      run.scans.filterMap Record.ofScan? = read.map Record.ofToken ∧
      Reach text tokens read run.result := by
  cases hresult : run.result with
  | ok value =>
      refine ⟨tokens, List.prefix_rfl, ?_, rfl⟩
      rw [h.of_ok value hresult, hs.untilEnd_eq]
      exact hs.filterMap_ofScan?
  | error error =>
      obtain ⟨passed, scan, rest, hfault, hrun, hcut⟩ := h.of_error error hresult
      obtain ⟨read, hread, hrecords, herror, hnext⟩ := hs.exists_read hcut
      exact ⟨read, hread, by rw [hrun, hrecords], hfault.reach hS herror hnext⟩

theorem log_of_ok (conclude : α → String) {value : α} (h : run.result = .ok value)
    (hr : run.scans.filterMap Record.ofScan? = read.map Record.ofToken) :
    run.log conclude = read.map Record.ofToken ++ [⟨.debug, conclude value⟩] := by
  rw [log, hr, h]

theorem log_of_error (conclude : α → String) {error : Error} (h : run.result = .error error)
    (hr : run.scans.filterMap Record.ofScan? = read.map Record.ofToken) :
    run.log conclude = read.map Record.ofToken := by
  rw [log, hr, h]
  exact List.append_nil _

theorem traces_log (conclude : α → String)
    (hr : run.scans.filterMap Record.ofScan? = read.map Record.ofToken) :
    traces (run.log conclude) = read.map Record.ofToken := by
  cases hresult : run.result with
  | ok value =>
      rw [run.log_of_ok conclude hresult hr, traces, List.filter_append, ← traces, traces_ofToken]
      exact List.append_nil _
  | error error => rw [run.log_of_error conclude hresult hr, traces_ofToken]

end Run

theorem logged_parse (hS : S.Accountable) (text : String) (store : σ) (conclude : α → String) :
    Logged text (parse S text store).result ((parse S text store).log conclude) := by
  obtain ⟨tokens, last, hs⟩ := exists_scanned text
  obtain ⟨read, hread, hrecords, hreach⟩ := (concluded_parse S text store).exists_read hS hs
  have htraces := (parse S text store).traces_log conclude hrecords
  refine ⟨?_, ?_, ⟨tokens, read, hs.leading, hs.tokenizationLog_eq, hread, htraces, hreach⟩, ?_,
    ?_⟩
  · rw [htraces, hs.tokenizationLog_eq]
    exact hread.map Record.ofToken
  · rw [htraces]
    exact hs.nodup_ofToken.sublist (hread.map Record.ofToken).sublist
  · intro value hvalue
    rw [htraces]
    exact ⟨_, Run.log_of_ok conclude hvalue hrecords⟩
  · intro error herror
    rw [htraces]
    exact Run.log_of_error conclude herror hrecords

theorem loggedTokens_tokenizationLog (text : String) :
    LoggedTokens text (tokenizationLog text) := by
  obtain ⟨tokens, last, hs⟩ := exists_scanned text
  rw [hs.tokenizationLog_eq]
  refine ⟨⟨tokens, hs.leading, rfl⟩, hs.nodup_ofToken, ?_⟩
  intro record hmem
  obtain ⟨placed, _, rfl⟩ := List.mem_map.mp hmem
  rfl

/-- A reader scans one token behind what it takes, whatever comes of it, and its log shows that: it
begins as the log of all tokens does, and ends with an answer if there is one. -/
theorem logs_on_demand (text : String) :
    LoggedTokens text (tokenizationLog text) ∧ Logged text (evaluate text) (evaluationLog text) ∧
      ∀ style, Logged text (translate style text) (translationLog style text) :=
  ⟨loggedTokens_tokenizationLog text, logged_parse arithmetic_accountable text () _,
    fun style => logged_parse style.semantics_accountable text () _⟩

/-- The minus has been scanned when the division fails, and the number behind it has not. -/
example : (evaluationLog "1/0-2").map Record.text =
    ["lexed integer 1 at offset 0", "lexed '/' at offset 1", "lexed integer 0 at offset 2",
      "lexed '-' at offset 3"] := by decide +kernel

end Expression

end Calculator
