import Calculator.Proofs.Embedding
import Calculator.Proofs.Verdict

/-!
# Open parentheses

How many parentheses are open at a place of a text, counted on the characters in front of it. Texts
that can be translated never have more than 256 open, and a text that is refused for its depth is
refused at the first parenthesis that would be one more.
-/

namespace Calculator

def Scan.balance : Scan → Int
  | .ok ⟨.leftParen, _⟩ => 1
  | .ok ⟨.rightParen, _⟩ => -1
  | _ => 0

namespace Expression

open Cursor (Gap Lexeme Plain Tiling)

/-- How many more parentheses are opened than closed. -/
def opened (chars : List Char) : Int := (chars.count '(' : Int) - chars.count ')'

def Shallow (chars : List Char) : Prop := ∀ front, front <+: chars → opened front ≤ 256

/-- The parenthesis at `offset` is the first with which more than 256 would be open. -/
def DeepAt (chars : List Char) (offset : Nat) : Prop :=
  ∃ front after, chars = front ++ '(' :: after ∧ Text.width front = offset ∧ Shallow front ∧
    opened front = 256

/-! ## Counting -/

@[simp] theorem opened_append (front back : List Char) :
    opened (front ++ back) = opened front + opened back := by
  unfold opened
  rw [List.count_append, List.count_append]
  omega

theorem opened_of_plain {chars : List Char} (h : Plain chars) : opened chars = 0 := by
  have hopen : chars.count '(' = 0 := List.count_eq_zero.mpr fun hc => h _ hc (by decide)
  have hclose : chars.count ')' = 0 := List.count_eq_zero.mpr fun hc => h _ hc (by decide)
  rw [opened, hopen, hclose]
  rfl

theorem shallow_nil : Shallow [] := by
  intro front hfront
  rw [List.prefix_nil.mp hfront]
  decide

theorem Shallow.concat {chars : List Char} {c : Char} (h : Shallow chars)
    (hc : opened (chars ++ [c]) ≤ 256) : Shallow (chars ++ [c]) := by
  intro front hfront
  rcases List.prefix_concat_iff.mp hfront with rfl | hshorter
  · exact hc
  · exact h front hshorter

theorem Shallow.append_plain {chars more : List Char} (h : Shallow chars) (hm : Plain more) :
    Shallow (chars ++ more) := by
  intro front hfront
  rcases List.prefix_or_prefix_of_prefix hfront (List.prefix_append chars more) with
    hshorter | ⟨back, rfl⟩
  · exact h front hshorter
  · have hback : back <+: more := (List.prefix_append_right_inj chars).mp hfront
    have hplain : Plain back := fun c hc => hm c (hback.subset hc)
    rw [opened_append, opened_of_plain hplain, Int.add_zero]
    exact h chars List.prefix_rfl

/-- With that parenthesis open, 257 are. -/
theorem DeepAt.not_shallow {chars : List Char} {offset : Nat} (h : DeepAt chars offset) :
    ¬ Shallow chars := by
  rcases h with ⟨front, after, rfl, _, _, hopened⟩
  intro hshallow
  have hprefix : front ++ ['('] <+: front ++ '(' :: after := ⟨after, by simp⟩
  have hle := hshallow _ hprefix
  rw [opened_append, hopened] at hle
  exact absurd hle (by decide)

/-! ## Steps -/

theorem opened_lexeme {before lexeme after : List Char} {scan : Scan}
    (h : Lexeme before lexeme after scan) : opened lexeme = scan.balance := by
  cases h with
  | operator op => cases op <;> rfl
  | leftParen => rfl
  | rightParen => rfl
  | integer run value exact => exact opened_of_plain run.plain
  | tooLarge run exceeds => exact opened_of_plain run.plain
  | unrecognized noSpace noDigit noSymbol =>
      refine opened_of_plain ?_
      intro c hc
      rw [List.mem_singleton.mp hc]
      exact noSymbol

namespace Automaton

/-- What a step does to the number of open parentheses, of which there are at most 256. -/
inductive Counted (count : Nat) (scan : Scan) : Step → Prop where
  | next (after : Automaton) (length_eq : (after.opened.length : Int) = count + scan.balance)
      (length_le : after.opened.length ≤ 256) : Counted count scan (.next after)
  | accept (offset : Nat) (ending : scan = Scan.ending offset) :
      Counted count scan (.halt (.ok ()))
  | deep (offset : Nat) (full : count = 256) (paren : scan = .ok ⟨.leftParen, offset⟩) :
      Counted count scan (.halt (.error (.syntactic (.nestingTooDeep 256 offset))))
  | other (error : Error)
      (shallow : ∀ limit offset, error ≠ .syntactic (.nestingTooDeep limit offset)) :
      Counted count scan (.halt (.error error))

theorem counted_want {opened : List Nat} (h : opened.length ≤ 256) (placed : Token.Placed) :
    Counted opened.length (.ok placed) (want opened placed) := by
  obtain ⟨token, offset⟩ := placed
  cases token with
  | integer value => exact .next _ (by simp [Scan.balance]) h
  | leftParen =>
      simp only [want]
      by_cases hd : opened.length < 256
      · rw [if_pos hd]
        exact .next _ (by simp [Scan.balance]) hd
      · rw [if_neg hd]
        exact .deep offset (by omega) rfl
  | operator op => exact .other _ (by simp)
  | rightParen => exact .other _ (by simp)
  | endOfInput => exact .other _ (by simp)

theorem counted_follow {opened : List Nat} (h : opened.length ≤ 256) (placed : Token.Placed) :
    Counted opened.length (.ok placed) (follow opened placed) := by
  obtain ⟨token, offset⟩ := placed
  cases token with
  | operator op => exact .next _ (by simp [Scan.balance]) h
  | rightParen =>
      cases opened with
      | nil => exact .other _ (by simp)
      | cons openedAt below =>
          rw [List.length_cons] at h
          refine .next _ ?_ (by dsimp only; omega)
          simp only [Scan.balance, List.length_cons]
          omega
  | endOfInput =>
      cases opened with
      | nil => exact .accept offset rfl
      | cons openedAt below => exact .other _ (by simp)
  | integer value => cases opened <;> exact .other _ (by simp)
  | leftParen => cases opened <;> exact .other _ (by simp)

theorem counted_step {automaton : Automaton} (h : automaton.opened.length ≤ 256) (scan : Scan) :
    Counted automaton.opened.length scan (step automaton scan) := by
  rcases scan with failure | placed
  · exact .other _ (by simp)
  · unfold step
    dsimp only
    split
    · exact counted_follow h placed
    · exact counted_want h placed

/-- The automaton has come behind `passed`, where as many parentheses are open as it keeps. -/
structure Level (automaton : Automaton) (passed : List Char) : Prop where
  length_eq : (automaton.opened.length : Int) = Expression.opened passed
  shallow : Shallow passed

variable {automaton after : Automaton} {passed text gap lexeme rest : List Char} {scan : Scan}

theorem level_start : Level ⟨false, []⟩ [] := ⟨rfl, shallow_nil⟩

theorem Level.length_le (h : Level automaton passed) : automaton.opened.length ≤ 256 := by
  have hle := h.shallow passed List.prefix_rfl
  rw [← h.length_eq] at hle
  omega

theorem Level.behind_gap (h : Level automaton passed) (blank : Gap gap) :
    Level automaton (passed ++ gap) where
  length_eq := by
    rw [opened_append, opened_of_plain blank.plain, Int.add_zero, h.length_eq]
  shallow := h.shallow.append_plain blank.plain

/-- What a step preserves. -/
theorem Level.behind_lexeme (h : Level automaton passed) (first : Lexeme passed lexeme rest scan)
    (hlength : (after.opened.length : Int) = automaton.opened.length + scan.balance)
    (hle : after.opened.length ≤ 256) : Level after (passed ++ lexeme) := by
  have hopened : (after.opened.length : Int) = Expression.opened (passed ++ lexeme) := by
    rw [opened_append, opened_lexeme first, ← h.length_eq, hlength]
  refine ⟨hopened, ?_⟩
  rcases first.run_or_single with run | ⟨c, rfl, _⟩
  · exact h.shallow.append_plain run.plain
  · exact h.shallow.concat (by omega)

/-- What a verdict on the rest of a text tells about the depth of all of it. -/
theorem Level.verdict {found : List Scan} (h : Level automaton passed)
    (htiling : Tiling passed text found) {offset : Nat} {result : Except Error Unit}
    (hv : Machine.verdict step automaton (found ++ [Scan.ending offset]) = some result) :
    (result = .ok () → Shallow (passed ++ text)) ∧
      ∀ limit place, result = .error (.syntactic (.nestingTooDeep limit place)) →
        limit = 256 ∧ DeepAt (passed ++ text) place := by
  induction htiling generalizing automaton with
  | gap passed blank =>
      refine ⟨fun _ => (h.behind_gap blank).shallow, ?_⟩
      rintro limit place rfl
      obtain ⟨scan, hmem, habout⟩ := verdict_about hv
      rw [List.nil_append, List.mem_singleton] at hmem
      subst hmem
      cases habout
  | @lexeme passed gap lexeme rest scan others blank first further ih =>
      have hcounted := counted_step (h.behind_gap blank).length_le scan
      rw [List.cons_append, Machine.verdict] at hv
      generalize step automaton scan = stepped at hv hcounted
      cases hcounted with
      | next after hlength hle =>
          have hrest := ih ((h.behind_gap blank).behind_lexeme first hlength hle) hv
          simpa only [List.append_assoc] using hrest
      | accept offset ending => exact absurd ending (first.ne_ending offset)
      | deep offset full paren =>
          obtain rfl := Option.some.inj hv
          refine ⟨by simp, ?_⟩
          intro limit place hdeep
          cases hdeep
          subst paren
          cases first with
          | leftParen =>
              refine ⟨rfl, passed ++ gap, rest, by simp, rfl, (h.behind_gap blank).shallow, ?_⟩
              rw [← (h.behind_gap blank).length_eq, full]
              rfl
      | other error shallow =>
          obtain rfl := Option.some.inj hv
          refine ⟨by simp, ?_⟩
          intro limit place hdeep
          exact absurd (Except.error.inj hdeep) (shallow limit place)

end Automaton

/-! ## Texts -/

theorem depth_of_check (text : String) :
    (check text = .ok () → Shallow text.toList) ∧
      ∀ limit offset, check text = .error (.syntactic (.nestingTooDeep limit offset)) →
        limit = 256 ∧ DeepAt text.toList offset := by
  obtain ⟨found, htiling⟩ := Cursor.exists_tiling_of_text text
  by_cases hne : found = []
  · subst hne
    rw [check_of_gap htiling]
    exact ⟨by simp, by simp⟩
  · exact Automaton.level_start.verdict htiling (verdict_of_tiling hne htiling)

/-- A text that can be translated has at most 256 open parentheses anywhere. -/
theorem shallow_of_check {text : String} (h : check text = .ok ()) : Shallow text.toList :=
  (depth_of_check text).1 h

/-- A text is refused for its depth at the first parenthesis that is one too many. -/
theorem deepAt_of_check {text : String} {limit offset : Nat}
    (h : check text = .error (.syntactic (.nestingTooDeep limit offset))) :
    limit = 256 ∧ DeepAt text.toList offset :=
  (depth_of_check text).2 limit offset h

/-- The tokens of a phrase that is too deep are refused for that. -/
theorem check_of_deep {text : String} {derivation : Derivation .expression}
    (h : derivation.Covers text) (hn : maxDepth < derivation.nesting) :
    ∃ offset, check text = .error (.syntactic (.nestingTooDeep 256 offset)) := by
  have htiling := Derivation.covers_iff_tiling.mp h
  have hne : scansOf derivation.tokens ≠ [] := by
    obtain ⟨head, rest, htokens, _⟩ := derivation.exists_first
    simp [htokens]
  have hverdict := Shunting.verdict_of_tiling Notation.lisp.semantics hne htiling ()
  have hsinks := Shunting.sinks_derivation (S := Notation.lisp.semantics) derivation [] [] ()
    [Scan.ending text.utf8ByteSize] trivial (Nat.zero_le _) (by simpa [Shunting.depth] using hn)
    (stops_endOfInput _)
  rw [show (⟨.wanted, [], [], ()⟩ : Shunting Unit String) = Shunting.start () from rfl,
    hverdict] at hsinks
  rcases hsinks with ⟨offset, after, hdeep⟩ | ⟨error, after, herror, _⟩
  · have htranslate : translate .lisp text = .error (.syntactic (.nestingTooDeep 256 offset)) :=
      congrArg Prod.fst (Option.some.inj hdeep)
    exact ⟨offset, translate_eq_error_iff.mp htranslate⟩
  · rw [Tree.walk_spell] at herror
    cases herror

/-- What is counted on the characters is what the derivation is nested. -/
theorem shallow_iff {text : String} {derivation : Derivation .expression}
    (h : derivation.Covers text) : Shallow text.toList ↔ derivation.nesting ≤ maxDepth := by
  constructor
  · intro hshallow
    by_cases hn : derivation.nesting ≤ maxDepth
    · exact hn
    · obtain ⟨offset, hcheck⟩ := check_of_deep h (Nat.lt_of_not_le hn)
      exact absurd hshallow (deepAt_of_check hcheck).2.not_shallow
  · intro hn
    exact shallow_of_check (exists_translate_iff.mp ⟨_, translate_of_covers .lisp h hn⟩)

end Expression

end Calculator
