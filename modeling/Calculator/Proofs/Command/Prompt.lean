import Calculator.Proofs.Command.Script

/-!
# Prompts

A prompt answers its lines as they come in, and a line that is not text ends it. A script is a
text as a whole or is not run at all. So the two leave the same on a text, exit codes apart, and
on other bytes the prompt leaves what the lines leave in front of the first that is not text.
-/

namespace Calculator

namespace Command

namespace Outcome

/-- Nothing is answered behind a line that ended the prompt. -/
theorem ofPromptLines_append (mode : Mode) (first rest : List (List UInt8)) :
    ofPromptLines mode (first ++ rest) =
      if (ofPromptLines mode first).exit = 0 then
        append (ofPromptLines mode first) (ofPromptLines mode rest)
      else ofPromptLines mode first := by
  induction first with
  | nil => simp [ofPromptLines]
  | cons line first ih =>
      rw [List.cons_append, ofPromptLines, ofPromptLines]
      cases Text.decode? line with
      | none => rfl
      | some text =>
          simp only [ih]
          have hexit : (append { ofLine mode text.toList with exit := 0 }
              (ofPromptLines mode first)).exit = (ofPromptLines mode first).exit := Nat.zero_max _
          rw [hexit]
          split
          · rw [append_assoc]
          · rfl

theorem ofPromptLines_encode (mode : Mode) (lines : List (List Char)) :
    ofPromptLines mode (lines.map Text.encode) =
      { (lines.map (ofLine mode)).foldr append {} with exit := 0 } := by
  induction lines with
  | nil => rfl
  | cons line lines ih =>
      rw [List.map_cons, ofPromptLines, Text.decode?_encode]
      simp only [ih, String.toList_ofList]
      rfl

theorem ofPrompt_encode (mode : Mode) (text : String) :
    ofPrompt mode (Text.encode text.toList) = { ofScript mode text with exit := 0 } := by
  rw [ofPrompt, Text.byteLines_encode, ofPromptLines_encode]
  rfl

theorem ofPrompt_of_bad_line (mode : Mode) {bytes bad : List UInt8} {lines : List (List Char)}
    {rest : List (List UInt8)}
    (hlined : Text.Lined 10 13 bytes (lines.map Text.encode ++ bad :: rest))
    (hbad : ¬ Text.IsText bad) :
    ofPrompt mode bytes =
      { exit := 1
        printed := String.join ((tried lines).map fun line => (ofExpression mode line).printed)
        messages := ((tried lines).flatMap fun line => (ofExpression mode line).messages) ++
          ["Error: stream did not contain valid UTF-8"] } := by
  rw [ofPrompt, Text.byteLines, hlined.splitLines_eq (by decide), ofPromptLines_append,
    ofPromptLines_encode, if_pos rfl, ofPromptLines, Text.decode?_of_not_isText hbad, foldr_ofLine]
  simp only [append, undecodable, printed_foldr, messages_foldr, List.map_map, List.flatMap_map,
    Nat.zero_max, String.append_empty]
  rfl

end Outcome

theorem run_prompt {arguments : List String} {mode : Mode}
    (hjob : Job.ofArguments arguments = .prompt mode) (file? : String → Option (List UInt8))
    (input : List UInt8) : run arguments file? input = .ofPrompt mode input := by
  rw [run, hjob]
  rfl

/-- What a prompt leaves of bytes that are not text: what the lines leave in front of the first
that is not, each by itself, and a message about that one. -/
structure BrokenOff (attempt : String → Outcome) (bytes : List UInt8) (prompt : Outcome) :
    Prop where
  exists_bad : ∃ (lines : List (List Char)) (bad : List UInt8) (rest : List (List UInt8)),
    Text.Lined 10 13 bytes (lines.map Text.encode ++ bad :: rest) ∧ ¬ Text.IsText bad ∧
      prompt.printed = String.join ((tried lines).map fun line => (attempt line).printed) ∧
      prompt.messages = ((tried lines).flatMap fun line => (attempt line).messages) ++
        ["Error: stream did not contain valid UTF-8"]
  exit_eq : prompt.exit = 1

theorem brokenOff_ofPrompt (mode : Mode) {bytes : List UInt8} (h : ¬ Text.IsText bytes) :
    BrokenOff (.ofExpression mode) bytes (.ofPrompt mode bytes) := by
  obtain ⟨lines, bad, rest, hlined, hbad⟩ := Text.exists_bad_line h
  rw [Outcome.ofPrompt_of_bad_line mode hlined hbad]
  exact ⟨⟨lines, bad, rest, hlined, hbad, rfl, rfl⟩, rfl⟩

/-- Of bytes that are not text the script leaves nothing but a message, while the prompt answers
all lines in front of the first that is not text. -/
theorem script_agree_prompt {scriptArguments promptArguments : List String} {mode : Mode}
    {path : String} {bytes : List UInt8} (file? : String → Option (List UInt8))
    (input : List UInt8) (hscript : Job.ofArguments scriptArguments = .script mode path)
    (hprompt : Job.ofArguments promptArguments = .prompt mode)
    (hfile : file? path = some bytes) :
    (Text.IsText bytes → ∃ (text : String) (lines : List (List Char)),
      text.toUTF8.data.toList = bytes ∧ Text.Lined '\n' '\r' text.toList lines ∧
      LineByLine mode (tried lines) (fun line => run ["-m", mode.name, "--", line] file? input)
        (run scriptArguments file? input) ∧
      run promptArguments file? bytes = { run scriptArguments file? input with exit := 0 }) ∧
    (¬ Text.IsText bytes →
      run scriptArguments file? input =
        { exit := 2
          messages :=
            ["Failed to read the input file '" ++ path ++
              "'. Perhaps this file does not exist?"] } ∧
      BrokenOff (fun line => run ["-m", mode.name, "--", line] file? input) bytes
        (run promptArguments file? bytes)) := by
  simp only [run_script hscript, run_prompt hprompt, hfile, run_expression]
  constructor
  · intro htext
    obtain ⟨text, rfl⟩ := Text.exists_toUTF8 htext
    rw [ofFile_eq_ofScript, Text.data_toUTF8, Outcome.ofPrompt_encode]
    exact ⟨text, Text.lines text.toList, Text.data_toUTF8 text,
      Text.lined_splitLines (by decide) _, lineByLine_ofScript mode text, rfl⟩
  · intro htext
    refine ⟨?_, brokenOff_ofPrompt mode htext⟩
    rw [Outcome.ofFile, Option.bind_some, Text.decode?_of_not_isText htext]
    rfl

/-- The third of four lines is a byte that no text has. -/
theorem script_agree_prompt_of_bad_line :
    Job.ofArguments ["-f", "-m", "value", "--", "sums"] = .script .value "sums" ∧
      Job.ofArguments ["-m", "value"] = .prompt .value ∧
      ¬ Text.IsText [40, 10, 50, 10, 255, 10, 51] ∧
      run ["-f", "-m", "value", "--", "sums"] (fun _ => some [40, 10, 50, 10, 255, 10, 51]) [] =
        { exit := 2
          messages :=
            ["Failed to read the input file 'sums'. Perhaps this file does not exist?"] } ∧
      BrokenOff
        (fun line =>
          run ["-m", "value", "--", line] (fun _ => some [40, 10, 50, 10, 255, 10, 51]) [])
        [40, 10, 50, 10, 255, 10, 51]
        (run ["-m", "value"] (fun _ => some [40, 10, 50, 10, 255, 10, 51])
          [40, 10, 50, 10, 255, 10, 51]) := by
  have hscript := ofArguments_script .value "sums"
  have hprompt := ofArguments_prompt .value
  have htext : ¬ Text.IsText [40, 10, 50, 10, 255, 10, 51] := by decide
  have hagree := script_agree_prompt (fun _ => some [40, 10, 50, 10, 255, 10, 51]) []
    hscript hprompt rfl
  exact ⟨hscript, hprompt, htext, hagree.2 htext⟩

end Command

/-!
## Line ends of scripts

A line feed between two scripts makes one script of them that does what they do one after the
other, unless the first ends with a carriage return: that is part of a line by itself, but of the
line end in front of a line feed. Carriage returns in front of all line feeds change nothing.
-/

def Text.returned (text : String) : String := .ofList (withReturns '\n' '\r' text.toList)

namespace Command

namespace Outcome

theorem exit_ofLine_le (mode : Mode) (line : List Char) : (ofLine mode line).exit ≤ 1 := by
  unfold ofLine ofExpression
  split
  · exact Nat.zero_le 1
  · split
    · exact Nat.zero_le 1
    · exact Nat.le_refl 1

theorem exit_ofScript_le (mode : Mode) (text : String) : (ofScript mode text).exit ≤ 1 := by
  apply exit_foldr_le
  intro outcome hm
  rcases List.mem_map.mp hm with ⟨line, _, rfl⟩
  exact exit_ofLine_le mode line

theorem ofScript_append (mode : Mode) {front : String} (hr : '\r' ∉ front.toList.getLast?)
    (back : String) :
    ofScript mode (front ++ "\n" ++ back) =
      append (ofScript mode front) (ofScript mode back) := by
  have hne : '\r' ≠ '\n' := by decide
  have hfront := Text.lined_splitLines hne front.toList
  have hback := Text.lined_splitLines hne back.toList
  have htext : (front ++ "\n" ++ back).toList = front.toList ++ '\n' :: back.toList := by simp
  unfold ofScript Text.lines
  rw [htext, ← foldr_append, ← List.map_append]
  rcases hfront.append_feed hr hback with h | h
  · rw [h.splitLines_eq hne]
  · -- The empty line is blank, so it leaves nothing.
    rw [h.splitLines_eq hne, foldr_ofLine, foldr_ofLine]
    simp [tried, Text.isBlank]

theorem ofScript_returned (mode : Mode) {text : String} (hr : '\r' ∉ text.toList) :
    ofScript mode (Text.returned text) = ofScript mode text := by
  have hne : '\r' ≠ '\n' := by decide
  have hlined := (Text.lined_splitLines hne text.toList).withReturns hr
  unfold ofScript Text.lines Text.returned
  rw [String.toList_ofList, hlined.splitLines_eq hne]

end Outcome

def Scripted (file? : String → Option (List UInt8)) (mode : Mode) (text : String)
    (arguments : List String) : Prop :=
  ∃ path, Job.ofArguments arguments = .script mode path ∧
    file? path = some text.toUTF8.data.toList

theorem Scripted.run_eq {file? : String → Option (List UInt8)} {mode : Mode} {text : String}
    {arguments : List String} (h : Scripted file? mode text arguments) (input : List UInt8) :
    run arguments file? input = .ofScript mode text := by
  rcases h with ⟨path, hjob, hfile⟩
  rw [run_script hjob, hfile, ofFile_eq_ofScript]

theorem run_prompt_of_text {arguments : List String} {mode : Mode}
    (hjob : Job.ofArguments arguments = .prompt mode) (file? : String → Option (List UInt8))
    (text : String) :
    run arguments file? text.toUTF8.data.toList =
      { Outcome.ofScript mode text with exit := 0 } := by
  rw [run_prompt hjob, Text.data_toUTF8, Outcome.ofPrompt_encode]

/-- One piece of work leaves what two others leave together, and it fails if one of them does. -/
structure Outcome.Joined (first second whole : Outcome) : Prop where
  printed_eq : whole.printed = first.printed ++ second.printed
  messages_eq : whole.messages = first.messages ++ second.messages
  exit_le : whole.exit ≤ 1
  exit_iff : whole.exit = 1 ↔ first.exit = 1 ∨ second.exit = 1

theorem Outcome.joined_ofScript (mode : Mode) {front : String}
    (hr : '\r' ∉ front.toList.getLast?) (back : String) :
    Joined (ofScript mode front) (ofScript mode back) (ofScript mode (front ++ "\n" ++ back)) := by
  have hfront := exit_ofScript_le mode front
  have hback := exit_ofScript_le mode back
  have hexit : (append (ofScript mode front) (ofScript mode back)).exit =
      max (ofScript mode front).exit (ofScript mode back).exit := rfl
  rw [ofScript_append mode hr]
  constructor
  case printed_eq => rfl
  case messages_eq => rfl
  case exit_le => omega
  case exit_iff => omega

/-- Scripts go together at line feeds, and the two ways to end lines are the same to a script and
at a prompt. -/
theorem scripts_joined (mode : Mode) (file? : String → Option (List UInt8)) (input : List UInt8) :
    (∀ (front back : String) (first second whole : List String),
      '\r' ∉ front.toList.getLast? → Scripted file? mode front first →
      Scripted file? mode back second → Scripted file? mode (front ++ "\n" ++ back) whole →
      Outcome.Joined (run first file? input) (run second file? input) (run whole file? input)) ∧
    ∀ text : String, '\r' ∉ text.toList →
      (∀ first second : List String, Scripted file? mode text first →
        Scripted file? mode (Text.returned text) second →
        run second file? input = run first file? input) ∧
      ∀ arguments : List String, Job.ofArguments arguments = .prompt mode →
        run arguments file? (Text.returned text).toUTF8.data.toList =
          run arguments file? text.toUTF8.data.toList := by
  constructor
  · intro front back first second whole hr hfirst hsecond hwhole
    rw [hfirst.run_eq, hsecond.run_eq, hwhole.run_eq]
    exact Outcome.joined_ofScript mode hr back
  · intro text hr
    constructor
    · intro first second hfirst hsecond
      rw [hfirst.run_eq, hsecond.run_eq, Outcome.ofScript_returned mode hr]
    · intro arguments hjob
      rw [run_prompt_of_text hjob, run_prompt_of_text hjob, Outcome.ofScript_returned mode hr]

/-- Files that hold their own names: a script that fails at its end, one with a blank line in front
of an answer, and both in one. -/
theorem scripts_joined_of_unfinished :
    '\r' ∉ "2\n1 /".toList.getLast? ∧ '\r' ∉ "2\n1 /".toList ∧
      Scripted (fun path => some path.toUTF8.data.toList) .value "2\n1 /"
        ["-f", "-m", "value", "--", "2\n1 /"] ∧
      Scripted (fun path => some path.toUTF8.data.toList) .value "\u00a0\r\n3"
        ["-f", "-m", "value", "--", "\u00a0\r\n3"] ∧
      Outcome.Joined
        (run ["-f", "-m", "value", "--", "2\n1 /"] (fun path => some path.toUTF8.data.toList) [])
        (run ["-f", "-m", "value", "--", "\u00a0\r\n3"]
          (fun path => some path.toUTF8.data.toList) [])
        (run ["-f", "-m", "value", "--", "2\n1 /" ++ "\n" ++ "\u00a0\r\n3"]
          (fun path => some path.toUTF8.data.toList) []) ∧
      run ["-f", "-m", "value", "--", Text.returned "2\n1 /"]
          (fun path => some path.toUTF8.data.toList) [] =
        run ["-f", "-m", "value", "--", "2\n1 /"]
          (fun path => some path.toUTF8.data.toList) [] := by
  have hscripted : ∀ text, Scripted (fun path => some path.toUTF8.data.toList) .value text
      ["-f", "-m", "value", "--", text] :=
    fun text => ⟨text, ofArguments_script .value text, rfl⟩
  have hfront : '\r' ∉ "2\n1 /".toList := by decide
  have hlast : '\r' ∉ "2\n1 /".toList.getLast? := by decide
  have hboth := scripts_joined .value (fun path => some path.toUTF8.data.toList) []
  have hjoined := hboth.1 _ _ _ _ _ hlast (hscripted _) (hscripted "\u00a0\r\n3") (hscripted _)
  have hreturned := (hboth.2 _ hfront).1 _ _ (hscripted _) (hscripted _)
  exact ⟨hlast, hfront, hscripted _, hscripted _, hjoined, hreturned⟩

end Command

end Calculator
