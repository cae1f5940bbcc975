import Mbtest.Client.Dispatch

/-! The command loop of the client's `main` on a finite standard input. -/
namespace Mbtest.Client.Console

/-- The value of `processCommand`, when it returns. -/
def goesOn (command : Str) : Bool := !command.isEmpty

theorem processText_value {S : Type} {o : Lib.ByteOrder} {term : Terminal S} {command : Str} {s : S}
    {value : Bool} {lines : List Line}
    (h : (processText o term command s).1 = .ok (some (value, lines))) : value = goesOn command := by
  by_cases hempty : command.isEmpty = true
  · rw [processText, if_pos hempty] at h
    cases h
    rw [goesOn, hempty]
    rfl
  have hsplit : splitString command ' ' = some (arguments command) :=
    splitString_eq (by decide) command
  simp only [processText, if_neg hempty, hsplit] at h
  have hvalue : value = true := by
    split_ifs at h
    · cases h
      rfl
    · cases h
      rfl
    · rcases hrun : processCommand o term.toSocket (arguments command) s with ⟨result, s'⟩
      cases result with
      | error e => rw [bind_error hrun] at h; cases h
      | ok result =>
        rw [bind_ok hrun] at h
        cases result with
        | none => cases h
        | some result => cases h; rfl
  rw [hvalue, goesOn, Bool.eq_false_iff.mpr hempty]
  rfl

/-- `std::cin`: what is left of the input, and whether the stream is good. -/
structure InStream where
  rest : Str
  good : Bool

/-- `std::getline`: a stream that is not good leaves the string as it is, and the end of the
input, met on the way to a newline, leaves the stream not good. -/
def getline (cin : InStream) (command : Str) : InStream × Str :=
  if cin.good then
    match cin.rest.dropWhile (· ≠ '\n') with
    | [] => (⟨[], false⟩, cin.rest)
    | _ :: rest => (⟨rest, true⟩, cin.rest.takeWhile (· ≠ '\n'))
  else (cin, command)

/-- The commands that `main` hands to `processCommand`; `none` when the fuel ends before the
loop. -/
def mainLoop : ℕ → InStream → Str → Option (List Str)
  | 0, _, _ => none
  | fuel + 1, cin, command =>
    let (cin, command) := getline cin command
    if goesOn command then (mainLoop fuel cin command).map (command :: ·) else some [command]

/-- The lines of the input; the last one need not end with a newline. -/
def inputLines (content : Str) : List Str :=
  let pieces := content.splitOn '\n'
  if pieces.getLast? = some [] then pieces.dropLast else pieces

/-- The loop ends, having processed lines of the input in their order, each once, and an
empty command after them. -/
def OncePerLine (content : Str) : Prop :=
  ∃ fuel lines, mainLoop fuel ⟨content, true⟩ [] = some (lines ++ [[]]) ∧
    lines <+: inputLines content ∧ [] ∉ lines

theorem getline_line {line : Str} (hline : '\n' ∉ line) (rest command : Str) :
    getline ⟨line ++ '\n' :: rest, true⟩ command = (⟨rest, true⟩, line) := by
  have hall : ∀ x ∈ line, decide (x ≠ '\n') = true := fun x hx =>
    decide_eq_true fun h => hline (h ▸ hx)
  have hdrop : (line ++ '\n' :: rest).dropWhile (· ≠ '\n') = '\n' :: rest := by
    rw [List.dropWhile_append_of_pos hall]
    rfl
  have htake : (line ++ '\n' :: rest).takeWhile (· ≠ '\n') = line := by
    rw [List.takeWhile_append_of_pos hall]
    exact List.append_nil line
  simp only [getline, if_true, hdrop, htake]

theorem getline_last {line : Str} (hline : '\n' ∉ line) (command : Str) :
    getline ⟨line, true⟩ command = (⟨[], false⟩, line) := by
  have hdrop : line.dropWhile (· ≠ '\n') = [] :=
    List.dropWhile_eq_nil_iff.mpr fun x hx => decide_eq_true fun h => hline (h ▸ hx)
  simp only [getline, if_true, hdrop]

theorem line_cases (content : Str) :
    '\n' ∉ content ∨ ∃ line rest, '\n' ∉ line ∧ content = line ++ '\n' :: rest := by
  by_cases h : '\n' ∈ content
  · obtain ⟨line, rest, hcontent, hline⟩ := List.eq_append_cons_of_mem h
    exact .inr ⟨line, rest, hline, hcontent⟩
  · exact .inl h

theorem splitOn_line {line : Str} (hline : '\n' ∉ line) (rest : Str) :
    (line ++ '\n' :: rest).splitOn '\n' = line :: rest.splitOn '\n' :=
  List.splitOn_append_cons_self_of_not_mem hline rest

theorem inputLines_line {line : Str} (hline : '\n' ∉ line) (rest : Str) :
    inputLines (line ++ '\n' :: rest) = line :: inputLines rest := by
  obtain ⟨first, more, hrest⟩ := List.exists_cons_of_ne_nil (List.splitOn_ne_nil '\n' rest)
  simp only [inputLines, splitOn_line hline, hrest, List.getLast?_cons_cons, List.dropLast_cons_cons]
  split_ifs <;> rfl

theorem goesOn_iff {command : Str} : goesOn command = true ↔ command ≠ [] := by
  simp [goesOn]

/-- The end of the input is found: by `getline` in an empty line, or in no line at all. -/
theorem oncePerLine_of_empty {content : Str} (hempty : [] ∈ content.splitOn '\n') (command : Str) :
    ∃ fuel lines, mainLoop fuel ⟨content, true⟩ command = some (lines ++ [[]]) ∧
      lines <+: inputLines content ∧ [] ∉ lines := by
  rcases line_cases content with hlast | ⟨line, rest, hline, hcontent⟩
  · rw [List.splitOn_eq_singleton hlast, List.mem_singleton] at hempty
    subst hempty
    exact ⟨1, [], rfl, List.nil_prefix, List.not_mem_nil⟩
  have hlt : rest.length < content.length := by
    rw [hcontent, List.length_append, List.length_cons]
    omega
  subst hcontent
  by_cases hnil : line = []
  · subst hnil
    refine ⟨1, [], ?_, List.nil_prefix, List.not_mem_nil⟩
    simp only [mainLoop, getline_line hline]
    rfl
  · rw [splitOn_line hline, List.mem_cons] at hempty
    have hrest : [] ∈ rest.splitOn '\n' := hempty.resolve_left (Ne.symm hnil)
    obtain ⟨fuel, lines, hloop, hprefix, hlines⟩ := oncePerLine_of_empty hrest line
    refine ⟨fuel + 1, line :: lines, ?_, ?_, ?_⟩
    · simp only [mainLoop, getline_line hline, goesOn_iff.mpr hnil, if_true, hloop]
      rfl
    · rw [inputLines_line hline]
      exact List.cons_prefix_cons.mpr ⟨rfl, hprefix⟩
    · rw [List.mem_cons, not_or]
      exact ⟨Ne.symm hnil, hlines⟩
termination_by content.length

theorem mainLoop_stuck {command : Str} (hcommand : command ≠ []) (rest : Str) (fuel : ℕ) :
    mainLoop fuel ⟨rest, false⟩ command = none := by
  induction fuel with
  | zero => rfl
  | succ fuel ih =>
    have hline : getline ⟨rest, false⟩ command = (⟨rest, false⟩, command) := rfl
    simp only [mainLoop, hline, goesOn_iff.mpr hcommand, if_true, ih]
    rfl

theorem mainLoop_none {content : Str} (hempty : [] ∉ content.splitOn '\n') (command : Str)
    (fuel : ℕ) : mainLoop fuel ⟨content, true⟩ command = none := by
  induction fuel generalizing content command with
  | zero => rfl
  | succ fuel ih =>
    rcases line_cases content with hlast | ⟨line, rest, hline, rfl⟩
    · rw [List.splitOn_eq_singleton hlast, List.mem_singleton] at hempty
      simp only [mainLoop, getline_last hlast, goesOn_iff.mpr (Ne.symm hempty), if_true,
        mainLoop_stuck (Ne.symm hempty)]
      rfl
    · rw [splitOn_line hline, List.mem_cons, not_or] at hempty
      simp only [mainLoop, getline_line hline, goesOn_iff.mpr (Ne.symm hempty.1), if_true,
        ih hempty.2]
      rfl

/-- The loop ends exactly if one of the pieces between the newlines is empty: the input is
empty, or ends with a newline, or has an empty line. -/
theorem oncePerLine_iff (content : Str) : OncePerLine content ↔ [] ∈ content.splitOn '\n' := by
  constructor
  · rintro ⟨fuel, lines, hloop, -⟩
    by_contra hempty
    rw [mainLoop_none hempty] at hloop
    cases hloop
  · intro hempty
    exact oncePerLine_of_empty hempty []

/-- After an input that ends in `stop` without a newline, `stop` is processed again and again. -/
theorem mainLoop_repeats : ¬ OncePerLine "stop\nstop".toList ∧
    mainLoop 5 ⟨"stop\nstop".toList, true⟩ [] = none ∧
    (getline ⟨[], false⟩ "stop".toList).2 = "stop".toList := by
  refine ⟨?_, rfl, rfl⟩
  rintro ⟨fuel, lines, hloop, -⟩
  rw [mainLoop_none (by decide)] at hloop
  cases hloop

end Mbtest.Client.Console
