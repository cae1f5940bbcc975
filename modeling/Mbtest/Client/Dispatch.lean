import Mbtest.Client.Arguments

/-! `processCommand` from the text of a line on: what it makes of every line that can be
typed in. -/
namespace Mbtest.Client.Console
open Lib

/-- What `processCommand` works on: the socket, and `startLoop` and `stopLoop`, which look at
no argument. -/
structure Terminal (S : Type) extends Socket S where
  startLoop : S → S
  stopLoop : S → S

section Dispatch
variable {S : Type} (o : ByteOrder) (term : Terminal S)

/-- `processCommand(std::string command)`: its value and the lines printed. The result is
`none` when an element of the argument vector is used that does not exist. -/
def processText (command : Str) : Command S (Option (Bool × List Line)) :=
  if command.isEmpty then return some (false, [])
  else
    match splitString command ' ' with
    | none => return none
    | some sv =>
      if sv.head? = some "start".toList then fun s => (.ok (some (true, [])), term.startLoop s)
      else if sv.head? = some "stop".toList then fun s => (.ok (some (true, [])), term.stopLoop s)
      else do
        let lines ← processCommand o term.toSocket sv
        return lines.map (true, ·)

end Dispatch

def arguments (command : Str) : List Str := (command.takeWhile (· ≠ nul)).splitOn ' '

/-- The command has returned with lines to print, or one of its socket calls has thrown. -/
def Executed (result : Except Thrown (Option (List Line))) : Prop :=
  (∃ lines, result = .ok (some lines)) ∨ result = .error .systemError

section Executed
variable {S : Type} {o : ByteOrder} {sock : Socket S}

theorem executed_error_iff {e : Thrown} : Executed (.error e) ↔ e = .systemError := by
  constructor
  · rintro (⟨lines, h⟩ | h)
    · cases h
    · exact Except.error.inj h
  · rintro rfl
    exact .inr rfl

theorem not_executed_none : ¬ Executed (.ok none) := by
  rintro (⟨lines, h⟩ | h) <;> cases h

theorem sendCommand_cases (sock : Endpoint S) (cmd : Code) (arg : UInt16) (s : S) :
    (∃ response s', sendCommand o sock cmd arg s = (.ok response, s')) ∨
      ∃ s', sendCommand o sock cmd arg s = (.error .systemError, s') := by
  rcases hcode : sock.write [cmd.toByte] s with ⟨sent, s₁⟩
  cases sent with
  | false =>
    right
    refine ⟨s₁, ?_⟩
    rw [sendCommand, Client.sendCommand, forM_cons]
    exact bind_error (bind_error (write_error hcode))
  | true =>
    rcases harg : sock.write (mem16 o (htons o arg)) s₁ with ⟨sent, s₂⟩
    cases sent with
    | false =>
      right
      refine ⟨s₂, ?_⟩
      rw [sendCommand, Client.sendCommand, forM_cons, forM_cons]
      refine bind_error ?_
      rw [bind_ok (write_ok hcode)]
      exact bind_error (write_error harg)
    | true =>
      left
      exact ⟨_, _, sendCommand_sent hcode harg⟩

/-- The size that a command asks for is the size that its printing needs. -/
theorem executed_command (sock : Endpoint S) (cmd : Code) (arg : UInt16) {size : ℕ}
    {print : List UInt8 → Option (List Line)}
    (hprint : ∀ response, size ≤ response.length → (print response).isSome) (s : S) :
    Executed (command o sock cmd arg size print s).1 := by
  rcases sendCommand_cases (o := o) sock cmd arg s with ⟨response, s', hsent⟩ | ⟨s', herror⟩
  · left
    rw [command_sent hsent]
    split_ifs with hsize
    · obtain ⟨lines, hlines⟩ := Option.isSome_iff_exists.mp (hprint response hsize)
      exact ⟨lines, congrArg Except.ok hlines⟩
    · exact ⟨[.noValues], rfl⟩
  · right
    rw [command, bind_error herror]

theorem isSome_printByte (response : List UInt8) (h : 1 ≤ response.length) :
    (printByte response).isSome := by
  obtain ⟨b, bs, rfl⟩ := List.exists_cons_of_length_pos h
  rfl

theorem isSome_printWord (response : List UInt8) (h : 2 ≤ response.length) :
    (printWord o response).isSome := by
  obtain ⟨hi, rest, rfl⟩ := List.exists_cons_of_length_pos (Nat.zero_lt_of_lt h)
  obtain ⟨lo, bs, rfl⟩ := List.exists_cons_of_length_pos (Nat.lt_of_succ_le (Nat.le_of_succ_le_succ h))
  rfl

theorem isSome_printWords (response : List UInt8) : (printWords o response).isSome := by
  rw [printWords, decodeWords_eq]
  rfl

theorem executed_readAllRegsByType (sock : Endpoint S) (mode : Str) (s : S) :
    Executed (readAllRegsByType o sock mode s).1 := by
  unfold readAllRegsByType
  split_ifs
  · exact executed_command sock .readDiscreteAll 0 (fun _ _ => rfl) s
  · exact executed_command sock .readCoilAll 0 (fun _ _ => rfl) s
  · exact executed_command sock .readInputAll 0 (fun response _ => isSome_printWords response) s
  · exact executed_command sock .readHoldingAll 0 (fun response _ => isSome_printWords response) s
  · exact .inl ⟨[.invalidArgument], rfl⟩

theorem executed_readRegByType (sock : Endpoint S) (mode : Str) (n : ℤ) (s : S) :
    Executed (readRegByType o sock mode n s).1 := by
  unfold readRegByType
  split_ifs
  · exact executed_command sock .readDiscrete _ isSome_printByte s
  · exact executed_command sock .readCoil _ isSome_printByte s
  · exact executed_command sock .readInput _ isSome_printWord s
  · exact executed_command sock .readHolding _ isSome_printWord s
  · exact .inl ⟨[.invalidArgument], rfl⟩

end Executed

/-- A `connect` has its two arguments, and the third piece of a `read` is `all` or a number. -/
def Parsable (args : List Str) : Prop :=
  (args.head? = some "connect".toList → 3 ≤ args.length) ∧
    (args.head? = some "read".toList →
      ∀ arg ∈ args[2]?, arg = "all".toList ∨ (stoi arg).toBool = true)

instance (args : List Str) : Decidable (Parsable args) := inferInstanceAs (Decidable (_ ∧ _))

section Parsable
variable {S : Type} {o : ByteOrder} {sock : Socket S}

theorem parsable_of_other {args : List Str} (hconnect : args.head? ≠ some "connect".toList)
    (hread : args.head? ≠ some "read".toList) : Parsable args :=
  ⟨fun h => absurd h hconnect, fun h => absurd h hread⟩

theorem stoi_ne_systemError (s : Str) : stoi s ≠ .error .systemError := by
  unfold stoi
  dsimp only
  split_ifs <;> simp

theorem executed_connectToServer_iff (args : List Str) (s : S) :
    Executed (connectToServer sock args s).1 ↔ 3 ≤ args.length := by
  rcases args with _ | ⟨verb, _ | ⟨host, _ | ⟨service, more⟩⟩⟩
  iterate 3
    exact iff_of_false not_executed_none (by simp)
  refine iff_of_true ?_ (by simp)
  rcases hfound : sock.resolve host service s with ⟨found, s'⟩
  cases found with
  | false =>
    have hresolve : resolve sock host service s = (.error .systemError, s') := by
      simp only [resolve, hfound, Bool.false_eq_true, if_false]
    right
    exact congrArg Prod.fst (bind_error hresolve)
  | true =>
    have hresolve : resolve sock host service s = (.ok (), s') := by
      simp only [resolve, hfound, if_true]
    left
    exact ⟨_, congrArg Prod.fst (bind_ok hresolve)⟩

/-- `stoi` is called before the mode is looked at. -/
theorem executed_processReadOp_iff (sock : Endpoint S) (args : List Str) (s : S) :
    Executed (processReadOp o sock args s).1 ↔
      ∀ arg ∈ args[2]?, arg = "all".toList ∨ (stoi arg).toBool = true := by
  rcases args with _ | ⟨verb, _ | ⟨mode, _ | ⟨arg, more⟩⟩⟩
  iterate 3
    exact iff_of_true (.inl ⟨[.tooFewArgs], rfl⟩) (by simp)
  simp only [List.getElem?_cons_succ, List.getElem?_cons_zero, Option.mem_def, Option.some.injEq,
    forall_eq']
  by_cases hall : arg = "all".toList
  · simp only [processReadOp, if_pos hall]
    exact iff_of_true (executed_readAllRegsByType sock mode s) (.inl hall)
  simp only [processReadOp, hall, if_false, false_or]
  cases hn : stoi arg with
  | ok n => exact iff_of_true (executed_readRegByType sock mode n s) rfl
  | error e =>
    refine iff_of_false (fun h => ?_) (by simp [Except.toBool])
    rw [executed_error_iff.mp h] at hn
    exact stoi_ne_systemError arg hn

theorem executed_processCommand_iff {args : List Str} (hargs : args ≠ []) (s : S) :
    Executed (processCommand o sock args s).1 ↔ Parsable args := by
  obtain ⟨verb, rest, rfl⟩ := List.exists_cons_of_ne_nil hargs
  simp only [Parsable, List.head?_cons, Option.some.injEq]
  by_cases hconnect : verb = "connect".toList
  · have hread : verb ≠ "read".toList := by rw [hconnect]; decide
    have hrun : processCommand o sock (verb :: rest) = connectToServer sock (verb :: rest) :=
      if_pos hconnect
    rw [hrun, executed_connectToServer_iff]
    exact ⟨fun h => ⟨fun _ => h, fun hverb => absurd hverb hread⟩, fun h => h.1 hconnect⟩
  by_cases hdisconnect : verb = "disconnect".toList
  · have hread : verb ≠ "read".toList := by rw [hdisconnect]; decide
    simp only [processCommand, if_neg hconnect, if_pos hdisconnect]
    exact iff_of_true (.inl ⟨_, rfl⟩) ⟨fun h => absurd h hconnect, fun h => absurd h hread⟩
  by_cases hread : verb = "read".toList
  · have hrun : processCommand o sock (verb :: rest) =
        processReadOp o sock.toEndpoint (verb :: rest) := by
      rw [processCommand, if_neg hconnect, if_neg hdisconnect, if_pos hread]
    rw [hrun, executed_processReadOp_iff]
    exact ⟨fun h => ⟨fun hverb => absurd hverb hconnect, fun _ => h⟩, fun h => h.2 hread⟩
  · simp only [processCommand, if_neg hconnect, if_neg hdisconnect, if_neg hread]
    exact iff_of_true (.inl ⟨[.invalidCommand], rfl⟩)
      ⟨fun h => absurd h hconnect, fun h => absurd h hread⟩

end Parsable

section Handled
variable {S : Type} (o : ByteOrder) (term : Terminal S)

/-- The words for the types of registers, with the commands for a table and for a register. -/
def reads : List (Str × Command S (Option (List Line)) × (ℤ → Command S (Option (List Line)))) :=
  [("discrete".toList, readDiscreteAll o term.toEndpoint, readDiscrete o term.toEndpoint),
    ("coil".toList, readCoilAll o term.toEndpoint, readCoil o term.toEndpoint),
    ("input".toList, readInputAll o term.toEndpoint, readInput o term.toEndpoint),
    ("holding".toList, readHoldingAll o term.toEndpoint, readHolding o term.toEndpoint)]

def reject (message : Line) : Command S (Option (List Line)) := return some [message]

/-- What a line asks for by its pieces: one of the client's commands, or a message that says
what is wrong with it. -/
inductive Asks : List Str → Command S (Option (List Line)) → Prop
  | connect (host service : Str) (more : List Str) :
    Asks ("connect".toList :: host :: service :: more)
      (connectToServer term.toSocket ["connect".toList, host, service])
  | disconnect (more : List Str) :
    Asks ("disconnect".toList :: more) (disconnectFromServer term.toSocket)
  | table {mode : Str} {all : Command S (Option (List Line))}
    {one : ℤ → Command S (Option (List Line))} (h : (mode, all, one) ∈ reads o term)
    (more : List Str) : Asks ("read".toList :: mode :: "all".toList :: more) all
  | register {mode arg : Str} {all : Command S (Option (List Line))}
    {one : ℤ → Command S (Option (List Line))} {n : ℤ} (h : (mode, all, one) ∈ reads o term)
    (hall : arg ≠ "all".toList) (hn : stoi arg = .ok n) (more : List Str) :
    Asks ("read".toList :: mode :: arg :: more) (one n)
  | start (more : List Str) :
    Asks ("start".toList :: more) fun s => (.ok (some []), term.startLoop s)
  | stop (more : List Str) : Asks ("stop".toList :: more) fun s => (.ok (some []), term.stopLoop s)
  | unknownMode {mode : Str} (h : mode ∉ (reads o term).map Prod.fst) (arg : Str)
    (more : List Str) : Asks ("read".toList :: mode :: arg :: more) (reject .invalidArgument)
  | noNumber {arg : Str} {e : Thrown} (hall : arg ≠ "all".toList) (hn : stoi arg = .error e)
    (mode : Str) (more : List Str) :
    Asks ("read".toList :: mode :: arg :: more) (reject .invalidArgument)
  | tooFew {verb : Str} {more : List Str} (hverb : verb = "connect".toList ∨ verb = "read".toList)
    (hmore : more.length < 2) : Asks (verb :: more) (reject .tooFewArgs)
  | unknownVerb {verb : Str}
    (hverb : verb ∉ ["connect", "disconnect", "read", "start", "stop"].map String.toList)
    (more : List Str) : Asks (verb :: more) (reject .invalidCommand)

/-- The line leads to what it asks for, and `processCommand` returns `true` unless one of the
socket calls throws. -/
def Handled (command : Str) (s : S) : Prop :=
  ∃ run, Asks o term (arguments command) run ∧ Executed (run s).1 ∧
    processText o term command s = ((run s).1.map (Option.map (true, ·)), (run s).2)

variable {o : ByteOrder} {term : Terminal S}

theorem mode_cases (o : ByteOrder) (term : Terminal S) (mode : Str) :
    (∃ all one, (mode, all, one) ∈ reads o term ∧
      readAllRegsByType o term.toEndpoint mode = all ∧
      ∀ n, readRegByType o term.toEndpoint mode n = one n) ∨
    (mode ∉ (reads o term).map Prod.fst ∧
      readAllRegsByType o term.toEndpoint mode = reject .invalidArgument ∧
      ∀ n, readRegByType o term.toEndpoint mode n = reject .invalidArgument) := by
  by_cases hmode : mode ∈ (reads o term).map Prod.fst
  · left
    simp only [reads, List.map_cons, List.map_nil, List.mem_cons, List.not_mem_nil, or_false]
      at hmode
    rcases hmode with rfl | rfl | rfl | rfl
    · exact ⟨_, _, .head _, rfl, fun _ => rfl⟩
    · exact ⟨_, _, .tail _ (.head _), rfl, fun _ => rfl⟩
    · exact ⟨_, _, .tail _ (.tail _ (.head _)), rfl, fun _ => rfl⟩
    · exact ⟨_, _, .tail _ (.tail _ (.tail _ (.head _))), rfl, fun _ => rfl⟩
  · have hne := hmode
    simp only [reads, List.map_cons, List.map_nil, List.mem_cons, List.not_mem_nil, or_false,
      not_or] at hne
    obtain ⟨hdiscrete, hcoil, hinput, hholding⟩ := hne
    refine .inr ⟨hmode, ?_, fun n => ?_⟩
    · rw [readAllRegsByType, if_neg hdiscrete, if_neg hcoil, if_neg hinput, if_neg hholding]
      rfl
    · rw [readRegByType, if_neg hdiscrete, if_neg hcoil, if_neg hinput, if_neg hholding]
      rfl

/-- The length is checked before the elements are used, and `stoi` is called before the mode
is looked at. -/
theorem asks_processReadOp {more : List Str} (hmore : Parsable ("read".toList :: more)) :
    Asks o term ("read".toList :: more)
      (processReadOp o term.toEndpoint ("read".toList :: more)) := by
  rcases more with _ | ⟨mode, _ | ⟨arg, more⟩⟩
  · exact .tooFew (.inr rfl) Nat.zero_lt_two
  · exact .tooFew (.inr rfl) Nat.one_lt_two
  have harg : arg = "all".toList ∨ (stoi arg).toBool = true := hmore.2 rfl arg rfl
  by_cases hall : arg = "all".toList
  · subst hall
    have hrun : processReadOp o term.toEndpoint ("read".toList :: mode :: "all".toList :: more) =
        readAllRegsByType o term.toEndpoint mode := by
      rw [processReadOp, if_pos rfl]
    rw [hrun]
    rcases mode_cases o term mode with ⟨all, one, hmem, htable, -⟩ | ⟨hmem, htable, -⟩
    · rw [htable]
      exact .table hmem more
    · rw [htable]
      exact .unknownMode hmem _ more
  cases hn : stoi arg with
  | error e =>
    rw [hn] at harg
    exact absurd harg (not_or.mpr ⟨hall, Bool.false_ne_true⟩)
  | ok n =>
    have hrun : processReadOp o term.toEndpoint ("read".toList :: mode :: arg :: more) =
        readRegByType o term.toEndpoint mode n := by
      rw [processReadOp, if_neg hall, hn]
      rfl
    rw [hrun]
    rcases mode_cases o term mode with ⟨all, one, hmem, -, hone⟩ | ⟨hmem, -, hone⟩
    · rw [hone]
      exact .register hmem hall hn more
    · rw [hone]
      exact .unknownMode hmem _ more

theorem asks_processCommand {args : List Str} (hargs : args ≠ []) (hparse : Parsable args)
    (hstart : args.head? ≠ some "start".toList) (hstop : args.head? ≠ some "stop".toList) :
    Asks o term args (processCommand o term.toSocket args) := by
  obtain ⟨verb, more, rfl⟩ := List.exists_cons_of_ne_nil hargs
  by_cases hconnect : verb = "connect".toList
  · subst hconnect
    rcases more with _ | ⟨host, _ | ⟨service, more⟩⟩
    · exact absurd (hparse.1 rfl) (by decide)
    · exact absurd (hparse.1 rfl) (by simp)
    · exact .connect host service more
  by_cases hdisconnect : verb = "disconnect".toList
  · subst hdisconnect
    exact .disconnect more
  by_cases hread : verb = "read".toList
  · subst hread
    exact asks_processReadOp hparse
  have hrun : processCommand o term.toSocket (verb :: more) = reject .invalidCommand := by
    rw [processCommand, if_neg hconnect, if_neg hdisconnect, if_neg hread]
    rfl
  have hverb : verb ∉ ["connect", "disconnect", "read", "start", "stop"].map String.toList := by
    have hs : verb ≠ "start".toList := fun h => hstart (congrArg some h)
    have ht : verb ≠ "stop".toList := fun h => hstop (congrArg some h)
    simp only [List.map_cons, List.map_nil, List.mem_cons, List.not_mem_nil, or_false, not_or]
    exact ⟨hconnect, hdisconnect, hread, hs, ht⟩
  rw [hrun]
  exact .unknownVerb hverb more

theorem marked_injective {r r' : Except Thrown (Option (List Line))}
    (h : r.map (Option.map (true, ·)) = r'.map (Option.map (true, ·))) : r = r' := by
  have hoption : Function.Injective (Option.map fun lines : List Line => (true, lines)) :=
    Option.map_injective (Prod.mk_right_injective true)
  cases r with
  | error e =>
    cases r' with
    | error e' => exact congrArg Except.error (Except.error.inj h)
    | ok lines' => cases h
  | ok lines =>
    cases r' with
    | error e' => cases h
    | ok lines' => exact congrArg Except.ok (hoption (Except.ok.inj h))

theorem processText_eq (o : ByteOrder) (term : Terminal S) {command : Str} (hcommand : command ≠ [])
    (hstart : (arguments command).head? ≠ some "start".toList)
    (hstop : (arguments command).head? ≠ some "stop".toList) (s : S) :
    processText o term command s =
      ((processCommand o term.toSocket (arguments command) s).1.map (Option.map (true, ·)),
        (processCommand o term.toSocket (arguments command) s).2) := by
  have hsplit : splitString command ' ' = some (arguments command) :=
    splitString_eq (by decide) command
  have hempty : ¬ command.isEmpty = true := by simpa using hcommand
  simp only [processText, if_neg hempty, hsplit, if_neg hstart, if_neg hstop]
  rcases hrun : processCommand o term.toSocket (arguments command) s with ⟨result, s'⟩
  cases result with
  | error e => exact bind_error hrun
  | ok lines => exact bind_ok hrun

/-- A line is handled exactly when it is `Parsable`, whatever its socket calls do. -/
theorem processText_handled_iff (o : ByteOrder) (term : Terminal S) {command : Str}
    (hcommand : command ≠ []) (s : S) :
    Handled o term command s ↔ Parsable (arguments command) := by
  have hsplit : splitString command ' ' = some (arguments command) :=
    splitString_eq (by decide) command
  have hempty : ¬ command.isEmpty = true := by simpa using hcommand
  have hargs : arguments command ≠ [] := List.splitOn_ne_nil ' ' _
  by_cases hstart : (arguments command).head? = some "start".toList
  · obtain ⟨more, hmore⟩ := List.head?_eq_some_iff.mp hstart
    have hasks : Asks o term (arguments command) fun s => (.ok (some []), term.startLoop s) := by
      rw [hmore]
      exact .start more
    have hrun : processText o term command s = (.ok (some (true, [])), term.startLoop s) := by
      simp only [processText, if_neg hempty, hsplit, if_pos hstart]
    refine iff_of_true ⟨_, hasks, .inl ⟨[], rfl⟩, hrun⟩ ?_
    exact parsable_of_other (by rw [hstart]; decide) (by rw [hstart]; decide)
  by_cases hstop : (arguments command).head? = some "stop".toList
  · obtain ⟨more, hmore⟩ := List.head?_eq_some_iff.mp hstop
    have hasks : Asks o term (arguments command) fun s => (.ok (some []), term.stopLoop s) := by
      rw [hmore]
      exact .stop more
    have hrun : processText o term command s = (.ok (some (true, [])), term.stopLoop s) := by
      simp only [processText, if_neg hempty, hsplit, if_neg hstart, if_pos hstop]
    refine iff_of_true ⟨_, hasks, .inl ⟨[], rfl⟩, hrun⟩ ?_
    exact parsable_of_other (by rw [hstop]; decide) (by rw [hstop]; decide)
  have hexecuted : Executed (processCommand o term.toSocket (arguments command) s).1 ↔
      Parsable (arguments command) := executed_processCommand_iff hargs s
  have htext := processText_eq o term hcommand hstart hstop s
  constructor
  · rintro ⟨run, -, hrun, heq⟩
    have hresult : (run s).1 = (processCommand o term.toSocket (arguments command) s).1 :=
      marked_injective (congrArg Prod.fst (heq.symm.trans htext))
    rw [← hexecuted, ← hresult]
    exact hrun
  · intro hparse
    exact ⟨_, asks_processCommand hargs hparse hstart hstop, hexecuted.mpr hparse, htext⟩

end Handled

/-- A terminal all of whose socket calls succeed; it receives zeros. -/
private def unbroken : Terminal Unit where
  write _ s := (true, s)
  read n s := (⟨.replicate n 0, false⟩, s)
  resolve _ _ s := (true, s)
  connect s := (true, s)
  close s := (true, s)
  startLoop s := s
  stopLoop s := s

theorem processText_handled_iff_blanks :
    Handled .little unbroken " read  input 7 ".toList () ↔
      Parsable (arguments " read  input 7 ".toList) :=
  processText_handled_iff .little unbroken (by decide) ()

/-- `connect` without a port uses `args[2]`, and the exceptions of `stoi` are not caught. -/
theorem processText_unhandled :
    (processText .little unbroken "connect localhost".toList ()).1 = .ok none ∧
    (processText .little unbroken "read input x".toList ()).1 = .error .invalidArgument ∧
    (processText .little unbroken "read input 2147483648".toList ()).1 = .error .outOfRange :=
  ⟨rfl, rfl, rfl⟩

end Mbtest.Client.Console
