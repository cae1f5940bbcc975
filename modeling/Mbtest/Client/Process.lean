import Mbtest.Lib.TransitionSystem
import Mbtest.Network.Outcomes
import Mbtest.Client.Commands

/-! The process of the client: the command loop of `main`, the thread that `start` starts,
and what a socket call that fails does to them. -/
namespace Mbtest.Client.Console
open Lib

/-- A socket beside a note of whether one of its calls has failed. -/
def Socket.recorded {S : Type} (sock : Socket S) : Socket (S × Bool) where
  write buffer s := ((sock.write buffer s.1).1, (sock.write buffer s.1).2,
    s.2 || !(sock.write buffer s.1).1)
  read n s := ((sock.read n s.1).1, (sock.read n s.1).2, s.2 || (sock.read n s.1).1.ec)
  resolve host service s := ((sock.resolve host service s.1).1, (sock.resolve host service s.1).2,
    s.2 || !(sock.resolve host service s.1).1)
  connect s := ((sock.connect s.1).1, (sock.connect s.1).2, s.2 || !(sock.connect s.1).1)
  close s := ((sock.close s.1).1, (sock.close s.1).2, s.2 || !(sock.close s.1).1)

def scripted (sc : Script) : Socket Progress where
  write _ := sc.write
  read := sc.read
  resolve _ _ := sc.write
  connect := sc.write
  close := sc.write

/-- What a command that has returned leaves: whether a socket call failed, and its lines. -/
structure Report where
  failed : Bool
  lines : Option (List Line)
  deriving DecidableEq, Repr

abbrev CommandLine := Socket (Progress × Bool) → Command (Progress × Bool) (Option (List Line))

/-- A command whose socket calls have the outcomes of a script. -/
def attempt (sc : Script) (command : CommandLine) : Except Thrown Report :=
  match command (scripted sc).recorded (⟨0, 0⟩, false) with
  | (.ok lines, s) => .ok ⟨s.2, lines⟩
  | (.error e, _) => .error e

/-- `stopLoop` waits in `join`. -/
inductive MainPc
  | prompt
  | joining
  deriving DecidableEq, Repr

inductive LoopPc
  | none
  | setRunning
  | test
  | readAll
  | sleep
  | finished
  deriving DecidableEq, Repr

/-- How the process ends. `terminate` is the assignment to or the destruction of a
`std::thread` that is joinable. -/
inductive Ended
  | returned
  | terminate
  | uncaughtMain (e : Thrown)
  | uncaughtLoop (e : Thrown)
  deriving DecidableEq, Repr

/-- `reports` is history. -/
structure State where
  main : MainPc
  loop : LoopPc
  joinable : Bool
  running : Bool
  ended : Option Ended
  reports : List Report

namespace State
variable (s : State)

def startLoop : State :=
  if s.joinable then { s with ended := some .terminate }
  else { s with loop := .setRunning, joinable := true }

def stopLoop : State :=
  { s with running := false, main := if s.joinable then .joining else .prompt }

/-- Nobody catches what a command throws. -/
def attempted (uncaught : Thrown → Ended) : Except Thrown Report → State
  | .ok report => { s with reports := s.reports ++ [report] }
  | .error e => { s with ended := some (uncaught e) }

end State

/-- A line typed in, with the outcomes of the socket calls it leads to; an empty line; and
the steps of `stopLoop` and of `loopFunc`. -/
inductive Action
  | line (args : List Str) (sc : Script)
  | quit
  | join
  | setRunning
  | test
  | readAll (sc : Script)
  | wake

section Model
variable (o : ByteOrder)

def processLine (s : State) (args : List Str) (sc : Script) : State :=
  if args.head? = some "start".toList then s.startLoop
  else if args.head? = some "stop".toList then s.stopLoop
  else s.attempted .uncaughtMain (attempt sc fun sock => processCommand o sock args)

def step (s : State) : Action → Option State
  | .line args sc => if s.main = .prompt then some (processLine o s args sc) else none
  | .quit =>
    if s.main = .prompt then
      some { s with ended := some (if s.joinable then .terminate else .returned) }
    else none
  | .join =>
    if s.main = .joining ∧ s.loop = .finished then
      some { s with main := .prompt, loop := .none, joinable := false }
    else none
  | .setRunning =>
    if s.loop = .setRunning then some { s with running := true, loop := .test } else none
  | .test =>
    if s.loop = .test then some { s with loop := if s.running then .readAll else .finished }
    else none
  | .readAll sc =>
    if s.loop = .readAll then
      some (State.attempted { s with loop := .sleep } .uncaughtLoop
        (attempt sc fun sock => readAll o sock.toEndpoint))
    else none
  | .wake => if s.loop = .sleep then some { s with loop := .test } else none

def next (s : State) (a : Action) : Option State := if s.ended = none then step o s a else none

def mbclient : TransitionSystem State Action := ⟨⟨.prompt, .none, false, false, none, []⟩, next o⟩

end Model

def Line.OfData : Line → Prop
  | .value _ | .entry _ _ | .size _ => True
  | _ => False

def Report.NoValues (r : Report) : Prop := ∃ ls, r.lines = some ls ∧ ∀ l ∈ ls, ¬ l.OfData

/-- Enough arguments, and a number where one is expected. -/
def WellFormed (args : List Str) : Prop :=
  (args.head? = some "connect".toList → 3 ≤ args.length) ∧
    (args.head? = some "read".toList → 3 ≤ args.length ∧
      ∀ arg ∈ args[2]?, arg = "all".toList ∨ (stoi arg).toBool = true)

def modes : List Str := ["discrete".toList, "coil".toList, "input".toList, "holding".toList]

/-- The size of response from which the command of a line prints, if it sends any. -/
def printsFrom (args : List Str) : Option ℕ :=
  match args with
  | _ :: mode :: arg :: _ =>
    if mode ∈ modes then
      some (if arg ≠ "all".toList ∧ (mode = "input".toList ∨ mode = "holding".toList) then 2 else 1)
    else none
  | _ => none

def announced (o : ByteOrder) (sc : Script) : ℕ := (ntohl o (load32 o (sc.bytes 0 4))).toNat

/-- Both writes of a command succeed, and the read of the payload fails only where the
announced length is too small for a value. -/
def Quiet (o : ByteOrder) (sc : Script) (size : ℕ) : Prop :=
  sc.outcome 0 = none ∧ sc.outcome 1 = none ∧
    (sc.outcome 2 = none → sc.outcome 3 = none ∨ announced o sc < size)

instance (o : ByteOrder) (sc : Script) (size : ℕ) : Decidable (Quiet o sc size) :=
  inferInstanceAs (Decidable (_ ∧ _ ∧ (_ → _ ∨ _)))

/-- Lines as they should be, hosts that are known, and commands that are `Quiet`. -/
def Survivable (o : ByteOrder) (_ : State) : Action → Prop
  | .line args sc => WellFormed args ∧
    (args.head? = some "connect".toList → sc.outcome 0 = none) ∧
    (args.head? = some "read".toList → ∀ size ∈ printsFrom args, Quiet o sc size)
  | .readAll sc => Quiet o sc 1
  | _ => True

instance (args : List Str) : Decidable (WellFormed args) :=
  inferInstanceAs (Decidable ((_ → _) ∧ (_ → _ ∧ _)))

instance (o : ByteOrder) (s : State) (a : Action) : Decidable (Survivable o s a) :=
  match a with
  | .line args sc => inferInstanceAs (Decidable (WellFormed args ∧
      (args.head? = some "connect".toList → sc.outcome 0 = none) ∧
      (args.head? = some "read".toList → ∀ size ∈ printsFrom args, Quiet o sc size)))
  | .readAll sc => inferInstanceAs (Decidable (Quiet o sc 1))
  | .quit | .join | .setRunning | .test | .wake => .isTrue trivial

/-- A command that returns, and without data if one of its calls fails. -/
def Harmless (outcome : Except Thrown Report) : Prop :=
  ∃ r, outcome = .ok r ∧ (r.failed = true → r.NoValues)

section Commands
variable {o : ByteOrder} {sc : Script}

theorem harmless_of_silent {command : CommandLine} (lines : Option (List Line)) {s : Progress}
    (h : command (scripted sc).recorded (⟨0, 0⟩, false) = (.ok lines, s, false)) :
    Harmless (attempt sc command) :=
  ⟨⟨false, lines⟩, by simp only [attempt, h], by simp⟩

theorem harmless_of_messages {command : CommandLine} {ls : List Line} {s : Progress × Bool}
    (h : command (scripted sc).recorded (⟨0, 0⟩, false) = (.ok (some ls), s))
    (hls : ∀ l ∈ ls, ¬ l.OfData) : Harmless (attempt sc command) :=
  ⟨⟨s.2, some ls⟩, by simp only [attempt, h], fun _ => ⟨ls, rfl, hls⟩⟩

theorem harmless_connectToServer (hhost : sc.outcome 0 = none) (args : List Str) :
    Harmless (attempt sc fun sock => connectToServer sock args) := by
  rcases args with _ | ⟨verb, _ | ⟨host, _ | ⟨service, more⟩⟩⟩
  · exact harmless_of_silent none rfl
  · exact harmless_of_silent none rfl
  · exact harmless_of_silent none rfl
  have hfound : resolve (scripted sc).recorded host service (⟨0, 0⟩, false) =
      (.ok (), ⟨1, 0⟩, false) := by
    simp [resolve, Socket.recorded, scripted, Script.write, hhost]
  refine harmless_of_messages (bind_ok hfound) fun l hl => ?_
  rw [List.mem_singleton.mp hl]
  split_ifs <;> exact id

theorem harmless_disconnectFromServer :
    Harmless (attempt sc fun sock => disconnectFromServer sock) := by
  refine harmless_of_messages rfl fun l hl => ?_
  rw [List.mem_singleton.mp hl]
  split_ifs <;> exact id

/-- If a read fails, the response is too short for a value. -/
theorem length_readResponse_lt {size : ℕ} (hsize : 0 < size)
    (hpayload : sc.outcome 2 = none → sc.outcome 3 = none ∨ announced o sc < size)
    (hfailed : (Client.readResponse o (scripted sc).recorded.read (⟨2, 0⟩, false)).2.2 = true) :
    (Client.readResponse o (scripted sc).recorded.read (⟨2, 0⟩, false)).1.length < size := by
  cases hheader : sc.outcome 2 with
  | some k =>
    have hread := Script.read_failure (p := ⟨2, 0⟩) hheader 4
    simpa [Client.readResponse, Socket.recorded, scripted, hread] using hsize
  | none =>
    have hread := Script.read_success (p := ⟨2, 0⟩) hheader 4
    simp only [Client.readResponse, Socket.recorded, scripted, hread, Bool.or_false,
      Bool.false_eq_true, if_false] at hfailed ⊢
    change (sc.read (announced o sc) ⟨3, 4⟩).1.ec = true at hfailed
    change ((sc.read (announced o sc) ⟨3, 4⟩).1.bytes ++ List.replicate
      (announced o sc - (sc.read (announced o sc) ⟨3, 4⟩).1.bytes.length) 0).length < size
    rcases hpayload hheader with hbody | hshort
    · rw [Script.read_success (p := ⟨3, 4⟩) hbody] at hfailed
      simp at hfailed
    · -- the buffer has the announced length, whatever part of it was read
      have hlen := sc.length_read_le (announced o sc) ⟨3, 4⟩
      rw [List.length_append, List.length_replicate]
      omega

theorem write_recorded {c : ℕ} (hc : sc.outcome c = none) (buffer : List UInt8) :
    (scripted sc).recorded.write buffer (⟨c, 0⟩, false) = (true, ⟨c + 1, 0⟩, false) := by
  simp [Socket.recorded, scripted, Script.write, hc]

/-- A `Quiet` command gives the lines of its response, or says that it has none. -/
theorem harmless_command {size : ℕ} (hsize : 0 < size) (hquiet : Quiet o sc size) (cmd : Code)
    (arg : UInt16) (print : List UInt8 → Option (List Line)) :
    Harmless (attempt sc fun sock => command o sock.toEndpoint cmd arg size print) := by
  obtain ⟨hcode, harg, hpayload⟩ := hquiet
  have hwrite := write_recorded hcode [cmd.toByte]
  have hsent := sendCommand_sent hwrite (write_recorded harg (mem16 o (htons o arg)))
  have hshort := length_readResponse_lt hsize hpayload
  let result := Client.readResponse o (scripted sc).recorded.read (⟨2, 0⟩, false)
  refine ⟨⟨result.2.2, if size ≤ result.1.length then print result.1 else some [.noValues]⟩, ?_, ?_⟩
  · have hcommand := @command_sent _ o _ cmd arg size print _ _ _ hsent
    simp only [attempt, hcommand]
    rfl
  · intro hfailed
    have hlt : ¬ size ≤ result.1.length := Nat.not_le_of_lt (hshort hfailed)
    exact ⟨[.noValues], if_neg hlt, by simp [Line.OfData]⟩

theorem harmless_readAllRegsByType {mode : Str} (hquiet : mode ∈ modes → Quiet o sc 1) :
    Harmless (attempt sc fun sock => readAllRegsByType o sock.toEndpoint mode) := by
  by_cases hmode : mode ∈ modes
  · have hq := hquiet hmode
    have hprint := harmless_command Nat.one_pos hq
    simp only [modes, List.mem_cons, List.not_mem_nil, or_false] at hmode
    rcases hmode with rfl | rfl | rfl | rfl
    · exact hprint .readDiscreteAll 0 printBytes
    · exact hprint .readCoilAll 0 printBytes
    · exact hprint .readInputAll 0 (printWords o)
    · exact hprint .readHoldingAll 0 (printWords o)
  · simp only [modes, List.mem_cons, List.not_mem_nil, or_false, not_or] at hmode
    obtain ⟨hdiscrete, hcoil, hinput, hholding⟩ := hmode
    refine harmless_of_silent (some [.invalidArgument]) (s := ⟨0, 0⟩) ?_
    rw [readAllRegsByType, if_neg hdiscrete, if_neg hcoil, if_neg hinput, if_neg hholding]
    rfl

theorem harmless_readRegByType {mode : Str} (n : ℤ)
    (hquiet : mode ∈ modes →
      Quiet o sc (if mode = "input".toList ∨ mode = "holding".toList then 2 else 1)) :
    Harmless (attempt sc fun sock => readRegByType o sock.toEndpoint mode n) := by
  by_cases hmode : mode ∈ modes
  · have hq := hquiet hmode
    simp only [modes, List.mem_cons, List.not_mem_nil, or_false] at hmode
    rcases hmode with rfl | rfl | rfl | rfl
    · exact harmless_command Nat.one_pos hq .readDiscrete (UInt16.ofInt n) printByte
    · exact harmless_command Nat.one_pos hq .readCoil (UInt16.ofInt n) printByte
    · exact harmless_command Nat.two_pos hq .readInput (UInt16.ofInt n) (printWord o)
    · exact harmless_command Nat.two_pos hq .readHolding (UInt16.ofInt n) (printWord o)
  · simp only [modes, List.mem_cons, List.not_mem_nil, or_false, not_or] at hmode
    obtain ⟨hdiscrete, hcoil, hinput, hholding⟩ := hmode
    refine harmless_of_silent (some [.invalidArgument]) (s := ⟨0, 0⟩) ?_
    rw [readRegByType, if_neg hdiscrete, if_neg hcoil, if_neg hinput, if_neg hholding]
    rfl

theorem harmless_processReadOp {args : List Str}
    (hnumber : ∀ arg ∈ args[2]?, arg = "all".toList ∨ (stoi arg).toBool = true)
    (hquiet : ∀ size ∈ printsFrom args, Quiet o sc size) :
    Harmless (attempt sc fun sock => processReadOp o sock.toEndpoint args) := by
  rcases args with _ | ⟨verb, _ | ⟨mode, _ | ⟨arg, more⟩⟩⟩
  · exact harmless_of_silent (some [.tooFewArgs]) rfl
  · exact harmless_of_silent (some [.tooFewArgs]) rfl
  · exact harmless_of_silent (some [.tooFewArgs]) rfl
  have hsize : ∀ size, (mode ∈ modes → printsFrom (verb :: mode :: arg :: more) = some size) →
      mode ∈ modes → Quiet o sc size := fun size h hmode => hquiet size (h hmode)
  by_cases hall : arg = "all".toList
  · simp only [processReadOp, if_pos hall]
    refine harmless_readAllRegsByType (hsize 1 fun hmode => ?_)
    simp [printsFrom, hmode, hall]
  · obtain ⟨n, hn⟩ : ∃ n, stoi arg = .ok n := by
      have hok := (hnumber arg rfl).resolve_left hall
      cases hn : stoi arg with
      | ok n => exact ⟨n, rfl⟩
      | error e => rw [hn] at hok; cases hok
    simp only [processReadOp, if_neg hall, hn]
    refine harmless_readRegByType n (hsize _ fun hmode => ?_)
    simp only [printsFrom, if_pos hmode, ne_eq, hall, not_false_iff, true_and]

theorem harmless_processCommand {s : State} {args : List Str}
    (h : Survivable o s (.line args sc)) :
    Harmless (attempt sc fun sock => processCommand o sock args) := by
  obtain ⟨⟨-, hread⟩, hhost, hquiet⟩ := h
  rcases args with _ | ⟨verb, rest⟩
  · exact harmless_of_silent none rfl
  simp only [List.head?_cons, Option.some.injEq] at hread hhost hquiet
  by_cases hconnect : verb = "connect".toList
  · simp only [processCommand, if_pos hconnect]
    exact harmless_connectToServer (hhost hconnect) (verb :: rest)
  by_cases hdisconnect : verb = "disconnect".toList
  · simp only [processCommand, if_neg hconnect, if_pos hdisconnect]
    exact harmless_disconnectFromServer
  by_cases hreads : verb = "read".toList
  · simp only [processCommand, if_neg hconnect, if_neg hdisconnect, if_pos hreads]
    exact harmless_processReadOp (hread hreads).2 (hquiet hreads)
  · simp only [processCommand, if_neg hconnect, if_neg hdisconnect, if_neg hreads]
    exact harmless_of_silent (some [.invalidCommand]) rfl

end Commands

/-- No exception has ended the process, and no failed command has reported data. -/
structure Survives (s : State) : Prop where
  main : ∀ e, s.ended ≠ some (.uncaughtMain e)
  loop : ∀ e, s.ended ≠ some (.uncaughtLoop e)
  reports : ∀ r ∈ s.reports, r.failed = true → r.NoValues

theorem Survives.attempted {s : State} (hs : Survives s) (uncaught : Thrown → Ended)
    {outcome : Except Thrown Report} (h : Harmless outcome) :
    Survives (s.attempted uncaught outcome) := by
  obtain ⟨r, rfl, hr⟩ := h
  refine { hs with reports := fun r' hr' => ?_ }
  rcases List.mem_append.mp hr' with hr' | hr'
  · exact hs.reports r' hr'
  · rw [List.mem_singleton.mp hr']
    exact hr

theorem survives_step {o : ByteOrder} {s s' : State} {a : Action} (hs : Survives s)
    (hguard : Survivable o s a) (hn : step o s a = some s') : Survives s' := by
  cases a with
  | line args sc =>
    obtain ⟨-, ⟨⟩⟩ := of_guard hn
    unfold processLine
    split_ifs
    · unfold State.startLoop
      split_ifs
      · exact { hs with main := by simp, loop := by simp }
      · exact { hs with }
    · exact { hs with }
    · exact hs.attempted .uncaughtMain (harmless_processCommand hguard)
  | quit =>
    obtain ⟨-, ⟨⟩⟩ := of_guard hn
    exact { hs with
      main := by intro e; split_ifs <;> simp
      loop := by intro e; split_ifs <;> simp }
  | readAll sc =>
    obtain ⟨-, ⟨⟩⟩ := of_guard hn
    have hmoved : Survives { s with loop := .sleep } := { hs with }
    exact hmoved.attempted .uncaughtLoop (harmless_command Nat.one_pos hguard .readAll 0 _)
  | _ => obtain ⟨-, ⟨⟩⟩ := of_guard hn; exact { hs with }

/-- In a run in which hosts are known, commands are written and no payload is lost, a
command that fails gives no values, and the process goes on. -/
theorem survives_of_survivable {o : ByteOrder} {s : State}
    (hs : (mbclient o).ReachableVia (Survivable o) s) : Survives s := by
  refine hs.invariant ⟨by simp [mbclient], by simp [mbclient], by simp [mbclient]⟩ ?_
  intro s a s' hguard hs hn
  obtain ⟨-, hstep⟩ := of_guard hn
  exact survives_step hs hguard hstep

/-- The calls from number `f` on fail, after one byte if they read. -/
private def failsFrom (f : ℕ) (stream : List UInt8) : Script where
  outcome j := if j < f then none else some 1
  stream j := stream.getD j 0

private def readInputOne : List Str := ["read".toList, "input".toList, "1".toList]

private def connectLine : List Str := ["connect".toList, "localhost".toList, "5000".toList]

/-- The connection is refused, then made, then lost before a header in each thread. -/
theorem survives_of_survivable_lost : ∃ s, (mbclient .little).ReachableVia (Survivable .little) s ∧
    s.reports = [⟨true, some [.error]⟩, ⟨false, some [.connected]⟩, ⟨true, some [.noValues]⟩,
      ⟨true, some [.noValues]⟩] ∧ Survives s := by
  obtain ⟨s, hs, htest⟩ := TransitionSystem.exists_reachableVia_of_runVia
    (mbclient .little) (Survivable .little)
    [.line connectLine (failsFrom 1 []), .line connectLine (failsFrom 2 []),
      .line readInputOne (failsFrom 2 []), .line ["start".toList] (failsFrom 0 []), .setRunning,
      .test, .readAll (failsFrom 2 [])]
    (fun s => decide (s.reports = [⟨true, some [.error]⟩, ⟨false, some [.connected]⟩,
      ⟨true, some [.noValues]⟩, ⟨true, some [.noValues]⟩])) (by decide)
  exact ⟨s, hs, of_decide_eq_true htest, survives_of_survivable hs⟩

private def after (actions : List Action) : Option State :=
  (mbclient .little).run (mbclient .little).init actions

/-- A read without a connection ends the process, in either thread, and so does a host
that is not known; of a payload that is lost after one byte, a value is printed. -/
theorem process_ended :
    (after [.line readInputOne (failsFrom 0 [])]).map State.ended =
      some (some (.uncaughtMain .systemError)) ∧
    (after [.line connectLine (failsFrom 0 [])]).map State.ended =
      some (some (.uncaughtMain .systemError)) ∧
    (after [.line ["start".toList] (failsFrom 0 []), .setRunning, .test,
        .readAll (failsFrom 0 [])]).map State.ended = some (some (.uncaughtLoop .systemError)) ∧
    (after [.line connectLine (failsFrom 2 []),
        .line readInputOne (failsFrom 3 [0, 0, 0, 2, 1, 2])]).map State.reports =
      some [⟨false, some [.connected]⟩, ⟨true, some [.value 256]⟩] := by
  decide

end Mbtest.Client.Console
