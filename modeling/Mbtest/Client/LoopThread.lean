import Mbtest.Client.Process
import Mathlib.Data.List.Chain

/-! The thread object `loopThread` and the flag `running` under any order of `start`, `stop`
and the end of the client. -/
namespace Mbtest.Client.Console
open Lib

/-- The lines that are about `loopThread`; `quit` is the empty line. -/
inductive Control
  | start
  | stop
  | quit
  deriving DecidableEq, Repr

def controlOf : Action → Option Control
  | .line args _ =>
    if args.head? = some "start".toList then some .start
    else if args.head? = some "stop".toList then some .stop
    else none
  | .quit => some .quit
  | _ => none

def controls (as : List Action) : List Control := as.filterMap controlOf

/-- Nothing but a `stop` comes next after a `start`. -/
def EachStopped (cs : List Control) : Prop := cs.IsChain fun c next => c = .start → next = .stop

instance (cs : List Control) : Decidable (EachStopped cs) :=
  inferInstanceAs (Decidable (cs.IsChain _))

theorem eachStopped_snoc {cs : List Control} (hcs : EachStopped cs) (c : Control) :
    EachStopped (cs ++ [c]) ↔ (cs.getLast? = some .start → c = .stop) := by
  rw [EachStopped, List.isChain_append]
  constructor
  · rintro ⟨-, -, hnext⟩ hlast
    exact hnext .start hlast c rfl rfl
  · intro hnext
    refine ⟨hcs, List.isChain_singleton c, ?_⟩
    rintro x hx y hy rfl
    cases Option.some.inj hy
    exact hnext hx

/-- Where `loopThread` is after the controls `cs`: it is joinable and `main` not yet about to
join it exactly when the last of them is a `start`. -/
structure ThreadInv (s : State) (cs : List Control) : Prop where
  ended : s.ended = some .terminate ↔ ¬ EachStopped cs
  started : s.ended = none → (cs.getLast? = some .start ↔ s.joinable = true ∧ s.main = .prompt)

section ThreadInv
variable {s s' : State} {cs : List Control}

theorem ThreadInv.eachStopped (hs : ThreadInv s cs) (hended : s.ended = none) : EachStopped cs := by
  by_contra hnot
  have hterminate := hs.ended.mpr hnot
  rw [hended] at hterminate
  cases hterminate

/-- A step that is no control and leaves the thread object and the prompt alone. -/
theorem ThreadInv.of_same (hs : ThreadInv s cs) (hended : s.ended = none)
    (hended' : s'.ended ≠ some .terminate) (hjoinable : s'.joinable = s.joinable)
    (hmain : s'.main = s.main) : ThreadInv s' cs where
  ended := iff_of_false hended' (not_not.mpr (hs.eachStopped hended))
  started _ := by rw [hjoinable, hmain]; exact hs.started hended

theorem ThreadInv.startLoop (hs : ThreadInv s cs) (hended : s.ended = none)
    (hmain : s.main = .prompt) : ThreadInv s.startLoop (cs ++ [.start]) := by
  have hchain := eachStopped_snoc (hs.eachStopped hended) .start
  have hlast := hs.started hended
  by_cases hjoinable : s.joinable = true
  · have hstart : s.startLoop = { s with ended := some .terminate } := if_pos hjoinable
    rw [hstart]
    refine ⟨iff_of_true rfl ?_, by simp⟩
    rw [hchain]
    intro hstop
    cases hstop (hlast.mpr ⟨hjoinable, hmain⟩)
  · have hstart : s.startLoop = { s with loop := .setRunning, joinable := true } := if_neg hjoinable
    rw [hstart]
    refine ⟨iff_of_false ?_ (not_not.mpr ?_), fun _ => ?_⟩
    · simp [hended]
    · rw [hchain]
      intro hstart
      exact absurd (hlast.mp hstart).1 hjoinable
    · simp [hmain]

theorem ThreadInv.stopLoop (hs : ThreadInv s cs) (hended : s.ended = none) :
    ThreadInv s.stopLoop (cs ++ [.stop]) := by
  have hchain := eachStopped_snoc (hs.eachStopped hended) .stop
  refine ⟨iff_of_false ?_ (not_not.mpr ?_), fun _ => iff_of_false ?_ ?_⟩
  · simp [State.stopLoop, hended]
  · rw [hchain]
    exact fun _ => rfl
  · simp
  · rintro ⟨hjoinable, hmain⟩
    rw [State.stopLoop] at hjoinable hmain
    rw [if_pos hjoinable] at hmain
    cases hmain

theorem ThreadInv.quit (hs : ThreadInv s cs) (hended : s.ended = none) (hmain : s.main = .prompt) :
    ThreadInv { s with ended := some (if s.joinable then .terminate else .returned) }
      (cs ++ [.quit]) := by
  have hchain := eachStopped_snoc (hs.eachStopped hended) .quit
  have hlast := hs.started hended
  refine ⟨?_, by simp⟩
  rw [hchain]
  by_cases hjoinable : s.joinable = true
  · refine iff_of_true (by simp [hjoinable]) fun hstop => ?_
    cases hstop (hlast.mpr ⟨hjoinable, hmain⟩)
  · refine iff_of_false (by simp [hjoinable]) (not_not.mpr fun hstart => ?_)
    exact absurd (hlast.mp hstart).1 hjoinable

theorem attempted_eq (s : State) (uncaught : Thrown → Ended) (outcome : Except Thrown Report) :
    ∃ ended reports,
      s.attempted uncaught outcome = { s with ended := ended, reports := reports } ∧
        (ended = s.ended ∨ ∃ e, ended = some (uncaught e)) := by
  cases outcome with
  | ok r => exact ⟨s.ended, s.reports ++ [r], rfl, .inl rfl⟩
  | error e => exact ⟨some (uncaught e), s.reports, rfl, .inr ⟨e, rfl⟩⟩

theorem threadInv_step {o : ByteOrder} (hs : ThreadInv s cs) {a : Action} (hended : s.ended = none)
    (hn : step o s a = some s') : ThreadInv s' (cs ++ (controlOf a).toList) := by
  cases a with
  | line args sc =>
    obtain ⟨hmain, ⟨⟩⟩ := of_guard hn
    simp only [controlOf, processLine]
    split_ifs with hstart hstop
    · exact hs.startLoop hended hmain
    · exact hs.stopLoop hended
    · obtain ⟨ended, reports, heq, hended'⟩ := attempted_eq s .uncaughtMain
        (attempt sc fun sock => processCommand o sock args)
      rw [Option.toList_none, List.append_nil, heq]
      refine hs.of_same hended ?_ rfl rfl
      rcases hended' with rfl | ⟨e, rfl⟩
      · simp [hended]
      · simp
  | quit =>
    obtain ⟨hmain, ⟨⟩⟩ := of_guard hn
    exact hs.quit hended hmain
  | join =>
    obtain ⟨⟨hmain, -⟩, ⟨⟩⟩ := of_guard hn
    simp only [controlOf, Option.toList_none, List.append_nil]
    have hlast := hs.started hended
    refine ⟨hs.ended, fun _ => iff_of_false ?_ (by simp)⟩
    rw [hlast, hmain]
    simp
  | readAll sc =>
    obtain ⟨-, ⟨⟩⟩ := of_guard hn
    obtain ⟨ended, reports, heq, hended'⟩ := attempted_eq { s with loop := .sleep } .uncaughtLoop
      (attempt sc fun sock => readAll o sock.toEndpoint)
    simp only [controlOf, Option.toList_none, List.append_nil, heq]
    refine hs.of_same hended ?_ rfl rfl
    rcases hended' with rfl | ⟨e, rfl⟩
    · simp [hended]
    · simp
  | _ =>
    obtain ⟨-, ⟨⟩⟩ := of_guard hn
    simp only [controlOf, Option.toList_none, List.append_nil]
    exact hs.of_same hended (by simp [hended]) rfl rfl

end ThreadInv

/-- `loopThread` ends the process neither by an assignment nor when `main` returns exactly in
the runs in which every `start` is followed by a `stop` before the next `start` and before
the end. -/
theorem terminate_iff {o : ByteOrder} {as : List Action} {s : State}
    (hr : (mbclient o).run (mbclient o).init as = some s) :
    s.ended ≠ some .terminate ↔ EachStopped (controls as) := by
  have hinv : ThreadInv s (controls as) := by
    refine TransitionSystem.run_invariant (S := mbclient o)
      (I := fun s as => ThreadInv s (controls as)) ?_ ?_ hr
    · exact ⟨iff_of_false (by simp [mbclient]) (not_not.mpr List.isChain_nil),
        fun _ => by simp [mbclient, controls]⟩
    · intro s as a s' hs hn
      obtain ⟨hended, hstep⟩ := of_guard hn
      have hlast : [a].filterMap controlOf = (controlOf a).toList := by
        rw [List.filterMap_cons, List.filterMap_nil]
        cases controlOf a <;> rfl
      rw [controls, List.filterMap_append, hlast]
      exact threadInv_step hs hended hstep
  rw [ne_eq, hinv.ended, not_not]

private def typed (verb : String) : Action := .line [verb.toList] ⟨fun _ => some 0, fun _ => 0⟩

private def startedTwice : List Action :=
  [typed "start", .setRunning, typed "stop", .test, .join,
    typed "start", .setRunning, typed "stop", .test, .join, typed "stop", .quit]

theorem terminate_iff_stopped : ∃ s,
    (mbclient .little).run (mbclient .little).init startedTwice = some s ∧
      s.ended = some .returned ∧
      (s.ended ≠ some .terminate ↔ EachStopped (controls startedTwice)) := by
  have hrun : ((mbclient .little).run (mbclient .little).init startedTwice).any
      (fun s => s.ended = some .returned) = true := by decide
  cases hr : (mbclient .little).run (mbclient .little).init startedTwice with
  | none => simp [hr] at hrun
  | some s => exact ⟨s, rfl, by simpa [hr] using hrun, terminate_iff hr⟩

/-- A second `start`, and the end of `main`, while the loop runs. -/
theorem terminate_reached :
    ((mbclient .little).run (mbclient .little).init
        [typed "start", .setRunning, typed "start"]).map State.ended = some (some .terminate) ∧
    ((mbclient .little).run (mbclient .little).init
        [typed "start", .setRunning, .quit]).map State.ended = some (some .terminate) := by
  decide

/-- Whether the last control was a `stop`, and the iterations of the loop begun after it. -/
structure SinceStop where
  stopped : Bool
  begun : ℕ
  deriving DecidableEq, Repr

def sinceStop (s : State) (a : Action) (h : SinceStop) : SinceStop :=
  match a with
  | .line args _ =>
    if args.head? = some "start".toList then ⟨false, 0⟩
    else if args.head? = some "stop".toList then ⟨true, 0⟩
    else h
  | .test => if s.running ∧ h.stopped then { h with begun := h.begun + 1 } else h
  | _ => h

def watched (o : ByteOrder) : TransitionSystem (State × SinceStop) Action :=
  (mbclient o).observe ⟨false, 0⟩ sinceStop

/-- A `stop` comes when the loop thread, if there is one, has made its first step. -/
def StopsLate (p : State × SinceStop) (a : Action) : Prop :=
  controlOf a = some .stop → p.1.loop ≠ .setRunning

instance (p : State × SinceStop) (a : Action) : Decidable (StopsLate p a) :=
  inferInstanceAs (Decidable (_ → _))

/-- After a `stop` the flag is off, no step of the loop thread switches it on, and no
iteration has begun; `join` waits for no other loop. -/
structure StaysOff (p : State × SinceStop) : Prop where
  running : p.2.stopped = true → p.1.running = false
  loop : p.2.stopped = true → p.1.loop ≠ .setRunning
  begun : p.2.stopped = true → p.2.begun = 0
  main : p.1.main = .joining → p.2.stopped = true

section StaysOff
variable {p : State × SinceStop} {s' : State}

theorem StaysOff.of_same (hs : StaysOff p) (hrunning : s'.running = p.1.running)
    (hloop : s'.loop = .setRunning → p.1.loop = .setRunning) (hmain : s'.main = p.1.main) :
    StaysOff (s', p.2) where
  running hstopped := hrunning.trans (hs.running hstopped)
  loop hstopped h := hs.loop hstopped (hloop h)
  begun := hs.begun
  main h := hs.main (hmain ▸ h)

theorem staysOff_step {o : ByteOrder} (hs : StaysOff p) {a : Action} (hguard : StopsLate p a)
    (hn : step o p.1 a = some s') : StaysOff (s', sinceStop p.1 a p.2) := by
  cases a with
  | line args sc =>
    obtain ⟨hmain, ⟨⟩⟩ := of_guard hn
    simp only [StopsLate, sinceStop, controlOf, processLine] at hguard ⊢
    split_ifs at hguard ⊢ with hstart hstop
    · have hprompt : p.1.startLoop.main = .prompt := by
        unfold State.startLoop
        split_ifs <;> exact hmain
      constructor
      · simp
      · simp
      · simp
      · intro h
        rw [hprompt] at h
        cases h
    · exact ⟨fun _ => rfl, fun _ => hguard rfl, fun _ => rfl, fun _ => rfl⟩
    · obtain ⟨ended, reports, heq, -⟩ := attempted_eq p.1 .uncaughtMain
        (attempt sc fun sock => processCommand o sock args)
      rw [heq]
      exact hs.of_same rfl id rfl
  | join =>
    obtain ⟨-, ⟨⟩⟩ := of_guard hn
    exact { hs with
      loop := fun _ => by simp
      main := by simp }
  | setRunning =>
    obtain ⟨hloop, ⟨⟩⟩ := of_guard hn
    -- a thread before its first step has not been stopped
    have hstopped : ¬ p.2.stopped = true := fun h => hs.loop h hloop
    exact ⟨fun h => absurd h hstopped, fun h => absurd h hstopped, fun h => absurd h hstopped,
      hs.main⟩
  | test =>
    obtain ⟨-, ⟨⟩⟩ := of_guard hn
    have hsame : sinceStop p.1 .test p.2 = p.2 := by
      refine if_neg ?_
      rintro ⟨hrunning, hstopped⟩
      rw [hs.running hstopped] at hrunning
      cases hrunning
    rw [hsame]
    refine hs.of_same rfl ?_ rfl
    split_ifs <;> simp
  | readAll sc =>
    obtain ⟨-, ⟨⟩⟩ := of_guard hn
    obtain ⟨ended, reports, heq, -⟩ := attempted_eq { p.1 with loop := .sleep } .uncaughtLoop
      (attempt sc fun sock => readAll o sock.toEndpoint)
    rw [heq]
    exact hs.of_same rfl (by simp) rfl
  | quit =>
    obtain ⟨-, ⟨⟩⟩ := of_guard hn
    exact hs.of_same rfl id rfl
  | wake =>
    obtain ⟨-, ⟨⟩⟩ := of_guard hn
    exact hs.of_same rfl (by simp) rfl

end StaysOff

/-- In a run in which no `stop` comes before the first step of the loop thread, the flag
stays off from a `stop` to the next `start`. -/
theorem staysOff_of_stopsLate {o : ByteOrder} {p : State × SinceStop}
    (hp : (watched o).ReachableVia StopsLate p) : StaysOff p := by
  refine hp.invariant ⟨by simp [watched, TransitionSystem.observe], by simp [watched,
    TransitionSystem.observe], by simp [watched, TransitionSystem.observe], by simp [watched,
    TransitionSystem.observe, mbclient]⟩ ?_
  intro p a p' hguard hs hn
  obtain ⟨hnext, hhistory⟩ := TransitionSystem.observe_next hn
  obtain ⟨-, hstep⟩ := of_guard hnext
  rw [← Prod.mk.eta (p := p'), hhistory]
  exact staysOff_step hs hguard hstep

/-- The loop is stopped while it has an iteration before it. -/
theorem staysOff_of_stopsLate_joining : ∃ p, (watched .little).ReachableVia StopsLate p ∧
    p.1.main = .joining ∧ p.1.loop = .readAll ∧ StaysOff p := by
  obtain ⟨p, hp, htest⟩ := TransitionSystem.exists_reachableVia_of_runVia (watched .little)
    StopsLate [typed "start", .setRunning, .test, typed "stop"]
    (fun p => p.1.main = .joining ∧ p.1.loop = .readAll) (by decide)
  obtain ⟨hmain, hloop⟩ := of_decide_eq_true htest
  exact ⟨p, hp, hmain, hloop, staysOff_of_stopsLate hp⟩

/-- A `stop` that comes first: `main` joins a loop that is switched on after it. -/
theorem switchedOn_again : ∃ p, (watched .little).Reachable p ∧
    p.1.main = .joining ∧ p.1.running = true ∧ p.1.loop = .readAll ∧ p.2 = ⟨true, 1⟩ := by
  obtain ⟨p, hp, htest⟩ := TransitionSystem.exists_reachable_of_run (watched .little)
    [typed "start", typed "stop", .setRunning, .test]
    (fun p => p.1.main = .joining ∧ p.1.running = true ∧ p.1.loop = .readAll ∧ p.2 = ⟨true, 1⟩)
    (by decide)
  exact ⟨p, hp, of_decide_eq_true htest⟩

end Mbtest.Client.Console
