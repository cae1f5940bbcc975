import Mbtest.Lib.TransitionSystem
import Mbtest.ThreadDeleter.Collection
import Mathlib.Logic.Function.Basic

/-! The loop of `ThreadDeleter::run__` beside any number of threads in `deleteWorker` and one
in `stop`. Every operation of the collection locks, does its work and unlocks in three steps. -/
namespace Mbtest.ThreadDeleter
open Lib

/-- `is_completed` and `take` from the lock to the unlock, with the wait inside `take`, and the
two statements on the pointer. -/
inductive DeleterPc
  | notStarted
  | lockTest
  | test
  | unlockTest (completed : Bool)
  | lockTake
  | take
  | asleep
  | woken
  | recheck
  | unlockTake (status : BlockingCollectionStatus)
  | wait
  | delete
  | finished
  deriving DecidableEq, Repr

inductive AdderPc (W : Type)
  | idle
  | lock (w : W)
  | add (w : W)
  | unlock
  deriving DecidableEq, Repr

inductive StopPc
  | notCalled
  | lock
  | completeAdding
  | unlock
  | returned
  deriving DecidableEq, Repr

inductive Thread
  | deleter
  | adder (t : ℕ)
  | stop
  deriving DecidableEq, Repr

namespace DeleterPc

def acquired : DeleterPc → Option DeleterPc
  | .lockTest => some .test
  | .lockTake => some .take
  | .woken => some .recheck
  | _ => none

def released : DeleterPc → Option DeleterPc
  | .unlockTest completed => some (if completed then .finished else .lockTake)
  | .unlockTake status => some (if status = .ok then .wait else .lockTest)
  | _ => none

def carries : DeleterPc → Bool
  | .unlockTake status => status = .ok
  | .wait | .delete => true
  | _ => false

def holds : DeleterPc → Bool
  | .test | .unlockTest _ | .take | .recheck | .unlockTake _ => true
  | _ => false

end DeleterPc

def AdderPc.holds {W : Type} : AdderPc W → Bool
  | .add _ | .unlock => true
  | _ => false

def StopPc.holds : StopPc → Bool
  | .completeAdding | .unlock => true
  | _ => false

/-- `worker` is the local pointer of the loop, `none` before anything is stored in it;
`misused` says that it was followed then. The last four fields are history: the workers whose
`add` took effect before and after `complete_adding`, those waited for and those deleted. -/
structure State (W : Type) where
  deleter : DeleterPc
  worker : Option W
  adder : ℕ → AdderPc W
  stop : StopPc
  threads : BlockingCollection W
  lock : Option Thread
  misused : Bool
  added : List W
  late : List W
  waited : List W
  deleted : List W

inductive Action (W : Type)
  | start
  | acquire
  | test
  | take
  | recheck
  | spurious
  | release
  | wait
  | delete
  | call (t : ℕ) (w : W)
  | lockAdd (t : ℕ)
  | add (t : ℕ)
  | unlockAdd (t : ℕ)
  | stop
  | lockStop
  | completeAdding
  | unlockStop
  deriving DecidableEq, Repr

namespace State
variable {W : Type} (s : State W)

def setAdder (t : ℕ) (pc : AdderPc W) : State W :=
  { s with adder := Function.update s.adder t pc }

/-- A notification reaches the deleter if it sleeps. -/
def notify : State W := if s.deleter = .asleep then { s with deleter := .woken } else s

def take (outcome : Option BlockingCollectionStatus) : State W :=
  match s.threads.tryTake outcome with
  | .waits c => { s with threads := c, lock := none, deleter := .asleep }
  | .returns status item c =>
    { s with threads := c, worker := item.or s.worker, deleter := .unlockTake status }

/-- `worker->wait()` returns when the thread of the worker has ended. -/
def wait : State W :=
  match s.worker with
  | some w => { s with waited := s.waited ++ [w], deleter := .delete }
  | none => { s with misused := true }

def delete : State W :=
  match s.worker with
  | some w => { s with deleted := s.deleted ++ [w], deleter := .lockTest }
  | none => { s with misused := true }

/-- `add`, whose status `deleteWorker` drops. -/
def add (t : ℕ) (w : W) : State W :=
  let (status, notified, c) := s.threads.tryEmplaceTimed w
  let s' : State W := { s.setAdder t .unlock with
    threads := c
    added := if status = .ok ∧ s.threads.isAddingCompleted = false then s.added ++ [w] else s.added
    late := if status = .ok ∧ s.threads.isAddingCompleted = true then s.late ++ [w] else s.late }
  if notified then s'.notify else s'

def completeAdding : State W :=
  let s' : State W := { s with threads := s.threads.completeAdding, stop := .unlock }
  if s.threads.isAddingCompleted then s' else s'.notify

def inHand : List W := if s.deleter.carries then s.worker.toList else []

end State

section Model
variable {W : Type}

def initial : State W where
  deleter := .notStarted
  worker := none
  adder _ := .idle
  stop := .notCalled
  threads := .new
  lock := none
  misused := false
  added := []
  late := []
  waited := []
  deleted := []

def next (s : State W) : Action W → Option (State W)
  | .start => if s.deleter = .notStarted then some { s with deleter := .lockTest } else none
  | .acquire =>
    match s.deleter.acquired with
    | some pc => if s.lock = none then some { s with deleter := pc, lock := some .deleter } else none
    | none => none
  | .test =>
    if s.deleter = .test then some { s with deleter := .unlockTest s.threads.isCompleted } else none
  | .take => if s.deleter = .take then some (s.take s.threads.waitNotEmptyCondition) else none
  | .recheck =>
    if s.deleter = .recheck then some (s.take s.threads.wokenNotEmptyCondition) else none
  | .spurious => if s.deleter = .asleep then some { s with deleter := .woken } else none
  | .release =>
    match s.deleter.released with
    | some pc =>
      -- the pointer is declared anew in every pass, without an initialiser
      some { s with deleter := pc, lock := none, worker := if pc = .lockTake then none else s.worker }
    | none => none
  | .wait => if s.deleter = .wait then some s.wait else none
  | .delete => if s.deleter = .delete then some s.delete else none
  | .call t w =>
    match s.adder t with
    | .idle => some (s.setAdder t (.lock w))
    | _ => none
  | .lockAdd t =>
    match s.adder t with
    | .lock w =>
      if s.lock = none then some { s.setAdder t (.add w) with lock := some (.adder t) } else none
    | _ => none
  | .add t =>
    match s.adder t with
    | .add w => some (s.add t w)
    | _ => none
  | .unlockAdd t =>
    match s.adder t with
    | .unlock => some { s.setAdder t .idle with lock := none }
    | _ => none
  | .stop => if s.stop = .notCalled then some { s with stop := .lock } else none
  | .lockStop =>
    if s.stop = .lock ∧ s.lock = none then
      some { s with stop := .completeAdding, lock := some .stop }
    else none
  | .completeAdding => if s.stop = .completeAdding then some s.completeAdding else none
  | .unlockStop => if s.stop = .unlock then some { s with stop := .returned, lock := none } else none

def deletions (W : Type) : TransitionSystem (State W) (Action W) := ⟨initial, next⟩

end Model

/-- The history agrees with the collection, and the pointer is good where it is followed. -/
structure QueueInv {W : Type} (s : State W) : Prop where
  plain : s.threads.Plain
  carries : s.deleter.carries = true → ∃ w, s.worker = some w
  order : s.deleted ++ s.inHand ++ s.threads.container = s.added
  late : s.late = []
  waited : s.waited = s.deleted ++ if s.deleter = .delete then s.inHand else []
  misused : s.misused = false
  empty : s.deleter = .unlockTest true ∨ s.deleter = .finished →
    s.threads.isAddingCompleted = true ∧ s.threads.container = []

/-- The deleter sleeps only while there is nothing to take and more may come. -/
def Sleeps {W : Type} (s : State W) : Prop :=
  s.deleter = .asleep → s.threads.container = [] ∧ s.threads.isAddingCompleted = false

section Steps
variable {W : Type} {s s' : State W}

theorem inHand_of_not_carries (h : s.deleter.carries = false) : s.inHand = [] := by
  rw [State.inHand, h]
  rfl

theorem inHand_of_carries (h : s.deleter.carries = true) {w : W} (hw : s.worker = some w) :
    s.inHand = [w] := by
  rw [State.inHand, h, hw]
  rfl

theorem acquired_carries {pc pc' : DeleterPc} (h : pc.acquired = some pc') :
    pc.carries = false ∧ pc'.carries = false ∧ pc' ≠ .asleep ∧ pc' ≠ .unlockTest true ∧
      pc' ≠ .finished := by
  cases pc <;> cases h <;> simp [DeleterPc.carries]

theorem released_cases {pc pc' : DeleterPc} (h : pc.released = some pc') :
    (∃ completed, pc = .unlockTest completed ∧ pc' = if completed then .finished else .lockTake) ∨
      ∃ status, pc = .unlockTake status ∧ pc' = if status = .ok then .wait else .lockTest := by
  cases pc <;> cases h
  · exact .inl ⟨_, rfl, rfl⟩
  · exact .inr ⟨_, rfl, rfl⟩

theorem QueueInv.of_same (hs : QueueInv s) (hdeleter : s'.deleter = s.deleter)
    (hworker : s'.worker = s.worker) (hthreads : s'.threads = s.threads)
    (hmisused : s'.misused = s.misused) (hadded : s'.added = s.added) (hlate : s'.late = s.late)
    (hwaited : s'.waited = s.waited) (hdeleted : s'.deleted = s.deleted) : QueueInv s' := by
  have hinHand : s'.inHand = s.inHand := by rw [State.inHand, State.inHand, hdeleter, hworker]
  constructor
  · rw [hthreads]
    exact hs.plain
  · rw [hdeleter, hworker]
    exact hs.carries
  · rw [hdeleted, hinHand, hthreads, hadded]
    exact hs.order
  · rw [hlate]
    exact hs.late
  · rw [hwaited, hdeleted, hdeleter, hinHand]
    exact hs.waited
  · rw [hmisused]
    exact hs.misused
  · rw [hdeleter, hthreads]
    exact hs.empty

theorem QueueInv.move (hs : QueueInv s) (hcarries : s.deleter.carries = false) (pc : DeleterPc)
    (worker : Option W) (lock : Option Thread) (hpc : pc.carries = false)
    (hempty : pc = .unlockTest true ∨ pc = .finished →
      s.threads.isAddingCompleted = true ∧ s.threads.container = []) :
    QueueInv { s with deleter := pc, worker := worker, lock := lock } := by
  have hdelete : s.deleter ≠ .delete := by
    intro h
    rw [h] at hcarries
    cases hcarries
  have hdelete' : pc ≠ .delete := by
    rintro rfl
    cases hpc
  have hnone := inHand_of_not_carries hcarries
  have hnone' : State.inHand { s with deleter := pc, worker := worker, lock := lock } = [] :=
    inHand_of_not_carries hpc
  have horder := hs.order
  have hwaited := hs.waited
  rw [hnone] at horder
  rw [if_neg hdelete] at hwaited
  constructor
  · exact hs.plain
  · intro h
    rw [hpc] at h
    cases h
  · rw [hnone']
    exact horder
  · exact hs.late
  · rw [hwaited]
    exact (congrArg (s.deleted ++ ·) (if_neg hdelete')).symm
  · exact hs.misused
  · exact hempty

theorem queueInv_notify (hs : QueueInv s) : QueueInv s.notify := by
  unfold State.notify
  split_ifs with hasleep
  · exact hs.move (by rw [hasleep]; rfl) .woken s.worker s.lock rfl (by simp)
  · exact hs

theorem sleeps_notify (s : State W) : Sleeps s.notify := by
  unfold State.notify
  split_ifs with hasleep
  · intro h
    cases h
  · exact fun h => absurd h hasleep

/-- What `deleteWorker` does: the collection refuses the worker, or takes it and notifies. -/
theorem add_cases (hplain : s.threads.Plain) (t : ℕ) (w : W) :
    (s.threads.isAddingCompleted = true ∧ s.add t w = s.setAdder t .unlock) ∨
    (s.threads.isAddingCompleted = false ∧ ∃ c : BlockingCollection W, c.Plain ∧
      c.container = s.threads.container ++ [w] ∧ c.isAddingCompleted = false ∧
      s.add t w =
        State.notify { s.setAdder t .unlock with threads := c, added := s.added ++ [w] }) := by
  cases hcompleted : s.threads.isAddingCompleted with
  | true =>
    left
    refine ⟨rfl, ?_⟩
    simp [State.add, hplain.add_completed hcompleted, State.setAdder]
  | false =>
    right
    obtain ⟨c, hc, hplain', hcontainer, hopen⟩ := hplain.add_open hcompleted w
    refine ⟨rfl, c, hplain', hcontainer, hopen, ?_⟩
    simp [State.add, hc, hcompleted, State.setAdder]

/-- What `take` does: it waits, takes the first worker, or returns another status. -/
theorem take_cases (hplain : s.threads.Plain) {outcome : Option BlockingCollectionStatus}
    (houtcome : outcome = s.threads.waitNotEmptyCondition ∨
      outcome = s.threads.wokenNotEmptyCondition) :
    (∃ c : BlockingCollection W, c.Plain ∧ s.threads.container = [] ∧ c.container = [] ∧
      c.isAddingCompleted = false ∧ s.threads.isAddingCompleted = false ∧
      s.take outcome = { s with threads := c, lock := none, deleter := .asleep }) ∨
    (∃ (w : W) (c : BlockingCollection W), c.Plain ∧ s.threads.container = w :: c.container ∧
      c.isAddingCompleted = s.threads.isAddingCompleted ∧
      s.take outcome = { s with threads := c, worker := some w, deleter := .unlockTake .ok }) ∨
    (∃ status, status ≠ .ok ∧ s.take outcome = { s with deleter := .unlockTake status }) := by
  rcases hplain.take houtcome with ⟨c, hc, hplain', hempty, hempty', hopen, hopen'⟩ |
      ⟨w, c, hc, hplain', hcontainer, hsame⟩ | ⟨status, hc, hstatus, -, -⟩
  · left
    refine ⟨c, hplain', hempty, hempty', hopen', hopen, ?_⟩
    simp only [State.take, hc]
  · right; left
    refine ⟨w, c, hplain', hcontainer, hsame, ?_⟩
    simp only [State.take, hc, Option.some_or]
  · right; right
    refine ⟨status, hstatus, ?_⟩
    simp only [State.take, hc, Option.none_or]

theorem queueInv_add (hs : QueueInv s) (hsleeps : Sleeps s) (t : ℕ) (w : W) :
    QueueInv (s.add t w) ∧ Sleeps (s.add t w) := by
  rcases add_cases hs.plain t w with ⟨-, hadd⟩ | ⟨hopen, c, hplain, hcontainer, -, hadd⟩
  · rw [hadd]
    exact ⟨hs.of_same rfl rfl rfl rfl rfl rfl rfl rfl, hsleeps⟩
  · rw [hadd]
    refine ⟨queueInv_notify ?_, sleeps_notify _⟩
    refine { hs with
      plain := hplain
      order := ?_
      empty := fun h => ?_ }
    · change s.deleted ++ s.inHand ++ c.container = s.added ++ [w]
      rw [hcontainer, ← List.append_assoc, hs.order]
    · have hclosed := (hs.empty h).1
      rw [hopen] at hclosed
      cases hclosed

theorem queueInv_take (hs : QueueInv s) (hpc : s.deleter = .take ∨ s.deleter = .recheck)
    {outcome : Option BlockingCollectionStatus}
    (houtcome : outcome = s.threads.waitNotEmptyCondition ∨
      outcome = s.threads.wokenNotEmptyCondition) :
    QueueInv (s.take outcome) ∧ Sleeps (s.take outcome) := by
  have hcarries : s.deleter.carries = false := by rcases hpc with h | h <;> rw [h] <;> rfl
  have hdelete : s.deleter ≠ .delete := by rcases hpc with h | h <;> rw [h] <;> simp
  have horder := hs.order
  have hwaited := hs.waited
  rw [inHand_of_not_carries hcarries] at horder
  rw [if_neg hdelete] at hwaited
  rcases take_cases hs.plain houtcome with ⟨c, hplain, hempty, hempty', hopen, -, htake⟩ |
      ⟨w, c, hplain, hcontainer, -, htake⟩ | ⟨status, hstatus, htake⟩
  · rw [htake]
    refine ⟨?_, fun _ => ⟨hempty', hopen⟩⟩
    have hmoved := hs.move hcarries .asleep s.worker none rfl (by simp)
    refine { hmoved with
      plain := hplain
      order := ?_
      empty := by simp }
    change s.deleted ++ [] ++ c.container = s.added
    rw [hempty] at horder
    rw [hempty']
    exact horder
  · rw [htake]
    refine ⟨⟨hplain, fun _ => ⟨w, rfl⟩, ?_, hs.late, hwaited, hs.misused, by simp⟩, by simp [Sleeps]⟩
    change s.deleted ++ [w] ++ c.container = s.added
    rw [← horder, hcontainer]
    simp
  · rw [htake]
    have hfree : (DeleterPc.unlockTake status).carries = false := by simp [DeleterPc.carries, hstatus]
    exact ⟨hs.move hcarries (.unlockTake status) s.worker s.lock hfree (by simp), by simp [Sleeps]⟩

theorem queueInv_wait (hs : QueueInv s) (hpc : s.deleter = .wait) :
    QueueInv s.wait ∧ Sleeps s.wait := by
  have hcarries : s.deleter.carries = true := by rw [hpc]; rfl
  obtain ⟨w, hw⟩ := hs.carries hcarries
  have hwait : s.wait = { s with waited := s.waited ++ [w], deleter := .delete } := by
    simp only [State.wait, hw]
  have horder := hs.order
  have hwaited := hs.waited
  rw [inHand_of_carries hcarries hw] at horder
  rw [if_neg (by rw [hpc]; simp), List.append_nil] at hwaited
  have hinHand : State.inHand { s with waited := s.waited ++ [w], deleter := .delete } = [w] :=
    inHand_of_carries rfl hw
  rw [hwait]
  refine ⟨⟨hs.plain, fun _ => ⟨w, hw⟩, ?_, hs.late, ?_, hs.misused, by simp⟩, by simp [Sleeps]⟩
  · rw [hinHand]
    exact horder
  · rw [hinHand, if_pos rfl, ← hwaited]

theorem queueInv_delete (hs : QueueInv s) (hpc : s.deleter = .delete) :
    QueueInv s.delete ∧ Sleeps s.delete := by
  have hcarries : s.deleter.carries = true := by rw [hpc]; rfl
  obtain ⟨w, hw⟩ := hs.carries hcarries
  have hdelete : s.delete = { s with deleted := s.deleted ++ [w], deleter := .lockTest } := by
    simp only [State.delete, hw]
  have horder := hs.order
  have hwaited := hs.waited
  rw [inHand_of_carries hcarries hw] at horder
  rw [if_pos hpc, inHand_of_carries hcarries hw] at hwaited
  rw [hdelete]
  refine ⟨⟨hs.plain, by simp [DeleterPc.carries], ?_, hs.late, ?_, hs.misused, by simp⟩,
    by simp [Sleeps]⟩
  · change s.deleted ++ [w] ++ [] ++ s.threads.container = s.added
    rw [List.append_nil]
    exact horder
  · change s.waited = s.deleted ++ [w] ++ []
    rw [List.append_nil]
    exact hwaited

theorem queueInv_completeAdding (hs : QueueInv s) (hsleeps : Sleeps s) :
    QueueInv s.completeAdding ∧ Sleeps s.completeAdding := by
  obtain ⟨hplain, hcontainer, hcompleted⟩ := hs.plain.completeAdding
  have hthreads : QueueInv { s with threads := s.threads.completeAdding, stop := .unlock } := by
    refine { hs with
      plain := hplain
      order := ?_
      empty := fun h => ⟨hcompleted, ?_⟩ }
    · change s.deleted ++ s.inHand ++ s.threads.completeAdding.container = s.added
      rw [hcontainer]
      exact hs.order
    · rw [hcontainer]
      exact (hs.empty h).2
  unfold State.completeAdding
  dsimp only
  split_ifs with hbefore
  · refine ⟨hthreads, fun hasleep => ?_⟩
    have hopen := (hsleeps hasleep).2
    rw [hbefore] at hopen
    cases hopen
  · exact ⟨queueInv_notify hthreads, sleeps_notify _⟩

theorem queueInv_release (hs : QueueInv s) {pc : DeleterPc} (hreleased : s.deleter.released = some pc) :
    QueueInv { s with
      deleter := pc
      lock := none
      worker := if pc = .lockTake then none else s.worker } ∧
    pc ≠ .asleep := by
  rcases released_cases hreleased with ⟨completed, hpc, rfl⟩ | ⟨status, hpc, rfl⟩
  · have hfree : s.deleter.carries = false := by rw [hpc]; rfl
    cases completed with
    | true => exact ⟨hs.move hfree .finished _ none rfl fun _ => hs.empty (.inl hpc), by simp⟩
    | false => exact ⟨hs.move hfree .lockTake _ none rfl (by simp), by simp⟩
  · by_cases hok : status = .ok
    · subst hok
      have hcarries : s.deleter.carries = true := by rw [hpc]; rfl
      obtain ⟨w, hw⟩ := hs.carries hcarries
      have horder := hs.order
      have hwaited := hs.waited
      rw [inHand_of_carries hcarries hw] at horder
      rw [if_neg (by rw [hpc]; simp)] at hwaited
      have hinHand : State.inHand { s with deleter := .wait, lock := none } = [w] :=
        inHand_of_carries rfl hw
      refine ⟨⟨hs.plain, fun _ => ⟨w, hw⟩, ?_, hs.late, hwaited, hs.misused, by simp⟩, by simp⟩
      change s.deleted ++ State.inHand { s with deleter := .wait, lock := none } ++ _ = s.added
      rw [hinHand]
      exact horder
    · have hfree : s.deleter.carries = false := by rw [hpc]; simp [DeleterPc.carries, hok]
      rw [if_neg hok]
      exact ⟨hs.move hfree .lockTest _ none rfl (by simp), by simp⟩

theorem queueInv_step {a : Action W} (hs : QueueInv s) (hsleeps : Sleeps s)
    (hn : next s a = some s') : QueueInv s' ∧ Sleeps s' := by
  cases a with
  | start =>
    obtain ⟨hpc, ⟨⟩⟩ := of_guard hn
    exact ⟨hs.move (by rw [hpc]; rfl) .lockTest s.worker s.lock rfl (by simp), by simp [Sleeps]⟩
  | acquire =>
    simp only [next] at hn
    split at hn
    case h_1 pc hacquired =>
      obtain ⟨-, ⟨⟩⟩ := of_guard hn
      obtain ⟨hcarries, hpc, hasleep, htest, hfinished⟩ := acquired_carries hacquired
      refine ⟨hs.move hcarries pc s.worker (some .deleter) hpc ?_, fun h => absurd h hasleep⟩
      rintro (h | h)
      · exact absurd h htest
      · exact absurd h hfinished
    case h_2 => cases hn
  | test =>
    obtain ⟨hpc, ⟨⟩⟩ := of_guard hn
    refine ⟨hs.move (by rw [hpc]; rfl) (.unlockTest s.threads.isCompleted) s.worker s.lock rfl
      fun h => ?_, by simp [Sleeps]⟩
    have hcompleted : s.threads.isCompleted = true := by simpa using h
    simpa [BlockingCollection.isCompleted, BlockingCollection.isEmpty] using hcompleted
  | take =>
    obtain ⟨hpc, ⟨⟩⟩ := of_guard hn
    exact queueInv_take hs (.inl hpc) (.inl rfl)
  | recheck =>
    obtain ⟨hpc, ⟨⟩⟩ := of_guard hn
    exact queueInv_take hs (.inr hpc) (.inr rfl)
  | spurious =>
    obtain ⟨hpc, ⟨⟩⟩ := of_guard hn
    exact ⟨hs.move (by rw [hpc]; rfl) .woken s.worker s.lock rfl (by simp), by simp [Sleeps]⟩
  | release =>
    simp only [next] at hn
    split at hn
    case h_2 => cases hn
    case h_1 pc hreleased =>
      cases hn
      obtain ⟨hinv, hasleep⟩ := queueInv_release hs hreleased
      exact ⟨hinv, fun h => absurd h hasleep⟩
  | wait =>
    obtain ⟨hpc, ⟨⟩⟩ := of_guard hn
    exact queueInv_wait hs hpc
  | delete =>
    obtain ⟨hpc, ⟨⟩⟩ := of_guard hn
    exact queueInv_delete hs hpc
  | add t =>
    simp only [next] at hn
    split at hn
    case h_1 w hpc =>
      cases hn
      exact queueInv_add hs hsleeps t w
    case h_2 => cases hn
  | call t w | unlockAdd t =>
    simp only [next] at hn
    split at hn
    case h_1 =>
      cases hn
      exact ⟨hs.of_same rfl rfl rfl rfl rfl rfl rfl rfl, hsleeps⟩
    case h_2 => cases hn
  | lockAdd t =>
    simp only [next] at hn
    split at hn
    case h_1 =>
      obtain ⟨-, ⟨⟩⟩ := of_guard hn
      exact ⟨hs.of_same rfl rfl rfl rfl rfl rfl rfl rfl, hsleeps⟩
    case h_2 => cases hn
  | completeAdding =>
    obtain ⟨-, ⟨⟩⟩ := of_guard hn
    exact queueInv_completeAdding hs hsleeps
  | stop | lockStop | unlockStop =>
    obtain ⟨-, ⟨⟩⟩ := of_guard hn
    exact ⟨hs.of_same rfl rfl rfl rfl rfl rfl rfl rfl, hsleeps⟩

end Steps

/-- What is added is deleted in this order, after its thread has been waited for. The loop
sleeps only while there is nothing to take and more may come, and returns only when nothing is
left and nothing more will come. -/
structure DeletesInOrder {W : Type} (s : State W) : Prop where
  order : s.deleted ++ s.inHand ++ s.threads.container = s.added
  late : s.late = []
  waited : s.waited = s.deleted ++ if s.deleter = .delete then s.inHand else []
  misused : s.misused = false
  asleep : s.deleter = .asleep → s.threads.container = [] ∧ s.threads.isAddingCompleted = false
  finished : s.deleter = .finished →
    s.threads.isAddingCompleted = true ∧ s.threads.container = [] ∧
      s.deleted = s.added ∧ s.waited = s.added

theorem queueInv_of_reachable {W : Type} {s : State W} (hs : (deletions W).Reachable s) :
    QueueInv s ∧ Sleeps s := by
  refine hs.invariant (I := fun s => QueueInv s ∧ Sleeps s) ⟨?_, ?_⟩ ?_
  · exact ⟨BlockingCollection.plain_new, by simp [deletions, initial, DeleterPc.carries],
      rfl, rfl, rfl, rfl, by simp [deletions, initial]⟩
  · simp [Sleeps, deletions, initial]
  · intro s a s' _ hs hn
    exact queueInv_step hs.1 hs.2 hn

/-- The holder of the lock is at a place where it holds it, and adding is completed by `stop`
only. -/
structure LockInv {W : Type} (s : State W) : Prop where
  deleter : s.lock = some .deleter → s.deleter.holds = true
  adder : ∀ t, s.lock = some (.adder t) → (s.adder t).holds = true
  stop : s.lock = some .stop → s.stop.holds = true
  notCalled : s.stop = .notCalled → s.threads.isAddingCompleted = false

section LockInv
variable {W : Type} {s s' : State W}

theorem lockInv_of_free (hlock : s.lock = none)
    (hstop : s.stop = .notCalled → s.threads.isAddingCompleted = false) : LockInv s := by
  constructor
  · simp [hlock]
  · simp [hlock]
  · simp [hlock]
  · exact hstop

theorem LockInv.move (hs : LockInv s) (pc : DeleterPc)
    (hpc : s.deleter.holds = true → pc.holds = true) : LockInv { s with deleter := pc } :=
  { hs with deleter := fun h => hpc (hs.deleter h) }

theorem LockInv.setAdder (hs : LockInv s) (t : ℕ) (pc : AdderPc W)
    (hpc : (s.adder t).holds = true → pc.holds = true) : LockInv (s.setAdder t pc) := by
  refine { hs with adder := fun u hu => ?_ }
  unfold State.setAdder
  by_cases hut : u = t
  · subst hut
    simpa using hpc (hs.adder u hu)
  · simpa [hut] using hs.adder u hu

theorem lockInv_notify (hs : LockInv s) : LockInv s.notify := by
  unfold State.notify
  split_ifs with hasleep
  · exact hs.move .woken (by rw [hasleep]; simp [DeleterPc.holds])
  · exact hs

theorem lockInv_add (hs : LockInv s) (hplain : s.threads.Plain) (t : ℕ) (w : W) :
    LockInv (s.add t w) := by
  have hmoved := hs.setAdder t .unlock fun _ => rfl
  rcases add_cases hplain t w with ⟨-, hadd⟩ | ⟨-, c, -, -, hopen, hadd⟩
  · rw [hadd]
    exact hmoved
  · rw [hadd]
    exact lockInv_notify { hmoved with notCalled := fun _ => hopen }

theorem lockInv_take (hs : LockInv s) (hplain : s.threads.Plain)
    {outcome : Option BlockingCollectionStatus}
    (houtcome : outcome = s.threads.waitNotEmptyCondition ∨
      outcome = s.threads.wokenNotEmptyCondition) : LockInv (s.take outcome) := by
  rcases take_cases hplain houtcome with ⟨c, -, -, -, hopen, -, htake⟩ |
      ⟨w, c, -, -, hsame, htake⟩ | ⟨status, -, htake⟩
  · rw [htake]
    exact lockInv_of_free rfl fun _ => hopen
  · rw [htake]
    exact { hs with
      deleter := fun _ => rfl
      notCalled := fun h => hsame.trans (hs.notCalled h) }
  · rw [htake]
    exact hs.move (.unlockTake status) fun _ => rfl

theorem acquired_holds {pc pc' : DeleterPc} (h : pc.acquired = some pc') : pc'.holds = true := by
  cases pc <;> cases h <;> rfl

theorem lockInv_step {a : Action W} (hs : LockInv s) (hplain : s.threads.Plain)
    (hn : next s a = some s') : LockInv s' := by
  cases a with
  | start | spurious =>
    obtain ⟨hpc, ⟨⟩⟩ := of_guard hn
    exact hs.move _ (by rw [hpc]; simp [DeleterPc.holds])
  | acquire =>
    simp only [next] at hn
    split at hn
    case h_1 pc hacquired =>
      obtain ⟨-, ⟨⟩⟩ := of_guard hn
      exact ⟨fun _ => acquired_holds hacquired, by simp, by simp, hs.notCalled⟩
    case h_2 => cases hn
  | test =>
    obtain ⟨-, ⟨⟩⟩ := of_guard hn
    exact hs.move _ fun _ => rfl
  | take =>
    obtain ⟨-, ⟨⟩⟩ := of_guard hn
    exact lockInv_take hs hplain (.inl rfl)
  | recheck =>
    obtain ⟨-, ⟨⟩⟩ := of_guard hn
    exact lockInv_take hs hplain (.inr rfl)
  | release =>
    simp only [next] at hn
    split at hn
    case h_1 => cases hn; exact lockInv_of_free rfl hs.notCalled
    case h_2 => cases hn
  | wait =>
    obtain ⟨hpc, ⟨⟩⟩ := of_guard hn
    unfold State.wait
    split
    · exact { hs.move .delete (by rw [hpc]; simp [DeleterPc.holds]) with }
    · exact { hs with }
  | delete =>
    obtain ⟨hpc, ⟨⟩⟩ := of_guard hn
    unfold State.delete
    split
    · exact { hs.move .lockTest (by rw [hpc]; simp [DeleterPc.holds]) with }
    · exact { hs with }
  | call t w =>
    simp only [next] at hn
    split at hn
    case h_1 hpc => cases hn; exact hs.setAdder t _ (by rw [hpc]; simp [AdderPc.holds])
    case h_2 => cases hn
  | lockAdd t =>
    simp only [next] at hn
    split at hn
    case h_1 w hpc =>
      obtain ⟨hlock, ⟨⟩⟩ := of_guard hn
      refine ⟨by simp, fun u hu => ?_, by simp, hs.notCalled⟩
      cases hu
      simp [State.setAdder, AdderPc.holds]
    case h_2 => cases hn
  | add t =>
    simp only [next] at hn
    split at hn
    case h_1 w hpc => cases hn; exact lockInv_add hs hplain t w
    case h_2 => cases hn
  | unlockAdd t =>
    simp only [next] at hn
    split at hn
    case h_1 => cases hn; exact lockInv_of_free rfl hs.notCalled
    case h_2 => cases hn
  | stop =>
    obtain ⟨hpc, ⟨⟩⟩ := of_guard hn
    refine { hs with
      stop := fun h => ?_
      notCalled := by simp }
    have hholds := hs.stop h
    rw [hpc] at hholds
    cases hholds
  | lockStop =>
    obtain ⟨-, ⟨⟩⟩ := of_guard hn
    exact ⟨by simp, by simp, fun _ => rfl, by simp⟩
  | completeAdding =>
    obtain ⟨hpc, ⟨⟩⟩ := of_guard hn
    have hmoved : LockInv { s with threads := s.threads.completeAdding, stop := .unlock } :=
      { hs with
        stop := fun _ => rfl
        notCalled := by simp }
    unfold State.completeAdding
    dsimp only
    split_ifs
    · exact hmoved
    · exact lockInv_notify hmoved
  | unlockStop =>
    obtain ⟨-, ⟨⟩⟩ := of_guard hn
    exact lockInv_of_free rfl (by simp)

end LockInv

theorem lockInv_of_reachable {W : Type} {s : State W} (hs : (deletions W).Reachable s) :
    LockInv s := by
  suffices h : (QueueInv s ∧ Sleeps s) ∧ LockInv s from h.2
  refine hs.invariant (I := fun s => (QueueInv s ∧ Sleeps s) ∧ LockInv s) ?_ ?_
  · exact ⟨queueInv_of_reachable .init, lockInv_of_free rfl fun _ => rfl⟩
  · intro s a s' _ hs hn
    exact ⟨queueInv_step hs.1.1 hs.1.2 hn, lockInv_step hs.2 hs.1.1.plain hn⟩

theorem deletesInOrder_of_reachable {W : Type} {s : State W} (hs : (deletions W).Reachable s) :
    DeletesInOrder s := by
  obtain ⟨hqueue, hsleeps⟩ := queueInv_of_reachable hs
  refine ⟨hqueue.order, hqueue.late, hqueue.waited, hqueue.misused, hsleeps, fun hfinished => ?_⟩
  obtain ⟨hcompleted, hempty⟩ := hqueue.empty (.inr hfinished)
  have hinHand : s.inHand = [] := inHand_of_not_carries (by rw [hfinished]; rfl)
  have horder := hqueue.order
  have hwaited := hqueue.waited
  rw [hinHand, hempty, List.append_nil, List.append_nil] at horder
  rw [if_neg (by rw [hfinished]; simp), List.append_nil] at hwaited
  exact ⟨hcompleted, hempty, horder, hwaited.trans horder⟩

private def adding (t w : ℕ) : List (Action ℕ) := [.call t w, .lockAdd t, .add t, .unlockAdd t]

private def deleting : List (Action ℕ) :=
  [.acquire, .test, .release, .acquire, .take, .release, .wait, .delete]

/-- Two threads add before `complete_adding` and one after it, which wakes the loop in `take`. -/
theorem deletesInOrder_of_reachable_stopped : ∃ s, (deletions ℕ).Reachable s ∧
    s.deleter = .finished ∧ s.deleted = [5, 6] ∧ DeletesInOrder s := by
  obtain ⟨s, hs, htest⟩ := TransitionSystem.exists_reachable_of_run (deletions ℕ)
    (.start :: adding 0 5 ++ adding 1 6 ++ deleting ++ deleting ++
      [.acquire, .test, .release, .acquire, .take, .spurious, .acquire, .recheck,
        .stop, .lockStop, .completeAdding, .unlockStop] ++ adding 2 7 ++
      [.acquire, .recheck, .release, .acquire, .test, .release])
    (fun s => s.deleter = .finished ∧ s.deleted = [5, 6]) (by decide)
  obtain ⟨hfinished, hdeleted⟩ := of_decide_eq_true htest
  exact ⟨s, hs, hfinished, hdeleted, deletesInOrder_of_reachable hs⟩

end Mbtest.ThreadDeleter
