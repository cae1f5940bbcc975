import Mbtest.CodeMachina.Containers
import Mbtest.Lib.WaitSet
import Mathlib.Data.Finset.Card

/-! The class `ConditionVariable`: the threads that wait on it, and the workers that are
attached to it. A worker is active while it does not wait. -/
namespace Mbtest.CodeMachina
open Lib

/-- `should_signal(active_workers, total_workers, item_count, capacity)` -/
abbrev SignalStrategy := ℕ → ℕ → ℕ → ℕ → Bool

/-- The difference of two values of type `size_t`. -/
def sizeSub (m n : ℕ) : ℕ := (m + (sizeMax + 1) - n) % (sizeMax + 1)

def notEmptySignalStrategy (itemsPerThread : ℕ) : SignalStrategy :=
  fun activeWorkers totalWorkers itemCount _ =>
    activeWorkers = 0 ∨ activeWorkers < totalWorkers ∧ itemsPerThread < itemCount / activeWorkers

def notFullSignalStrategy (itemsPerThread : ℕ) : SignalStrategy :=
  fun activeWorkers totalWorkers itemCount capacity =>
    activeWorkers = 0 ∨ activeWorkers < totalWorkers ∧
      itemsPerThread < sizeSub capacity itemCount / activeWorkers

/-- `container` holds the ids of the attached threads. -/
structure ConditionVariable (W : Type) where
  totalWorkers : ℕ
  activeWorkers : ℕ
  boundedCapacity : ℕ
  itemCount : ℕ
  conditionVar : WaitSet W
  container : Finset ℕ
  deriving DecidableEq

namespace ConditionVariable
variable {W : Type}

def new (capacity : ℕ) : ConditionVariable W := ⟨0, 0, capacity, 0, .empty, ∅⟩

variable (v : ConditionVariable W)

def setSize (count : ℕ) : ConditionVariable W := { v with itemCount := count }

def incrementActive : ConditionVariable W :=
  { v with activeWorkers := min (v.activeWorkers + 1) v.totalWorkers }

def decrementActive : ConditionVariable W := { v with activeWorkers := v.activeWorkers - 1 }

def attach (thread : ℕ) : ConditionVariable W :=
  if thread ∈ v.container then v
  else
    { v with
      container := insert thread v.container
      totalWorkers := v.totalWorkers + 1 }.incrementActive

def remove (thread : ℕ) : ConditionVariable W :=
  if thread ∈ v.container then
    { v with
      container := v.container.erase thread
      totalWorkers := v.totalWorkers - 1 }.decrementActive
  else v

def notifyOne (i : ℕ) : ConditionVariable W :=
  { v with conditionVar := v.conditionVar.notifyOne i }

/-- The second half of `detach`. -/
def signalIfNoneActive (i : ℕ) : ConditionVariable W :=
  if 0 < v.totalWorkers ∧ v.activeWorkers = 0 then v.incrementActive.notifyOne i else v

def detach (thread i : ℕ) : ConditionVariable W := (v.remove thread).signalIfNoneActive i

def signal (strategy : SignalStrategy) (i : ℕ) : ConditionVariable W :=
  if v.totalWorkers = 0 then v.notifyOne i
  else if strategy v.activeWorkers v.totalWorkers v.itemCount v.boundedCapacity then
    v.incrementActive.notifyOne i
  else v

def broadcast : ConditionVariable W :=
  { v with
    activeWorkers := if v.totalWorkers ≠ 0 then v.totalWorkers else v.activeWorkers
    conditionVar := v.conditionVar.notifyAll }

/-- The part of `wait` and `wait_for` before the lock is released. -/
def wait (waiter : W) : ConditionVariable W :=
  { v.decrementActive with conditionVar := v.conditionVar.sleep waiter }

def withWaitSet (waitSet : WaitSet W) : ConditionVariable W := { v with conditionVar := waitSet }

/-- A waiting thread has the lock again. `wait_for` counts it as active if its time is over. -/
def resume (isNotified timedOut : Bool) (k : ℕ) : Option (W × ConditionVariable W) :=
  (v.conditionVar.leave isNotified k).map fun (waiter, waitSet) =>
    (waiter, if timedOut then (v.withWaitSet waitSet).incrementActive else v.withWaitSet waitSet)

variable {v}

@[simp] theorem setSize_conditionVar (count : ℕ) :
    (v.setSize count).conditionVar = v.conditionVar := rfl

@[simp] theorem setSize_totalWorkers (count : ℕ) :
    (v.setSize count).totalWorkers = v.totalWorkers := rfl

@[simp] theorem incrementActive_conditionVar : v.incrementActive.conditionVar = v.conditionVar := rfl

@[simp] theorem broadcast_sleeping : v.broadcast.conditionVar.sleeping = [] := rfl

@[simp] theorem wait_conditionVar (waiter : W) :
    (v.wait waiter).conditionVar = v.conditionVar.sleep waiter := rfl

/-- Without attached workers every `signal` notifies a thread. -/
theorem signal_unattached (h : v.totalWorkers = 0) (strategy : SignalStrategy) (i : ℕ) :
    v.signal strategy i = v.notifyOne i := if_pos h

@[simp] theorem signal_totalWorkers (strategy : SignalStrategy) (i : ℕ) :
    (v.signal strategy i).totalWorkers = v.totalWorkers := by
  unfold signal
  split_ifs <;> rfl

variable (v) in
theorem remove_totalWorkers_le (thread : ℕ) :
    (v.remove thread).totalWorkers ≤ v.totalWorkers := by
  unfold remove
  split_ifs
  · exact Nat.sub_le _ _
  · exact le_rfl

theorem remove_conditionVar (thread : ℕ) : (v.remove thread).conditionVar = v.conditionVar := by
  unfold remove
  split_ifs <;> rfl

theorem detach_unattached (h : v.totalWorkers = 0) (thread i : ℕ) :
    (v.detach thread i).conditionVar = v.conditionVar := by
  have hle := v.remove_totalWorkers_le thread
  unfold detach signalIfNoneActive
  split_ifs with hpos
  · omega
  · exact remove_conditionVar thread

theorem detach_totalWorkers_le (thread i : ℕ) :
    (v.detach thread i).totalWorkers ≤ v.totalWorkers := by
  unfold detach signalIfNoneActive
  split_ifs <;> exact v.remove_totalWorkers_le thread

variable (v) in
theorem signal_waiting (strategy : SignalStrategy) (i : ℕ) :
    (v.signal strategy i).conditionVar = v.conditionVar ∨
      (v.signal strategy i).conditionVar = v.conditionVar.notifyOne i := by
  unfold signal
  split_ifs
  · exact .inr rfl
  · exact .inr rfl
  · exact .inl rfl

variable (v) in
theorem detach_waiting (thread i : ℕ) :
    (v.detach thread i).conditionVar = v.conditionVar ∨
      (v.detach thread i).conditionVar = v.conditionVar.notifyOne i := by
  have hremove := remove_conditionVar (v := v) thread
  unfold detach signalIfNoneActive
  split_ifs
  · right
    rw [← hremove]
    rfl
  · exact .inl hremove

theorem signal_sleeping (h : v.conditionVar.sleeping = []) (strategy : SignalStrategy) (i : ℕ) :
    (v.signal strategy i).conditionVar.sleeping = [] := by
  obtain hsame | hnotify := v.signal_waiting strategy i
  · rw [hsame, h]
  · rw [hnotify, WaitSet.notifyOne_of_nil h, h]

theorem detach_sleeping (h : v.conditionVar.sleeping = []) (thread i : ℕ) :
    (v.detach thread i).conditionVar.sleeping = [] := by
  obtain hsame | hnotify := v.detach_waiting thread i
  · rw [hsame, h]
  · rw [hnotify, WaitSet.notifyOne_of_nil h, h]

theorem attach_conditionVar (thread : ℕ) : (v.attach thread).conditionVar = v.conditionVar := by
  unfold attach
  split_ifs <;> rfl

theorem resume_eq_some {isNotified timedOut : Bool} {k : ℕ} {waiter : W}
    {v' : ConditionVariable W} (h : v.resume isNotified timedOut k = some (waiter, v')) :
    v.conditionVar.leave isNotified k = some (waiter, v'.conditionVar) ∧
      v' = if timedOut then (v.withWaitSet v'.conditionVar).incrementActive
        else v.withWaitSet v'.conditionVar := by
  obtain ⟨⟨w, waitSet⟩, hleave, heq⟩ := Option.map_eq_some_iff.mp h
  cases heq
  split_ifs
  · exact ⟨hleave, rfl⟩
  · exact ⟨hleave, rfl⟩

theorem resume_totalWorkers {isNotified timedOut : Bool} {k : ℕ} {waiter : W}
    {v' : ConditionVariable W} (h : v.resume isNotified timedOut k = some (waiter, v')) :
    v'.totalWorkers = v.totalWorkers := by
  rw [(resume_eq_some h).2]
  split_ifs <;> rfl

theorem resume_sleeping {isNotified timedOut : Bool} {k : ℕ} {waiter : W}
    {v' : ConditionVariable W} (h : v.resume isNotified timedOut k = some (waiter, v')) :
    v'.conditionVar.sleeping = v.conditionVar.sleeping :=
  (WaitSet.leave_eq_some (resume_eq_some h).1).1

/-! ### The counters -/

structure Counts (v : ConditionVariable W) : Prop where
  total : v.totalWorkers = v.container.card
  active : v.activeWorkers ≤ v.totalWorkers

namespace Counts

theorem new (capacity : ℕ) : (new capacity : ConditionVariable W).Counts := ⟨rfl, le_rfl⟩

theorem setSize (h : v.Counts) (count : ℕ) : (v.setSize count).Counts := ⟨h.total, h.active⟩

theorem withWaitSet (h : v.Counts) (waitSet : WaitSet W) : (v.withWaitSet waitSet).Counts :=
  ⟨h.total, h.active⟩

theorem incrementActive (h : v.Counts) : v.incrementActive.Counts := ⟨h.total, min_le_right _ _⟩

theorem notifyOne (h : v.Counts) (i : ℕ) : (v.notifyOne i).Counts := ⟨h.total, h.active⟩

theorem attach (h : v.Counts) (thread : ℕ) : (v.attach thread).Counts := by
  unfold ConditionVariable.attach
  split_ifs with hmem
  · exact h
  · refine ⟨?_, min_le_right _ _⟩
    change v.totalWorkers + 1 = (insert thread v.container).card
    rw [Finset.card_insert_of_notMem hmem, h.total]

theorem remove (h : v.Counts) (thread : ℕ) : (v.remove thread).Counts := by
  unfold ConditionVariable.remove
  split_ifs with hmem
  · refine ⟨?_, Nat.sub_le_sub_right h.active 1⟩
    change v.totalWorkers - 1 = (v.container.erase thread).card
    rw [Finset.card_erase_of_mem hmem, h.total]
  · exact h

theorem detach (h : v.Counts) (thread i : ℕ) : (v.detach thread i).Counts := by
  unfold ConditionVariable.detach ConditionVariable.signalIfNoneActive
  split_ifs
  · exact (h.remove thread).incrementActive.notifyOne i
  · exact h.remove thread

theorem signal (h : v.Counts) (strategy : SignalStrategy) (i : ℕ) :
    (v.signal strategy i).Counts := by
  unfold ConditionVariable.signal
  split_ifs
  · exact h.notifyOne i
  · exact h.incrementActive.notifyOne i
  · exact h

theorem broadcast (h : v.Counts) : v.broadcast.Counts := by
  refine ⟨h.total, ?_⟩
  change (if v.totalWorkers ≠ 0 then v.totalWorkers else v.activeWorkers) ≤ v.totalWorkers
  split_ifs
  · exact le_rfl
  · exact h.active

theorem wait (h : v.Counts) (waiter : W) : (v.wait waiter).Counts :=
  ⟨h.total, (Nat.sub_le _ _).trans h.active⟩

theorem resume (h : v.Counts) {isNotified timedOut : Bool} {k : ℕ} {waiter : W}
    {v' : ConditionVariable W} (hresume : v.resume isNotified timedOut k = some (waiter, v')) :
    v'.Counts := by
  rw [(resume_eq_some hresume).2]
  split_ifs
  · exact (h.withWaitSet _).incrementActive
  · exact h.withWaitSet _

end Counts

end ConditionVariable
end Mbtest.CodeMachina
