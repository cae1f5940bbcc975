import Mathlib.Data.Nat.Notation
import Mathlib.Tactic.SplitIfs

/-! The operations of `BlockingCollection` that the thread deleter uses, each as what it does
while it holds the lock. The capacity is `SIZE_MAX`: `is_full_i` is false, nobody waits for
room, and `not_full_condition_var_` is left out. -/
namespace Mbtest.ThreadDeleter

inductive BlockingCollectionState
  | activated
  | deactivated
  | pulsed
  deriving DecidableEq, Repr

inductive BlockingCollectionStatus
  | ok
  | addingCompleted
  | timedOut
  | notActivated
  | completed
  | invalidIterators
  | completeAddingConcurrent
  | internalError
  deriving DecidableEq, Repr

/-- A `ConditionVariable`, without the one of the operating system inside it. -/
structure ConditionVariable where
  totalWorkers : ℕ
  activeWorkers : ℕ
  itemCount : ℕ
  deriving DecidableEq, Repr

/-- `NotEmptySignalStrategy<16>` -/
def shouldSignal (activeWorkers totalWorkers itemCount : ℕ) : Bool :=
  activeWorkers = 0 ∨ activeWorkers < totalWorkers ∧ 16 < itemCount / activeWorkers

namespace ConditionVariable
variable (v : ConditionVariable)

def incrementActive : ConditionVariable :=
  { v with activeWorkers := min (v.activeWorkers + 1) v.totalWorkers }

def decrementActive : ConditionVariable := { v with activeWorkers := v.activeWorkers - 1 }

/-- Whether `signal` notifies a waiting thread, and what it leaves. -/
def signal : Bool × ConditionVariable :=
  if v.totalWorkers = 0 then (true, v)
  else if shouldSignal v.activeWorkers v.totalWorkers v.itemCount then (true, v.incrementActive)
  else (false, v)

/-- What `broadcast` does before it notifies all waiting threads. -/
def broadcast : ConditionVariable :=
  if v.totalWorkers ≠ 0 then { v with activeWorkers := v.totalWorkers } else v

end ConditionVariable

structure BlockingCollection (T : Type) where
  state : BlockingCollectionState
  isAddingCompleted : Bool
  notEmptyCondition : ConditionVariable
  container : List T

/-- The end of a call of `take`, or a wait for an item, with the lock released. -/
inductive Taken (T : Type)
  | waits (c : BlockingCollection T)
  | returns (status : BlockingCollectionStatus) (item : Option T) (c : BlockingCollection T)

namespace BlockingCollection
variable {T : Type}

def new : BlockingCollection T := ⟨.activated, false, ⟨0, 0, 0⟩, []⟩

variable (c : BlockingCollection T)

def isEmpty : Bool := c.container.isEmpty

def isCompleted : Bool := c.isAddingCompleted && c.isEmpty

/-- `signal(itemCount, false)`, and whether it notifies the waiting thread. -/
def signal (itemCount : ℕ) : Bool × BlockingCollection T :=
  let v := { c.notEmptyCondition with itemCount := itemCount }
  (v.signal.1, { c with notEmptyCondition := v.signal.2 })

def waitNotFullCondition : BlockingCollectionStatus :=
  if c.state = .deactivated then .notActivated
  else if c.isAddingCompleted then .addingCompleted
  else .ok

/-- `add`, and whether it notifies the waiting thread. -/
def tryEmplaceTimed (item : T) : BlockingCollectionStatus × Bool × BlockingCollection T :=
  match c.waitNotFullCondition with
  | .ok =>
    let c := { c with container := c.container ++ [item] }
    (.ok, c.signal c.container.length)
  | status => (status, false, c)

/-- A pass of the loop in `wait_not_empty_condition` up to its wait, which is `none`. -/
def whileEmpty : Option BlockingCollectionStatus :=
  if c.isEmpty then
    if c.isAddingCompleted then some .addingCompleted else none
  else some .ok

def waitNotEmptyCondition : Option BlockingCollectionStatus :=
  if c.state = .deactivated then some .notActivated
  else if c.isCompleted then some .completed
  else c.whileEmpty

/-- The loop after a wait, with the lock reacquired. -/
def wokenNotEmptyCondition : Option BlockingCollectionStatus :=
  if c.state ≠ .activated then some .notActivated else c.whileEmpty

/-- What `take` does with the outcome of its wait. The size is stored in the condition
variable; with this capacity there is nobody to notify. -/
def tryTake : Option BlockingCollectionStatus → Taken T
  | none => .waits { c with notEmptyCondition := c.notEmptyCondition.decrementActive }
  | some .ok =>
    match c.container with
    | [] => .returns .internalError none c
    | item :: container =>
      let v := { c.notEmptyCondition with itemCount := container.length }
      .returns .ok (some item) { c with container := container, notEmptyCondition := v }
  | some status => .returns status none c

def completeAdding : BlockingCollection T :=
  if c.isAddingCompleted then c
  else { c with isAddingCompleted := true, notEmptyCondition := c.notEmptyCondition.broadcast }

/-- Nobody attaches workers to the collection, pulses or deactivates it. -/
structure Plain : Prop where
  state : c.state = .activated
  workers : c.notEmptyCondition.totalWorkers = 0

section Plain
variable {c}

theorem plain_new : (new : BlockingCollection T).Plain := ⟨rfl, rfl⟩

/-- Without attached workers every `signal` notifies. -/
theorem Plain.add_open (h : c.Plain) (hopen : c.isAddingCompleted = false) (item : T) :
    ∃ c', c.tryEmplaceTimed item = (.ok, true, c') ∧ c'.Plain ∧
      c'.container = c.container ++ [item] ∧ c'.isAddingCompleted = false := by
  have hwait : c.waitNotFullCondition = .ok := by simp [waitNotFullCondition, h.state, hopen]
  simp only [tryEmplaceTimed, hwait, signal, ConditionVariable.signal, h.workers, if_true]
  exact ⟨_, rfl, ⟨h.state, rfl⟩, rfl, hopen⟩

theorem Plain.add_completed (h : c.Plain) (hcompleted : c.isAddingCompleted = true) (item : T) :
    c.tryEmplaceTimed item = (.addingCompleted, false, c) := by
  have hwait : c.waitNotFullCondition = .addingCompleted := by
    simp [waitNotFullCondition, h.state, hcompleted]
  simp only [tryEmplaceTimed, hwait]

/-- `take` waits only on an open and empty collection, and an item comes only with the
status `Ok`. -/
theorem Plain.take (h : c.Plain) {outcome : Option BlockingCollectionStatus}
    (houtcome : outcome = c.waitNotEmptyCondition ∨ outcome = c.wokenNotEmptyCondition) :
    (∃ c', c.tryTake outcome = .waits c' ∧ c'.Plain ∧ c.container = [] ∧ c'.container = [] ∧
      c.isAddingCompleted = false ∧ c'.isAddingCompleted = false) ∨
    (∃ item c', c.tryTake outcome = .returns .ok (some item) c' ∧ c'.Plain ∧
      c.container = item :: c'.container ∧ c'.isAddingCompleted = c.isAddingCompleted) ∨
    (∃ status, c.tryTake outcome = .returns status none c ∧ status ≠ .ok ∧ c.container = [] ∧
      c.isAddingCompleted = true) := by
  cases hcontainer : c.container with
  | nil =>
    cases hcompleted : c.isAddingCompleted with
    | false =>
      have hwait : outcome = none := by
        rcases houtcome with rfl | rfl <;>
          simp [waitNotEmptyCondition, wokenNotEmptyCondition, whileEmpty, isCompleted, isEmpty,
            h.state, hcontainer, hcompleted]
      rw [hwait]
      exact .inl ⟨_, rfl, ⟨h.state, h.workers⟩, rfl, hcontainer, rfl, hcompleted⟩
    | true =>
      have hstatus : outcome = some .completed ∨ outcome = some .addingCompleted := by
        rcases houtcome with rfl | rfl <;>
          simp [waitNotEmptyCondition, wokenNotEmptyCondition, whileEmpty, isCompleted, isEmpty,
            h.state, hcontainer, hcompleted]
      right; right
      rcases hstatus with rfl | rfl
      · exact ⟨.completed, rfl, by simp, rfl, rfl⟩
      · exact ⟨.addingCompleted, rfl, by simp, rfl, rfl⟩
  | cons item container =>
    have hok : outcome = some .ok := by
      rcases houtcome with rfl | rfl <;>
        simp [waitNotEmptyCondition, wokenNotEmptyCondition, whileEmpty, isCompleted, isEmpty,
          h.state, hcontainer]
    right; left
    rw [hok]
    simp only [tryTake, hcontainer]
    exact ⟨item, _, rfl, ⟨h.state, h.workers⟩, rfl, rfl⟩

theorem Plain.completeAdding (h : c.Plain) : c.completeAdding.Plain ∧
    c.completeAdding.container = c.container ∧ c.completeAdding.isAddingCompleted = true := by
  unfold BlockingCollection.completeAdding
  split_ifs with hcompleted
  · exact ⟨h, rfl, hcompleted⟩
  · refine ⟨⟨h.state, ?_⟩, rfl, rfl⟩
    simp [ConditionVariable.broadcast, h.workers]

end Plain
end BlockingCollection
end Mbtest.ThreadDeleter
