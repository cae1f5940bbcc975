import Mbtest.CodeMachina.ConditionVariable
import Mbtest.ThreadDeleter.Collection

/-! The class `BlockingCollection`: what its operations do while they hold the lock. An
operation that waits is cut there; it goes on when its thread has the lock again. -/
namespace Mbtest.CodeMachina
open Lib
open ThreadDeleter (BlockingCollectionState BlockingCollectionStatus)

inductive Adding (T : Type)
  | emplace (item : T)
  | bulk (items : List T)
  deriving DecidableEq, Repr

namespace Adding
variable {T : Type}

def items : Adding T → List T
  | .emplace item => [item]
  | .bulk items => items

def op : Adding T → T → Op T
  | .emplace _ => .emplace
  | .bulk _ => .add

theorem map_op (call : Adding T) (items : List T) :
    Op.puts (items.map call.op) = items ∧ Op.removals (items.map call.op) = [] :=
  Op.map_of_puts items fun _ => by cases call <;> exact ⟨rfl, rfl⟩

end Adding

/-- A call of `try_emplace_timed` or of `try_add_bulk`; every other operation that adds is one
of them with a `rel_time` of -1 (`add`, `emplace`, `add_bulk`) or of zero (`try_add`, ...). -/
structure Producer (T : Type) where
  thread : ℕ
  relTime : ℤ
  call : Adding T
  deriving DecidableEq, Repr

/-- The last two are operations of `PriorityBlockingCollection`. -/
inductive Taking (C : Type) {T : outParam Type} [ProducerConsumerCollection C T]
  | item
  | bulk (count : ℕ)
  | prio (h : (tryTakePrio (C := C)).isSome)
  | prioBulk (h : (tryTakePrio (C := C)).isSome) (count : ℕ)

namespace Taking
variable {C T : Type} [ProducerConsumerCollection C T]

def count : Taking C → ℕ
  | .item => 1
  | .bulk count => count
  | .prio _ => 1
  | .prioBulk _ count => count

/-- `try_take_prio_bulk` does not signal. -/
def signals : Taking C → Bool
  | .prioBulk _ _ => false
  | _ => true

def op : Taking C → T → Op T
  | .item => .take
  | .bulk _ => .take
  | .prio _ => .takePrio
  | .prioBulk _ _ => .takePrio

theorem map_op (call : Taking C) (items : List T) :
    Op.puts (items.map call.op) = [] ∧ Op.removals (items.map call.op) = items :=
  Op.map_of_removals items fun _ => by cases call <;> exact ⟨rfl, rfl⟩

end Taking

/-- A call of `try_take`, `try_take_bulk`, `try_take_prio` or `try_take_prio_bulk`. -/
structure Consumer (C : Type) {T : outParam Type} [ProducerConsumerCollection C T] where
  thread : ℕ
  relTime : ℤ
  call : Taking C

/-- The end of a call: its status, and the items that it added or took. -/
inductive Event (C : Type) {T : outParam Type} [ProducerConsumerCollection C T]
  | added (producer : Producer T) (status : BlockingCollectionStatus) (added : ℕ)
  | took (consumer : Consumer C) (status : BlockingCollectionStatus) (items : List T)
  | flushed (items : List T)

structure BlockingCollection (C : Type) {T : outParam Type} [ProducerConsumerCollection C T] where
  state : BlockingCollectionState
  boundedCapacity : ℕ
  isAddingCompleted : Bool
  notEmptyConditionVar : ConditionVariable (Consumer C)
  notFullConditionVar : ConditionVariable (Producer T)
  container : C

namespace BlockingCollection
variable {C T : Type} [ProducerConsumerCollection C T]

def new (capacity : ℕ) : BlockingCollection C where
  state := .activated
  boundedCapacity := capacity
  isAddingCompleted := false
  notEmptyConditionVar := .new capacity
  notFullConditionVar := .new capacity
  container := ProducerConsumerCollection.new capacity

variable (c : BlockingCollection C)

def isFull : Bool := c.boundedCapacity ≠ sizeMax ∧ c.boundedCapacity ≤ size c.container

def isEmpty : Bool := size c.container = 0

def isCompleted : Bool := c.isAddingCompleted && c.isEmpty

/-- A pass of the loop in `wait_not_full_condition` up to its wait, which is `none`. -/
def whileFull (relTime : ℤ) : Option BlockingCollectionStatus :=
  if c.isFull then
    if relTime = 0 then some .timedOut
    else if c.isAddingCompleted then some .addingCompleted
    else none
  else some .ok

def waitNotFullCondition (relTime : ℤ) : Option BlockingCollectionStatus :=
  if c.state = .deactivated then some .notActivated
  else if c.isAddingCompleted then some .addingCompleted
  else c.whileFull relTime

/-- The loop after a wait, with the lock reacquired. -/
def wokenNotFullCondition (timedOut : Bool) (relTime : ℤ) : Option BlockingCollectionStatus :=
  if timedOut then some .timedOut
  else if c.isAddingCompleted then some .completeAddingConcurrent
  else if c.state ≠ .activated then some .notActivated
  else c.whileFull relTime

def whileEmpty (relTime : ℤ) : Option BlockingCollectionStatus :=
  if c.isEmpty then
    if relTime = 0 then some .timedOut
    else if c.isAddingCompleted then some .addingCompleted
    else none
  else some .ok

def waitNotEmptyCondition (relTime : ℤ) : Option BlockingCollectionStatus :=
  if c.state = .deactivated then some .notActivated
  else if c.isCompleted then some .completed
  else c.whileEmpty relTime

def wokenNotEmptyCondition (timedOut : Bool) (relTime : ℤ) : Option BlockingCollectionStatus :=
  if timedOut then some .timedOut
  else if c.state ≠ .activated then some .notActivated
  else c.whileEmpty relTime

/-- `i` is the choice among the threads that may be notified. -/
def signal (itemCount : ℕ) (signalNotFull : Bool) (i : ℕ) : BlockingCollection C :=
  let notEmpty := c.notEmptyConditionVar.setSize itemCount
  let notFull := c.notFullConditionVar.setSize itemCount
  { c with
    notEmptyConditionVar :=
      if signalNotFull then notEmpty else notEmpty.signal (notEmptySignalStrategy 16) i
    notFullConditionVar :=
      if signalNotFull ∧ c.boundedCapacity ≠ sizeMax then
        notFull.signal (notFullSignalStrategy 16) i
      else notFull }

def withContainer (container : C) : BlockingCollection C := { c with container := container }

/-- `try_emplace_timed` after its wait -/
def emplaceOne (producer : Producer T) (item : T) (i : ℕ) :
    BlockingCollection C × Option (Event C) :=
  match tryEmplace c.container item with
  | none => (c, some (.added producer .internalError 0))
  | some container =>
    ((c.withContainer container).signal (size container) false i, some (.added producer .ok 1))

/-- `try_add_bulk` after its wait -/
def addRange (producer : Producer T) (items : List T) (i : ℕ) :
    BlockingCollection C × Option (Event C) :=
  if items.isEmpty then (c, some (.added producer .invalidIterators 0))
  else
    let bulk := addBulk items c.container
    ((c.withContainer bulk.2).signal (size bulk.2) false i, some (.added producer .ok bulk.1))

/-- What an adding call does with the outcome of its wait, and its end unless it waits. -/
def finishAdding (producer : Producer T) (i : ℕ) :
    Option BlockingCollectionStatus → BlockingCollection C × Option (Event C)
  | none => ({ c with notFullConditionVar := c.notFullConditionVar.wait producer }, none)
  | some .ok =>
    match producer.call with
    | .emplace item => c.emplaceOne producer item i
    | .bulk items => c.addRange producer items i
  | some status => (c, some (.added producer status 0))

/-- `try_take` and `try_take_prio` after their wait -/
def takeOne (consumer : Consumer C) (take : C → Option (T × C)) (i : ℕ) :
    BlockingCollection C × Option (Event C) :=
  match take c.container with
  | none => (c, some (.took consumer .internalError []))
  | some (item, container) =>
    ((c.withContainer container).signal (size container) true i,
      some (.took consumer .ok [item]))

/-- `try_take_bulk` and `try_take_prio_bulk` after their wait -/
def takeRange (consumer : Consumer C) (take : C → Option (T × C)) (count i : ℕ) :
    BlockingCollection C × Option (Event C) :=
  let bulk := takeBulk take count c.container
  let c := c.withContainer bulk.2
  (if consumer.call.signals then c.signal (size bulk.2) true i else c,
    some (.took consumer .ok bulk.1))

def finishTaking (consumer : Consumer C) (i : ℕ) :
    Option BlockingCollectionStatus → BlockingCollection C × Option (Event C)
  | none => ({ c with notEmptyConditionVar := c.notEmptyConditionVar.wait consumer }, none)
  | some .ok =>
    match consumer.call with
    | .item => c.takeOne consumer tryTake i
    | .bulk count => c.takeRange consumer tryTake count i
    | .prio h => c.takeOne consumer (tryTakePrio.get h) i
    | .prioBulk h count => c.takeRange consumer (tryTakePrio.get h) count i
  | some status => (c, some (.took consumer status []))

def broadcast : BlockingCollection C :=
  { c with
    notEmptyConditionVar := c.notEmptyConditionVar.broadcast
    notFullConditionVar := c.notFullConditionVar.broadcast }

def completeAdding : BlockingCollection C :=
  if c.isAddingCompleted then c else { c with isAddingCompleted := true }.broadcast

/-- `deactivate_i`, of `pulse` and `deactivate` -/
def deactivate (pulse : Bool) : BlockingCollection C :=
  if c.state = .deactivated then c
  else { c with state := if pulse then .pulsed else .deactivated }.broadcast

def activate : BlockingCollection C := { c with state := .activated }

def flush : BlockingCollection C × Option (Event C) :=
  let bulk := takeBulk tryTake (size c.container) c.container
  ({ c with
      notEmptyConditionVar := c.notEmptyConditionVar.setSize 0
      notFullConditionVar := c.notFullConditionVar.setSize 0
      container := bulk.2 }, some (.flushed bulk.1))

/-! ### What the sections do -/

section Outcomes
variable {c}

theorem isFull_iff : c.isFull = true ↔
    c.boundedCapacity ≠ sizeMax ∧ c.boundedCapacity ≤ size c.container := decide_eq_true_iff

theorem isEmpty_iff : c.isEmpty = true ↔ size c.container = 0 := decide_eq_true_iff

theorem isEmpty_eq_false : c.isEmpty = false ↔ 0 < size c.container := by
  simp [isEmpty, Nat.pos_iff_ne_zero]

/-- A call that adds sleeps only at a full collection and goes on only at one with room. -/
inductive MayAdd (c : BlockingCollection C) (timedOut : Bool) (relTime : ℤ) :
    Option BlockingCollectionStatus → Prop
  | waits : c.isFull = true → c.isAddingCompleted = false → c.state ≠ .deactivated →
    relTime ≠ 0 → MayAdd c timedOut relTime none
  | ok : c.isFull = false → c.isAddingCompleted = false → c.state ≠ .deactivated →
    MayAdd c timedOut relTime (some .ok)
  | refused {status : BlockingCollectionStatus} : status ≠ .ok → status ≠ .internalError →
    (timedOut = true ∨ c.isFull = true ∨ c.isAddingCompleted = true ∨ c.state ≠ .activated) →
    MayAdd c timedOut relTime (some status)

private theorem mayAdd_whileFull (hopen : c.isAddingCompleted = false)
    (hstate : c.state ≠ .deactivated) (timedOut : Bool) (relTime : ℤ) :
    MayAdd c timedOut relTime (c.whileFull relTime) := by
  unfold whileFull
  rw [hopen]
  split_ifs with hfull hzero
  · exact .refused (by simp) (by simp) (.inr (.inl hfull))
  · contradiction
  · exact .waits hfull hopen hstate hzero
  · exact .ok (by simpa using hfull) hopen hstate

theorem mayAdd_wait (relTime : ℤ) : MayAdd c false relTime (c.waitNotFullCondition relTime) := by
  unfold waitNotFullCondition
  split_ifs with hstate hcompleted
  · exact .refused (by simp) (by simp) (by simp [hstate])
  · exact .refused (by simp) (by simp) (by simp [hcompleted])
  · exact mayAdd_whileFull (by simpa using hcompleted) hstate false relTime

theorem mayAdd_woken (timedOut : Bool) (relTime : ℤ) :
    MayAdd c timedOut relTime (c.wokenNotFullCondition timedOut relTime) := by
  unfold wokenNotFullCondition
  split_ifs with htimedOut hcompleted hstate
  · exact .refused (by simp) (by simp) (.inl htimedOut)
  · exact .refused (by simp) (by simp) (by simp [hcompleted])
  · exact .refused (by simp) (by simp) (by simp [hstate])
  · exact mayAdd_whileFull (by simpa using hcompleted) (by simp_all) timedOut relTime

/-- A call that takes sleeps only at an empty collection and goes on only at one with items. -/
inductive MayTake (c : BlockingCollection C) (timedOut : Bool) (relTime : ℤ) :
    Option BlockingCollectionStatus → Prop
  | waits : size c.container = 0 → c.isAddingCompleted = false → c.state ≠ .deactivated →
    relTime ≠ 0 → MayTake c timedOut relTime none
  | ok : 0 < size c.container → c.state ≠ .deactivated → MayTake c timedOut relTime (some .ok)
  | refused {status : BlockingCollectionStatus} : status ≠ .ok → status ≠ .internalError →
    (timedOut = true ∨ size c.container = 0 ∨ c.state ≠ .activated) →
    MayTake c timedOut relTime (some status)

private theorem mayTake_whileEmpty (hstate : c.state ≠ .deactivated) (timedOut : Bool)
    (relTime : ℤ) : MayTake c timedOut relTime (c.whileEmpty relTime) := by
  unfold whileEmpty
  split_ifs with hempty hzero hcompleted
  · exact .refused (by simp) (by simp) (.inr (.inl (isEmpty_iff.mp hempty)))
  · exact .refused (by simp) (by simp) (.inr (.inl (isEmpty_iff.mp hempty)))
  · exact .waits (isEmpty_iff.mp hempty) (by simpa using hcompleted) hstate hzero
  · exact .ok (isEmpty_eq_false.mp (by simpa using hempty)) hstate

theorem mayTake_wait (relTime : ℤ) :
    MayTake c false relTime (c.waitNotEmptyCondition relTime) := by
  unfold waitNotEmptyCondition
  split_ifs with hstate hcompleted
  · exact .refused (by simp) (by simp) (by simp [hstate])
  · rw [isCompleted, Bool.and_eq_true, isEmpty_iff] at hcompleted
    exact .refused (by simp) (by simp) (.inr (.inl hcompleted.2))
  · exact mayTake_whileEmpty hstate false relTime

theorem mayTake_woken (timedOut : Bool) (relTime : ℤ) :
    MayTake c timedOut relTime (c.wokenNotEmptyCondition timedOut relTime) := by
  unfold wokenNotEmptyCondition
  split_ifs with htimedOut hstate
  · exact .refused (by simp) (by simp) (.inl htimedOut)
  · exact .refused (by simp) (by simp) (by simp [hstate])
  · exact mayTake_whileEmpty (by simp_all) timedOut relTime

end Outcomes

/-! ### How a call goes on after its wait -/

section Ends
variable [LawfulCollection C]

structure Bounded (c : BlockingCollection C) : Prop where
  capacity : LawfulCollection.boundedCapacity c.container = c.boundedCapacity
  size_le : size c.container ≤ c.boundedCapacity

inductive AddingEnds (c : BlockingCollection C) (producer : Producer T) (timedOut : Bool)
    (i : ℕ) : BlockingCollection C × Option (Event C) → Prop
  | waits : c.isFull = true → c.isAddingCompleted = false → c.state ≠ .deactivated →
    AddingEnds c producer timedOut i
      ({ c with notFullConditionVar := c.notFullConditionVar.wait producer }, none)
  | adds {added : ℕ} {container : C} : c.isFull = false → c.isAddingCompleted = false →
    c.state ≠ .deactivated → added ≤ producer.call.items.length →
    (added = 0 → c.boundedCapacity = sizeMax ∧ size c.container = sizeMax) →
    Runs c.container ((producer.call.items.take added).map producer.call.op) container →
    (added < producer.call.items.length → size container = c.boundedCapacity) →
    AddingEnds c producer timedOut i
      ((c.withContainer container).signal (size container) false i,
        some (.added producer .ok added))
  | fails {status : BlockingCollectionStatus} : status ≠ .ok →
    (status = .internalError → c.boundedCapacity = sizeMax ∧ size c.container = sizeMax) →
    (timedOut = true ∨ c.boundedCapacity ≤ size c.container ∨ c.isAddingCompleted = true ∨
      c.state ≠ .activated ∨ producer.call.items = []) →
    AddingEnds c producer timedOut i (c, some (.added producer status 0))

inductive TakingEnds (c : BlockingCollection C) (consumer : Consumer C) (timedOut : Bool)
    (i : ℕ) : BlockingCollection C × Option (Event C) → Prop
  | waits : size c.container = 0 → c.isAddingCompleted = false → c.state ≠ .deactivated →
    TakingEnds c consumer timedOut i
      ({ c with notEmptyConditionVar := c.notEmptyConditionVar.wait consumer }, none)
  | takes {items : List T} {container : C} : 0 < size c.container → c.state ≠ .deactivated →
    items.length = min consumer.call.count (size c.container) →
    Runs c.container (items.map consumer.call.op) container →
    TakingEnds c consumer timedOut i
      (if consumer.call.signals then (c.withContainer container).signal (size container) true i
        else c.withContainer container, some (.took consumer .ok items))
  | fails {status : BlockingCollectionStatus} : status ≠ .ok → status ≠ .internalError →
    (timedOut = true ∨ size c.container = 0 ∨ c.state ≠ .activated) →
    TakingEnds c consumer timedOut i (c, some (.took consumer status []))

theorem Bounded.room {c : BlockingCollection C} (h : c.Bounded) (hfull : c.isFull = false) :
    size c.container < c.boundedCapacity ∨
      c.boundedCapacity = sizeMax ∧ size c.container = sizeMax := by
  have hiff := (c.isFull_iff.not.mp (by simp [hfull]))
  have hle := h.size_le
  by_cases hmax : c.boundedCapacity = sizeMax
  · omega
  · exact .inl (by simp_all)

private theorem emplaceOne_ends {c : BlockingCollection C} (h : c.Bounded) {producer : Producer T}
    {item : T} (hcall : producer.call = .emplace item) (timedOut : Bool) (i : ℕ)
    (hfull : c.isFull = false) (hopen : c.isAddingCompleted = false)
    (hstate : c.state ≠ .deactivated) :
    AddingEnds c producer timedOut i (c.emplaceOne producer item i) := by
  unfold emplaceOne
  cases hemplace : tryEmplace c.container item with
  | none =>
    have hsize := LawfulCollection.tryEmplace_eq_none.mp hemplace
    have hroom := h.room hfull
    rw [h.capacity] at hsize
    exact .fails (by simp) (fun _ => by omega) (.inr (.inl hsize.ge))
  | some container =>
    refine .adds hfull hopen hstate ?_ (by simp) ?_ ?_
    all_goals rw [hcall]
    · exact le_rfl
    · exact .emplace hemplace (.nil container)
    · simp [Adding.items]

private theorem addRange_ends {c : BlockingCollection C} (h : c.Bounded) {producer : Producer T}
    {items : List T} (hcall : producer.call = .bulk items) (timedOut : Bool) (i : ℕ)
    (hfull : c.isFull = false) (hopen : c.isAddingCompleted = false)
    (hstate : c.state ≠ .deactivated) :
    AddingEnds c producer timedOut i (c.addRange producer items i) := by
  unfold addRange
  split_ifs with hempty
  · exact .fails (by simp) (by simp) (by simp [hcall, Adding.items, List.isEmpty_iff.mp hempty])
  · have hroom := h.room hfull
    have hlength : 0 < items.length := List.length_pos_iff.mpr (by simpa using hempty)
    have hruns := runs_addBulk items c.container
    refine .adds hfull hopen hstate ?_ ?_ ?_ ?_
    · rw [hcall]
      exact addBulk_le items c.container
    · intro hzero
      have hsize := size_addBulk (c := c.container) (hzero ▸ hlength)
      have hlen := hruns.size
      rw [hzero, List.take_zero, hsize, h.capacity] at hlen
      simp only [List.map_nil, Op.puts, Op.removals, List.length_nil] at hlen
      omega
    · rw [hcall]
      exact hruns
    · intro hlt
      rw [hcall] at hlt
      rw [size_addBulk hlt, h.capacity]

theorem Bounded.finishAdding {c : BlockingCollection C} (h : c.Bounded) (producer : Producer T)
    {timedOut : Bool} (i : ℕ) {outcome : Option BlockingCollectionStatus}
    (houtcome : MayAdd c timedOut producer.relTime outcome) :
    AddingEnds c producer timedOut i (c.finishAdding producer i outcome) := by
  cases houtcome with
  | waits hfull hopen hstate => exact .waits hfull hopen hstate
  | @refused status hok herror hreason =>
    have hfails : c.finishAdding producer i (some status) =
        (c, some (.added producer status 0)) := by
      cases status <;> first | contradiction | rfl
    rw [hfails]
    refine .fails hok (absurd · herror) ?_
    obtain htimedOut | hfull | hcompleted | hstate := hreason
    · exact .inl htimedOut
    · exact .inr (.inl (isFull_iff.mp hfull).2)
    · exact .inr (.inr (.inl hcompleted))
    · exact .inr (.inr (.inr (.inl hstate)))
  | ok hfull hopen hstate =>
    unfold BlockingCollection.finishAdding
    cases hcall : producer.call with
    | emplace item => exact emplaceOne_ends h hcall timedOut i hfull hopen hstate
    | bulk items => exact addRange_ends h hcall timedOut i hfull hopen hstate

private theorem takeOne_ends {c : BlockingCollection C} {consumer : Consumer C}
    {take : C → Option (T × C)} (htake : Takes take consumer.call.op)
    (hcount : consumer.call.count = 1) (hsignals : consumer.call.signals = true) (timedOut : Bool)
    (i : ℕ) (hsize : 0 < size c.container) (hstate : c.state ≠ .deactivated) :
    TakingEnds c consumer timedOut i (c.takeOne consumer take i) := by
  have hlength := htake.length_takeBulk 1 c.container
  have hruns := htake.runs_takeBulk 1 c.container
  unfold takeOne
  cases h : take c.container with
  | none =>
    simp only [takeBulk, h, List.length_nil] at hlength
    omega
  | some taken =>
    simp only [takeBulk, h] at hlength hruns
    have htakes : TakingEnds c consumer timedOut i _ :=
      .takes hsize hstate (hcount ▸ hlength) hruns
    rwa [hsignals] at htakes

private theorem takeRange_ends {c : BlockingCollection C} {consumer : Consumer C}
    {take : C → Option (T × C)} (htake : Takes take consumer.call.op) {count : ℕ}
    (hcount : consumer.call.count = count) (timedOut : Bool) (i : ℕ)
    (hsize : 0 < size c.container) (hstate : c.state ≠ .deactivated) :
    TakingEnds c consumer timedOut i (c.takeRange consumer take count i) := by
  subst hcount
  exact .takes hsize hstate (htake.length_takeBulk _ _) (htake.runs_takeBulk _ _)

theorem finishTaking_ends {c : BlockingCollection C} (consumer : Consumer C) {timedOut : Bool}
    (i : ℕ) {outcome : Option BlockingCollectionStatus}
    (houtcome : MayTake c timedOut consumer.relTime outcome) :
    TakingEnds c consumer timedOut i (c.finishTaking consumer i outcome) := by
  cases houtcome with
  | waits hempty hopen hstate => exact .waits hempty hopen hstate
  | @refused status hok herror hreason =>
    have hfails : c.finishTaking consumer i (some status) =
        (c, some (.took consumer status [])) := by
      cases status <;> first | contradiction | rfl
    rw [hfails]
    exact .fails hok herror hreason
  | ok hsize hstate =>
    unfold finishTaking
    cases hcall : consumer.call with
    | item =>
      exact takeOne_ends (by rw [hcall]; exact .take) (by rw [hcall]; rfl) (by rw [hcall]; rfl) _ i
        hsize hstate
    | bulk count =>
      exact takeRange_ends (by rw [hcall]; exact .take) (by rw [hcall]; rfl) _ i hsize hstate
    | prio h =>
      exact takeOne_ends (by rw [hcall]; exact .prio (Option.some_get h).symm) (by rw [hcall]; rfl)
        (by rw [hcall]; rfl) _ i hsize hstate
    | prioBulk h count =>
      exact takeRange_ends (by rw [hcall]; exact .prio (Option.some_get h).symm)
        (by rw [hcall]; rfl) _ i hsize hstate

end Ends

end BlockingCollection
end Mbtest.CodeMachina
