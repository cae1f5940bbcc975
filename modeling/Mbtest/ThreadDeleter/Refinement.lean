import Mbtest.CodeMachina.Orders
import Mbtest.ThreadDeleter.Loop

/-! The collection of the deleter is a `BlockingQueue` of the default capacity: what the loop
and its callers do with it are calls of the class. The loop is thread 0 there. -/
namespace Mbtest.ThreadDeleter
open Lib
open CodeMachina (QueueContainer Op sizeMax)

section Calls
variable {W : Type}

def ofConditionVariable {V : Type} (v : CodeMachina.ConditionVariable V) : ConditionVariable :=
  ⟨v.totalWorkers, v.activeWorkers, v.itemCount⟩

theorem ofConditionVariable_signal {V : Type} (v : CodeMachina.ConditionVariable V) (i : ℕ) :
    ofConditionVariable (v.signal (CodeMachina.notEmptySignalStrategy 16) i) =
        (ofConditionVariable v).signal.2 ∧
      (v.signal (CodeMachina.notEmptySignalStrategy 16) i).conditionVar =
        if (ofConditionVariable v).signal.1 then v.conditionVar.notifyOne i
        else v.conditionVar := by
  by_cases hunattached : v.totalWorkers = 0
  · have hmodel : (ofConditionVariable v).signal = (true, ofConditionVariable v) :=
      if_pos hunattached
    rw [CodeMachina.ConditionVariable.signal_unattached hunattached, hmodel]
    exact ⟨rfl, rfl⟩
  by_cases hsignal : shouldSignal v.activeWorkers v.totalWorkers v.itemCount = true
  · have hclass : v.signal (CodeMachina.notEmptySignalStrategy 16) i =
        v.incrementActive.notifyOne i := (if_neg hunattached).trans (if_pos hsignal)
    have hmodel : (ofConditionVariable v).signal =
        (true, (ofConditionVariable v).incrementActive) :=
      (if_neg hunattached).trans (if_pos hsignal)
    rw [hclass, hmodel]
    exact ⟨rfl, rfl⟩
  · have hclass : v.signal (CodeMachina.notEmptySignalStrategy 16) i = v :=
      (if_neg hunattached).trans (if_neg hsignal)
    have hmodel : (ofConditionVariable v).signal = (false, ofConditionVariable v) :=
      (if_neg hunattached).trans (if_neg hsignal)
    rw [hclass, hmodel]
    exact ⟨rfl, rfl⟩

theorem ofConditionVariable_broadcast {V : Type} (v : CodeMachina.ConditionVariable V) :
    ofConditionVariable v.broadcast = (ofConditionVariable v).broadcast := by
  unfold CodeMachina.ConditionVariable.broadcast ConditionVariable.broadcast
  by_cases hunattached : v.totalWorkers = 0
  · simp [ofConditionVariable, hunattached]
  · simp [ofConditionVariable, hunattached]

def ofCollection (c : CodeMachina.BlockingCollection (QueueContainer W)) : BlockingCollection W where
  state := c.state
  isAddingCompleted := c.isAddingCompleted
  notEmptyCondition := ofConditionVariable c.notEmptyConditionVar
  container := c.container.container

def taker : CodeMachina.Consumer (QueueContainer W) := ⟨0, -1, .item⟩

def giver (t : ℕ) (w : W) : CodeMachina.Producer W := ⟨t + 1, -1, .emplace w⟩

variable (c : CodeMachina.BlockingCollection (QueueContainer W))

theorem ofCollection_isEmpty : (ofCollection c).isEmpty = c.isEmpty := by
  change c.container.container.isEmpty = decide (c.container.container.length = 0)
  cases c.container.container <;> simp

theorem ofCollection_isCompleted : (ofCollection c).isCompleted = c.isCompleted := by
  unfold BlockingCollection.isCompleted CodeMachina.BlockingCollection.isCompleted
  rw [ofCollection_isEmpty]
  rfl

theorem ofCollection_whileEmpty : (ofCollection c).whileEmpty = c.whileEmpty (-1) := by
  unfold BlockingCollection.whileEmpty CodeMachina.BlockingCollection.whileEmpty
  rw [ofCollection_isEmpty]
  rfl

theorem ofCollection_waitNotEmpty :
    (ofCollection c).waitNotEmptyCondition = c.waitNotEmptyCondition (-1) := by
  unfold BlockingCollection.waitNotEmptyCondition
    CodeMachina.BlockingCollection.waitNotEmptyCondition
  rw [ofCollection_isCompleted, ofCollection_whileEmpty]
  rfl

theorem ofCollection_wokenNotEmpty :
    (ofCollection c).wokenNotEmptyCondition = c.wokenNotEmptyCondition false (-1) := by
  unfold BlockingCollection.wokenNotEmptyCondition
    CodeMachina.BlockingCollection.wokenNotEmptyCondition
  rw [ofCollection_whileEmpty]
  rfl

/-- With this capacity there is always room, so `add` never waits. -/
theorem ofCollection_waitNotFull (h : c.boundedCapacity = sizeMax) :
    c.waitNotFullCondition (-1) = some (ofCollection c).waitNotFullCondition := by
  have hroom : c.isFull = false := by simp [CodeMachina.BlockingCollection.isFull, h]
  unfold BlockingCollection.waitNotFullCondition
    CodeMachina.BlockingCollection.waitNotFullCondition CodeMachina.BlockingCollection.whileFull
  rw [hroom]
  by_cases hstate : c.state = .deactivated
  · simp [ofCollection, hstate]
  · by_cases hcompleted : c.isAddingCompleted = true
    · simp [ofCollection, hstate, hcompleted]
    · simp [ofCollection, hstate, hcompleted]

theorem ofCollection_completeAdding :
    ofCollection c.completeAdding = (ofCollection c).completeAdding := by
  unfold CodeMachina.BlockingCollection.completeAdding BlockingCollection.completeAdding
  change ofCollection (if c.isAddingCompleted then c else _) =
    if c.isAddingCompleted then ofCollection c else _
  split_ifs with hcompleted
  · rfl
  · change BlockingCollection.mk _ _ (ofConditionVariable c.notEmptyConditionVar.broadcast) _ = _
    rw [ofConditionVariable_broadcast]
    rfl

/-- `signal` after an item was added, and the thread that it notifies. -/
theorem ofCollection_signal (itemCount i : ℕ) :
    ofCollection (c.signal itemCount false i) = ((ofCollection c).signal itemCount).2 ∧
      (c.signal itemCount false i).notEmptyConditionVar.conditionVar =
        if ((ofCollection c).signal itemCount).1 then
          c.notEmptyConditionVar.conditionVar.notifyOne i
        else c.notEmptyConditionVar.conditionVar := by
  obtain ⟨hsignal, hwaiting⟩ :=
    ofConditionVariable_signal (c.notEmptyConditionVar.setSize itemCount) i
  refine ⟨?_, hwaiting⟩
  simp only [ofCollection, BlockingCollection.signal]
  exact congrArg (BlockingCollection.mk _ _ · _) hsignal

/-- With this capacity nobody is told that an item was taken. -/
theorem notFull_signal (h : c.boundedCapacity = sizeMax) (itemCount i : ℕ) :
    (c.signal itemCount true i).notFullConditionVar.conditionVar =
      c.notFullConditionVar.conditionVar := by
  have hbounded : ¬ (true = true ∧ c.boundedCapacity ≠ sizeMax) := fun hne => hne.2 h
  unfold CodeMachina.BlockingCollection.signal
  dsimp only
  rw [if_neg hbounded]
  rfl

/-- A call of `take` in the class does what the loop's does. -/
inductive TakesAs : Taken W →
    CodeMachina.BlockingCollection (QueueContainer W) ×
      Option (CodeMachina.Event (QueueContainer W)) → Prop
  | waits {c' : CodeMachina.BlockingCollection (QueueContainer W)} :
    c'.notEmptyConditionVar.conditionVar = c.notEmptyConditionVar.conditionVar.sleep taker →
    c'.notFullConditionVar.conditionVar = c.notFullConditionVar.conditionVar →
    TakesAs (.waits (ofCollection c')) (c', none)
  | returns {status : BlockingCollectionStatus} {item : Option W}
    {c' : CodeMachina.BlockingCollection (QueueContainer W)} :
    c'.notEmptyConditionVar.conditionVar = c.notEmptyConditionVar.conditionVar →
    c'.notFullConditionVar.conditionVar = c.notFullConditionVar.conditionVar →
    TakesAs (.returns status item (ofCollection c')) (c', some (.took taker status item.toList))

theorem takesAs_finishTaking (h : c.boundedCapacity = sizeMax)
    (outcome : Option BlockingCollectionStatus) (i : ℕ) :
    TakesAs c ((ofCollection c).tryTake outcome) (c.finishTaking taker i outcome) := by
  cases outcome with
  | none =>
    exact @TakesAs.waits W c
      { c with notEmptyConditionVar := c.notEmptyConditionVar.wait taker } rfl rfl
  | some status =>
    by_cases hok : status = .ok
    · subst hok
      cases hcontainer : c.container.container with
      | nil =>
        have hnone : CodeMachina.tryTake c.container = none :=
          CodeMachina.Container.tryTake_eq_none.mpr (by rw [hcontainer]; rfl)
        have hclass : c.finishTaking taker i (some .ok) =
            (c, some (.took taker .internalError [])) := by
          change c.takeOne taker CodeMachina.tryTake i = _
          rw [CodeMachina.BlockingCollection.takeOne, hnone]
        have hmodel : (ofCollection c).tryTake (some .ok) =
            .returns .internalError none (ofCollection c) := by
          simp only [BlockingCollection.tryTake, ofCollection, hcontainer]
        rw [hclass, hmodel]
        exact .returns rfl rfl
      | cons item container =>
        have hsome : CodeMachina.tryTake c.container =
            some (item, { c.container with container := container }) := by
          change c.container.popFront = _
          rw [CodeMachina.Container.popFront, hcontainer]
        have hclass : c.finishTaking taker i (some .ok) =
            ((c.withContainer { c.container with container := container }).signal
              container.length true i, some (.took taker .ok [item])) := by
          change c.takeOne taker CodeMachina.tryTake i = _
          rw [CodeMachina.BlockingCollection.takeOne, hsome]
          rfl
        have hmodel : (ofCollection c).tryTake (some .ok) =
            .returns .ok (some item) (ofCollection
              ((c.withContainer { c.container with container := container }).signal
                container.length true i)) := by
          simp only [BlockingCollection.tryTake, ofCollection, hcontainer]
          rfl
        rw [hclass, hmodel]
        exact .returns rfl (notFull_signal _ h container.length i)
    · have hclass : c.finishTaking taker i (some status) = (c, some (.took taker status [])) := by
        cases status <;> first | contradiction | rfl
      have hmodel : (ofCollection c).tryTake (some status) =
          .returns status none (ofCollection c) := by
        cases status <;> first | contradiction | rfl
      rw [hclass, hmodel]
      exact .returns rfl rfl

/-- A call of `add` in the class does what `deleteWorker` does. -/
theorem tryEmplaceTimed_as (h : c.boundedCapacity = sizeMax)
    (hroom : c.isAddingCompleted = false →
      c.container.container.length ≠ c.container.boundedCapacity) (t : ℕ) (w : W) (i : ℕ) :
    ∃ status notified c', (ofCollection c).tryEmplaceTimed w =
        (status, notified, ofCollection c') ∧
      c.finishAdding (giver t w) i (c.waitNotFullCondition (-1)) =
        (c', some (.added (giver t w) status (if status = .ok then 1 else 0))) ∧
      (status = .ok → c.isAddingCompleted = false) ∧
      c'.notEmptyConditionVar.conditionVar =
        (if notified then c.notEmptyConditionVar.conditionVar.notifyOne i
          else c.notEmptyConditionVar.conditionVar) ∧
      c'.notFullConditionVar.conditionVar = c.notFullConditionVar.conditionVar := by
  rw [ofCollection_waitNotFull c h]
  by_cases hok : (ofCollection c).waitNotFullCondition = .ok
  · have hopen : c.isAddingCompleted = false := by
      unfold BlockingCollection.waitNotFullCondition at hok
      split_ifs at hok with hstate hcompleted
      exact Bool.eq_false_iff.mpr hcompleted
    have hemplace : CodeMachina.tryEmplace c.container w =
        some { c.container with container := c.container.container ++ [w] } :=
      if_neg (hroom hopen)
    have hclass : c.finishAdding (giver t w) i (some .ok) =
        ((c.withContainer { c.container with
            container := c.container.container ++ [w] }).signal
          (c.container.container ++ [w]).length false i, some (.added (giver t w) .ok 1)) := by
      change c.emplaceOne (giver t w) w i = _
      rw [CodeMachina.BlockingCollection.emplaceOne, hemplace]
      rfl
    obtain ⟨hsignal, hwaiting⟩ := ofCollection_signal (c.withContainer { c.container with
      container := c.container.container ++ [w] }) (c.container.container ++ [w]).length i
    rw [hok]
    refine ⟨.ok, _, _, ?_, hclass, fun _ => hopen, hwaiting, rfl⟩
    rw [hsignal]
    simp only [BlockingCollection.tryEmplaceTimed, hok]
    rfl
  · have hclass : c.finishAdding (giver t w) i (some (ofCollection c).waitNotFullCondition) =
        (c, some (.added (giver t w) (ofCollection c).waitNotFullCondition 0)) := by
      cases hstatus : (ofCollection c).waitNotFullCondition <;> first | contradiction | rfl
    have hmodel : (ofCollection c).tryEmplaceTimed w =
        ((ofCollection c).waitNotFullCondition, false, ofCollection c) := by
      cases hstatus : (ofCollection c).waitNotFullCondition <;>
        first | contradiction | simp only [BlockingCollection.tryEmplaceTimed, hstatus]
    refine ⟨_, false, c, hmodel, ?_, (absurd · hok), rfl, rfl⟩
    rw [hclass, if_neg hok]

end Calls
/-- The place of the loop by the threads that wait for an item. -/
def DeleterPc.Waits {V : Type} (loop : V) (waiting : WaitSet V) : DeleterPc → Prop
  | .asleep => waiting = ⟨[loop], [], []⟩
  | .woken | .recheck => waiting = ⟨[], [loop], []⟩ ∨ waiting = ⟨[], [], [loop]⟩
  | _ => waiting = .empty

/-- Where the loop is when those that sleep are notified. -/
def DeleterPc.notified (pc : DeleterPc) : DeleterPc := if pc = .asleep then .woken else pc

section Waits
variable {V : Type} {loop : V} {waiting : WaitSet V} {pc pc' : DeleterPc}

theorem DeleterPc.Waits.awake (h : pc.Waits loop waiting) (hpc : pc ≠ .asleep) :
    waiting.sleeping = [] := by
  cases pc with
  | asleep => contradiction
  | woken | recheck =>
    obtain rfl | rfl := h
    · rfl
    · rfl
  | _ =>
    cases h
    rfl

theorem DeleterPc.Waits.notifyOne (h : pc.Waits loop waiting) (i : ℕ) :
    pc.notified.Waits loop (waiting.notifyOne i) := by
  unfold DeleterPc.notified
  split_ifs with hasleep
  · subst hasleep
    cases h
    left
    simp [WaitSet.notifyOne, Nat.mod_one]
  · rw [WaitSet.notifyOne_of_nil (h.awake hasleep)]
    exact h

theorem DeleterPc.Waits.notifyAll (h : pc.Waits loop waiting) :
    pc.notified.Waits loop waiting.notifyAll := by
  unfold DeleterPc.notified
  split_ifs with hasleep
  · subst hasleep
    cases h
    exact .inl rfl
  · rw [WaitSet.notifyAll_of_nil (h.awake hasleep)]
    exact h

theorem DeleterPc.Waits.acquired (h : pc.Waits loop waiting) (hpc : pc.acquired = some pc') :
    pc'.Waits loop waiting := by
  cases pc <;> cases hpc <;> exact h

theorem DeleterPc.Waits.released (h : pc.Waits loop waiting) (hpc : pc.released = some pc') :
    pc'.Waits loop waiting := by
  obtain ⟨completed, rfl, rfl⟩ | ⟨status, rfl, rfl⟩ := released_cases hpc
  · split_ifs <;> exact h
  · split_ifs <;> exact h

theorem DeleterPc.Waits.mem (h : pc.Waits loop waiting) : ∀ w ∈ waiting.waiting, w = loop := by
  cases pc with
  | asleep =>
    cases h
    simp [WaitSet.waiting]
  | woken | recheck =>
    obtain rfl | rfl := h
    · simp [WaitSet.waiting]
    · simp [WaitSet.waiting]
  | _ =>
    cases h
    simp [WaitSet.waiting, WaitSet.empty]

theorem DeleterPc.Waits.resume {v : CodeMachina.ConditionVariable V}
    (h : DeleterPc.recheck.Waits loop v.conditionVar) :
    ∃ isNotified, v.resume isNotified false 0 = some (loop, v.withWaitSet .empty) := by
  obtain hwaiting | hwaiting := h
  · refine ⟨true, ?_⟩
    unfold CodeMachina.ConditionVariable.resume
    rw [hwaiting]
    rfl
  · refine ⟨false, ?_⟩
    unfold CodeMachina.ConditionVariable.resume
    rw [hwaiting]
    rfl

end Waits

/-- The two levels at one time. -/
structure Refines {W : Type} (s : State W) (g : CodeMachina.State (QueueContainer W)) : Prop where
  threads : s.threads = ofCollection g.collection
  consumer : s.deleter.Waits taker g.collection.notEmptyConditionVar.conditionVar
  producers : g.collection.notFullConditionVar.conditionVar = .empty
  added : Op.puts g.ops = s.added

section Simulation
variable {W : Type} {s s' : State W} {g : CodeMachina.State (QueueContainer W)}

theorem Refines.stutter (h : Refines s g) (hthreads : s'.threads = s.threads)
    (hadded : s'.added = s.added)
    (hconsumer : s.deleter.Waits taker g.collection.notEmptyConditionVar.conditionVar →
      s'.deleter.Waits taker g.collection.notEmptyConditionVar.conditionVar) : Refines s' g where
  threads := hthreads.trans h.threads
  consumer := hconsumer h.consumer
  producers := h.producers
  added := h.added.trans hadded.symm

theorem notify_eq (s : State W) : s.notify = { s with deleter := s.deleter.notified } := by
  unfold State.notify DeleterPc.notified
  split_ifs <;> rfl

theorem refines_take {c : CodeMachina.BlockingCollection (QueueContainer W)}
    (hcapacity : c.boundedCapacity = sizeMax) (hthreads : s.threads = ofCollection c)
    (hconsumer : c.notEmptyConditionVar.conditionVar = .empty)
    (hproducers : c.notFullConditionVar.conditionVar = .empty) (hadded : Op.puts g.ops = s.added)
    (outcome : Option BlockingCollectionStatus) :
    Refines (s.take outcome) (g.finish (c.finishTaking taker 0 outcome)) := by
  have htakes := takesAs_finishTaking c hcapacity outcome 0
  unfold State.take
  rw [hthreads]
  generalize (ofCollection c).tryTake outcome = taken at htakes ⊢
  generalize c.finishTaking taker 0 outcome = r at htakes ⊢
  cases htakes with
  | waits hempty hfull =>
    refine ⟨rfl, ?_, hfull.trans hproducers, ?_⟩
    · rw [hconsumer] at hempty
      exact hempty
    · rw [CodeMachina.State.ops_finish]
      simpa using hadded
  | @returns status item c' hempty hfull =>
    refine ⟨rfl, hempty.trans hconsumer, hfull.trans hproducers, ?_⟩
    have hputs : Op.puts (CodeMachina.Event.ops (.took taker status item.toList)) = [] :=
      (CodeMachina.Taking.map_op taker.call item.toList).1
    rw [CodeMachina.State.ops_finish]
    simpa [hputs] using hadded

theorem refines_add (hg : g.collection.boundedCapacity = sizeMax)
    (hroom : g.collection.isAddingCompleted = false →
      g.collection.container.container.length ≠ g.collection.container.boundedCapacity)
    (h : Refines s g) (t : ℕ) (w : W) :
    Refines (s.add t w) (g.finish (g.collection.finishAdding (giver t w) 0
      (g.collection.waitNotFullCondition (-1)))) := by
  obtain ⟨status, notified, c', hmodel, hclass, hopen, hempty, hfull⟩ :=
    tryEmplaceTimed_as g.collection hg hroom t w 0
  have hops : Op.puts (CodeMachina.Event.ops (.added (giver t w) status
      (if status = .ok then 1 else 0) : CodeMachina.Event (QueueContainer W))) =
        if status = .ok then [w] else [] := by
    split_ifs <;> rfl
  have hadd : s.add t w =
      { s with
        adder := Function.update s.adder t .unlock
        threads := ofCollection c'
        added := s.added ++ if status = .ok then [w] else []
        deleter := if notified then s.deleter.notified else s.deleter } := by
    rw [← h.threads] at hmodel
    have hopen' : status = .ok → s.threads.isAddingCompleted = false := by
      rw [h.threads]
      exact hopen
    simp only [State.add, hmodel, State.setAdder, notify_eq]
    by_cases hok : status = .ok
    · cases notified <;> simp [hok, hopen' hok]
    · cases notified <;> simp [hok]
  rw [hclass, hadd]
  refine ⟨rfl, ?_, hfull.trans h.producers, ?_⟩
  · change DeleterPc.Waits taker c'.notEmptyConditionVar.conditionVar
      (if notified then s.deleter.notified else s.deleter)
    rw [hempty]
    split_ifs
    · exact h.consumer.notifyOne 0
    · exact h.consumer
  · rw [CodeMachina.State.ops_finish, Op.puts_append, h.added]
    simp [hops]

theorem refines_completeAdding (h : Refines s g) :
    Refines s.completeAdding (g.withCollection g.collection.completeAdding) := by
  have hthreads : s.threads.completeAdding = ofCollection g.collection.completeAdding := by
    rw [h.threads, ofCollection_completeAdding]
  have hcompleted : s.threads.isAddingCompleted = g.collection.isAddingCompleted := by
    rw [h.threads]
    rfl
  unfold State.completeAdding
  dsimp only
  rw [notify_eq, hcompleted]
  split_ifs with hbefore
  · have hsame : g.collection.completeAdding = g.collection := if_pos hbefore
    refine ⟨hthreads, ?_, ?_, h.added⟩
    all_goals rw [hsame]
    · exact h.consumer
    · exact h.producers
  · have hbroadcast : g.collection.completeAdding =
        { g.collection with isAddingCompleted := true }.broadcast := if_neg hbefore
    refine ⟨hthreads, ?_, ?_, h.added⟩
    all_goals rw [hbroadcast]
    · exact h.consumer.notifyAll
    · change g.collection.notFullConditionVar.conditionVar.notifyAll = .empty
      rw [h.producers]
      rfl

/-- What a step does to the collection. -/
inductive Seen (s : State W) : State W → Prop
  | nothing {s' : State W} : s'.threads = s.threads → s'.added = s.added →
    (∀ waiting : WaitSet (CodeMachina.Consumer (QueueContainer W)),
      s.deleter.Waits taker waiting → s'.deleter.Waits taker waiting) → Seen s s'
  | take : s.deleter = .take → Seen s (s.take s.threads.waitNotEmptyCondition)
  | recheck : s.deleter = .recheck → Seen s (s.take s.threads.wokenNotEmptyCondition)
  | spurious : s.deleter = .asleep → Seen s { s with deleter := .woken }
  | add (t : ℕ) (w : W) : Seen s (s.add t w)
  | completeAdding : Seen s s.completeAdding

theorem next_seen {a : Action W} (hn : next s a = some s') : Seen s s' := by
  cases a with
  | start | test =>
    obtain ⟨hpc, ⟨⟩⟩ := of_guard hn
    exact .nothing rfl rfl fun waiting h => by
      rw [hpc] at h
      exact h
  | acquire =>
    simp only [next] at hn
    split at hn
    case h_1 pc hacquired =>
      obtain ⟨-, ⟨⟩⟩ := of_guard hn
      exact .nothing rfl rfl fun _ h => h.acquired hacquired
    case h_2 => cases hn
  | release =>
    simp only [next] at hn
    split at hn
    case h_1 pc hreleased =>
      cases hn
      exact .nothing rfl rfl fun _ h => h.released hreleased
    case h_2 => cases hn
  | take =>
    obtain ⟨hpc, ⟨⟩⟩ := of_guard hn
    exact .take hpc
  | recheck =>
    obtain ⟨hpc, ⟨⟩⟩ := of_guard hn
    exact .recheck hpc
  | spurious =>
    obtain ⟨hpc, ⟨⟩⟩ := of_guard hn
    exact .spurious hpc
  | wait =>
    obtain ⟨hpc, ⟨⟩⟩ := of_guard hn
    unfold State.wait
    split
    · exact .nothing rfl rfl fun waiting h => by
        rw [hpc] at h
        exact h
    · exact .nothing rfl rfl fun _ h => h
  | delete =>
    obtain ⟨hpc, ⟨⟩⟩ := of_guard hn
    unfold State.delete
    split
    · exact .nothing rfl rfl fun waiting h => by
        rw [hpc] at h
        exact h
    · exact .nothing rfl rfl fun _ h => h
  | add t =>
    simp only [next] at hn
    split at hn
    case h_1 w hpc =>
      cases hn
      exact .add t w
    case h_2 => cases hn
  | call t w | unlockAdd t =>
    simp only [next] at hn
    split at hn
    case h_1 =>
      cases hn
      exact .nothing rfl rfl fun _ h => h
    case h_2 => cases hn
  | lockAdd t =>
    simp only [next] at hn
    split at hn
    case h_1 =>
      obtain ⟨-, ⟨⟩⟩ := of_guard hn
      exact .nothing rfl rfl fun _ h => h
    case h_2 => cases hn
  | completeAdding =>
    obtain ⟨-, ⟨⟩⟩ := of_guard hn
    exact .completeAdding
  | stop | lockStop | unlockStop =>
    obtain ⟨-, ⟨⟩⟩ := of_guard hn
    exact .nothing rfl rfl fun _ h => h

theorem Seen.added_le (h : Seen s s') (hplain : s.threads.Plain) :
    s.added.length ≤ s'.added.length := by
  have htake : ∀ outcome, (s.take outcome).added = s.added := fun outcome => by
    unfold State.take
    split <;> rfl
  cases h with
  | nothing _ hadded _ => rw [hadded]
  | take | recheck => rw [htake]
  | spurious => exact le_rfl
  | add t w =>
    obtain ⟨-, hadd⟩ | ⟨-, c, -, -, -, hadd⟩ := add_cases hplain t w
    · rw [hadd]
      exact le_rfl
    · rw [hadd, notify_eq]
      simp
  | completeAdding =>
    unfold State.completeAdding
    dsimp only
    rw [notify_eq]
    split_ifs <;> exact le_rfl

theorem Refines.idle (h : Refines s g) {thread : ℕ} (hthread : thread ≠ 0) :
    g.collection.waits thread = false := by
  have hconsumer : ∀ w ∈ g.collection.notEmptyConditionVar.conditionVar.waiting,
      w.thread ≠ thread := by
    intro w hw
    rw [h.consumer.mem w hw]
    exact hthread.symm
  unfold CodeMachina.BlockingCollection.waits
  rw [h.producers, Bool.or_eq_false_iff, List.any_eq_false]
  refine ⟨fun w hw => ?_, rfl⟩
  simpa using hconsumer w hw

theorem QueueInv.container_le (h : QueueInv s) : s.threads.container.length ≤ s.added.length := by
  rw [← h.order, List.length_append]
  exact Nat.le_add_left _ _

theorem refines_step (hg : CodeMachina.State.Linear sizeMax g) (hqueue : QueueInv s)
    (h : Refines s g) (hseen : Seen s s') (hroom : s'.added.length ≤ sizeMax) :
    Refines s' g ∨ ∃ a g', g.next a = some g' ∧ Refines s' g' := by
  cases hseen with
  | nothing hthreads hadded hconsumer =>
    exact .inl (h.stutter hthreads hadded (hconsumer _))
  | take hpc =>
    have hconsumer : g.collection.notEmptyConditionVar.conditionVar = .empty := by
      have hwaits := h.consumer
      rw [hpc] at hwaits
      exact hwaits
    have hidle : g.collection.waits 0 = false := by
      simp [CodeMachina.BlockingCollection.waits, hconsumer, h.producers, WaitSet.waiting,
        WaitSet.empty]
    have hclass : g.collection.startTaking taker 0 =
        g.collection.finishTaking taker 0 s.threads.waitNotEmptyCondition := by
      rw [h.threads, ofCollection_waitNotEmpty]
      rfl
    refine .inr ⟨.take taker 0, _, if_neg (by simp [taker, hidle]), ?_⟩
    rw [hclass]
    exact refines_take hg.capacity_eq h.threads hconsumer h.producers h.added _
  | recheck hpc =>
    have hwaits := h.consumer
    rw [hpc] at hwaits
    obtain ⟨isNotified, hresume⟩ := hwaits.resume
    have hclass : s.threads.wokenNotEmptyCondition =
        (g.collection.withNotEmpty
          (g.collection.notEmptyConditionVar.withWaitSet .empty)).wokenNotEmptyCondition
            false (-1) := by
      rw [h.threads, ← ofCollection_wokenNotEmpty]
      rfl
    rw [hclass]
    refine .inr ⟨.resumeTaking isNotified false 0 0, _, ?_, refines_take
      (c := g.collection.withNotEmpty (g.collection.notEmptyConditionVar.withWaitSet .empty))
      hg.capacity_eq h.threads rfl h.producers h.added _⟩
    simp only [CodeMachina.State.next, hresume]
    rfl
  | spurious hpc =>
    have hwaits := h.consumer
    rw [hpc] at hwaits
    have hwake : g.collection.notEmptyConditionVar.conditionVar.wake 0 =
        some ⟨[], [], [taker]⟩ := by
      rw [hwaits]
      rfl
    refine .inr ⟨.wakeConsumer 0, _, Option.map_eq_some_iff.mpr ⟨_, hwake, rfl⟩, ?_⟩
    exact ⟨h.threads, .inr rfl, h.producers, h.added⟩
  | add t w =>
    have hidle := h.idle (Nat.succ_ne_zero t)
    refine .inr ⟨.add (giver t w) 0, _, if_neg (by simp [giver, hidle]), ?_⟩
    refine refines_add hg.capacity_eq (fun hopen => ?_) h t w
    have hcapacity : g.collection.container.boundedCapacity = sizeMax :=
      hg.bounded.capacity.trans hg.capacity_eq
    have hcontainer : s.threads.container = g.collection.container.container := by
      rw [h.threads]
      rfl
    have hle := hqueue.container_le
    obtain ⟨hcompleted, -⟩ | ⟨-, c, -, -, -, hadd⟩ := add_cases hqueue.plain t w
    · rw [h.threads] at hcompleted
      exact absurd hcompleted (by simp [ofCollection, hopen])
    · rw [hadd, notify_eq, List.length_append] at hroom
      rw [← hcontainer, hcapacity]
      simp only [List.length_singleton] at hroom
      omega
  | completeAdding => exact .inr ⟨.completeAdding, _, rfl, refines_completeAdding h⟩

end Simulation

/-- A run of the loop and of its callers is a run of the threads of a `BlockingQueue`, with the
same items in it and, outside of it, in the same order. -/
theorem refines_of_reachable {W : Type} {s : State W} (hs : (deletions W).Reachable s)
    (hroom : s.added.length ≤ sizeMax) :
    ∃ g, (CodeMachina.threads (QueueContainer W) sizeMax).Reachable g ∧ Refines s g ∧
      Op.removals g.ops = s.deleted ++ s.inHand := by
  have hsimulated : ∃ g, (CodeMachina.threads (QueueContainer W) sizeMax).Reachable g ∧
      Refines s g := by
    refine hs.simulated (fun s => s.added.length ≤ sizeMax) Refines ?_ ?_ ?_ hroom
    · exact ⟨rfl, rfl, rfl, rfl⟩
    · intro s a s' hs hn hfit
      exact ((next_seen hn).added_le (queueInv_of_reachable hs).1.plain).trans hfit
    · intro s a s' g hs hg hrefines hn hfit
      exact refines_step (CodeMachina.State.linear_of_reachableVia hg)
        (queueInv_of_reachable hs).1 hrefines (next_seen hn) hfit
  obtain ⟨g, hg, hrefines⟩ := hsimulated
  refine ⟨g, hg, hrefines, ?_⟩
  have hfifo := CodeMachina.Container.kept_fifo.runs_from_empty rfl
    (CodeMachina.State.linear_of_reachableVia hg).runs
  have horder := (queueInv_of_reachable hs).1.order
  rw [hrefines.threads, ← hrefines.added, hfifo] at horder
  exact (List.append_cancel_right horder).symm

/-- The loop sleeps before the second worker comes, and holds it in hand at the end. -/
theorem refines_of_reachable_woken : ∃ s : State ℕ, ∃ g,
    (CodeMachina.threads (QueueContainer ℕ) sizeMax).Reachable g ∧ Refines s g ∧
      Op.removals g.ops = [5, 6] := by
  obtain ⟨s, hs, htest⟩ := TransitionSystem.exists_reachable_of_run (deletions ℕ)
    [.start, .call 0 5, .lockAdd 0, .add 0, .unlockAdd 0,
      .acquire, .test, .release, .acquire, .take, .release, .wait, .delete,
      .acquire, .test, .release, .acquire, .take,
      .call 1 6, .lockAdd 1, .add 1, .unlockAdd 1, .acquire, .recheck]
    (fun s => s.added.length = 2 ∧ s.deleted ++ s.inHand = [5, 6]) (by decide)
  obtain ⟨hadded, hremovals⟩ := of_decide_eq_true htest
  have h := refines_of_reachable hs (by rw [hadded]; decide)
  rw [hremovals] at h
  exact ⟨s, h⟩

end Mbtest.ThreadDeleter
