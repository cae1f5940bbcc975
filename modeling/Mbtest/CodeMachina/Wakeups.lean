import Mbtest.CodeMachina.Waiting

/-! Wake-ups that are not lost, in a collection to which no worker is attached: every `signal`
notifies a thread, and the thread does what it was notified for. -/
namespace Mbtest.CodeMachina
open Lib
open ThreadDeleter (BlockingCollectionState BlockingCollectionStatus)

variable {C T : Type} [ProducerConsumerCollection C T]

namespace BlockingCollection

def room (c : BlockingCollection C) : ℕ := c.boundedCapacity - size c.container

def sleepingConsumers (c : BlockingCollection C) : ℕ :=
  c.notEmptyConditionVar.conditionVar.sleeping.length

def sleepingProducers (c : BlockingCollection C) : ℕ :=
  c.notFullConditionVar.conditionVar.sleeping.length

structure Unattached (c : BlockingCollection C) : Prop where
  consumers : c.notEmptyConditionVar.totalWorkers = 0
  producers : c.notFullConditionVar.totalWorkers = 0

/-- While threads sleep for an item or for room, each item and each free place has a thread that
was notified. -/
structure Covered (c : BlockingCollection C) : Prop where
  consumers : c.notEmptyConditionVar.conditionVar.Covers (size c.container)
  producers : c.notFullConditionVar.conditionVar.Covers c.room
  unbounded : c.boundedCapacity = sizeMax → c.sleepingProducers = 0

theorem signal_consumers {c : BlockingCollection C} (h : c.Unattached) (itemCount i : ℕ) :
    (c.signal itemCount false i).notEmptyConditionVar.conditionVar =
      c.notEmptyConditionVar.conditionVar.notifyOne i := by
  have hsignal := ConditionVariable.signal_unattached
    (v := c.notEmptyConditionVar.setSize itemCount) h.consumers (notEmptySignalStrategy 16) i
  simp only [signal, Bool.false_eq_true, if_false, hsignal]
  rfl

theorem signal_producers {c : BlockingCollection C} (h : c.Unattached)
    (hbounded : c.boundedCapacity ≠ sizeMax) (itemCount i : ℕ) :
    (c.signal itemCount true i).notFullConditionVar.conditionVar =
      c.notFullConditionVar.conditionVar.notifyOne i := by
  have hsignal := ConditionVariable.signal_unattached
    (v := c.notFullConditionVar.setSize itemCount) h.producers (notFullSignalStrategy 16) i
  simp only [signal, hbounded, ne_eq, not_false_eq_true, and_self, if_true, hsignal]
  rfl

section Ends
variable [LawfulCollection C] {c : BlockingCollection C} {producer : Producer T}
  {consumer : Consumer C} {timedOut : Bool} {i : ℕ} {r : BlockingCollection C × Option (Event C)}

/-- An adding call leaves one place less for the producers that sleep, unless it fails. -/
theorem AddingEnds.covered (h : AddingEnds c producer timedOut i r) (hunattached : c.Unattached)
    (hconsumers : c.notEmptyConditionVar.conditionVar.Covers (size c.container))
    (hproducers : c.notFullConditionVar.conditionVar.Covers (c.room - 1))
    (hfails : (timedOut = true ∨ c.boundedCapacity ≤ size c.container ∨
      c.isAddingCompleted = true ∨ c.state ≠ .activated ∨ producer.call.items = []) →
      c.notFullConditionVar.conditionVar.Covers c.room)
    (hunbounded : c.boundedCapacity = sizeMax → c.sleepingProducers = 0)
    (hone : producer.call.items.length = 1 ∨ c.sleepingConsumers ≤ 1) : r.1.Covered := by
  cases h with
  | waits hfull =>
    obtain ⟨hmax, hle⟩ := isFull_iff.mp hfull
    refine ⟨hconsumers, ?_, fun h => absurd h hmax⟩
    have hroom : c.room = 0 := Nat.sub_eq_zero_of_le hle
    exact hroom ▸ .zero
  | @adds added container hfull _ _ hle hzero hruns _ =>
    have hsize := hruns.size
    rw [(producer.call.map_op _).1, (producer.call.map_op _).2, List.length_take,
      List.length_nil] at hsize
    rw [Nat.min_eq_left hle] at hsize
    have hsignal := signal_consumers (c := c.withContainer container)
      ⟨hunattached.consumers, hunattached.producers⟩ (size container) i
    refine ⟨?_, ?_, hunbounded⟩
    · rw [hsignal]
      obtain hone | hsleeping := hone
      · exact (hconsumers.notifyOne i).mono (by simp only []; change size container ≤ _; omega)
      · exact .notifyOne_of_length_le_one hsleeping _ _
    · refine hproducers.mono ?_
      change c.boundedCapacity - size container ≤ c.boundedCapacity - size c.container - 1
      omega
  | fails _ _ hreason => exact ⟨hconsumers, hfails hreason, hunbounded⟩

theorem TakingEnds.covered (h : TakingEnds c consumer timedOut i r) (hunattached : c.Unattached)
    (hproducers : c.notFullConditionVar.conditionVar.Covers c.room)
    (hconsumers : c.notEmptyConditionVar.conditionVar.Covers (size c.container - 1))
    (hfails : (timedOut = true ∨ size c.container = 0 ∨ c.state ≠ .activated) →
      c.notEmptyConditionVar.conditionVar.Covers (size c.container))
    (hunbounded : c.boundedCapacity = sizeMax → c.sleepingProducers = 0)
    (hcount : 0 < consumer.call.count)
    (hone : c.sleepingProducers = 0 ∨
      consumer.call.signals = true ∧ (consumer.call.count = 1 ∨ c.sleepingProducers ≤ 1)) :
    r.1.Covered := by
  cases h with
  | waits hempty => exact ⟨hempty ▸ .zero, hproducers, hunbounded⟩
  | @takes items container hpos _ hlength hruns =>
    have hsize := hruns.size
    rw [(consumer.call.map_op _).1, (consumer.call.map_op _).2, List.length_nil] at hsize
    have hleft : c.notEmptyConditionVar.conditionVar.Covers (size container) :=
      hconsumers.mono (by omega)
    by_cases hsleeping : c.sleepingProducers = 0
    · have hnil : c.notFullConditionVar.conditionVar.sleeping = [] :=
        List.length_eq_zero_iff.mp hsleeping
      simp only []
      split_ifs
      · have hsignal := signal_sleeping_producers (c := c.withContainer container) hnil
          (size container) true i
        exact ⟨hleft, .of_nil hsignal _, fun _ => List.length_eq_zero_iff.mpr hsignal⟩
      · exact ⟨hleft, .of_nil hnil _, hunbounded⟩
    · obtain ⟨hsignals, hone⟩ := hone.resolve_left hsleeping
      have hmax : c.boundedCapacity ≠ sizeMax := fun h => hsleeping (hunbounded h)
      have hsignal := signal_producers (c := c.withContainer container)
        ⟨hunattached.consumers, hunattached.producers⟩ hmax (size container) i
      simp only [hsignals, if_true]
      refine ⟨hleft, ?_, fun h => absurd h hmax⟩
      rw [hsignal]
      obtain hone | hsleeping := hone
      · refine (hproducers.notifyOne i).mono ?_
        change c.boundedCapacity - size container ≤ c.boundedCapacity - size c.container + 1
        omega
      · exact .notifyOne_of_length_le_one hsleeping _ _
  | fails _ _ hreason => exact ⟨hfails hreason, hproducers, hunbounded⟩

end Ends

section Succeeds
variable {c : BlockingCollection C} {producer : Producer T} {consumer : Consumer C} {i : ℕ}
  {r : BlockingCollection C × Option (Event C)}

theorem AddingEnds.succeeds (h : AddingEnds c producer false i r)
    (hroom : size c.container < c.boundedCapacity) (hopen : c.isAddingCompleted = false)
    (hstate : c.state = .activated) (hitems : 0 < producer.call.items.length) :
    ∃ added, r.2 = some (.added producer .ok added) ∧ 0 < added := by
  cases h with
  | waits hfull => exact absurd (isFull_iff.mp hfull).2 (Nat.not_le.mpr hroom)
  | @adds added _ _ _ _ _ hzero =>
    refine ⟨added, rfl, Nat.pos_of_ne_zero fun h => ?_⟩
    obtain ⟨hmax, hsize⟩ := hzero h
    omega
  | fails _ _ hreason =>
    obtain htimedOut | hfull | hcompleted | hrefused | hnil := hreason
    · cases htimedOut
    · omega
    · simp [hopen] at hcompleted
    · exact absurd hstate hrefused
    · simp [hnil] at hitems

theorem TakingEnds.succeeds (h : TakingEnds c consumer false i r)
    (hsize : 0 < size c.container) (hstate : c.state = .activated)
    (hcount : 0 < consumer.call.count) :
    ∃ items, r.2 = some (.took consumer .ok items) ∧ items ≠ [] := by
  cases h with
  | waits hempty => omega
  | @takes items _ _ _ hlength =>
    refine ⟨items, rfl, List.ne_nil_of_length_pos ?_⟩
    omega
  | fails _ _ hreason =>
    obtain htimedOut | hempty | hrefused := hreason
    · cases htimedOut
    · omega
    · exact absurd hstate hrefused

end Succeeds

section Unattached
variable {c : BlockingCollection C} {producer : Producer T} {consumer : Consumer C}
  {timedOut : Bool} {i : ℕ} {r : BlockingCollection C × Option (Event C)}

theorem Unattached.signal (h : c.Unattached) (itemCount : ℕ) (signalNotFull : Bool) (i : ℕ) :
    (c.signal itemCount signalNotFull i).Unattached := by
  constructor
  · simp only [BlockingCollection.signal]
    split_ifs
    · exact h.consumers
    · rw [ConditionVariable.signal_totalWorkers]
      exact h.consumers
  · simp only [BlockingCollection.signal]
    split_ifs
    · rw [ConditionVariable.signal_totalWorkers]
      exact h.producers
    · exact h.producers

theorem Unattached.withContainer (h : c.Unattached) (container : C) :
    (c.withContainer container).Unattached := ⟨h.consumers, h.producers⟩

theorem AddingEnds.unattached (h : AddingEnds c producer timedOut i r) (hc : c.Unattached) :
    r.1.Unattached := by
  cases h with
  | waits => exact ⟨hc.consumers, hc.producers⟩
  | adds => exact (hc.withContainer _).signal _ _ _
  | fails => exact hc

theorem TakingEnds.unattached (h : TakingEnds c consumer timedOut i r) (hc : c.Unattached) :
    r.1.Unattached := by
  cases h with
  | waits => exact ⟨hc.consumers, hc.producers⟩
  | takes =>
    simp only []
    split_ifs
    · exact (hc.withContainer _).signal _ _ _
    · exact hc.withContainer _
  | fails => exact hc

end Unattached

/-- One signal is enough for what the call adds. -/
def addsCarefully (c : BlockingCollection C) (producer : Producer T) : Bool :=
  producer.call.items.length = 1 ∨ c.sleepingConsumers ≤ 1

/-- The call signals, and one signal is enough for what it takes. -/
def takesCarefully (c : BlockingCollection C) (consumer : Consumer C) : Bool :=
  c.sleepingProducers = 0 ∨
    consumer.call.signals = true ∧ (consumer.call.count = 1 ∨ c.sleepingProducers ≤ 1)

end BlockingCollection

namespace State
open BlockingCollection

/-- No worker is attached and nobody calls `pulse`. What a call adds or takes needs no more than
its one signal, and no notified thread gives up for its time while there is something to do. -/
def careful (s : State C) : Action C → Bool
  | .add producer _ => 0 < producer.call.items.length ∧ s.collection.addsCarefully producer
  | .take consumer _ => s.collection.takesCarefully consumer
  | .resumeAdding isNotified timedOut k _ =>
    (s.collection.notFullConditionVar.conditionVar.leave isNotified k).all
      (fun r => s.collection.addsCarefully r.1) ∧
      (isNotified = true → timedOut = true →
        s.collection.room = 0 ∨ s.collection.sleepingProducers = 0)
  | .resumeTaking isNotified timedOut k _ =>
    (s.collection.notEmptyConditionVar.conditionVar.leave isNotified k).all
      (fun r => s.collection.takesCarefully r.1) ∧
      (isNotified = true → timedOut = true →
        size s.collection.container = 0 ∨ s.collection.sleepingConsumers = 0)
  | .deactivate pulse => !pulse
  | .flush => s.collection.sleepingProducers = 0
  | .attachProducer _ => false
  | .attachConsumer _ => false
  | _ => true

structure Served (s : State C) : Prop where
  unattached : s.collection.Unattached
  unpulsed : s.collection.state ≠ .pulsed
  quiet : s.Quiet
  asks : ∀ consumer ∈ s.collection.waitingConsumers, 0 < consumer.call.count
  offers : ∀ producer ∈ s.collection.waitingProducers, 0 < producer.call.items.length
  covered : s.collection.Covered

variable {s s' : State C} {a : Action C}

theorem Moves.unattached (h : s.Moves a s') (hcareful : s.careful a = true)
    (hs : s.collection.Unattached) : s'.collection.Unattached := by
  cases h with
  | add _ hends => exact hends.unattached hs
  | take _ _ hends => exact hends.unattached hs
  | resumeAdding hresume hends =>
    exact hends.unattached ⟨hs.consumers,
      (ConditionVariable.resume_totalWorkers hresume).trans hs.producers⟩
  | resumeTaking hresume hends =>
    exact hends.unattached ⟨(ConditionVariable.resume_totalWorkers hresume).trans hs.consumers,
      hs.producers⟩
  | completeAdding =>
    simp only [State.withCollection, BlockingCollection.completeAdding]
    split_ifs <;> exact ⟨hs.consumers, hs.producers⟩
  | deactivate =>
    simp only [State.withCollection, BlockingCollection.deactivate]
    split_ifs <;> exact ⟨hs.consumers, hs.producers⟩
  | attachProducer => cases hcareful
  | attachConsumer => cases hcareful
  | detachProducer =>
    exact ⟨hs.consumers, Nat.le_zero.mp (hs.producers ▸ ConditionVariable.detach_totalWorkers_le _ _)⟩
  | detachConsumer =>
    exact ⟨Nat.le_zero.mp (hs.consumers ▸ ConditionVariable.detach_totalWorkers_le _ _), hs.producers⟩
  | takeNothing => exact hs
  | wakeProducer => exact ⟨hs.consumers, hs.producers⟩
  | wakeConsumer => exact ⟨hs.consumers, hs.producers⟩
  | activate => exact ⟨hs.consumers, hs.producers⟩
  | flush => exact ⟨hs.consumers, hs.producers⟩

theorem Moves.unpulsed (h : s.Moves a s') (hcareful : s.careful a = true)
    (hs : s.collection.state ≠ .pulsed) : s'.collection.state ≠ .pulsed := by
  cases h with
  | add _ hends => exact hends.state_eq ▸ hs
  | take _ _ hends => exact hends.state_eq ▸ hs
  | resumeAdding _ hends => exact hends.state_eq ▸ hs
  | resumeTaking _ hends => exact hends.state_eq ▸ hs
  | completeAdding =>
    simp only [State.withCollection, BlockingCollection.completeAdding]
    split_ifs <;> exact hs
  | @deactivate pulse =>
    have hpulse : pulse = false := by simpa [careful] using hcareful
    simp only [State.withCollection, BlockingCollection.deactivate, hpulse]
    split_ifs with hstate
    · exact hs
    · contradiction
    · simp [broadcast]
  | activate => simp [State.withCollection, BlockingCollection.activate]
  | takeNothing => exact hs
  | wakeProducer => exact hs
  | wakeConsumer => exact hs
  | flush => exact hs
  | attachProducer => exact hs
  | detachProducer => exact hs
  | attachConsumer => exact hs
  | detachConsumer => exact hs

private theorem covered_of_same {c c' : BlockingCollection C} (h : c.Covered)
    (hconsumers : c'.notEmptyConditionVar.conditionVar = c.notEmptyConditionVar.conditionVar)
    (hproducers : c'.notFullConditionVar.conditionVar = c.notFullConditionVar.conditionVar)
    (hcapacity : c'.boundedCapacity = c.boundedCapacity) (hcontainer : c'.container = c.container) :
    c'.Covered := by
  refine ⟨?_, ?_, ?_⟩
  · rw [hconsumers, hcontainer]
    exact h.consumers
  · rw [hproducers, room, hcapacity, hcontainer]
    exact h.producers
  · rw [sleepingProducers, hproducers, hcapacity]
    exact h.unbounded

private theorem covered_broadcast {c : BlockingCollection C} : c.broadcast.Covered :=
  ⟨.notifyAll _, .notifyAll _, fun _ => rfl⟩

/-- A thread that was notified does not leave before its work is done, unless nobody sleeps. -/
private theorem over_of_refused {c : BlockingCollection C} (hunpulsed : c.state ≠ .pulsed)
    (h : c.state ≠ .activated) : c.Over := by
  cases hstate : c.state <;> simp_all [Over]

private theorem covers_left {W : Type} {w : W} {t t' : WaitSet W} {n k : ℕ} {isNotified : Bool}
    (h : t.Covers n) (ht : t.leave isNotified k = some (w, t')) : t'.Covers (n - 1) := by
  cases n with
  | zero => exact .zero
  | succ n => exact h.leave ht

/-- A producer that has waited goes on: it was a stray, or it uses up its notification, or there is
nothing to be notified of. -/
theorem Served.covered_resumeAdding [LawfulCollection C] (hs : s.Served)
    {isNotified timedOut : Bool} {k i : ℕ} {producer : Producer T}
    {v : ConditionVariable (Producer T)} {r : BlockingCollection C × Option (Event C)}
    (hresume : s.collection.notFullConditionVar.resume isNotified timedOut k = some (producer, v))
    (hends : (s.collection.withNotFull v).AddingEnds producer timedOut i r)
    (hcareful : s.careful (.resumeAdding isNotified timedOut k i) = true) : r.1.Covered := by
  obtain ⟨hunattached, hunpulsed, hquiet, -, hoffers, hcovered⟩ := hs
  obtain ⟨hleave, -⟩ := ConditionVariable.resume_eq_some hresume
  obtain ⟨hadds, htime⟩ := of_decide_eq_true hcareful
  rw [hleave] at hadds
  have hmem := (ConditionVariable.waiting_resume hresume).symm.subset List.mem_cons_self
  have hitems : 0 < producer.call.items.length := hoffers producer hmem
  have hsleeping := ConditionVariable.resume_sleeping hresume
  have hlast : v.conditionVar.Covers (s.collection.room - 1) :=
    covers_left hcovered.producers hleave
  refine hends.covered ⟨hunattached.consumers, ?_⟩ hcovered.consumers hlast ?_ ?_
    (of_decide_eq_true hadds)
  · exact (ConditionVariable.resume_totalWorkers hresume).trans hunattached.producers
  · intro hreason
    change v.conditionVar.Covers s.collection.room
    cases isNotified with
    | false => exact hcovered.producers.leave_stray hleave
    | true =>
      have hnone : s.collection.sleepingProducers = 0 → v.conditionVar.sleeping = [] :=
        fun hzero => hsleeping.trans (List.length_eq_zero_iff.mp hzero)
      have hover : s.collection.Over → v.conditionVar.sleeping = [] :=
        fun hover => hsleeping.trans (hquiet hover).producers
      have hzero : s.collection.room = 0 → v.conditionVar.Covers s.collection.room :=
        fun hzero => hzero ▸ .zero
      obtain htimedOut | hfull | hcompleted | hstate | hnil := hreason
      · exact (htime rfl htimedOut).elim hzero fun hzero => .of_nil (hnone hzero) _
      · exact hzero (Nat.sub_eq_zero_of_le hfull)
      · exact .of_nil (hover (.inl hcompleted)) _
      · exact .of_nil (hover (over_of_refused hunpulsed hstate)) _
      · simp [hnil] at hitems
  · intro hmax
    change v.conditionVar.sleeping.length = 0
    rw [hsleeping]
    exact hcovered.unbounded hmax

theorem Served.covered_resumeTaking [LawfulCollection C] (hs : s.Served)
    {isNotified timedOut : Bool} {k i : ℕ} {consumer : Consumer C}
    {v : ConditionVariable (Consumer C)} {r : BlockingCollection C × Option (Event C)}
    (hresume : s.collection.notEmptyConditionVar.resume isNotified timedOut k = some (consumer, v))
    (hends : (s.collection.withNotEmpty v).TakingEnds consumer timedOut i r)
    (hcareful : s.careful (.resumeTaking isNotified timedOut k i) = true) : r.1.Covered := by
  obtain ⟨hunattached, hunpulsed, hquiet, hasks, -, hcovered⟩ := hs
  obtain ⟨hleave, -⟩ := ConditionVariable.resume_eq_some hresume
  obtain ⟨htakes, htime⟩ := of_decide_eq_true hcareful
  rw [hleave] at htakes
  have hmem := (ConditionVariable.waiting_resume hresume).symm.subset List.mem_cons_self
  have hcount : 0 < consumer.call.count := hasks consumer hmem
  have hsleeping := ConditionVariable.resume_sleeping hresume
  have hlast : v.conditionVar.Covers (size s.collection.container - 1) :=
    covers_left hcovered.consumers hleave
  refine hends.covered ⟨?_, hunattached.producers⟩ hcovered.producers hlast ?_
    hcovered.unbounded hcount (of_decide_eq_true htakes)
  · exact (ConditionVariable.resume_totalWorkers hresume).trans hunattached.consumers
  · intro hreason
    change v.conditionVar.Covers (size s.collection.container)
    cases isNotified with
    | false => exact hcovered.consumers.leave_stray hleave
    | true =>
      have hzero : size s.collection.container = 0 →
          v.conditionVar.Covers (size s.collection.container) := fun hzero => hzero ▸ .zero
      obtain htimedOut | hempty | hstate := hreason
      · refine (htime rfl htimedOut).elim hzero fun hzero => .of_nil ?_ _
        exact hsleeping.trans (List.length_eq_zero_iff.mp hzero)
      · exact hzero hempty
      · have hover : s.collection.Over := over_of_refused hunpulsed hstate
        exact .of_nil (hsleeping.trans (hquiet hover).consumers) _

theorem Moves.covered [LawfulCollection C] (h : s.Moves a s') (hcareful : s.careful a = true)
    (hs : s.Served) : s'.collection.Covered := by
  have hunattached := hs.unattached
  have hcovered := hs.covered
  cases h with
  | @add producer i r hidle hends =>
    obtain ⟨-, hone⟩ := of_decide_eq_true hcareful
    exact hends.covered hunattached hcovered.consumers (hcovered.producers.mono (Nat.sub_le _ _))
      (fun _ => hcovered.producers) hcovered.unbounded (of_decide_eq_true hone)
  | @take consumer i r hidle hcount hends =>
    exact hends.covered hunattached hcovered.producers (hcovered.consumers.mono (Nat.sub_le _ _))
      (fun _ => hcovered.consumers) hcovered.unbounded hcount (of_decide_eq_true hcareful)
  | takeNothing => exact hcovered
  | resumeAdding hresume hends => exact hs.covered_resumeAdding hresume hends hcareful
  | resumeTaking hresume hends => exact hs.covered_resumeTaking hresume hends hcareful
  | wakeProducer hwake =>
    refine ⟨hcovered.consumers, hcovered.producers.wake hwake, fun hmax => ?_⟩
    obtain ⟨w, hperm, -⟩ := WaitSet.wake_eq_some hwake
    have hlength := hperm.length_eq
    rw [← sleepingProducers, hcovered.unbounded hmax] at hlength
    cases hlength
  | wakeConsumer hwake =>
    exact ⟨hcovered.consumers.wake hwake, hcovered.producers, hcovered.unbounded⟩
  | completeAdding =>
    simp only [State.withCollection, BlockingCollection.completeAdding]
    split_ifs
    · exact hcovered
    · exact covered_broadcast
  | deactivate =>
    simp only [State.withCollection, BlockingCollection.deactivate]
    split_ifs
    · exact hcovered
    · exact covered_broadcast
    · exact covered_broadcast
  | activate => exact covered_of_same hcovered rfl rfl rfl rfl
  | flush =>
    have hempty : s.collection.sleepingProducers = 0 := of_decide_eq_true hcareful
    refine ⟨?_, .of_nil (List.length_eq_zero_iff.mp hempty) _, hcovered.unbounded⟩
    rw [size_flush]
    exact .zero
  | attachProducer => cases hcareful
  | attachConsumer => cases hcareful
  | detachProducer =>
    exact covered_of_same hcovered rfl
      (ConditionVariable.detach_unattached hunattached.producers _ _) rfl rfl
  | detachConsumer =>
    exact covered_of_same hcovered (ConditionVariable.detach_unattached hunattached.consumers _ _)
      rfl rfl rfl

theorem served_of_careful [LawfulCollection C] {capacity : ℕ} {s : State C}
    (hs : (threads C capacity).ReachableVia (fun s a => s.careful a = true) s) : s.Served := by
  refine moves_invariant (I := Served) ?_ ?_ hs
  · exact ⟨⟨rfl, rfl⟩, nofun, fun _ => ⟨rfl, rfl⟩, nofun, nofun,
      ⟨.inl rfl, .inl rfl, fun _ => rfl⟩⟩
  · intro s a s' hcareful _ hs hm
    refine ⟨hm.unattached hcareful hs.unattached, hm.unpulsed hcareful hs.unpulsed,
      hm.quiet hs.quiet, ?_, ?_, hm.covered hcareful hs⟩
    · exact hm.consumers.shift.forall_mem hs.asks fun _ htakes => htakes.2.2
    · refine hm.producers.shift.forall_mem hs.offers ?_
      rintro producer ⟨⟨i, rfl⟩, -⟩
      exact (of_decide_eq_true hcareful).1

variable [LawfulCollection C]

/-- While consumers sleep each item has a consumer that was notified for it, and while producers
sleep each free place has a producer. -/
theorem wakeups_of_careful {capacity : ℕ} {s : State C}
    (hs : (threads C capacity).ReachableVia (fun s a => s.careful a = true) s) :
    (s.collection.notEmptyConditionVar.conditionVar.sleeping ≠ [] →
      size s.collection.container ≤
        s.collection.notEmptyConditionVar.conditionVar.notified.length) ∧
    (s.collection.notFullConditionVar.conditionVar.sleeping ≠ [] →
      capacity ≠ sizeMax ∧ capacity - size s.collection.container ≤
        s.collection.notFullConditionVar.conditionVar.notified.length) := by
  obtain ⟨hconsumers, hproducers, hunbounded⟩ := (served_of_careful hs).covered
  rw [room, (linear_of_reachableVia hs).capacity_eq] at hproducers
  rw [(linear_of_reachableVia hs).capacity_eq] at hunbounded
  refine ⟨hconsumers.resolve_left, fun hsleeping => ⟨fun hmax => ?_, ?_⟩⟩
  · exact hsleeping (List.length_eq_zero_iff.mp (hunbounded hmax))
  · exact hproducers.resolve_left hsleeping

omit [LawfulCollection C] in
private theorem activated_of_sleeping {s : State C} (hs : s.Served)
    (hsleeping : ¬ s.collection.NobodySleeps) :
    s.collection.isAddingCompleted = false ∧ s.collection.state = .activated := by
  have hopen : ¬ s.collection.Over := fun hover => hsleeping (hs.quiet hover)
  refine ⟨by simpa using fun h => hopen (.inl h), ?_⟩
  by_contra hstate
  exact hopen (over_of_refused hs.unpulsed hstate)

private theorem resume_notified {W : Type} (v : ConditionVariable W) {k : ℕ}
    (hk : k < v.conditionVar.notified.length) : ∃ w v', v.resume true false k = some (w, v') ∧
      w ∈ v.conditionVar.waiting := by
  have hleave : v.conditionVar.leave true k = some (v.conditionVar.notified[k],
      { v.conditionVar with notified := v.conditionVar.notified.eraseIdx k }) := by
    simp [WaitSet.leave, hk]
  refine ⟨_, _, by rw [ConditionVariable.resume, hleave]; rfl, ?_⟩
  simp [WaitSet.waiting]

/-- A notified thread finds what it was notified for: there is no deadlock. -/
theorem progress_of_careful {capacity : ℕ} {s : State C}
    (hs : (threads C capacity).ReachableVia (fun s a => s.careful a = true) s) :
    (s.collection.notEmptyConditionVar.conditionVar.sleeping ≠ [] →
      0 < size s.collection.container →
      s.collection.notEmptyConditionVar.conditionVar.notified ≠ [] ∧
      ∀ k < s.collection.notEmptyConditionVar.conditionVar.notified.length, ∀ i,
        ∃ s' consumer items, s.next (.resumeTaking true false k i) = some s' ∧
          s'.history = s.history ++ [.took consumer .ok items] ∧ items ≠ []) ∧
    (s.collection.notFullConditionVar.conditionVar.sleeping ≠ [] →
      size s.collection.container < capacity →
      s.collection.notFullConditionVar.conditionVar.notified ≠ [] ∧
      ∀ k < s.collection.notFullConditionVar.conditionVar.notified.length, ∀ i,
        ∃ s' producer added, s.next (.resumeAdding true false k i) = some s' ∧
          s'.history = s.history ++ [.added producer .ok added] ∧ 0 < added) := by
  have hserved := served_of_careful hs
  obtain ⟨hbounded, hcapacity, -, -⟩ := linear_of_reachableVia hs
  obtain ⟨hconsumers, hproducers⟩ := wakeups_of_careful hs
  constructor
  · intro hsleeping hsize
    obtain ⟨-, hstate⟩ := activated_of_sleeping hserved fun h => hsleeping h.consumers
    refine ⟨List.length_pos_iff.mp (hsize.trans_le (hconsumers hsleeping)), fun k hk i => ?_⟩
    obtain ⟨consumer, v, hresume, hmem⟩ := resume_notified _ hk
    have hends := finishTaking_ends (c := s.collection.withNotEmpty v) consumer i
      (mayTake_woken false consumer.relTime)
    obtain ⟨items, hevent, hitems⟩ := hends.succeeds hsize hstate (hserved.asks consumer hmem)
    refine ⟨s.finish _, consumer, items, ?_, by rw [finish, hevent]; rfl, hitems⟩
    rw [State.next, hresume]
    rfl
  · intro hsleeping hsize
    obtain ⟨hopen, hstate⟩ := activated_of_sleeping hserved fun h => hsleeping h.producers
    have hroom := (Nat.sub_pos_of_lt hsize).trans_le (hproducers hsleeping).2
    refine ⟨List.length_pos_iff.mp hroom, fun k hk i => ?_⟩
    obtain ⟨producer, v, hresume, hmem⟩ := resume_notified _ hk
    have hbounded' : (s.collection.withNotFull v).Bounded := ⟨hbounded.capacity, hbounded.size_le⟩
    have hends := hbounded'.finishAdding producer i (mayAdd_woken false producer.relTime)
    obtain ⟨added, hevent, hadded⟩ := hends.succeeds (hcapacity.symm ▸ hsize) hopen hstate
      (hserved.offers producer hmem)
    refine ⟨s.finish _, producer, added, ?_, by rw [finish, hevent]; rfl, hadded⟩
    rw [State.next, hresume]
    rfl

private def twoConsumers : List (Action (QueueContainer ℕ)) :=
  [.take ⟨1, -1, .item⟩ 0, .take ⟨2, -1, .item⟩ 0, .wakeConsumer 0,
    .resumeTaking false false 0 0, .add ⟨3, 0, .emplace 5⟩ 0]

theorem wakeups_of_careful_twoConsumers : ∃ s,
    (threads (QueueContainer ℕ) 4).ReachableVia (fun s a => s.careful a = true) s ∧
    s.collection.notEmptyConditionVar.conditionVar.sleeping.length = 1 ∧
    size s.collection.container ≤
      s.collection.notEmptyConditionVar.conditionVar.notified.length := by
  obtain ⟨s, hs, htest⟩ := TransitionSystem.exists_reachableVia_of_runVia
    (threads (QueueContainer ℕ) 4) (fun s a => s.careful a = true) twoConsumers
    (fun s => s.collection.notEmptyConditionVar.conditionVar.sleeping.length = 1) (by decide)
  have hlength := of_decide_eq_true htest
  exact ⟨s, hs, hlength, (wakeups_of_careful hs).1 (by rintro h; simp [h] at hlength)⟩

theorem progress_of_careful_twoConsumers : ∃ s,
    (threads (QueueContainer ℕ) 4).ReachableVia (fun s a => s.careful a = true) s ∧
    s.collection.notEmptyConditionVar.conditionVar.sleeping.length = 1 ∧
    0 < size s.collection.container ∧ ∃ s' consumer items,
    s.next (.resumeTaking true false 0 0) = some s' ∧
    s'.history = s.history ++ [.took consumer .ok items] ∧ items ≠ [] := by
  obtain ⟨s, hs, htest⟩ := TransitionSystem.exists_reachableVia_of_runVia
    (threads (QueueContainer ℕ) 4) (fun s a => s.careful a = true) twoConsumers
    (fun s => s.collection.notEmptyConditionVar.conditionVar.sleeping.length = 1 ∧
      0 < size s.collection.container) (by decide)
  obtain ⟨hlength, hsize⟩ := of_decide_eq_true htest
  obtain ⟨hnotified, hresume⟩ :=
    (progress_of_careful hs).1 (by rintro h; simp [h] at hlength) hsize
  exact ⟨s, hs, hlength, hsize, hresume 0 (List.length_pos_iff.mpr hnotified) 0⟩

/-- One signal for two items is not enough for two consumers that sleep. -/
example : ((threads (QueueContainer ℕ) 4).run (threads (QueueContainer ℕ) 4).init
    [.take ⟨1, -1, .item⟩ 0, .take ⟨2, -1, .item⟩ 0, .add ⟨3, 0, .bulk [5, 6]⟩ 0,
      .resumeTaking true false 0 0]).any (fun s =>
    s.collection.notEmptyConditionVar.conditionVar.sleeping.length = 1 ∧
    s.collection.notEmptyConditionVar.conditionVar.notified.length = 0 ∧
    size s.collection.container = 1) = true := by decide

end State
end Mbtest.CodeMachina
