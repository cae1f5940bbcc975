import Mbtest.CodeMachina.Collection
import Mbtest.Lib.TransitionSystem

/-! Any number of threads that use one collection. A step is what a thread does from the time
at which it has the lock to the time at which it releases it. -/
namespace Mbtest.CodeMachina
open Lib
open ThreadDeleter (BlockingCollectionState BlockingCollectionStatus)

/-- `history` holds the calls that have returned, in the order of their last sections. -/
structure State (C : Type) {T : outParam Type} [ProducerConsumerCollection C T] where
  collection : BlockingCollection C
  history : List (Event C)

/-- `i` is the choice of the thread to notify, `k` the place of a thread among those that sleep
(`wake`) or that wait for the lock (`resume`). -/
inductive Action (C : Type) {T : outParam Type} [ProducerConsumerCollection C T]
  | add (producer : Producer T) (i : ℕ)
  | take (consumer : Consumer C) (i : ℕ)
  | resumeAdding (isNotified timedOut : Bool) (k i : ℕ)
  | resumeTaking (isNotified timedOut : Bool) (k i : ℕ)
  | wakeProducer (k : ℕ)
  | wakeConsumer (k : ℕ)
  | completeAdding
  | deactivate (pulse : Bool)
  | activate
  | flush
  | attachProducer (thread : ℕ)
  | detachProducer (thread i : ℕ)
  | attachConsumer (thread : ℕ)
  | detachConsumer (thread i : ℕ)

namespace BlockingCollection
variable {C T : Type} [ProducerConsumerCollection C T] (c : BlockingCollection C)

/-- A thread that waits calls nothing else. -/
def waits (thread : ℕ) : Bool :=
  c.notEmptyConditionVar.conditionVar.waiting.any (·.thread = thread) ||
    c.notFullConditionVar.conditionVar.waiting.any (·.thread = thread)

def withNotFull (v : ConditionVariable (Producer T)) : BlockingCollection C :=
  { c with notFullConditionVar := v }

def withNotEmpty (v : ConditionVariable (Consumer C)) : BlockingCollection C :=
  { c with notEmptyConditionVar := v }

/-- `try_take_bulk` and `try_take_prio_bulk` return for a count of zero before they lock. -/
def startTaking (consumer : Consumer C) (i : ℕ) : BlockingCollection C × Option (Event C) :=
  if consumer.call.count = 0 then (c, some (.took consumer .ok []))
  else c.finishTaking consumer i (c.waitNotEmptyCondition consumer.relTime)

end BlockingCollection

namespace State
variable {C T : Type} [ProducerConsumerCollection C T] (s : State C)

def withCollection (c : BlockingCollection C) : State C := { s with collection := c }

def finish (r : BlockingCollection C × Option (Event C)) : State C :=
  ⟨r.1, s.history ++ r.2.toList⟩

def resumeAdding (timedOut : Bool) (i : ℕ) :
    Producer T × ConditionVariable (Producer T) → Option (State C)
  | (producer, v) =>
    let c := s.collection.withNotFull v
    if timedOut ∧ producer.relTime < 0 then none
    else some (s.finish
      (c.finishAdding producer i (c.wokenNotFullCondition timedOut producer.relTime)))

def resumeTaking (timedOut : Bool) (i : ℕ) :
    Consumer C × ConditionVariable (Consumer C) → Option (State C)
  | (consumer, v) =>
    let c := s.collection.withNotEmpty v
    if timedOut ∧ consumer.relTime < 0 then none
    else some (s.finish
      (c.finishTaking consumer i (c.wokenNotEmptyCondition timedOut consumer.relTime)))

def next : Action C → Option (State C)
  | .add producer i =>
    if s.collection.waits producer.thread then none
    else some (s.finish (s.collection.finishAdding producer i
      (s.collection.waitNotFullCondition producer.relTime)))
  | .take consumer i =>
    if s.collection.waits consumer.thread then none
    else some (s.finish (s.collection.startTaking consumer i))
  | .resumeAdding isNotified timedOut k i =>
    (s.collection.notFullConditionVar.resume isNotified timedOut k).bind
      (s.resumeAdding timedOut i)
  | .resumeTaking isNotified timedOut k i =>
    (s.collection.notEmptyConditionVar.resume isNotified timedOut k).bind
      (s.resumeTaking timedOut i)
  | .wakeProducer k =>
    (s.collection.notFullConditionVar.conditionVar.wake k).map fun waitSet =>
      s.withCollection (s.collection.withNotFull
        (s.collection.notFullConditionVar.withWaitSet waitSet))
  | .wakeConsumer k =>
    (s.collection.notEmptyConditionVar.conditionVar.wake k).map fun waitSet =>
      s.withCollection (s.collection.withNotEmpty
        (s.collection.notEmptyConditionVar.withWaitSet waitSet))
  | .completeAdding => some (s.withCollection s.collection.completeAdding)
  | .deactivate pulse => some (s.withCollection (s.collection.deactivate pulse))
  | .activate => some (s.withCollection s.collection.activate)
  | .flush => some (s.finish s.collection.flush)
  | .attachProducer thread =>
    if s.collection.waits thread then none
    else some (s.withCollection (s.collection.withNotFull
      (s.collection.notFullConditionVar.attach thread)))
  | .detachProducer thread i =>
    if s.collection.waits thread then none
    else some (s.withCollection (s.collection.withNotFull
      (s.collection.notFullConditionVar.detach thread i)))
  | .attachConsumer thread =>
    if s.collection.waits thread then none
    else some (s.withCollection (s.collection.withNotEmpty
      (s.collection.notEmptyConditionVar.attach thread)))
  | .detachConsumer thread i =>
    if s.collection.waits thread then none
    else some (s.withCollection (s.collection.withNotEmpty
      (s.collection.notEmptyConditionVar.detach thread i)))

end State

section System
variable (C : Type) {T : Type} [ProducerConsumerCollection C T]

def threads (capacity : ℕ) : TransitionSystem (State C) (Action C) where
  init := ⟨.new capacity, []⟩
  next := State.next

end System

namespace State
variable {C T : Type} [ProducerConsumerCollection C T] [LawfulCollection C]

/-- What a step does, with the conditions under which it is taken. -/
inductive Moves (s : State C) : Action C → State C → Prop
  | add {producer : Producer T} {i : ℕ} {r : BlockingCollection C × Option (Event C)} :
    s.collection.waits producer.thread = false → s.collection.AddingEnds producer false i r →
    Moves s (.add producer i) (s.finish r)
  | take {consumer : Consumer C} {i : ℕ} {r : BlockingCollection C × Option (Event C)} :
    s.collection.waits consumer.thread = false → 0 < consumer.call.count →
    s.collection.TakingEnds consumer false i r → Moves s (.take consumer i) (s.finish r)
  | takeNothing {consumer : Consumer C} {i : ℕ} :
    Moves s (.take consumer i) (s.finish (s.collection, some (.took consumer .ok [])))
  | resumeAdding {isNotified timedOut : Bool} {k i : ℕ} {producer : Producer T}
    {v : ConditionVariable (Producer T)} {r : BlockingCollection C × Option (Event C)} :
    s.collection.notFullConditionVar.resume isNotified timedOut k = some (producer, v) →
    (s.collection.withNotFull v).AddingEnds producer timedOut i r →
    Moves s (.resumeAdding isNotified timedOut k i) (s.finish r)
  | resumeTaking {isNotified timedOut : Bool} {k i : ℕ} {consumer : Consumer C}
    {v : ConditionVariable (Consumer C)} {r : BlockingCollection C × Option (Event C)} :
    s.collection.notEmptyConditionVar.resume isNotified timedOut k = some (consumer, v) →
    (s.collection.withNotEmpty v).TakingEnds consumer timedOut i r →
    Moves s (.resumeTaking isNotified timedOut k i) (s.finish r)
  | wakeProducer {k : ℕ} {waitSet : WaitSet (Producer T)} :
    s.collection.notFullConditionVar.conditionVar.wake k = some waitSet →
    Moves s (.wakeProducer k) (s.withCollection (s.collection.withNotFull
      (s.collection.notFullConditionVar.withWaitSet waitSet)))
  | wakeConsumer {k : ℕ} {waitSet : WaitSet (Consumer C)} :
    s.collection.notEmptyConditionVar.conditionVar.wake k = some waitSet →
    Moves s (.wakeConsumer k) (s.withCollection (s.collection.withNotEmpty
      (s.collection.notEmptyConditionVar.withWaitSet waitSet)))
  | completeAdding : Moves s .completeAdding (s.withCollection s.collection.completeAdding)
  | deactivate {pulse : Bool} :
    Moves s (.deactivate pulse) (s.withCollection (s.collection.deactivate pulse))
  | activate : Moves s .activate (s.withCollection s.collection.activate)
  | flush : Moves s .flush (s.finish s.collection.flush)
  | attachProducer {thread : ℕ} : s.collection.waits thread = false →
    Moves s (.attachProducer thread) (s.withCollection (s.collection.withNotFull
      (s.collection.notFullConditionVar.attach thread)))
  | detachProducer {thread i : ℕ} : s.collection.waits thread = false →
    Moves s (.detachProducer thread i) (s.withCollection (s.collection.withNotFull
      (s.collection.notFullConditionVar.detach thread i)))
  | attachConsumer {thread : ℕ} : s.collection.waits thread = false →
    Moves s (.attachConsumer thread) (s.withCollection (s.collection.withNotEmpty
      (s.collection.notEmptyConditionVar.attach thread)))
  | detachConsumer {thread i : ℕ} : s.collection.waits thread = false →
    Moves s (.detachConsumer thread i) (s.withCollection (s.collection.withNotEmpty
      (s.collection.notEmptyConditionVar.detach thread i)))

theorem next_moves {s s' : State C} {a : Action C} (hbounded : s.collection.Bounded)
    (h : s.next a = some s') : s.Moves a s' := by
  have hrefused : ∀ {p : Prop} [Decidable p] {t : State C},
      (if p then none else some t) = some s' → ¬ p ∧ t = s' := fun {p _ t} h => by
    split_ifs at h with hp
    exact ⟨hp, Option.some.inj h⟩
  cases a with
  | add producer i =>
    obtain ⟨hidle, rfl⟩ := hrefused h
    exact .add (by simpa using hidle) (hbounded.finishAdding _ _ (BlockingCollection.mayAdd_wait _))
  | take consumer i =>
    obtain ⟨hidle, rfl⟩ := hrefused h
    unfold BlockingCollection.startTaking
    split_ifs with hcount
    · exact .takeNothing
    · exact .take (by simpa using hidle) (Nat.pos_of_ne_zero hcount)
        (BlockingCollection.finishTaking_ends _ _ (BlockingCollection.mayTake_wait _))
  | resumeAdding isNotified timedOut k i =>
    obtain ⟨⟨producer, v⟩, hresume, hnext⟩ := Option.bind_eq_some_iff.mp h
    obtain ⟨-, rfl⟩ := hrefused hnext
    have hbounded' : (s.collection.withNotFull v).Bounded := ⟨hbounded.capacity, hbounded.size_le⟩
    exact .resumeAdding hresume
      (hbounded'.finishAdding _ _ (BlockingCollection.mayAdd_woken _ _))
  | resumeTaking isNotified timedOut k i =>
    obtain ⟨⟨consumer, v⟩, hresume, hnext⟩ := Option.bind_eq_some_iff.mp h
    obtain ⟨-, rfl⟩ := hrefused hnext
    exact .resumeTaking hresume
      (BlockingCollection.finishTaking_ends _ _ (BlockingCollection.mayTake_woken _ _))
  | wakeProducer k =>
    obtain ⟨waitSet, hwake, rfl⟩ := Option.map_eq_some_iff.mp h
    exact .wakeProducer hwake
  | wakeConsumer k =>
    obtain ⟨waitSet, hwake, rfl⟩ := Option.map_eq_some_iff.mp h
    exact .wakeConsumer hwake
  | completeAdding => cases h; exact .completeAdding
  | deactivate pulse => cases h; exact .deactivate
  | activate => cases h; exact .activate
  | flush => cases h; exact .flush
  | attachProducer thread =>
    obtain ⟨hidle, rfl⟩ := hrefused h
    exact .attachProducer (by simpa using hidle)
  | detachProducer thread i =>
    obtain ⟨hidle, rfl⟩ := hrefused h
    exact .detachProducer (by simpa using hidle)
  | attachConsumer thread =>
    obtain ⟨hidle, rfl⟩ := hrefused h
    exact .attachConsumer (by simpa using hidle)
  | detachConsumer thread i =>
    obtain ⟨hidle, rfl⟩ := hrefused h
    exact .detachConsumer (by simpa using hidle)

end State
end Mbtest.CodeMachina
