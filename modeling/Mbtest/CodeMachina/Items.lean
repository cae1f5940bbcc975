import Mbtest.CodeMachina.Threads

/-! The items. In the order of their last sections the calls are one run of the operations of
the container, whatever the threads do. -/
namespace Mbtest.CodeMachina
open Lib
open ThreadDeleter (BlockingCollectionState BlockingCollectionStatus)

variable {C T : Type} [ProducerConsumerCollection C T]

namespace Event

def ops : Event C → List (Op T)
  | .added producer _ n => (producer.call.items.take n).map producer.call.op
  | .took consumer _ items => items.map consumer.call.op
  | .flushed items => items.map .take

def status : Event C → Option BlockingCollectionStatus
  | .added _ status _ => some status
  | .took _ status _ => some status
  | .flushed _ => none

end Event

namespace State

def ops (s : State C) : List (Op T) := s.history.flatMap Event.ops

theorem ops_finish (s : State C) (r : BlockingCollection C × Option (Event C)) :
    (s.finish r).ops = s.ops ++ r.2.toList.flatMap Event.ops := List.flatMap_append

end State

section Sections
open BlockingCollection

/-- What a section does with the container is what the event that it adds says of it. -/
structure Transfers (c c' : BlockingCollection C) (events : List (Event C)) : Prop where
  capacity : c'.boundedCapacity = c.boundedCapacity
  runs : Runs c.container (events.flatMap Event.ops) c'.container
  internalError : ∀ e ∈ events, e.status = some .internalError → c.boundedCapacity = sizeMax

namespace Transfers

theorem nil {c c' : BlockingCollection C} (hcapacity : c'.boundedCapacity = c.boundedCapacity)
    (hcontainer : c'.container = c.container) : Transfers c c' [] :=
  ⟨hcapacity, hcontainer ▸ .nil _, by simp⟩

theorem event {c c' : BlockingCollection C} {e : Event C}
    (hcapacity : c'.boundedCapacity = c.boundedCapacity)
    (hruns : Runs c.container e.ops c'.container)
    (herror : e.status = some .internalError → c.boundedCapacity = sizeMax) :
    Transfers c c' [e] :=
  ⟨hcapacity, by simpa using hruns, by simpa using herror⟩

theorem of_adding {c : BlockingCollection C} {producer : Producer T} {timedOut : Bool} {i : ℕ}
    {r : BlockingCollection C × Option (Event C)} (h : AddingEnds c producer timedOut i r) :
    Transfers c r.1 r.2.toList := by
  cases h with
  | waits => exact .nil rfl rfl
  | adds _ _ _ _ _ hruns => exact .event rfl hruns (by simp [Event.status])
  | fails _ herror =>
    exact .event rfl (.nil c.container) fun h => (herror (Option.some.inj h)).1

theorem of_taking {c : BlockingCollection C} {consumer : Consumer C} {timedOut : Bool} {i : ℕ}
    {r : BlockingCollection C × Option (Event C)} (h : TakingEnds c consumer timedOut i r) :
    Transfers c r.1 r.2.toList := by
  cases h with
  | waits => exact .nil rfl rfl
  | takes _ _ _ hruns =>
    simp only []
    split_ifs
    · exact .event rfl hruns (by simp [Event.status])
    · exact .event rfl hruns (by simp [Event.status])
  | fails _ herror =>
    exact .event rfl (.nil c.container) fun h => absurd (Option.some.inj h) herror

variable [LawfulCollection C]

theorem bounded {c c' : BlockingCollection C} {events : List (Event C)}
    (h : Transfers c c' events) (hc : c.Bounded) : c'.Bounded := by
  have hcapacity : LawfulCollection.boundedCapacity c'.container = c'.boundedCapacity := by
    rw [h.runs.items.2, hc.capacity, h.capacity]
  exact ⟨hcapacity, hcapacity ▸ h.runs.size_le (hc.capacity ▸ hc.size_le)⟩

end Transfers

namespace State

theorem Moves.transfers {s s' : State C} {a : Action C} (h : s.Moves a s') :
    ∃ events, s'.history = s.history ++ events ∧ Transfers s.collection s'.collection events := by
  have hsame : ∀ {c : BlockingCollection C}, c.boundedCapacity = s.collection.boundedCapacity →
      c.container = s.collection.container → ∃ events,
        (s.withCollection c).history = s.history ++ events ∧
          Transfers s.collection (s.withCollection c).collection events :=
    fun hcapacity hcontainer => ⟨[], (List.append_nil _).symm, .nil hcapacity hcontainer⟩
  cases h with
  | add _ hends => exact ⟨_, rfl, .of_adding hends⟩
  | take _ _ hends => exact ⟨_, rfl, .of_taking hends⟩
  | takeNothing =>
    exact ⟨_, rfl, .event rfl (.nil s.collection.container) (by simp [Event.status])⟩
  | resumeAdding _ hends =>
    obtain ⟨hcapacity, hruns, herror⟩ := Transfers.of_adding hends
    exact ⟨_, rfl, hcapacity, hruns, herror⟩
  | resumeTaking _ hends =>
    obtain ⟨hcapacity, hruns, herror⟩ := Transfers.of_taking hends
    exact ⟨_, rfl, hcapacity, hruns, herror⟩
  | wakeProducer => exact hsame rfl rfl
  | wakeConsumer => exact hsame rfl rfl
  | completeAdding =>
    unfold BlockingCollection.completeAdding
    split_ifs <;> exact hsame rfl rfl
  | deactivate =>
    unfold BlockingCollection.deactivate
    split_ifs <;> exact hsame rfl rfl
  | activate => exact hsame rfl rfl
  | flush =>
    exact ⟨_, rfl, .event rfl (Takes.take.runs_takeBulk _ _) (by simp [Event.status])⟩
  | attachProducer => exact hsame rfl rfl
  | detachProducer => exact hsame rfl rfl
  | attachConsumer => exact hsame rfl rfl
  | detachConsumer => exact hsame rfl rfl

variable [LawfulCollection C]

/-- The container of a state and the history of its run. -/
structure Linear (capacity : ℕ) (s : State C) : Prop where
  bounded : s.collection.Bounded
  capacity_eq : s.collection.boundedCapacity = capacity
  runs : Runs (ProducerConsumerCollection.new capacity) s.ops s.collection.container
  internalError : ∀ e ∈ s.history, e.status = some .internalError → capacity = sizeMax

theorem Linear.next {capacity : ℕ} {s s' : State C} {a : Action C} (hs : Linear capacity s)
    (hn : s.next a = some s') : Linear capacity s' := by
  obtain ⟨events, hhistory, htransfers⟩ := (next_moves hs.bounded hn).transfers
  refine ⟨htransfers.bounded hs.bounded, htransfers.capacity.trans hs.capacity_eq, ?_, ?_⟩
  · rw [State.ops, hhistory, List.flatMap_append]
    exact hs.runs.append htransfers.runs
  · intro e he herror
    rw [hhistory, List.mem_append] at he
    obtain he | he := he
    · exact hs.internalError e he herror
    · exact hs.capacity_eq ▸ htransfers.internalError e he herror

theorem linear_init (capacity : ℕ) : Linear capacity (threads C capacity).init where
  bounded := ⟨LawfulCollection.boundedCapacity_new capacity, by
    change size (ProducerConsumerCollection.new capacity : C) ≤ capacity
    rw [← LawfulCollection.card_items, LawfulCollection.items_new]
    exact Nat.zero_le _⟩
  capacity_eq := rfl
  runs := .nil _
  internalError := by simp [threads]

theorem linear_of_reachableVia {capacity : ℕ} {guard : State C → Action C → Prop} {s : State C}
    (hs : (threads C capacity).ReachableVia guard s) : Linear capacity s :=
  hs.invariant (linear_init capacity) fun _ _ _ _ => Linear.next

/-- The invariant rule, with what a step does. -/
theorem moves_invariant {capacity : ℕ} {guard : State C → Action C → Prop} {I : State C → Prop}
    (hinit : I (threads C capacity).init)
    (hstep : ∀ s a s', guard s a → Linear capacity s → I s → s.Moves a s' → I s') {s : State C}
    (hs : (threads C capacity).ReachableVia guard s) : I s := by
  refine (hs.invariant (I := fun s => Linear capacity s ∧ I s) ⟨linear_init capacity, hinit⟩ ?_).2
  intro s a s' hguard ⟨hlinear, hI⟩ hn
  exact ⟨hlinear.next hn, hstep s a s' hguard hlinear hI (next_moves hlinear.bounded hn)⟩

theorem Linear.run_invariant {capacity : ℕ} {I : State C → Prop} {s s' : State C}
    (hs : Linear capacity s) (hI : I s) (as : List (Action C))
    (hstep : ∀ s, ∀ a ∈ as, ∀ s', Linear capacity s → I s → s.Moves a s' → I s')
    (hr : (threads C capacity).run s as = some s') : Linear capacity s' ∧ I s' := by
  induction as generalizing s with
  | nil =>
    cases Option.some.inj hr
    exact ⟨hs, hI⟩
  | cons a as ih =>
    obtain ⟨t, hn, hrest⟩ := Option.bind_eq_some_iff.mp hr
    have hmove := next_moves hs.bounded hn
    exact ih (hs.next hn) (hstep s a List.mem_cons_self t hs hI hmove)
      (fun s b hb => hstep s b (List.mem_cons_of_mem a hb)) hrest

/-- Whatever the threads do, the calls that have returned are, in the order of their last
sections, a sequential run of the container from its construction to its present content, and
no operation of the container has failed unless the collection is unbounded. -/
theorem runs_of_reachable {capacity : ℕ} {s : State C} (hs : (threads C capacity).Reachable s) :
    Runs (ProducerConsumerCollection.new capacity) s.ops s.collection.container ∧
      (capacity ≠ sizeMax → ∀ e ∈ s.history, e.status ≠ some .internalError) := by
  have h := linear_of_reachableVia hs
  exact ⟨h.runs, fun hbounded e he herror => hbounded (h.internalError e he herror)⟩

/-- A producer that waits for room wakes up twice, the first time for nothing. -/
private def handOver : List (Action (QueueContainer ℕ)) :=
  [.add ⟨1, -1, .emplace 5⟩ 0, .add ⟨2, -1, .bulk [6, 7]⟩ 0, .wakeProducer 0,
    .resumeAdding false false 0 0, .take ⟨3, 0, .item⟩ 0, .resumeAdding true false 0 0]

theorem runs_of_reachable_handOver : ∃ s, (threads (QueueContainer ℕ) 1).Reachable s ∧
    Runs (⟨1, []⟩ : QueueContainer ℕ) [.emplace 5, .take 5, .add 6] s.collection.container ∧
    ∀ e ∈ s.history, e.status ≠ some .internalError := by
  obtain ⟨s, hs, htest⟩ := TransitionSystem.exists_reachable_of_run
    (threads (QueueContainer ℕ) 1) handOver (fun s => s.ops = [.emplace 5, .take 5, .add 6])
    (by decide)
  have h := runs_of_reachable hs
  rw [of_decide_eq_true htest] at h
  exact ⟨s, hs, h.1, h.2 (by decide)⟩

/-- No item is lost, duplicated or invented, and the capacity is kept. -/
theorem items_of_reachable {capacity : ℕ} {s : State C}
    (hs : (threads C capacity).Reachable s) :
    (Op.puts s.ops : Multiset T) =
        (Op.removals s.ops : Multiset T) + LawfulCollection.items s.collection.container ∧
      size s.collection.container ≤ capacity := by
  have h := linear_of_reachableVia hs
  have hitems := h.runs.items.1
  rw [LawfulCollection.items_new, Multiset.add_zero] at hitems
  exact ⟨hitems, h.capacity_eq ▸ h.bounded.size_le⟩

theorem items_of_reachable_handOver : ∃ s, (threads (QueueContainer ℕ) 1).Reachable s ∧
    ({5, 6} : Multiset ℕ) = {5} + LawfulCollection.items s.collection.container ∧
    size s.collection.container ≤ 1 := by
  obtain ⟨s, hs, htest⟩ := TransitionSystem.exists_reachable_of_run
    (threads (QueueContainer ℕ) 1) handOver
    (fun s => Op.puts s.ops = [5, 6] ∧ Op.removals s.ops = [5]) (by decide)
  obtain ⟨hputs, hremovals⟩ := of_decide_eq_true htest
  have h := items_of_reachable hs
  rw [hputs, hremovals] at h
  exact ⟨s, hs, h⟩

end State
end Sections

end Mbtest.CodeMachina
