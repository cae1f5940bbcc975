import Mbtest.CodeMachina.Waiting

/-! The workers that are attached to a condition variable: what its counters say of them, and
that one of them is awake while there is something to do. -/
namespace Mbtest.CodeMachina
open Lib

namespace ConditionVariable
variable {W : Type} {thread : W → ℕ}

/-- The threads that wait are attached, each waits once, and the workers counted as active are
not more than those that do not sleep. -/
structure Crewed (thread : W → ℕ) (v : ConditionVariable W) : Prop where
  counts : v.Counts
  attached : ∀ w ∈ v.conditionVar.waiting, thread w ∈ v.container
  nodup : (v.conditionVar.waiting.map thread).Nodup
  balance : v.activeWorkers + v.conditionVar.sleeping.length ≤ v.totalWorkers

def Awake (v : ConditionVariable W) : Prop :=
  v.totalWorkers = 0 ∨ v.conditionVar.sleeping.length < v.totalWorkers

variable {v v' : ConditionVariable W}

theorem Awake.of_nil (h : v.conditionVar.sleeping = []) : v.Awake := by
  unfold Awake
  rw [h, List.length_nil]
  exact Nat.eq_zero_or_pos _

theorem Awake.of_active (hbalance : v.activeWorkers + v.conditionVar.sleeping.length ≤ v.totalWorkers)
    (hactive : v.activeWorkers ≠ 0) : v.Awake := .inr (by omega)

private theorem increment_notifyOne
    (hbalance : v.activeWorkers + v.conditionVar.sleeping.length ≤ v.totalWorkers) (i : ℕ) :
    (v.incrementActive.notifyOne i).activeWorkers +
        (v.incrementActive.notifyOne i).conditionVar.sleeping.length ≤ v.totalWorkers ∧
      (v.incrementActive.notifyOne i).Awake := by
  change min (v.activeWorkers + 1) v.totalWorkers + (v.conditionVar.notifyOne i).sleeping.length ≤
    v.totalWorkers ∧
    (v.totalWorkers = 0 ∨ (v.conditionVar.notifyOne i).sleeping.length < v.totalWorkers)
  rw [WaitSet.length_sleeping_notifyOne]
  omega

namespace Crewed

theorem length_waiting_lt (h : v.Crewed thread) {t : ℕ} (ht : t ∈ v.container)
    (hidle : t ∉ v.conditionVar.waiting.map thread) :
    v.conditionVar.waiting.length < v.totalWorkers := by
  have hnodup : (t :: v.conditionVar.waiting.map thread).Nodup := List.nodup_cons.mpr ⟨hidle, h.nodup⟩
  have hsubset : (t :: v.conditionVar.waiting.map thread).toFinset ⊆ v.container := by
    intro u hu
    obtain rfl | hwaits := List.mem_cons.mp (List.mem_toFinset.mp hu)
    · exact ht
    · obtain ⟨w, hw, rfl⟩ := List.mem_map.mp hwaits
      exact h.attached w hw
  have hcard := Finset.card_le_card hsubset
  rw [List.toFinset_card_of_nodup hnodup, List.length_cons, List.length_map, ← h.counts.total] at hcard
  exact hcard

theorem setSize (h : v.Crewed thread) (count : ℕ) : (v.setSize count).Crewed thread :=
  ⟨h.counts.setSize count, h.attached, h.nodup, h.balance⟩

private theorem of_perm (h : v.Crewed thread) (hcounts : v'.Counts)
    (hperm : v'.conditionVar.waiting.Perm v.conditionVar.waiting)
    (hcontainer : ∀ w ∈ v.conditionVar.waiting, thread w ∈ v'.container)
    (hbalance : v'.activeWorkers + v'.conditionVar.sleeping.length ≤ v'.totalWorkers) :
    v'.Crewed thread :=
  ⟨hcounts, fun w hw => hcontainer w (hperm.mem_iff.mp hw),
    (hperm.map thread).nodup_iff.mpr h.nodup, hbalance⟩

theorem signal (h : v.Crewed thread) {strategy : SignalStrategy}
    (hstrategy : ∀ total itemCount capacity, strategy 0 total itemCount capacity = true) (i : ℕ) :
    (v.signal strategy i).Crewed thread ∧ (v.signal strategy i).Awake := by
  have hcounts := h.counts.signal strategy i
  have hperm := v.waiting_signal strategy i
  obtain ⟨hbalance, hawake⟩ := increment_notifyOne h.balance i
  unfold ConditionVariable.signal at *
  split_ifs at * with htotal hsignal
  · refine ⟨h.of_perm hcounts hperm h.attached ?_, .inl htotal⟩
    have hbefore := h.balance
    change v.activeWorkers + (v.conditionVar.notifyOne i).sleeping.length ≤ v.totalWorkers
    rw [WaitSet.length_sleeping_notifyOne]
    omega
  · exact ⟨h.of_perm hcounts hperm h.attached hbalance, hawake⟩
  · refine ⟨h, .of_active h.balance fun hzero => hsignal ?_⟩
    rw [hzero]
    exact hstrategy _ _ _

theorem wait (h : v.Crewed thread) {waiter : W} (hattached : thread waiter ∈ v.container)
    (hidle : thread waiter ∉ v.conditionVar.waiting.map thread) :
    (v.wait waiter).Crewed thread := by
  have hperm : (v.wait waiter).conditionVar.waiting.Perm (waiter :: v.conditionVar.waiting) :=
    WaitSet.waiting_sleep waiter
  refine ⟨h.counts.wait waiter, ?_, ?_, ?_⟩
  · intro w hw
    obtain rfl | hw := List.mem_cons.mp (hperm.mem_iff.mp hw)
    · exact hattached
    · exact h.attached w hw
  · exact (hperm.map thread).nodup_iff.mpr (List.nodup_cons.mpr ⟨hidle, h.nodup⟩)
  · have hwaiting := h.length_waiting_lt hattached hidle
    have hsleeping := v.conditionVar.length_sleeping_le
    have hbalance := h.balance
    change v.activeWorkers - 1 + (v.conditionVar.sleeping ++ [waiter]).length ≤ v.totalWorkers
    rw [List.length_append, List.length_singleton]
    omega

theorem wake (h : v.Crewed thread) {k : ℕ} {waitSet : WaitSet W}
    (hwake : v.conditionVar.wake k = some waitSet) : (v.withWaitSet waitSet).Crewed thread := by
  refine h.of_perm (h.counts.withWaitSet waitSet) (WaitSet.waiting_wake hwake) h.attached ?_
  have hbalance := h.balance
  have hlength := WaitSet.length_sleeping_wake hwake
  change v.activeWorkers + waitSet.sleeping.length ≤ v.totalWorkers
  omega

theorem resume (h : v.Crewed thread) {isNotified : Bool} {k : ℕ} {waiter : W}
    (hresume : v.resume isNotified false k = some (waiter, v')) :
    v'.Crewed thread ∧ v'.container = v.container ∧ thread waiter ∈ v'.container ∧
      thread waiter ∉ v'.conditionVar.waiting.map thread := by
  have hperm := waiting_resume hresume
  have hsleeping := resume_sleeping hresume
  have hleft : v' = v.withWaitSet v'.conditionVar := (resume_eq_some hresume).2
  have hcontainer : v'.container = v.container := by rw [hleft]; rfl
  obtain ⟨hidle, hnodup⟩ := List.nodup_cons.mp ((hperm.map thread).nodup_iff.mp h.nodup)
  refine ⟨⟨h.counts.resume hresume, ?_, hnodup, ?_⟩, hcontainer, ?_, hidle⟩
  · intro w hw
    exact hcontainer ▸ h.attached w (hperm.mem_iff.mpr (List.mem_cons_of_mem waiter hw))
  · have hactive : v'.activeWorkers = v.activeWorkers := by rw [hleft]; rfl
    rw [hsleeping, hactive, resume_totalWorkers hresume]
    exact h.balance
  · exact hcontainer ▸ h.attached waiter (hperm.mem_iff.mpr List.mem_cons_self)

theorem broadcast (h : v.Crewed thread) : v.broadcast.Crewed thread :=
  h.of_perm h.counts.broadcast WaitSet.waiting_notifyAll h.attached h.counts.broadcast.active

theorem attach (h : v.Crewed thread) (t : ℕ) :
    (v.attach t).Crewed thread ∧ (v.Awake → (v.attach t).Awake) := by
  have hcounts := h.counts.attach t
  have hbalance := h.balance
  unfold ConditionVariable.attach at *
  split_ifs at * with hmem
  · exact ⟨h, id⟩
  · refine ⟨h.of_perm hcounts .rfl (fun w hw => Finset.mem_insert_of_mem (h.attached w hw)) ?_,
      fun _ => .inr ?_⟩
    · change min (v.activeWorkers + 1) (v.totalWorkers + 1) + v.conditionVar.sleeping.length ≤
        v.totalWorkers + 1
      omega
    · change v.conditionVar.sleeping.length < v.totalWorkers + 1
      omega

private theorem remove (h : v.Crewed thread) {t : ℕ}
    (hidle : t ∉ v.conditionVar.waiting.map thread) : (v.remove t).Crewed thread := by
  have hcounts := h.counts.remove t
  unfold ConditionVariable.remove at *
  split_ifs at * with hmem
  · refine h.of_perm hcounts .rfl ?_ ?_
    · intro w hw
      refine Finset.mem_erase.mpr ⟨?_, h.attached w hw⟩
      rintro rfl
      exact hidle (List.mem_map_of_mem hw)
    · have hwaiting := h.length_waiting_lt hmem hidle
      have hsleeping := v.conditionVar.length_sleeping_le
      have hbalance := h.balance
      change v.activeWorkers - 1 + v.conditionVar.sleeping.length ≤ v.totalWorkers - 1
      omega
  · exact h

theorem detach (h : v.Crewed thread) {t : ℕ} (hidle : t ∉ v.conditionVar.waiting.map thread)
    (i : ℕ) : (v.detach t i).Crewed thread ∧ (v.detach t i).Awake := by
  have hremove := h.remove hidle
  have hcounts := h.counts.detach t i
  obtain ⟨hbalance, hawake⟩ := increment_notifyOne hremove.balance i
  unfold ConditionVariable.detach signalIfNoneActive at *
  split_ifs at * with hnone
  · have hperm := (v.remove t).conditionVar.waiting_notifyOne i
    exact ⟨hremove.of_perm hcounts hperm hremove.attached hbalance, hawake⟩
  · refine ⟨hremove, ?_⟩
    by_cases htotal : (v.remove t).totalWorkers = 0
    · exact .inl htotal
    · exact .of_active hremove.balance fun hzero => hnone ⟨Nat.pos_of_ne_zero htotal, hzero⟩

end Crewed

section Changes
variable {Calls : W → Prop} {Resumes : Bool → Bool → ℕ → Prop} {Slack : Prop} {count n n' : ℕ}

theorem Changes.crewed (h : Changes thread Calls Slack count n n' v v') (hv : v.Crewed thread)
    (hcalls : ∀ w, Calls w → thread w ∈ v.container ∧ thread w ∉ v.conditionVar.waiting.map thread) :
    v'.Crewed thread := by
  cases h with
  | same => exact hv
  | setSize => exact hv.setSize count
  | signal hstrategy => exact ((hv.setSize count).signal hstrategy _).1
  | wait hw => exact hv.wait (hcalls _ hw).1 (hcalls _ hw).2
  | wake hwake => exact hv.wake hwake
  | broadcast => exact hv.broadcast
  | attach => exact (hv.attach _).1
  | detach hidle => exact (hv.detach hidle _).1

theorem Changes.awake (h : Changes thread Calls Slack count n n' v v') (hv : v.Crewed thread)
    (hslack : Slack → v.conditionVar.sleeping = []) (hawake : n = 0 ∨ v.Awake) :
    n' = 0 ∨ v'.Awake := by
  have hkeeps : n' ≤ n → n' = 0 ∨ v.Awake := fun hle => hawake.imp_left (by omega)
  cases h with
  | same hle => exact hle.elim hkeeps fun hs => .inr (.of_nil (hslack hs))
  | setSize hle => exact hle.elim hkeeps fun hs => .inr (.of_nil (hslack hs))
  | signal hstrategy => exact .inr ((hv.setSize count).signal hstrategy _).2
  | wait _ hzero => exact .inl hzero
  | wake hwake hle =>
    refine (hkeeps hle).imp_right (Or.imp_right fun hlt => ?_)
    exact (Nat.le_of_succ_le (WaitSet.length_sleeping_wake hwake).ge).trans_lt hlt
  | broadcast => exact .inr (.of_nil rfl)
  | attach _ hle => exact (hkeeps hle).imp_right (hv.attach _).2
  | detach hidle => exact .inr (hv.detach hidle _).2

/-- A step, by attached workers that never give up for their time. -/
theorem Turn.crewed (h : Turn thread Calls Resumes Slack count n n' v v') (hv : v.Crewed thread)
    (hcalls : ∀ w, Calls w → thread w ∈ v.container ∧ thread w ∉ v.conditionVar.waiting.map thread)
    (hresumes : ∀ isNotified timedOut k, Resumes isNotified timedOut k → timedOut = false)
    (hslack : Slack → v.conditionVar.sleeping = []) (hawake : n = 0 ∨ v.Awake) :
    v'.Crewed thread ∧ (n' = 0 ∨ v'.Awake) := by
  cases h with
  | direct h => exact ⟨h.crewed hv hcalls, h.awake hv hslack hawake⟩
  | @resumed isNotified timedOut k waiter left hresumed hresume h =>
    obtain rfl := hresumes _ _ _ hresumed
    have hsleeping := resume_sleeping hresume
    obtain ⟨hleft, -, hattached, hidle⟩ := hv.resume hresume
    refine ⟨h.crewed hleft fun w hw => hw ▸ ⟨hattached, hidle⟩, h.awake hleft ?_ ?_⟩
    · exact fun hs => hsleeping.trans (hslack hs)
    · unfold Awake
      rw [hsleeping, resume_totalWorkers hresume]
      exact hawake

end Changes

theorem Crewed.exists_awake (h : v.Crewed thread) (hawake : v.Awake) (htotal : 0 < v.totalWorkers) :
    ∃ t ∈ v.container, ∀ w ∈ v.conditionVar.sleeping, thread w ≠ t := by
  have hlt : (v.conditionVar.sleeping.map thread).toFinset.card < v.container.card := by
    rw [← h.counts.total]
    refine (List.toFinset_card_le _).trans_lt ?_
    rw [List.length_map]
    exact hawake.resolve_left htotal.ne'
  obtain ⟨t, ht, hnot⟩ := Finset.exists_mem_notMem_of_card_lt_card hlt
  refine ⟨t, ht, fun w hw heq => hnot (List.mem_toFinset.mpr ?_)⟩
  exact heq ▸ List.mem_map_of_mem hw

end ConditionVariable

variable {C T : Type} [ProducerConsumerCollection C T]

namespace State
open BlockingCollection ConditionVariable

/-- The workers that are counted are those attached, at most all of them as active, and the
number of items that was last set fits into the capacity. -/
structure Counted (capacity : ℕ) {W : Type} (v : ConditionVariable W) : Prop where
  counts : v.Counts
  capacity_eq : v.boundedCapacity = capacity
  size_le : v.itemCount ≤ capacity

theorem Counted.turn {capacity : ℕ} {W : Type} {thread : W → ℕ} {Calls : W → Prop}
    {Resumes : Bool → Bool → ℕ → Prop} {Slack : Prop} {count n n' : ℕ}
    {v v' : ConditionVariable W} (hv : Counted capacity v)
    (h : Turn thread Calls Resumes Slack count n n' v v') (hcount : count ≤ capacity) :
    Counted capacity v' := by
  obtain ⟨hcapacity, hsame | hset⟩ := h.size
  · exact ⟨h.counts hv.counts, hcapacity.trans hv.capacity_eq, hsame ▸ hv.size_le⟩
  · exact ⟨h.counts hv.counts, hcapacity.trans hv.capacity_eq, hset ▸ hcount⟩

/-- Only attached threads take, and none of them gives up for its time. -/
def consumersAttached (s : State C) : Action C → Bool
  | .take consumer _ => consumer.thread ∈ s.collection.notEmptyConditionVar.container
  | .resumeTaking _ timedOut _ _ => !timedOut
  | _ => true

/-- Only attached threads add, none of them gives up for its time, and no room is made without
a signal while producers sleep. -/
def producersAttached (s : State C) : Action C → Bool
  | .add producer _ => producer.thread ∈ s.collection.notFullConditionVar.container
  | .resumeAdding _ timedOut _ _ => !timedOut
  | a => !s.unsignalled a || s.collection.notFullConditionVar.conditionVar.sleeping.isEmpty

variable [LawfulCollection C]

/-- The counters of both condition variables are right in every state, and the difference
`capacity - item_count` does not wrap around. -/
theorem counters_of_reachable {capacity : ℕ} {s : State C}
    (hs : (threads C capacity).Reachable s) :
    Counted capacity s.collection.notEmptyConditionVar ∧
      Counted capacity s.collection.notFullConditionVar ∧
      (capacity ≤ sizeMax →
        sizeSub capacity s.collection.notFullConditionVar.itemCount =
          capacity - s.collection.notFullConditionVar.itemCount) := by
  obtain ⟨⟨hconsumers, hproducers⟩, -⟩ := hs.invariant
    (I := fun s => (Counted capacity s.collection.notEmptyConditionVar ∧
      Counted capacity s.collection.notFullConditionVar) ∧ Linear capacity s)
    ⟨⟨⟨.new capacity, rfl, Nat.zero_le _⟩, ⟨.new capacity, rfl, Nat.zero_le _⟩⟩,
      linear_init capacity⟩ (by
      rintro s a s' - ⟨⟨hconsumers, hproducers⟩, hlinear⟩ hn
      have hm := next_moves hlinear.bounded hn
      have hlinear' := hlinear.next hn
      have hcount := hlinear'.capacity_eq ▸ hlinear'.bounded.size_le
      exact ⟨⟨hconsumers.turn hm.consumers hcount, hproducers.turn hm.producers hcount⟩, hlinear'⟩)
  refine ⟨hconsumers, hproducers, fun hcapacity => ?_⟩
  rw [sizeSub, Nat.sub_add_comm hproducers.size_le, Nat.add_mod_right]
  exact Nat.mod_eq_of_lt (by omega)

theorem counters_of_reachable_detached : ∃ s, (threads (QueueContainer ℕ) 2).Reachable s ∧
    s.collection.notEmptyConditionVar.container = {2} ∧
    Counted 2 s.collection.notEmptyConditionVar := by
  obtain ⟨s, hs, htest⟩ := TransitionSystem.exists_reachable_of_run (threads (QueueContainer ℕ) 2)
    [.attachConsumer 1, .attachConsumer 2, .take ⟨1, -1, .item⟩ 0, .add ⟨3, 0, .emplace 5⟩ 0,
      .take ⟨2, 0, .item⟩ 0, .wakeConsumer 0, .add ⟨3, 0, .emplace 6⟩ 0,
      .resumeTaking false false 0 0, .detachConsumer 1 0]
    (fun s => s.collection.notEmptyConditionVar.container = {2}) (by decide)
  exact ⟨s, hs, of_decide_eq_true htest, (counters_of_reachable hs).1⟩

/-- While there are items in the collection some attached consumer is awake. -/
theorem consumer_awake {capacity : ℕ} {s : State C}
    (hs : (threads C capacity).ReachableVia (fun s a => s.consumersAttached a = true) s)
    (hitems : 0 < size s.collection.container)
    (hworkers : 0 < s.collection.notEmptyConditionVar.totalWorkers) :
    ∃ t ∈ s.collection.notEmptyConditionVar.container,
      ∀ w ∈ s.collection.notEmptyConditionVar.conditionVar.sleeping, w.thread ≠ t := by
  obtain ⟨hcrewed, hawake⟩ := moves_invariant
    (I := fun s => s.collection.notEmptyConditionVar.Crewed Consumer.thread ∧
      (size s.collection.container = 0 ∨ s.collection.notEmptyConditionVar.Awake))
    ⟨⟨.new capacity, nofun, .nil, le_rfl⟩, .inr (.of_nil rfl)⟩ (by
      rintro s a s' hguard - ⟨hcrewed, hawake⟩ hm
      refine hm.consumers.crewed hcrewed ?_ ?_ nofun hawake
      · rintro w ⟨⟨i, rfl⟩, hidle, -⟩
        exact ⟨of_decide_eq_true hguard, (waits_eq_false hidle).1⟩
      · rintro isNotified timedOut k ⟨i, rfl⟩
        simpa [consumersAttached] using hguard) hs
  exact hcrewed.exists_awake (hawake.resolve_left hitems.ne') hworkers

theorem consumer_awake_two : ∃ s,
    (threads (QueueContainer ℕ) 2).ReachableVia (fun s a => s.consumersAttached a = true) s ∧
    s.collection.notEmptyConditionVar.conditionVar.sleeping.length = 1 ∧
    ∃ t ∈ s.collection.notEmptyConditionVar.container,
      ∀ w ∈ s.collection.notEmptyConditionVar.conditionVar.sleeping, w.thread ≠ t := by
  obtain ⟨s, hs, htest⟩ := TransitionSystem.exists_reachableVia_of_runVia
    (threads (QueueContainer ℕ) 2) (fun s a => s.consumersAttached a = true)
    [.attachConsumer 1, .attachConsumer 2, .take ⟨1, -1, .item⟩ 0, .add ⟨3, 0, .emplace 5⟩ 0]
    (fun s => s.collection.notEmptyConditionVar.conditionVar.sleeping.length = 1 ∧
      0 < size s.collection.container ∧ 0 < s.collection.notEmptyConditionVar.totalWorkers)
    (by decide)
  obtain ⟨hlength, hitems, hworkers⟩ := of_decide_eq_true htest
  exact ⟨s, hs, hlength, consumer_awake hs hitems hworkers⟩

/-- A worker that is notified and gives up for its time is counted twice. In the end both workers
sleep, one of them counts as active and nobody is notified of the item. -/
example : ((threads (QueueContainer ℕ) 2).run (threads (QueueContainer ℕ) 2).init
    [.attachConsumer 1, .attachConsumer 2, .take ⟨1, 9, .item⟩ 0, .take ⟨2, 9, .item⟩ 0,
      .add ⟨3, 0, .emplace 5⟩ 0, .resumeTaking true true 0 0, .take ⟨1, 9, .item⟩ 0,
      .take ⟨1, 9, .item⟩ 0, .add ⟨3, 0, .emplace 6⟩ 0]).any (fun s =>
    s.collection.notEmptyConditionVar.conditionVar.sleeping.length = 2 ∧
    s.collection.notEmptyConditionVar.activeWorkers = 1 ∧
    size s.collection.container = 1) = true := by decide

/-- While there is room in the collection some attached producer is awake. -/
theorem producer_awake {capacity : ℕ} {s : State C}
    (hs : (threads C capacity).ReachableVia (fun s a => s.producersAttached a = true) s)
    (hbounded : capacity ≠ sizeMax) (hroom : size s.collection.container < capacity)
    (hworkers : 0 < s.collection.notFullConditionVar.totalWorkers) :
    ∃ t ∈ s.collection.notFullConditionVar.container,
      ∀ w ∈ s.collection.notFullConditionVar.conditionVar.sleeping, w.thread ≠ t := by
  obtain ⟨hcrewed, hawake⟩ := moves_invariant
    (I := fun s => s.collection.notFullConditionVar.Crewed Producer.thread ∧
      (s.collection.places = 0 ∨ s.collection.notFullConditionVar.Awake))
    ⟨⟨.new capacity, nofun, .nil, le_rfl⟩, .inr (.of_nil rfl)⟩ (by
      rintro s a s' hguard - ⟨hcrewed, hawake⟩ hm
      refine hm.producers.crewed hcrewed ?_ ?_ ?_ hawake
      · rintro w ⟨⟨i, rfl⟩, hidle⟩
        exact ⟨of_decide_eq_true hguard, (waits_eq_false hidle).2⟩
      · rintro isNotified timedOut k ⟨i, rfl⟩
        simpa [producersAttached] using hguard
      · intro hslack
        cases a <;> simp_all [unsignalled, producersAttached]) hs
  refine hcrewed.exists_awake (hawake.resolve_left ?_) hworkers
  rw [places, (linear_of_reachableVia hs).capacity_eq, if_neg hbounded]
  omega

theorem producer_awake_two : ∃ s,
    (threads (QueueContainer ℕ) 1).ReachableVia (fun s a => s.producersAttached a = true) s ∧
    s.collection.notFullConditionVar.conditionVar.sleeping.length = 1 ∧
    ∃ t ∈ s.collection.notFullConditionVar.container,
      ∀ w ∈ s.collection.notFullConditionVar.conditionVar.sleeping, w.thread ≠ t := by
  obtain ⟨s, hs, htest⟩ := TransitionSystem.exists_reachableVia_of_runVia
    (threads (QueueContainer ℕ) 1) (fun s a => s.producersAttached a = true)
    [.attachProducer 1, .attachProducer 2, .add ⟨1, 0, .emplace 5⟩ 0, .add ⟨1, -1, .emplace 6⟩ 0,
      .take ⟨3, 0, .item⟩ 0]
    (fun s => s.collection.notFullConditionVar.conditionVar.sleeping.length = 1 ∧
      size s.collection.container < 1 ∧ 0 < s.collection.notFullConditionVar.totalWorkers)
    (by decide)
  obtain ⟨hlength, hroom, hworkers⟩ := of_decide_eq_true htest
  exact ⟨s, hs, hlength, producer_awake hs (by decide) hroom hworkers⟩

end State
end Mbtest.CodeMachina
