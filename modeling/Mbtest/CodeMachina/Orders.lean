import Mbtest.CodeMachina.Items
import Mbtest.CodeMachina.PriorityContainer

/-! The order in which the queue, the stack and the priority queue give their items back. -/
namespace Mbtest.CodeMachina
open Lib Lib.PriorityList

variable {T : Type}

section Queue

theorem Container.kept_fifo : Kept fun (ops : List (Op T)) (c : QueueContainer T) =>
    Op.puts ops = Op.removals ops ++ c.container where
  add {ops c c' item} h hadd := by
    obtain ⟨-, rfl⟩ := Container.tryAdd_eq_some hadd
    simp [Op.puts, Op.removals, Container.pushBack, h]
  emplace {ops c c' item} h hemplace := by
    obtain ⟨-, rfl⟩ := Container.tryEmplace_eq_some hemplace
    simp [Op.puts, Op.removals, Container.pushBack, isQueue, h]
  take {ops c c' item} h htake := by
    obtain ⟨-, hc⟩ := Container.tryTake_eq_some htake
    simp only [isQueue, if_true] at hc
    simp [Op.puts, Op.removals, h, hc]
  takePrio _ hprio := by cases hprio

/-- A `BlockingQueue` gives the items back in the order in which they were put into it. -/
theorem State.queue_fifo {capacity : ℕ} {s : State (QueueContainer T)}
    (hs : (threads (QueueContainer T) capacity).Reachable s) :
    Op.puts s.ops = Op.removals s.ops ++ s.collection.container.container :=
  Container.kept_fifo.runs_from_empty rfl (linear_of_reachableVia hs).runs

theorem State.queue_fifo_bulk : ∃ s, (threads (QueueContainer ℕ) 2).Reachable s ∧
    s.collection.container.container = [6] ∧
    Op.puts s.ops = Op.removals s.ops ++ s.collection.container.container := by
  obtain ⟨s, hs, htest⟩ := TransitionSystem.exists_reachable_of_run
    (threads (QueueContainer ℕ) 2)
    [.add ⟨1, 0, .bulk [5, 6, 7]⟩ 0, .add ⟨1, 0, .emplace 8⟩ 0, .take ⟨2, -1, .item⟩ 0]
    (fun s => s.collection.container.container = [6]) (by decide)
  exact ⟨s, hs, of_decide_eq_true htest, queue_fifo hs⟩

end Queue

section Stack

/-- What a stack hands out next, first: an item of `add_bulk` goes on top, any other item goes
to the bottom. -/
def stackOrder : List (Op T) → List T → List T
  | [], order => order
  | .add item :: ops, order => stackOrder ops (item :: order)
  | .emplace item :: ops, order => stackOrder ops (order ++ [item])
  | .take _ :: ops, order => stackOrder ops order.tail
  | .takePrio _ :: ops, order => stackOrder ops order

theorem stackOrder_append (ops ops' : List (Op T)) (order : List T) :
    stackOrder (ops ++ ops') order = stackOrder ops' (stackOrder ops order) := by
  induction ops generalizing order with
  | nil => rfl
  | cons op ops ih => cases op <;> exact ih _

theorem Container.kept_stack : Kept fun (ops : List (Op T)) (c : StackContainer T) =>
    c.container.reverse = stackOrder ops [] where
  add {ops c c' item} h hadd := by
    obtain ⟨-, rfl⟩ := Container.tryAdd_eq_some hadd
    rw [stackOrder_append, ← h]
    simp [stackOrder, Container.pushBack]
  emplace {ops c c' item} h hemplace := by
    obtain ⟨-, rfl⟩ := Container.tryEmplace_eq_some hemplace
    rw [stackOrder_append, ← h]
    simp [stackOrder, Container.emplaceFront, isQueue]
  take {ops c c' item} h htake := by
    obtain ⟨-, hc⟩ := Container.tryTake_eq_some htake
    simp only [isQueue, Bool.false_eq_true, if_false] at hc
    rw [stackOrder_append, ← h, hc]
    simp [stackOrder]
  takePrio _ hprio := by cases hprio

theorem Container.kept_emplaced : Kept fun (ops : List (Op T)) (c : StackContainer T) =>
    (∀ item, .add item ∉ ops) → Op.puts ops = Op.removals ops ++ c.container.reverse where
  add _ _ hnone := absurd (List.mem_append_right _ List.mem_cons_self) (hnone _)
  emplace {ops c c' item} h hemplace hnone := by
    obtain ⟨-, rfl⟩ := Container.tryEmplace_eq_some hemplace
    have hops := h fun item hmem => hnone item (List.mem_append_left _ hmem)
    simp [Op.puts, Op.removals, Container.emplaceFront, isQueue, hops]
  take {ops c c' item} h htake hnone := by
    obtain ⟨-, hc⟩ := Container.tryTake_eq_some htake
    simp only [isQueue, Bool.false_eq_true, if_false] at hc
    have hops := h fun item hmem => hnone item (List.mem_append_left _ hmem)
    simp [Op.puts, Op.removals, hops, hc]
  takePrio _ hprio := by cases hprio

/-- A `BlockingStack` hands out the items of `add_bulk` last in, first out, and after them the
items added one by one first in, first out. -/
theorem State.stack_order {capacity : ℕ} {s : State (StackContainer T)}
    (hs : (threads (StackContainer T) capacity).Reachable s) :
    s.collection.container.container.reverse = stackOrder s.ops [] ∧
      (∀ ops item ops', s.ops = ops ++ .take item :: ops' →
        (stackOrder ops []).head? = some item) ∧
      ((∀ item, .add item ∉ s.ops) →
        Op.puts s.ops = Op.removals s.ops ++ s.collection.container.container.reverse) := by
  have hruns := (linear_of_reachableVia hs).runs
  refine ⟨Container.kept_stack.runs_from_empty rfl hruns, ?_,
    Container.kept_emplaced.runs_from_empty (fun _ => rfl) hruns⟩
  intro ops item ops' hops
  obtain ⟨c, hbefore, hafter⟩ := (hops ▸ hruns).split
  cases hafter with
  | take htake _ =>
    obtain ⟨-, hc⟩ := Container.tryTake_eq_some htake
    simp only [isQueue, Bool.false_eq_true, if_false] at hc
    rw [← Container.kept_stack.runs_from_empty rfl hbefore, hc]
    simp

theorem State.stack_order_mixed : ∃ s, (threads (StackContainer ℕ) 9).Reachable s ∧
    s.ops = [.emplace 5, .emplace 6, .add 7, .add 8, .take 8, .take 7, .take 5] ∧
    s.collection.container.container.reverse = stackOrder s.ops [] := by
  obtain ⟨s, hs, htest⟩ := TransitionSystem.exists_reachable_of_run
    (threads (StackContainer ℕ) 9)
    [.add ⟨1, 0, .emplace 5⟩ 0, .add ⟨1, 0, .emplace 6⟩ 0, .add ⟨1, 0, .bulk [7, 8]⟩ 0,
      .take ⟨2, 0, .bulk 2⟩ 0, .take ⟨2, 0, .item⟩ 0]
    (fun s => s.ops = [.emplace 5, .emplace 6, .add 7, .add 8, .take 8, .take 7, .take 5])
    (by decide)
  exact ⟨s, hs, of_decide_eq_true htest, (stack_order hs).1⟩

end Stack

section Priority
variable {comparer : T → T → ℤ} [LawfulComparer comparer]

theorem PriorityContainer.kept_order : Kept fun (ops : List (Op T))
    (c : PriorityContainer T comparer) =>
      InOrder comparer (Op.puts ops) (Op.removals ops) c.container where
  add {ops c c' item} h hadd := by
    change c.tryAdd item = some c' at hadd
    rw [tryAdd_eq_tryEmplace] at hadd
    obtain ⟨-, rfl⟩ := tryEmplace_eq_some hadd
    simpa [Op.puts, Op.removals] using h.insert
  emplace {ops c c' item} h hemplace := by
    obtain ⟨-, rfl⟩ := tryEmplace_eq_some hemplace
    simpa [Op.puts, Op.removals] using h.insert
  take {ops c c' item} h htake := by
    obtain ⟨hc, -⟩ := tryTake_eq_some htake
    have hinit : InOrder comparer (Op.puts ops) (Op.removals ops) ([] ++ item :: c'.container) :=
      hc ▸ h
    simpa [Op.puts, Op.removals] using hinit.remove (by simp)
  takePrio {ops c c' item take} h hprio htake := by
    cases hprio
    obtain ⟨before, behind, hc, hc', hbefore, -⟩ := tryTakePrio_lowest h.descending htake
    rw [hc] at h
    rw [hc']
    simpa [Op.puts, Op.removals] using h.remove hbefore

theorem PriorityContainer.inOrder {capacity : ℕ} {ops : List (Op T)}
    {c : PriorityContainer T comparer} (h : Runs (ProducerConsumerCollection.new capacity) ops c) :
    InOrder comparer (Op.puts ops) (Op.removals ops) c.container := by
  have hnew : InOrder comparer (Op.puts []) (Op.removals [])
      (ProducerConsumerCollection.new capacity : PriorityContainer T comparer).container := .empty
  exact kept_order.runs_from_empty hnew h

/-- A `BlockingPriorityQueue` is sorted at all times, and items of one priority leave it in the
order in which they were put into it, from whichever end they are taken. -/
theorem State.priority_order {capacity : ℕ} {s : State (PriorityContainer T comparer)}
    (hs : (threads (PriorityContainer T comparer) capacity).Reachable s) :
    InOrder comparer (Op.puts s.ops) (Op.removals s.ops) s.collection.container.container :=
  PriorityContainer.inOrder (linear_of_reachableVia hs).runs

private def bothEnds : List (Action (PriorityContainer ℕ priorityComparer)) :=
  [.add ⟨1, 0, .bulk [3, 1, 2, 1]⟩ 0, .take ⟨2, 0, .prio rfl⟩ 0, .take ⟨2, 0, .item⟩ 0]

theorem State.priority_order_bothEnds : ∃ s,
    (threads (PriorityContainer ℕ priorityComparer) 9).Reachable s ∧
    s.collection.container.container = [2, 1] ∧
    InOrder priorityComparer (Op.puts s.ops) (Op.removals s.ops)
      s.collection.container.container := by
  obtain ⟨s, hs, htest⟩ := TransitionSystem.exists_reachable_of_run
    (threads (PriorityContainer ℕ priorityComparer) 9) bothEnds
    (fun s => s.collection.container.container = [2, 1]) (by decide)
  exact ⟨s, hs, of_decide_eq_true htest, priority_order hs⟩

/-- `take` has taken an item of the highest priority there was, `take_prio` one of the lowest. -/
theorem State.priority_ends {capacity : ℕ} {s : State (PriorityContainer T comparer)}
    (hs : (threads (PriorityContainer T comparer) capacity).Reachable s) {ops ops' : List (Op T)}
    {item : T} :
    (s.ops = ops ++ .take item :: ops' → ∃ c : PriorityContainer T comparer,
      Runs (ProducerConsumerCollection.new capacity) ops c ∧ item ∈ c.container ∧
      ∀ x ∈ c.container, 0 ≤ comparer item x) ∧
    (s.ops = ops ++ .takePrio item :: ops' → ∃ c : PriorityContainer T comparer,
      Runs (ProducerConsumerCollection.new capacity) ops c ∧ item ∈ c.container ∧
      ∀ x ∈ c.container, comparer item x ≤ 0) := by
  have hruns := (linear_of_reachableVia hs).runs
  constructor
  · intro hops
    obtain ⟨c, hbefore, hafter⟩ := (hops ▸ hruns).split
    cases hafter with
    | take htake _ =>
      obtain ⟨hc, -⟩ := PriorityContainer.tryTake_eq_some htake
      have hdescending := hc ▸ (PriorityContainer.inOrder hbefore).descending
      refine ⟨c, hbefore, by simp [hc], ?_⟩
      intro x hx
      rw [hc, List.mem_cons] at hx
      obtain rfl | hx := hx
      · exact (compare_self x).ge
      · exact List.rel_of_pairwise_cons hdescending hx
  · intro hops
    obtain ⟨c, hbefore, hafter⟩ := (hops ▸ hruns).split
    cases hafter with
    | takePrio hprio htake _ =>
      cases hprio
      obtain ⟨before, behind, hc, -, -, hlowest⟩ :=
        PriorityContainer.tryTakePrio_lowest (PriorityContainer.inOrder hbefore).descending htake
      exact ⟨c, hbefore, by simp [hc], hlowest⟩

theorem State.priority_ends_bothEnds : ∃ s,
    (threads (PriorityContainer ℕ priorityComparer) 9).Reachable s ∧
    s.ops = [.add 3, .add 1, .add 2, .add 1, .takePrio 1, .take 3] ∧
    (∃ c : PriorityContainer ℕ priorityComparer,
      Runs (ProducerConsumerCollection.new 9) [.add 3, .add 1, .add 2, .add 1, .takePrio 1] c ∧
      3 ∈ c.container ∧ ∀ x ∈ c.container, 0 ≤ priorityComparer 3 x) ∧
    ∃ c : PriorityContainer ℕ priorityComparer,
      Runs (ProducerConsumerCollection.new 9) [.add 3, .add 1, .add 2, .add 1] c ∧
      1 ∈ c.container ∧ ∀ x ∈ c.container, priorityComparer 1 x ≤ 0 := by
  obtain ⟨s, hs, htest⟩ := TransitionSystem.exists_reachable_of_run
    (threads (PriorityContainer ℕ priorityComparer) 9) bothEnds
    (fun s => s.ops = [.add 3, .add 1, .add 2, .add 1, .takePrio 1, .take 3]) (by decide)
  have hops := of_decide_eq_true htest
  have htake : s.ops = [.add 3, .add 1, .add 2, .add 1, .takePrio 1] ++ .take 3 :: [] := hops
  have hprio : s.ops = [.add 3, .add 1, .add 2, .add 1] ++ .takePrio 1 :: [.take 3] := hops
  exact ⟨s, hs, hops, (priority_ends hs).1 htake, (priority_ends hs).2 hprio⟩

end Priority
end Mbtest.CodeMachina
