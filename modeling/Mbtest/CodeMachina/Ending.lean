import Mbtest.CodeMachina.Items

/-! The end of a collection: `complete_adding` and `deactivate` leave nobody asleep. -/
namespace Mbtest.CodeMachina
open Lib
open ThreadDeleter (BlockingCollectionState BlockingCollectionStatus)

variable {C T : Type} [ProducerConsumerCollection C T]

namespace BlockingCollection

/-- The collection is completed for adding, or deactivated. -/
def Over (c : BlockingCollection C) : Prop := c.isAddingCompleted = true ∨ c.state = .deactivated

structure NobodySleeps (c : BlockingCollection C) : Prop where
  consumers : c.notEmptyConditionVar.conditionVar.sleeping = []
  producers : c.notFullConditionVar.conditionVar.sleeping = []

variable {c : BlockingCollection C}

theorem NobodySleeps.withContainer (h : c.NobodySleeps) (container : C) :
    (c.withContainer container).NobodySleeps := ⟨h.consumers, h.producers⟩

theorem signal_sleeping_consumers (h : c.notEmptyConditionVar.conditionVar.sleeping = [])
    (itemCount : ℕ) (signalNotFull : Bool) (i : ℕ) :
    (c.signal itemCount signalNotFull i).notEmptyConditionVar.conditionVar.sleeping = [] := by
  simp only [signal]
  split_ifs
  · exact h
  · exact ConditionVariable.signal_sleeping (by exact h) _ _

theorem signal_sleeping_producers (h : c.notFullConditionVar.conditionVar.sleeping = [])
    (itemCount : ℕ) (signalNotFull : Bool) (i : ℕ) :
    (c.signal itemCount signalNotFull i).notFullConditionVar.conditionVar.sleeping = [] := by
  simp only [signal]
  split_ifs
  · exact ConditionVariable.signal_sleeping (by exact h) _ _
  · exact h

theorem NobodySleeps.signal (h : c.NobodySleeps) (itemCount : ℕ) (signalNotFull : Bool) (i : ℕ) :
    (c.signal itemCount signalNotFull i).NobodySleeps :=
  ⟨signal_sleeping_consumers h.consumers _ _ _, signal_sleeping_producers h.producers _ _ _⟩

section Ends
variable {producer : Producer T} {consumer : Consumer C} {timedOut : Bool}
  {i : ℕ} {r : BlockingCollection C × Option (Event C)}

theorem AddingEnds.state_eq (h : AddingEnds c producer timedOut i r) : r.1.state = c.state := by
  cases h <;> rfl

theorem TakingEnds.state_eq (h : TakingEnds c consumer timedOut i r) : r.1.state = c.state := by
  cases h with
  | waits => rfl
  | takes =>
    simp only []
    split_ifs <;> rfl
  | fails => rfl

theorem AddingEnds.over (h : AddingEnds c producer timedOut i r) : r.1.Over ↔ c.Over := by
  cases h <;> rfl

theorem TakingEnds.over (h : TakingEnds c consumer timedOut i r) : r.1.Over ↔ c.Over := by
  cases h with
  | waits => rfl
  | takes =>
    simp only []
    split_ifs <;> rfl
  | fails => rfl

theorem AddingEnds.nobodySleeps (h : AddingEnds c producer timedOut i r) (hover : c.Over)
    (hc : c.NobodySleeps) : r.1.NobodySleeps := by
  cases h with
  | waits _ hopen hstate => simp [Over, hopen, hstate] at hover
  | adds => exact (hc.withContainer _).signal _ _ _
  | fails => exact hc

theorem TakingEnds.nobodySleeps (h : TakingEnds c consumer timedOut i r) (hover : c.Over)
    (hc : c.NobodySleeps) : r.1.NobodySleeps := by
  cases h with
  | waits _ hopen hstate => simp [Over, hopen, hstate] at hover
  | takes =>
    simp only []
    split_ifs
    · exact (hc.withContainer _).signal _ _ _
    · exact ⟨hc.consumers, hc.producers⟩
  | fails => exact hc

theorem AddingEnds.completed (h : AddingEnds c producer timedOut i r)
    (hc : c.isAddingCompleted = true) :
    r.1.isAddingCompleted = true ∧ Op.puts (r.2.toList.flatMap Event.ops) = [] := by
  cases h with
  | waits _ hopen => simp [hc] at hopen
  | adds _ hopen => simp [hc] at hopen
  | fails => exact ⟨hc, by simp [Event.ops, Op.puts]⟩

theorem TakingEnds.completed (h : TakingEnds c consumer timedOut i r)
    (hc : c.isAddingCompleted = true) :
    r.1.isAddingCompleted = true ∧ Op.puts (r.2.toList.flatMap Event.ops) = [] := by
  cases h with
  | waits _ hopen => simp [hc] at hopen
  | takes =>
    refine ⟨?_, by simp [Event.ops, Taking.map_op]⟩
    simp only []
    split_ifs <;> exact hc
  | fails => exact ⟨hc, by simp [Event.ops, Op.puts]⟩

theorem AddingEnds.deactivated (h : AddingEnds c producer timedOut i r)
    (hc : c.state = .deactivated) :
    r.1.state = .deactivated ∧ r.2.toList.flatMap Event.ops = [] := by
  cases h with
  | waits _ _ hstate => exact absurd hc hstate
  | adds _ _ hstate => exact absurd hc hstate
  | fails => exact ⟨hc, by simp [Event.ops]⟩

theorem TakingEnds.deactivated (h : TakingEnds c consumer timedOut i r)
    (hc : c.state = .deactivated) :
    r.1.state = .deactivated ∧ r.2.toList.flatMap Event.ops = [] := by
  cases h with
  | waits _ _ hstate => exact absurd hc hstate
  | takes _ hstate => exact absurd hc hstate
  | fails => exact ⟨hc, by simp [Event.ops]⟩

end Ends
end BlockingCollection

namespace State
open BlockingCollection

def Quiet (s : State C) : Prop := s.collection.Over → s.collection.NobodySleeps

theorem Moves.quiet {s s' : State C} {a : Action C} (h : s.Moves a s') (hs : s.Quiet) :
    s'.Quiet := by
  intro hover
  cases h with
  | add _ hends =>
    have hbefore : s.collection.Over := hends.over.mp hover
    exact hends.nobodySleeps hbefore (hs hbefore)
  | take _ _ hends =>
    have hbefore : s.collection.Over := hends.over.mp hover
    exact hends.nobodySleeps hbefore (hs hbefore)
  | takeNothing => exact hs hover
  | resumeAdding hresume hends =>
    have hbefore : s.collection.Over := hends.over.mp hover
    have hc := hs hbefore
    exact hends.nobodySleeps hbefore
      ⟨hc.consumers, (ConditionVariable.resume_sleeping hresume).trans hc.producers⟩
  | resumeTaking hresume hends =>
    have hbefore : s.collection.Over := hends.over.mp hover
    have hc := hs hbefore
    exact hends.nobodySleeps hbefore
      ⟨(ConditionVariable.resume_sleeping hresume).trans hc.consumers, hc.producers⟩
  | wakeProducer hwake =>
    obtain ⟨w, hperm, -⟩ := WaitSet.wake_eq_some hwake
    rw [(hs hover).producers] at hperm
    cases hperm.symm.eq_nil
  | wakeConsumer hwake =>
    obtain ⟨w, hperm, -⟩ := WaitSet.wake_eq_some hwake
    rw [(hs hover).consumers] at hperm
    cases hperm.symm.eq_nil
  | completeAdding =>
    revert hover
    unfold BlockingCollection.completeAdding
    split_ifs
    · exact hs
    · exact fun _ => ⟨rfl, rfl⟩
  | deactivate =>
    revert hover
    unfold BlockingCollection.deactivate
    split_ifs with hstate
    · exact hs
    · exact fun _ => ⟨rfl, rfl⟩
    · exact fun _ => ⟨rfl, rfl⟩
  | activate =>
    have hcompleted : s.collection.isAddingCompleted = true := hover.resolve_right nofun
    have hc := hs (.inl hcompleted)
    exact ⟨hc.consumers, hc.producers⟩
  | flush =>
    have hc := hs hover
    exact ⟨hc.consumers, hc.producers⟩
  | attachProducer =>
    have hc := hs hover
    exact ⟨hc.consumers, (ConditionVariable.attach_conditionVar _).symm ▸ hc.producers⟩
  | detachProducer =>
    have hc := hs hover
    exact ⟨hc.consumers, ConditionVariable.detach_sleeping hc.producers _ _⟩
  | attachConsumer =>
    have hc := hs hover
    exact ⟨(ConditionVariable.attach_conditionVar _).symm ▸ hc.consumers, hc.producers⟩
  | detachConsumer =>
    have hc := hs hover
    exact ⟨ConditionVariable.detach_sleeping hc.consumers _ _, hc.producers⟩

theorem Moves.completed {s s' : State C} {a : Action C} (h : s.Moves a s')
    (hs : s.collection.isAddingCompleted = true) : s'.collection.isAddingCompleted = true ∧
      ∃ ops, s'.ops = s.ops ++ ops ∧ Op.puts ops = [] := by
  have hsame : ∃ ops, s.ops = s.ops ++ ops ∧ Op.puts ops = [] :=
    ⟨[], (List.append_nil _).symm, rfl⟩
  cases h with
  | add _ hends =>
    obtain ⟨hc, hputs⟩ := hends.completed hs
    exact ⟨hc, _, s.ops_finish _, hputs⟩
  | take _ _ hends =>
    obtain ⟨hc, hputs⟩ := hends.completed hs
    exact ⟨hc, _, s.ops_finish _, hputs⟩
  | takeNothing => exact ⟨hs, _, s.ops_finish _, by simp [Event.ops, Op.puts]⟩
  | resumeAdding _ hends =>
    obtain ⟨hc, hputs⟩ := hends.completed hs
    exact ⟨hc, _, s.ops_finish _, hputs⟩
  | resumeTaking _ hends =>
    obtain ⟨hc, hputs⟩ := hends.completed hs
    exact ⟨hc, _, s.ops_finish _, hputs⟩
  | completeAdding =>
    refine ⟨?_, hsame⟩
    simp only [State.withCollection, BlockingCollection.completeAdding, hs, if_true]
  | deactivate =>
    refine ⟨?_, hsame⟩
    simp only [State.withCollection, BlockingCollection.deactivate]
    split_ifs <;> exact hs
  | flush =>
    refine ⟨hs, _, s.ops_finish _, ?_⟩
    have hputs := fun items : List T => ((Taking.item : Taking C).map_op items).1
    rw [BlockingCollection.flush, Option.toList_some, List.flatMap_singleton]
    exact hputs _
  | wakeProducer => exact ⟨hs, hsame⟩
  | wakeConsumer => exact ⟨hs, hsame⟩
  | activate => exact ⟨hs, hsame⟩
  | attachProducer => exact ⟨hs, hsame⟩
  | detachProducer => exact ⟨hs, hsame⟩
  | attachConsumer => exact ⟨hs, hsame⟩
  | detachConsumer => exact ⟨hs, hsame⟩

/-- The steps that end a deactivation or that remove items all the same. -/
def thaws : Action C → Bool
  | .activate => true
  | .flush => true
  | _ => false

theorem Moves.deactivated {s s' : State C} {a : Action C} (h : s.Moves a s')
    (ha : thaws a = false) (hs : s.collection.state = .deactivated) :
    s'.collection.state = .deactivated ∧ s'.ops = s.ops := by
  have hends : ∀ {r : BlockingCollection C × Option (Event C)},
      r.1.state = .deactivated ∧ r.2.toList.flatMap Event.ops = [] →
      (s.finish r).collection.state = .deactivated ∧ (s.finish r).ops = s.ops :=
    fun {r} ⟨hstate, hops⟩ => ⟨hstate, by rw [s.ops_finish, hops, List.append_nil]⟩
  cases h with
  | add _ h => exact hends (h.deactivated hs)
  | take _ _ h => exact hends (h.deactivated hs)
  | takeNothing => exact hends ⟨hs, by simp [Event.ops]⟩
  | resumeAdding _ h => exact hends (h.deactivated hs)
  | resumeTaking _ h => exact hends (h.deactivated hs)
  | completeAdding =>
    refine ⟨?_, rfl⟩
    simp only [State.withCollection, BlockingCollection.completeAdding]
    split_ifs <;> exact hs
  | deactivate =>
    refine ⟨?_, rfl⟩
    simp only [State.withCollection, BlockingCollection.deactivate, hs, if_true]
  | flush => cases ha
  | wakeProducer => exact ⟨hs, rfl⟩
  | wakeConsumer => exact ⟨hs, rfl⟩
  | activate => cases ha
  | attachProducer => exact ⟨hs, rfl⟩
  | detachProducer => exact ⟨hs, rfl⟩
  | attachConsumer => exact ⟨hs, rfl⟩
  | detachConsumer => exact ⟨hs, rfl⟩

variable [LawfulCollection C]

/-- Nobody sleeps once adding is completed, or while the collection is deactivated. -/
theorem nobodySleeps_of_over {capacity : ℕ} {s : State C}
    (hs : (threads C capacity).Reachable s) (hover : s.collection.Over) :
    s.collection.NobodySleeps :=
  moves_invariant (I := Quiet) (fun _ => ⟨rfl, rfl⟩) (fun _ _ _ _ _ hq hm => hm.quiet hq) hs hover

theorem nobodySleeps_of_over_completed : ∃ s, (threads (QueueContainer ℕ) 1).Reachable s ∧
    s.collection.notEmptyConditionVar.conditionVar.notified.length = 1 ∧
    s.collection.NobodySleeps := by
  obtain ⟨s, hs, htest⟩ := TransitionSystem.exists_reachable_of_run
    (threads (QueueContainer ℕ) 1) [.take ⟨1, -1, .item⟩ 0, .completeAdding]
    (fun s => s.collection.notEmptyConditionVar.conditionVar.notified.length = 1 ∧
      s.collection.isAddingCompleted = true) (by decide)
  obtain ⟨hnotified, hcompleted⟩ := of_decide_eq_true htest
  exact ⟨s, hs, hnotified, nobodySleeps_of_over hs (.inl hcompleted)⟩

/-- After `complete_adding` no run adds an item; what was in the collection then is what has
been taken or flushed since, and what is still there. -/
theorem completed_run {capacity : ℕ} {s s' : State C} (hs : (threads C capacity).Reachable s)
    (hcompleted : s.collection.isAddingCompleted = true) (as : List (Action C))
    (hr : (threads C capacity).run s as = some s') :
    s'.collection.isAddingCompleted = true ∧ ∃ ops, s'.ops = s.ops ++ ops ∧ Op.puts ops = [] ∧
      LawfulCollection.items s.collection.container =
        (Op.removals ops : Multiset T) + LawfulCollection.items s'.collection.container := by
  obtain ⟨-, hcompleted', ops, hops, hputs⟩ := (linear_of_reachableVia hs).run_invariant
    (I := fun t => t.collection.isAddingCompleted = true ∧
      ∃ ops, t.ops = s.ops ++ ops ∧ Op.puts ops = [])
    ⟨hcompleted, [], (List.append_nil _).symm, rfl⟩ as (by
      rintro t a - t' - ⟨ht, ops, hops, hputs⟩ hm
      obtain ⟨ht', ops', hops', hputs'⟩ := hm.completed ht
      exact ⟨ht', ops ++ ops', by rw [hops', hops, List.append_assoc], by simp [hputs, hputs']⟩) hr
  refine ⟨hcompleted', ops, hops, hputs, ?_⟩
  have hitems := (items_of_reachable hs).1
  have hitems' := (items_of_reachable (hs.of_run as hr)).1
  rw [hops, Op.puts_append, Op.removals_append, hputs, List.append_nil, hitems,
    ← Multiset.coe_add, Multiset.add_assoc] at hitems'
  exact Multiset.add_right_inj.mp hitems'

theorem completed_run_take : ∃ s s' : State (QueueContainer ℕ),
    s.ops = [.emplace 5, .emplace 6] ∧ s'.collection.isAddingCompleted = true ∧
    ∃ ops, s'.ops = s.ops ++ ops ∧ Op.puts ops = [] ∧
      LawfulCollection.items s.collection.container =
        (Op.removals ops : Multiset ℕ) + LawfulCollection.items s'.collection.container := by
  obtain ⟨s, hs, htest⟩ := TransitionSystem.exists_reachable_of_run
    (threads (QueueContainer ℕ) 2)
    [.add ⟨1, -1, .emplace 5⟩ 0, .add ⟨1, -1, .emplace 6⟩ 0, .add ⟨1, -1, .emplace 7⟩ 0,
      .completeAdding]
    (fun s => (s.ops = [.emplace 5, .emplace 6] ∧ s.collection.isAddingCompleted = true) ∧
      ((threads (QueueContainer ℕ) 2).run s
        [.take ⟨2, 0, .item⟩ 0, .resumeAdding true false 0 0]).isSome = true) (by decide)
  obtain ⟨⟨hops, hcompleted⟩, hrun⟩ := of_decide_eq_true htest
  obtain ⟨s', hr⟩ := Option.isSome_iff_exists.mp hrun
  exact ⟨s, s', hops, completed_run hs hcompleted _ hr⟩

/-- While a collection is deactivated no item is added or taken, and nobody sleeps. -/
theorem deactivated_run {capacity : ℕ} {s s' : State C} (hs : (threads C capacity).Reachable s)
    (hstate : s.collection.state = .deactivated) (as : List (Action C))
    (has : ∀ a ∈ as, thaws a = false) (hr : (threads C capacity).run s as = some s') :
    s'.collection.state = .deactivated ∧ s'.ops = s.ops ∧ s'.collection.NobodySleeps := by
  obtain ⟨-, hstate', hops⟩ := (linear_of_reachableVia hs).run_invariant
    (I := fun t => t.collection.state = .deactivated ∧ t.ops = s.ops) ⟨hstate, rfl⟩ as (by
      rintro t a ha t' - ⟨ht, hops⟩ hm
      obtain ⟨ht', hops'⟩ := hm.deactivated (has a ha) ht
      exact ⟨ht', hops'.trans hops⟩) hr
  exact ⟨hstate', hops, nobodySleeps_of_over (hs.of_run as hr) (.inr hstate')⟩

theorem deactivated_run_resume : ∃ s s' : State (QueueContainer ℕ), s.ops = [.emplace 5] ∧
    s'.collection.state = .deactivated ∧ s'.ops = s.ops ∧ s'.collection.NobodySleeps := by
  obtain ⟨s, hs, htest⟩ := TransitionSystem.exists_reachable_of_run
    (threads (QueueContainer ℕ) 1)
    [.add ⟨1, -1, .emplace 5⟩ 0, .add ⟨1, -1, .emplace 6⟩ 0, .deactivate false]
    (fun s => (s.ops = [.emplace 5] ∧ s.collection.state = .deactivated) ∧
      ((threads (QueueContainer ℕ) 1).run s
        [.take ⟨2, 0, .item⟩ 0, .resumeAdding true false 0 0]).isSome = true) (by decide)
  obtain ⟨⟨hops, hstate⟩, hrun⟩ := of_decide_eq_true htest
  obtain ⟨s', hr⟩ := Option.isSome_iff_exists.mp hrun
  exact ⟨s, s', hops, deactivated_run hs hstate _ (by simp [thaws]) hr⟩

end State
end Mbtest.CodeMachina
