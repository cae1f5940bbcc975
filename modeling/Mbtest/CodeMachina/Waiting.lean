import Mbtest.CodeMachina.Ending

/-! What a step does to either condition variable, and to the threads that wait on it. -/
namespace Mbtest.CodeMachina
open Lib

variable {C T : Type} [ProducerConsumerCollection C T]

namespace ConditionVariable
variable {W : Type} {thread : W → ℕ}

theorem waiting_signal {v : ConditionVariable W} (strategy : SignalStrategy) (i : ℕ) :
    (v.signal strategy i).conditionVar.waiting.Perm v.conditionVar.waiting := by
  obtain hsame | hnotify := v.signal_waiting strategy i
  · rw [hsame]
  · exact hnotify ▸ WaitSet.waiting_notifyOne i

theorem waiting_detach {v : ConditionVariable W} (t i : ℕ) :
    (v.detach t i).conditionVar.waiting.Perm v.conditionVar.waiting := by
  obtain hsame | hnotify := v.detach_waiting t i
  · rw [hsame]
  · exact hnotify ▸ WaitSet.waiting_notifyOne i

theorem waiting_resume {v v' : ConditionVariable W} {isNotified timedOut : Bool} {k : ℕ}
    {waiter : W} (h : v.resume isNotified timedOut k = some (waiter, v')) :
    v.conditionVar.waiting.Perm (waiter :: v'.conditionVar.waiting) :=
  WaitSet.waiting_leave (resume_eq_some h).1

/-- What a section does to a condition variable while what its threads sleep for, items or free
places, goes from `n` to `n'`: it does not grow unless the section signals, or if `Slack`.
`count` is the number of items after the section. -/
inductive Changes (thread : W → ℕ) (Calls : W → Prop) (Slack : Prop) (count n n' : ℕ)
    (v : ConditionVariable W) : ConditionVariable W → Prop
  | same : n' ≤ n ∨ Slack → Changes thread Calls Slack count n n' v v
  | setSize : n' ≤ n ∨ Slack → Changes thread Calls Slack count n n' v (v.setSize count)
  | signal {strategy : SignalStrategy} {i : ℕ} :
    (∀ total itemCount capacity, strategy 0 total itemCount capacity = true) →
    Changes thread Calls Slack count n n' v ((v.setSize count).signal strategy i)
  | wait {waiter : W} : Calls waiter → n' = 0 →
    Changes thread Calls Slack count n n' v (v.wait waiter)
  | wake {k : ℕ} {waitSet : WaitSet W} : v.conditionVar.wake k = some waitSet → n' ≤ n →
    Changes thread Calls Slack count n n' v (v.withWaitSet waitSet)
  | broadcast : Changes thread Calls Slack count n n' v v.broadcast
  | attach {t : ℕ} : t ∉ v.conditionVar.waiting.map thread → n' ≤ n →
    Changes thread Calls Slack count n n' v (v.attach t)
  | detach {t i : ℕ} : t ∉ v.conditionVar.waiting.map thread → n' ≤ n →
    Changes thread Calls Slack count n n' v (v.detach t i)

/-- The same for a step, at whose beginning a thread may leave. -/
inductive Turn (thread : W → ℕ) (Calls : W → Prop) (Resumes : Bool → Bool → ℕ → Prop)
    (Slack : Prop) (count n n' : ℕ) (v v' : ConditionVariable W) : Prop
  | direct : Changes thread Calls Slack count n n' v v' →
    Turn thread Calls Resumes Slack count n n' v v'
  | resumed {isNotified timedOut : Bool} {k : ℕ} {waiter : W} {left : ConditionVariable W} :
    Resumes isNotified timedOut k → v.resume isNotified timedOut k = some (waiter, left) →
    Changes thread (· = waiter) Slack count n n' left v' →
    Turn thread Calls Resumes Slack count n n' v v'

variable {Calls : W → Prop} {Resumes : Bool → Bool → ℕ → Prop} {Slack : Prop} {count n n' : ℕ}
  {v v' : ConditionVariable W}

theorem Changes.mono (h : Changes thread Calls Slack count n n' v v') {Calls' : W → Prop}
    (hcalls : ∀ w, Calls w → Calls' w) {Slack' : Prop} (hslack : Slack → Slack') :
    Changes thread Calls' Slack' count n n' v v' := by
  cases h with
  | same hle => exact .same (hle.imp_right hslack)
  | setSize hle => exact .setSize (hle.imp_right hslack)
  | signal hstrategy => exact .signal hstrategy
  | wait hw hzero => exact .wait (hcalls _ hw) hzero
  | wake hwake hle => exact .wake hwake hle
  | broadcast => exact .broadcast
  | attach hidle hle => exact .attach hidle hle
  | detach hidle hle => exact .detach hidle hle

theorem Changes.waiting (h : Changes thread Calls Slack count n n' v v') :
    v'.conditionVar.waiting.Perm v.conditionVar.waiting ∨
      ∃ w, Calls w ∧ v'.conditionVar.waiting.Perm (w :: v.conditionVar.waiting) := by
  cases h with
  | same => exact .inl .rfl
  | setSize => exact .inl .rfl
  | signal => exact .inl (waiting_signal _ _)
  | wait hcalls => exact .inr ⟨_, hcalls, WaitSet.waiting_sleep _⟩
  | wake hwake => exact .inl (WaitSet.waiting_wake hwake)
  | broadcast => exact .inl WaitSet.waiting_notifyAll
  | attach => exact .inl (by rw [attach_conditionVar])
  | detach => exact .inl (waiting_detach _ _)

theorem Turn.shift (h : Turn thread Calls Resumes Slack count n n' v v') :
    WaitSet.Shift Calls v.conditionVar.waiting v'.conditionVar.waiting := by
  cases h with
  | direct h =>
    obtain hsame | ⟨w, hw, hjoins⟩ := h.waiting
    · exact .same hsame
    · exact .joins hw hjoins
  | resumed _ hresume h =>
    have hleaves := waiting_resume hresume
    obtain hsame | ⟨w, rfl, hagain⟩ := h.waiting
    · exact .leaves (hleaves.trans (hsame.symm.cons _))
    · exact .same (hagain.trans hleaves.symm)

theorem Changes.counts (h : Changes thread Calls Slack count n n' v v') (hv : v.Counts) :
    v'.Counts := by
  cases h with
  | same => exact hv
  | setSize => exact hv.setSize count
  | signal => exact (hv.setSize count).signal _ _
  | wait => exact hv.wait _
  | wake => exact hv.withWaitSet _
  | broadcast => exact hv.broadcast
  | attach => exact hv.attach _
  | detach => exact hv.detach _ _

theorem Turn.counts (h : Turn thread Calls Resumes Slack count n n' v v') (hv : v.Counts) :
    v'.Counts := by
  cases h with
  | direct h => exact h.counts hv
  | resumed _ hresume h => exact h.counts (hv.resume hresume)

theorem Changes.size (h : Changes thread Calls Slack count n n' v v') :
    v'.boundedCapacity = v.boundedCapacity ∧ (v'.itemCount = v.itemCount ∨ v'.itemCount = count) := by
  cases h with
  | same => exact ⟨rfl, .inl rfl⟩
  | setSize => exact ⟨rfl, .inr rfl⟩
  | signal =>
    unfold ConditionVariable.signal
    split_ifs <;> exact ⟨rfl, .inr rfl⟩
  | wait => exact ⟨rfl, .inl rfl⟩
  | wake => exact ⟨rfl, .inl rfl⟩
  | broadcast => exact ⟨rfl, .inl rfl⟩
  | attach =>
    unfold ConditionVariable.attach
    split_ifs <;> exact ⟨rfl, .inl rfl⟩
  | detach =>
    unfold ConditionVariable.detach signalIfNoneActive remove
    split_ifs <;> exact ⟨rfl, .inl rfl⟩

theorem Turn.size (h : Turn thread Calls Resumes Slack count n n' v v') :
    v'.boundedCapacity = v.boundedCapacity ∧ (v'.itemCount = v.itemCount ∨ v'.itemCount = count) := by
  cases h with
  | direct h => exact h.size
  | resumed _ hresume h =>
    have hleft := (resume_eq_some hresume).2
    rw [hleft] at h
    split_ifs at h <;> exact h.size

end ConditionVariable

namespace BlockingCollection
open ConditionVariable

def waitingConsumers (c : BlockingCollection C) : List (Consumer C) :=
  c.notEmptyConditionVar.conditionVar.waiting

def waitingProducers (c : BlockingCollection C) : List (Producer T) :=
  c.notFullConditionVar.conditionVar.waiting

def places (c : BlockingCollection C) : ℕ :=
  if c.boundedCapacity = sizeMax then 0 else c.boundedCapacity - size c.container

theorem notEmptySignalStrategy_zero (itemsPerThread total itemCount capacity : ℕ) :
    notEmptySignalStrategy itemsPerThread 0 total itemCount capacity = true := by
  simp [notEmptySignalStrategy]

theorem notFullSignalStrategy_zero (itemsPerThread total itemCount capacity : ℕ) :
    notFullSignalStrategy itemsPerThread 0 total itemCount capacity = true := by
  simp [notFullSignalStrategy]

variable {c : BlockingCollection C}

theorem waits_eq_false {thread : ℕ} (h : c.waits thread = false) :
    thread ∉ c.waitingConsumers.map (·.thread) ∧ thread ∉ c.waitingProducers.map (·.thread) := by
  simpa [waits, waitingConsumers, waitingProducers] using h

theorem places_le {c' : BlockingCollection C} (hcapacity : c'.boundedCapacity = c.boundedCapacity)
    (hsize : size c.container ≤ size c'.container) : c'.places ≤ c.places := by
  unfold places
  rw [hcapacity]
  split_ifs
  · exact le_rfl
  · exact Nat.sub_le_sub_left hsize _

section Ends
variable {producer : Producer T} {consumer : Consumer C} {timedOut : Bool}
  {i : ℕ} {r : BlockingCollection C × Option (Event C)}

theorem AddingEnds.consumers (h : AddingEnds c producer timedOut i r) :
    Changes Consumer.thread (fun _ => False) False (size r.1.container) (size c.container)
      (size r.1.container) c.notEmptyConditionVar r.1.notEmptyConditionVar := by
  cases h with
  | waits => exact .same (.inl le_rfl)
  | adds => exact .signal (notEmptySignalStrategy_zero 16)
  | fails => exact .same (.inl le_rfl)

theorem TakingEnds.producers (h : TakingEnds c consumer timedOut i r) :
    Changes Producer.thread (fun _ => False) (consumer.call.signals = false)
      (size r.1.container) c.places r.1.places c.notFullConditionVar r.1.notFullConditionVar := by
  cases h with
  | waits => exact .same (.inl le_rfl)
  | @takes items container =>
    simp only []
    split_ifs with hsignals
    · by_cases hmax : c.boundedCapacity = sizeMax
      · have hsame : (signal (c.withContainer container) (size container) true i).notFullConditionVar
            = c.notFullConditionVar.setSize (size container) := by
          simp [signal, withContainer, hmax]
        rw [hsame]
        exact .setSize (.inl (by simp [places, signal, withContainer, hmax]))
      · have hsignal : (signal (c.withContainer container) (size container) true i
            ).notFullConditionVar = (c.notFullConditionVar.setSize (size container)).signal
              (notFullSignalStrategy 16) i := by
          simp [signal, withContainer, hmax]
        rw [hsignal]
        exact .signal (notFullSignalStrategy_zero 16)
    · exact .same (.inr (by simpa using hsignals))
  | fails => exact .same (.inl le_rfl)

variable [LawfulCollection C]

theorem AddingEnds.producers (h : AddingEnds c producer timedOut i r) :
    Changes Producer.thread (· = producer) False (size r.1.container) c.places r.1.places
      c.notFullConditionVar r.1.notFullConditionVar := by
  cases h with
  | waits hfull =>
    obtain ⟨hmax, hle⟩ := isFull_iff.mp hfull
    exact .wait rfl ((if_neg hmax).trans (Nat.sub_eq_zero_of_le hle))
  | @adds added container _ _ _ _ _ hruns =>
    have hsize := hruns.size
    rw [(producer.call.map_op _).1, (producer.call.map_op _).2, List.length_nil] at hsize
    exact .setSize (.inl (places_le rfl (by change _ ≤ size container; omega)))
  | fails => exact .same (.inl le_rfl)

theorem TakingEnds.consumers (h : TakingEnds c consumer timedOut i r) :
    Changes Consumer.thread (· = consumer) False (size r.1.container) (size c.container)
      (size r.1.container) c.notEmptyConditionVar r.1.notEmptyConditionVar := by
  cases h with
  | waits hempty => exact .wait rfl hempty
  | @takes items container _ _ _ hruns =>
    have hsize := hruns.size
    rw [(consumer.call.map_op _).1, (consumer.call.map_op _).2, List.length_nil] at hsize
    have hle : size container ≤ size c.container := by omega
    simp only []
    split_ifs
    · exact .setSize (.inl hle)
    · exact .same (.inl hle)
  | fails => exact .same (.inl le_rfl)

end Ends
end BlockingCollection

namespace State
open BlockingCollection ConditionVariable

/-- The steps that may make room without a signal. -/
def unsignalled (s : State C) : Action C → Bool
  | .take consumer _ => !consumer.call.signals
  | .resumeTaking isNotified _ k _ =>
    (s.collection.notEmptyConditionVar.conditionVar.leave isNotified k).any
      (fun r => !r.1.call.signals)
  | .flush => true
  | _ => false

def takes (s : State C) (a : Action C) (consumer : Consumer C) : Prop :=
  (∃ i, a = .take consumer i) ∧ s.collection.waits consumer.thread = false ∧
    0 < consumer.call.count

def adds (s : State C) (a : Action C) (producer : Producer T) : Prop :=
  (∃ i, a = .add producer i) ∧ s.collection.waits producer.thread = false

variable {s s' : State C} {a : Action C} [LawfulCollection C]

theorem size_flush (s : State C) : size (s.finish s.collection.flush).collection.container = 0 :=
  (Takes.take.size_takeBulk _ _).trans (Nat.sub_self _)

theorem Moves.consumers (h : s.Moves a s') : Turn Consumer.thread (s.takes a)
    (fun isNotified timedOut k => ∃ i, a = .resumeTaking isNotified timedOut k i) False
    (size s'.collection.container) (size s.collection.container) (size s'.collection.container)
    s.collection.notEmptyConditionVar s'.collection.notEmptyConditionVar := by
  cases h with
  | add _ hends => exact .direct (hends.consumers.mono nofun id)
  | take hidle hcount hends =>
    refine .direct (hends.consumers.mono ?_ id)
    rintro _ rfl
    exact ⟨⟨_, rfl⟩, hidle, hcount⟩
  | takeNothing => exact .direct (.same (.inl le_rfl))
  | resumeAdding _ hends => exact .direct (hends.consumers.mono nofun id)
  | resumeTaking hresume hends => exact .resumed ⟨_, rfl⟩ hresume hends.consumers
  | wakeProducer => exact .direct (.same (.inl le_rfl))
  | wakeConsumer hwake => exact .direct (.wake hwake le_rfl)
  | completeAdding =>
    simp only [withCollection, BlockingCollection.completeAdding]
    split_ifs
    · exact .direct (.same (.inl le_rfl))
    · exact .direct .broadcast
  | deactivate =>
    simp only [withCollection, BlockingCollection.deactivate]
    split_ifs
    · exact .direct (.same (.inl le_rfl))
    · exact .direct .broadcast
    · exact .direct .broadcast
  | activate => exact .direct (.same (.inl le_rfl))
  | flush =>
    rw [size_flush]
    exact .direct (.setSize (.inl (Nat.zero_le _)))
  | attachProducer => exact .direct (.same (.inl le_rfl))
  | detachProducer => exact .direct (.same (.inl le_rfl))
  | attachConsumer hidle => exact .direct (.attach (waits_eq_false hidle).1 le_rfl)
  | detachConsumer hidle => exact .direct (.detach (waits_eq_false hidle).1 le_rfl)

theorem Moves.producers (h : s.Moves a s') : Turn Producer.thread (s.adds a)
    (fun isNotified timedOut k => ∃ i, a = .resumeAdding isNotified timedOut k i)
    (s.unsignalled a = true) (size s'.collection.container) s.collection.places
    s'.collection.places s.collection.notFullConditionVar s'.collection.notFullConditionVar := by
  cases h with
  | add hidle hends =>
    refine .direct (hends.producers.mono ?_ nofun)
    rintro _ rfl
    exact ⟨⟨_, rfl⟩, hidle⟩
  | take _ _ hends => exact .direct (hends.producers.mono nofun (by simp [unsignalled]))
  | takeNothing => exact .direct (.same (.inl le_rfl))
  | resumeAdding hresume hends =>
    exact .resumed ⟨_, rfl⟩ hresume (hends.producers.mono (fun _ => id) nofun)
  | resumeTaking hresume hends =>
    refine .direct (hends.producers.mono nofun fun hsignals => ?_)
    simp [unsignalled, (resume_eq_some hresume).1, hsignals]
  | wakeProducer hwake => exact .direct (.wake hwake le_rfl)
  | wakeConsumer => exact .direct (.same (.inl le_rfl))
  | completeAdding =>
    simp only [withCollection, BlockingCollection.completeAdding]
    split_ifs
    · exact .direct (.same (.inl le_rfl))
    · exact .direct .broadcast
  | deactivate =>
    simp only [withCollection, BlockingCollection.deactivate]
    split_ifs
    · exact .direct (.same (.inl le_rfl))
    · exact .direct .broadcast
    · exact .direct .broadcast
  | activate => exact .direct (.same (.inl le_rfl))
  | flush =>
    rw [size_flush]
    exact .direct (.setSize (.inr rfl))
  | attachProducer hidle => exact .direct (.attach (waits_eq_false hidle).2 le_rfl)
  | detachProducer hidle => exact .direct (.detach (waits_eq_false hidle).2 le_rfl)
  | attachConsumer => exact .direct (.same (.inl le_rfl))
  | detachConsumer => exact .direct (.same (.inl le_rfl))

end State
end Mbtest.CodeMachina
