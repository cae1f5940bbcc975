import Mathlib.Data.Nat.Notation
import Mathlib.Data.List.Perm.Basic

/-! The threads that wait on a condition variable of the operating system, under a mutex that
each of them has released. -/
namespace Mbtest.Lib

/-- A thread that no longer sleeps waits for the mutex: it was `notified`, or it is `stray`
(it woke up on its own, or its time was over). -/
structure WaitSet (W : Type) where
  sleeping : List W
  notified : List W
  stray : List W
  deriving DecidableEq, Repr

namespace WaitSet
variable {W : Type}

def empty : WaitSet W := ⟨[], [], []⟩

variable (s : WaitSet W)

def waiting : List W := s.sleeping ++ (s.notified ++ s.stray)

def sleep (w : W) : WaitSet W := { s with sleeping := s.sleeping ++ [w] }

/-- `i` is the choice of the operating system. -/
def notifyOne (i : ℕ) : WaitSet W :=
  match s.sleeping[i % s.sleeping.length]? with
  | some w =>
    { s with
      sleeping := s.sleeping.eraseIdx (i % s.sleeping.length)
      notified := s.notified ++ [w] }
  | none => s

def notifyAll : WaitSet W := { s with sleeping := [], notified := s.notified ++ s.sleeping }

def wake (i : ℕ) : Option (WaitSet W) :=
  s.sleeping[i]?.map fun w =>
    { s with sleeping := s.sleeping.eraseIdx i, stray := s.stray ++ [w] }

def leave (isNotified : Bool) (i : ℕ) : Option (W × WaitSet W) :=
  if isNotified then s.notified[i]?.map fun w => (w, { s with notified := s.notified.eraseIdx i })
  else s.stray[i]?.map fun w => (w, { s with stray := s.stray.eraseIdx i })

variable {s}

@[simp] theorem sleeping_sleep (w : W) : (s.sleep w).sleeping = s.sleeping ++ [w] := rfl

@[simp] theorem notified_sleep (w : W) : (s.sleep w).notified = s.notified := rfl

@[simp] theorem sleeping_notifyAll : s.notifyAll.sleeping = [] := rfl

theorem notifyOne_of_nil (h : s.sleeping = []) (i : ℕ) : s.notifyOne i = s := by
  simp [notifyOne, h]

theorem notifyAll_of_nil (h : s.sleeping = []) : s.notifyAll = s := by
  cases s
  cases h
  simp [notifyAll]

theorem notifyOne_cases (i : ℕ) : (s.sleeping = [] ∧ s.notifyOne i = s) ∨
    ∃ w, w ∈ s.sleeping ∧ s.sleeping.Perm (w :: (s.notifyOne i).sleeping) ∧
      (s.notifyOne i).notified = s.notified ++ [w] ∧ (s.notifyOne i).stray = s.stray := by
  by_cases hnil : s.sleeping = []
  · exact .inl ⟨hnil, notifyOne_of_nil hnil i⟩
  · right
    have hi : i % s.sleeping.length < s.sleeping.length :=
      Nat.mod_lt _ (List.length_pos_iff.mpr hnil)
    refine ⟨s.sleeping[i % s.sleeping.length], List.getElem_mem hi, ?_, ?_, ?_⟩
    all_goals simp only [notifyOne, List.getElem?_eq_getElem hi]
    exact (List.getElem_cons_eraseIdx_perm hi).symm

theorem length_sleeping_notifyOne (i : ℕ) :
    (s.notifyOne i).sleeping.length = s.sleeping.length - 1 := by
  obtain ⟨hnil, heq⟩ | ⟨w, -, hperm, -⟩ := notifyOne_cases (s := s) i
  · rw [heq, hnil]
    rfl
  · rw [hperm.length_eq, List.length_cons]
    rfl

theorem wake_eq_some {t : WaitSet W} {i : ℕ} (h : s.wake i = some t) :
    ∃ w, s.sleeping.Perm (w :: t.sleeping) ∧ t.notified = s.notified ∧ t.stray = s.stray ++ [w] := by
  obtain ⟨w, hw, rfl⟩ := Option.map_eq_some_iff.mp h
  obtain ⟨hi, rfl⟩ := List.getElem?_eq_some_iff.mp hw
  exact ⟨_, (List.getElem_cons_eraseIdx_perm hi).symm, rfl, rfl⟩

theorem length_sleeping_wake {t : WaitSet W} {i : ℕ} (h : s.wake i = some t) :
    s.sleeping.length = t.sleeping.length + 1 := by
  obtain ⟨w, hperm, -⟩ := wake_eq_some h
  rw [hperm.length_eq, List.length_cons]

theorem leave_eq_some {t : WaitSet W} {w : W} {isNotified : Bool} {i : ℕ}
    (h : s.leave isNotified i = some (w, t)) : t.sleeping = s.sleeping ∧
      (isNotified = true ∧ s.notified.Perm (w :: t.notified) ∧ t.stray = s.stray ∨
        isNotified = false ∧ t.notified = s.notified ∧ s.stray.Perm (w :: t.stray)) := by
  unfold leave at h
  split_ifs at h with hnotified
  all_goals
    obtain ⟨v, hv, heq⟩ := Option.map_eq_some_iff.mp h
    obtain ⟨rfl, rfl⟩ := Prod.mk.injEq .. ▸ heq
    obtain ⟨hi, rfl⟩ := List.getElem?_eq_some_iff.mp hv
  · exact ⟨rfl, .inl ⟨hnotified, (List.getElem_cons_eraseIdx_perm hi).symm, rfl⟩⟩
  · exact ⟨rfl, .inr ⟨by simpa using hnotified, rfl, (List.getElem_cons_eraseIdx_perm hi).symm⟩⟩

section Waiting

variable (s) in
theorem length_sleeping_le : s.sleeping.length ≤ s.waiting.length := by
  rw [waiting, List.length_append]
  exact Nat.le_add_right _ _

theorem waiting_sleep (w : W) : (s.sleep w).waiting.Perm (w :: s.waiting) := by
  simp only [waiting, sleep, List.append_assoc, List.singleton_append]
  exact List.perm_middle

theorem waiting_notifyOne (i : ℕ) : (s.notifyOne i).waiting.Perm s.waiting := by
  obtain ⟨-, h⟩ | ⟨w, -, hperm, hnotified, hstray⟩ := notifyOne_cases (s := s) i
  · rw [h]
  · simp only [waiting, hnotified, hstray, List.append_assoc, List.singleton_append]
    refine List.Perm.trans ?_ (hperm.symm.append_right _)
    rw [List.cons_append, ← List.append_assoc]
    refine List.perm_middle.trans ?_
    rw [List.append_assoc]

theorem waiting_notifyAll : s.notifyAll.waiting.Perm s.waiting := by
  simp only [waiting, notifyAll, List.nil_append, List.append_assoc]
  rw [← List.append_assoc, ← List.append_assoc s.sleeping]
  exact List.perm_append_comm.append_right _

theorem waiting_wake {t : WaitSet W} {i : ℕ} (h : s.wake i = some t) :
    t.waiting.Perm s.waiting := by
  obtain ⟨w, hperm, hnotified, hstray⟩ := wake_eq_some h
  simp only [waiting, hnotified, hstray, ← List.append_assoc]
  refine List.perm_append_singleton _ _ |>.trans ?_
  rw [← List.cons_append, ← List.cons_append]
  exact (hperm.symm.append_right _).append_right _

theorem waiting_leave {t : WaitSet W} {w : W} {isNotified : Bool} {i : ℕ}
    (h : s.leave isNotified i = some (w, t)) : s.waiting.Perm (w :: t.waiting) := by
  obtain ⟨hsleeping, ⟨-, hnotified, hstray⟩ | ⟨-, hnotified, hstray⟩⟩ := leave_eq_some h
  · simp only [waiting, hsleeping, hstray]
    exact ((hnotified.append_right _).append_left _).trans List.perm_middle
  · simp only [waiting, hsleeping, hnotified]
    refine ((hstray.append_left _).append_left _).trans ?_
    rw [← List.append_assoc, ← List.append_assoc]
    exact List.perm_middle

end Waiting

/-- What one step does to the threads that wait: one of them may join or leave. -/
inductive Shift (Joins : W → Prop) (l l' : List W) : Prop
  | same : l'.Perm l → Shift Joins l l'
  | joins {w : W} : Joins w → l'.Perm (w :: l) → Shift Joins l l'
  | leaves {w : W} : l.Perm (w :: l') → Shift Joins l l'

namespace Shift
variable {Joins P : W → Prop} {l l' : List W}

theorem forall_mem (h : Shift Joins l l') (hl : ∀ w ∈ l, P w) (hjoins : ∀ w, Joins w → P w) :
    ∀ w ∈ l', P w := by
  intro v hv
  cases h with
  | same hperm => exact hl v (hperm.mem_iff.mp hv)
  | @joins w hw hperm =>
    obtain rfl | hold := List.mem_cons.mp (hperm.mem_iff.mp hv)
    · exact hjoins v hw
    · exact hl v hold
  | leaves hperm => exact hl v (hperm.mem_iff.mpr (List.mem_cons_of_mem _ hv))

end Shift

/-! ### Wake-ups that are not lost -/

/-- While a thread sleeps, each of `n` units of work has a thread that was notified. -/
def Covers (s : WaitSet W) (n : ℕ) : Prop := s.sleeping = [] ∨ n ≤ s.notified.length

namespace Covers

theorem zero : s.Covers 0 := .inr (Nat.zero_le _)

theorem of_nil (h : s.sleeping = []) (n : ℕ) : s.Covers n := .inl h

theorem mono {m n : ℕ} (h : s.Covers n) (hle : m ≤ n) : s.Covers m := h.imp_right (Nat.le_trans hle)

theorem notifyOne {n : ℕ} (h : s.Covers n) (i : ℕ) : (s.notifyOne i).Covers (n + 1) := by
  obtain ⟨hnil, heq⟩ | ⟨w, hmem, hperm, hnotified, -⟩ := notifyOne_cases (s := s) i
  · exact .inl (by rw [heq, hnil])
  · obtain hnil | hle := h
    · simp [hnil] at hmem
    · right
      simp [hnotified, hle]

/-- One notification is enough for any amount of work when at most one thread sleeps. -/
theorem notifyOne_of_length_le_one (h : s.sleeping.length ≤ 1) (n i : ℕ) :
    (s.notifyOne i).Covers n := by
  left
  rw [← List.length_eq_zero_iff, length_sleeping_notifyOne]
  exact Nat.sub_eq_zero_of_le h

theorem notifyAll (n : ℕ) : s.notifyAll.Covers n := .inl rfl

theorem wake {t : WaitSet W} {n i : ℕ} (h : s.Covers n) (ht : s.wake i = some t) :
    t.Covers n := by
  obtain ⟨w, hperm, hnotified, -⟩ := wake_eq_some ht
  obtain hnil | hle := h
  · simp [hnil] at hperm
  · exact .inr (hnotified ▸ hle)

/-- A stray thread takes nothing away from the threads that sleep. -/
theorem leave_stray {t : WaitSet W} {w : W} {n i : ℕ} (h : s.Covers n)
    (ht : s.leave false i = some (w, t)) : t.Covers n := by
  obtain ⟨hsleeping, ⟨hfalse, -, -⟩ | ⟨-, hnotified, -⟩⟩ := leave_eq_some ht
  · cases hfalse
  · exact h.imp (hsleeping ▸ ·) (hnotified ▸ ·)

/-- A notified thread that leaves does one unit of the work. -/
theorem leave {t : WaitSet W} {w : W} {isNotified : Bool} {n i : ℕ} (h : s.Covers (n + 1))
    (ht : s.leave isNotified i = some (w, t)) : t.Covers n := by
  obtain ⟨hsleeping, ⟨-, hnotified, -⟩ | ⟨-, hnotified, -⟩⟩ := leave_eq_some ht
  · have hlen := hnotified.length_eq
    rw [List.length_cons] at hlen
    exact h.imp (hsleeping ▸ ·) fun hle => by omega
  · exact h.imp (hsleeping ▸ ·) fun hle => hnotified ▸ Nat.le_of_succ_le hle

end Covers
end WaitSet
end Mbtest.Lib
