import Mathlib.Data.List.DropRight
import Mathlib.Data.List.Perm.Basic
import Mathlib.Data.Int.Order.Basic
import Mathlib.Tactic.SplitIfs

/-! Lists in descending order of priority in which items of one priority keep the order in
which they came, for a comparison with the result of a three-way comparison. -/
namespace Mbtest.Lib

class LawfulComparer {T : Type} (compare : T → T → ℤ) : Prop where
  swap (x y : T) : 0 ≤ compare x y ↔ compare y x ≤ 0
  trans {x y z : T} : 0 ≤ compare x y → 0 ≤ compare y z → 0 ≤ compare x z

namespace PriorityList
variable {T : Type} (compare : T → T → ℤ)

def Descending (l : List T) : Prop := l.Pairwise fun x y => 0 ≤ compare x y

def ofPriority (x : T) (l : List T) : List T := l.filter fun y => compare x y = 0

/-- Insert behind the last item that does not have a lower priority. -/
def insertBehind (item : T) (l : List T) : List T :=
  l.rdropWhile (fun x => compare x item < 0) ++ item :: l.rtakeWhile fun x => compare x item < 0

@[simp] theorem ofPriority_nil (x : T) : ofPriority compare x [] = [] := rfl

@[simp] theorem ofPriority_append (x : T) (l l' : List T) :
    ofPriority compare x (l ++ l') = ofPriority compare x l ++ ofPriority compare x l' :=
  List.filter_append ..

variable {compare}

theorem perm_insertBehind (item : T) (l : List T) :
    (insertBehind compare item l).Perm (item :: l) := by
  unfold insertBehind
  refine List.perm_middle.trans (List.Perm.cons item ?_)
  rw [List.rdropWhile_append_rtakeWhile]

theorem descending_append {l l' : List T} : Descending compare (l ++ l') ↔
    Descending compare l ∧ Descending compare l' ∧ ∀ x ∈ l, ∀ y ∈ l', 0 ≤ compare x y :=
  List.pairwise_append

variable (compare) in
theorem rtakeWhile_neg (item : T) (l : List T) :
    ∀ x ∈ l.rtakeWhile fun x => compare x item < 0, compare x item < 0 := by
  intro x hx
  simpa using List.mem_rtakeWhile_imp hx

theorem Descending.remove {item : T} {before behind : List T}
    (h : Descending compare (before ++ item :: behind)) : Descending compare (before ++ behind) :=
  h.sublist ((List.Sublist.refl before).append (List.sublist_cons_self item behind))

theorem ofPriority_eq_nil {x : T} {l : List T}
    (h : (∀ y ∈ l, 0 < compare x y) ∨ ∀ y ∈ l, compare x y < 0) : ofPriority compare x l = [] := by
  refine List.filter_eq_nil_iff.mpr fun y hy => ?_
  rw [decide_eq_true_eq]
  obtain h | h := h
  · exact (h y hy).ne'
  · exact (h y hy).ne

theorem Descending.eq_or_getLast_le {l : List T} (h : Descending compare l) (hnil : l ≠ [])
    {x : T} (hx : x ∈ l) : x = l.getLast hnil ∨ 0 ≤ compare x (l.getLast hnil) := by
  rw [← List.dropLast_append_getLast hnil, descending_append] at h
  rw [← List.dropLast_append_getLast hnil, List.mem_append, List.mem_singleton] at hx
  obtain hx | rfl := hx
  · exact .inr (h.2.2 x hx _ (List.mem_singleton.mpr rfl))
  · exact .inl rfl

/-- A test that stays true towards the end of the list fails for everything that
`rdropWhile` leaves. -/
theorem not_of_mem_rdropWhile {l : List T} (h : Descending compare l) {p : T → Bool}
    (hp : ∀ x y, 0 ≤ compare x y → p x = true → p y = true) {x : T} (hx : x ∈ l.rdropWhile p) :
    p x = false := by
  have hnil : l.rdropWhile p ≠ [] := List.ne_nil_of_mem hx
  have hlast : p ((l.rdropWhile p).getLast hnil) = false := by
    simpa using List.rdropWhile_last_not _ _ hnil
  have hdescending : Descending compare (l.rdropWhile p) :=
    h.sublist (List.rdropWhile_prefix p l).sublist
  obtain rfl | hge := hdescending.eq_or_getLast_le hnil hx
  · exact hlast
  · exact Bool.eq_false_iff.mpr fun hpx => Bool.eq_false_iff.mp hlast (hp _ _ hge hpx)

/-- A list holds what was put into it and not removed: in descending order of priority, and
each priority first in, first out. -/
structure InOrder (compare : T → T → ℤ) (puts removals l : List T) : Prop where
  descending : Descending compare l
  fifo (x : T) : ofPriority compare x puts = ofPriority compare x removals ++ ofPriority compare x l

theorem InOrder.empty : InOrder compare [] [] [] := ⟨.nil, fun _ => rfl⟩

section Lawful
variable [LawfulComparer compare]

theorem compare_self (x : T) : compare x x = 0 := by
  have h : 0 ≤ compare x x ↔ compare x x ≤ 0 := LawfulComparer.swap x x
  omega

theorem Descending.getLast_le {l : List T} (h : Descending compare l) (hnil : l ≠ []) {x : T}
    (hx : x ∈ l) : 0 ≤ compare x (l.getLast hnil) := by
  obtain heq | hge := h.eq_or_getLast_le hnil hx
  · exact heq ▸ (compare_self x).ge
  · exact hge

theorem compare_pos {x y : T} : 0 < compare x y ↔ compare y x < 0 := by
  have h : 0 ≤ compare y x ↔ compare x y ≤ 0 := LawfulComparer.swap y x
  omega

theorem compare_eq_zero_comm {x y : T} : compare x y = 0 ↔ compare y x = 0 := by
  have h : 0 ≤ compare x y ↔ compare y x ≤ 0 := LawfulComparer.swap x y
  have h' : 0 ≤ compare y x ↔ compare x y ≤ 0 := LawfulComparer.swap y x
  omega

theorem nonneg_congr {x y : T} (h : compare x y = 0) (z : T) :
    0 ≤ compare z x ↔ 0 ≤ compare z y := by
  constructor <;> intro hz
  · exact LawfulComparer.trans hz h.ge
  · exact LawfulComparer.trans hz (compare_eq_zero_comm.mp h).ge

theorem nonpos_congr {x y : T} (h : compare x y = 0) (z : T) :
    compare z x ≤ 0 ↔ compare z y ≤ 0 := by
  rw [← LawfulComparer.swap x z, ← LawfulComparer.swap y z]
  constructor <;> intro hz
  · exact LawfulComparer.trans (compare_eq_zero_comm.mp h).ge hz
  · exact LawfulComparer.trans h.ge hz

theorem rdropWhile_nonneg {l : List T} (h : Descending compare l)
    (item : T) : ∀ x ∈ l.rdropWhile fun x => compare x item < 0, 0 ≤ compare x item := by
  intro x hx
  refine not_lt.mp (decide_eq_false_iff_not.mp (not_of_mem_rdropWhile h ?_ hx))
  intro x y hxy hx
  rw [decide_eq_true_eq] at hx ⊢
  have htrans := LawfulComparer.trans (z := item) hxy
  omega

theorem rdropWhile_pos {l : List T} (h : Descending compare l)
    (item : T) : ∀ x ∈ l.rdropWhile fun x => compare x item ≤ 0, 0 < compare x item := by
  intro x hx
  refine not_le.mp (decide_eq_false_iff_not.mp (not_of_mem_rdropWhile h ?_ hx))
  intro x y hxy hx
  rw [decide_eq_true_eq, ← LawfulComparer.swap] at hx ⊢
  exact LawfulComparer.trans hx hxy

theorem Descending.insertBehind {l : List T} (h : Descending compare l) (item : T) :
    Descending compare (insertBehind compare item l) := by
  have hbefore := rdropWhile_nonneg h item
  have hbehind := rtakeWhile_neg compare item l
  rw [← List.rdropWhile_append_rtakeWhile (p := fun x => compare x item < 0) (l := l),
    descending_append] at h
  obtain ⟨hdrop, htake, hacross⟩ := h
  refine descending_append.mpr ⟨hdrop, List.pairwise_cons.mpr ⟨fun x hx => ?_, htake⟩, ?_⟩
  · exact (compare_pos.mpr (hbehind x hx)).le
  · intro x hx y hy
    obtain rfl | hy := List.mem_cons.mp hy
    · exact hbefore x hx
    · exact hacross x hx y hy

/-- A new item comes behind all items of its priority and changes no other priority. -/
theorem ofPriority_insertBehind (x item : T) (l : List T) :
    ofPriority compare x (insertBehind compare item l) =
      ofPriority compare x l ++ ofPriority compare x [item] := by
  have hbehind := rtakeWhile_neg compare item l
  conv_rhs =>
    rw [← List.rdropWhile_append_rtakeWhile (p := fun x => compare x item < 0) (l := l)]
  unfold PriorityList.insertBehind
  rw [List.append_cons, ofPriority_append, ofPriority_append, ofPriority_append, List.append_assoc,
    List.append_assoc]
  congr 1
  by_cases hx : compare x item = 0
  · have hnil : ofPriority compare x (l.rtakeWhile fun y => compare y item < 0) = [] := by
      refine ofPriority_eq_nil (.inl fun y hy => ?_)
      have hneg := hbehind y hy
      rw [compare_pos]
      have h := nonneg_congr hx y
      omega
    simp [hnil]
  · simp [ofPriority, hx]

/-- An item with no other of its priority before it is the next one of its priority. -/
theorem ofPriority_remove {item : T} {before behind : List T}
    (h : ∀ y ∈ before, 0 < compare y item) (x : T) :
    ofPriority compare x (before ++ item :: behind) =
      ofPriority compare x [item] ++ ofPriority compare x (before ++ behind) := by
  rw [List.append_cons, ofPriority_append, ofPriority_append, ofPriority_append,
    ← List.append_assoc]
  congr 1
  by_cases hx : compare x item = 0
  · have hnil : ofPriority compare x before = [] := by
      refine ofPriority_eq_nil (.inr fun y hy => ?_)
      have hpos := h y hy
      rw [← compare_pos]
      have h' := nonpos_congr hx y
      omega
    simp [hnil]
  · simp [ofPriority, hx]

namespace InOrder
variable {puts removals : List T} {item : T}

theorem insert {l : List T} (h : InOrder compare puts removals l) :
    InOrder compare (puts ++ [item]) removals (PriorityList.insertBehind compare item l) where
  descending := h.descending.insertBehind item
  fifo x := by rw [ofPriority_append, h.fifo, ofPriority_insertBehind, List.append_assoc]

theorem remove {before behind : List T}
    (h : InOrder compare puts removals (before ++ item :: behind))
    (hbefore : ∀ y ∈ before, 0 < compare y item) :
    InOrder compare puts (removals ++ [item]) (before ++ behind) where
  descending := h.descending.remove
  fifo x := by
    rw [h.fifo, ofPriority_remove hbefore, ofPriority_append compare x removals,
      List.append_assoc]

end InOrder
end Lawful
end PriorityList
end Mbtest.Lib
