import Mbtest.CodeMachina.Containers
import Mbtest.Lib.PriorityList
import Mathlib.Order.Lattice

/-! The container that keeps its items in the order of their priority, highest first. -/
namespace Mbtest.CodeMachina
open Lib Lib.PriorityList

structure PriorityContainer (T : Type) (comparer : T → T → ℤ) where
  boundedCapacity : ℕ
  container : List T
  deriving DecidableEq, Repr

/-- `PriorityComparer::operator()` -/
def priorityComparer {T : Type} [LinearOrder T] (x y : T) : ℤ :=
  if x < y then -1 else if x > y then 1 else 0

instance {T : Type} [LinearOrder T] : LawfulComparer (priorityComparer (T := T)) where
  swap x y := by
    unfold priorityComparer
    obtain h | h | h := lt_trichotomy x y
    · simp [h, h.not_gt]
    · simp [h]
    · simp [h, h.not_gt]
  trans {x y z} hxy hyz := by
    have hle : ∀ {x y : T}, 0 ≤ priorityComparer x y ↔ y ≤ x := by
      intro x y
      unfold priorityComparer
      obtain h | h | h := lt_trichotomy x y
      · simp [h, h.not_ge]
      · simp [h]
      · simp [h.not_gt, h, h.le]
    exact hle.mpr ((hle.mp hyz).trans (hle.mp hxy))

namespace PriorityContainer
variable {T : Type} {comparer : T → T → ℤ} (c : PriorityContainer T comparer)

def emplaceFront (item : T) : PriorityContainer T comparer :=
  { c with container := item :: c.container }

def emplaceBack (item : T) : PriorityContainer T comparer :=
  { c with container := c.container ++ [item] }

/-- `itr.base()` is as far from the end as `itr` is from `rbegin()`. -/
def emplaceBehind (i : ℕ) (item : T) : PriorityContainer T comparer :=
  { c with container := c.container.insertIdx (c.container.length - i) item }

def tryEmplace (item : T) : Option (PriorityContainer T comparer) :=
  if c.container.length = c.boundedCapacity then none
  else if c.container.isEmpty then some (c.emplaceFront item)
  else
    match c.container.reverse.findIdx? fun x => 0 ≤ comparer x item with
    | none => some (c.emplaceFront item)
    | some 0 => some (c.emplaceBack item)
    | some i => some (c.emplaceBehind i item)

def tryAdd (item : T) : Option (PriorityContainer T comparer) :=
  if c.container.length = c.boundedCapacity then none else c.tryEmplace item

def tryTake : Option (T × PriorityContainer T comparer) :=
  match c.container with
  | [] => none
  | item :: rest => some (item, { c with container := rest })

/-- How many more items the search in `try_take_prio` passes. -/
def continueSearch (comparer : T → T → ℤ) (currentPriority : T) : List T → ℕ
  | [] => 0
  | item :: rest =>
    if comparer item currentPriority ≤ 0 then continueSearch comparer item rest + 1 else 0

/-- Where the search of `std::find_if_not` ends, counted from `rbegin()`. -/
def lowestPriority : ℕ :=
  match c.container.reverse with
  | [] => 0
  | item :: rest => continueSearch comparer item rest + 1

def eraseAt (i : ℕ) : Option (T × PriorityContainer T comparer) :=
  c.container[i]?.map fun item => (item, { c with container := c.container.eraseIdx i })

def tryTakePrio : Option (T × PriorityContainer T comparer) :=
  if c.container.isEmpty then none
  else if c.lowestPriority = c.container.length then c.tryTake
  else c.eraseAt (c.container.length - c.lowestPriority)

instance : ProducerConsumerCollection (PriorityContainer T comparer) T where
  new boundedCapacity := ⟨boundedCapacity, []⟩
  size c := c.container.length
  tryAdd := tryAdd
  tryEmplace := tryEmplace
  tryTake := tryTake
  tryTakePrio := some tryTakePrio

variable {c} {c' : PriorityContainer T comparer} {item : T}

private theorem insertIdx_length_append (before behind : List T) (item : T) :
    (before ++ behind).insertIdx before.length item = before ++ item :: behind := by
  induction before with
  | nil => simp
  | cons x before ih => simp [ih]

private theorem insertBehind_eq_insertIdx (item : T) (l : List T) :
    insertBehind comparer item l =
      l.insertIdx (l.length - l.reverse.findIdx fun x => 0 ≤ comparer x item) item := by
  have hlength : (l.rdropWhile fun x => comparer x item < 0).length =
      l.length - l.reverse.findIdx fun x => 0 ≤ comparer x item := by
    have hsum := congrArg List.length
      (List.rdropWhile_append_rtakeWhile (p := fun x => comparer x item < 0) (l := l))
    have htake : (l.rtakeWhile fun x => comparer x item < 0).length =
        l.reverse.findIdx fun x => 0 ≤ comparer x item := by
      have hle : (l.reverse.findIdx fun x => 0 ≤ comparer x item) ≤ l.reverse.length :=
        List.findIdx_le_length
      rw [List.rtakeWhile, List.length_reverse, List.takeWhile_eq_take_findIdx_not]
      simp only [← decide_not, not_lt, List.length_take]
      omega
    rw [List.length_append] at hsum
    omega
  have hinsert := insertIdx_length_append (l.rdropWhile fun x => comparer x item < 0)
    (l.rtakeWhile fun x => comparer x item < 0) item
  rw [List.rdropWhile_append_rtakeWhile, hlength] at hinsert
  exact hinsert.symm

/-- The three cases of `try_emplace` are one insertion. -/
theorem tryEmplace_eq_some (h : c.tryEmplace item = some c') :
    c.container.length ≠ c.boundedCapacity ∧
      c' = { c with container := insertBehind comparer item c.container } := by
  unfold tryEmplace at h
  split_ifs at h with hfull hempty
  · refine ⟨hfull, ?_⟩
    cases h
    rw [List.isEmpty_iff] at hempty
    simp [emplaceFront, hempty, insertBehind]
  · refine ⟨hfull, ?_⟩
    rw [insertBehind_eq_insertIdx]
    cases hfind : c.container.reverse.findIdx? fun x => 0 ≤ comparer x item with
    | none =>
      rw [hfind] at h
      cases h
      rw [List.findIdx?_eq_none_iff_findIdx_eq] at hfind
      simp [emplaceFront, hfind]
    | some i =>
      rw [hfind] at h
      obtain ⟨-, hi⟩ := List.findIdx?_eq_some_iff_findIdx_eq.mp hfind
      rw [hi]
      cases i <;> cases h
      · simp [emplaceBack]
      · rfl

theorem tryEmplace_eq_none : c.tryEmplace item = none ↔ c.container.length = c.boundedCapacity := by
  unfold tryEmplace
  split_ifs with hfull
  · simp [hfull]
  · simp [hfull]
  · simp only [hfull, iff_false]
    split <;> simp

theorem tryAdd_eq_tryEmplace : c.tryAdd item = c.tryEmplace item := by
  unfold tryAdd
  split_ifs with hfull
  · exact (tryEmplace_eq_none.mpr hfull).symm
  · rfl

theorem tryTake_eq_some (h : c.tryTake = some (item, c')) :
    c.container = item :: c'.container ∧ c'.boundedCapacity = c.boundedCapacity := by
  unfold tryTake at h
  cases hc : c.container with
  | nil => simp [hc] at h
  | cons first rest =>
    rw [hc] at h
    cases h
    exact ⟨rfl, rfl⟩

theorem tryTake_eq_none : c.tryTake = none ↔ c.container.length = 0 := by
  unfold tryTake
  cases c.container <;> simp

theorem continueSearch_le (current : T) (l : List T) :
    continueSearch comparer current l ≤ l.length := by
  induction l generalizing current with
  | nil => exact le_rfl
  | cons x l ih =>
    unfold continueSearch
    split_ifs
    · exact Nat.succ_le_succ (ih x)
    · exact Nat.zero_le _

theorem lowestPriority_bounds (h : c.container ≠ []) :
    0 < c.lowestPriority ∧ c.lowestPriority ≤ c.container.length := by
  unfold lowestPriority
  cases hreverse : c.container.reverse with
  | nil => exact absurd (List.reverse_eq_nil_iff.mp hreverse) h
  | cons last rest =>
    have hlength := congrArg List.length hreverse
    rw [List.length_reverse, List.length_cons] at hlength
    have hle : continueSearch comparer last rest ≤ rest.length := continueSearch_le last rest
    exact ⟨Nat.succ_pos _, by simp only []; omega⟩

/-- `try_take_prio` erases the item at which its search ended. -/
theorem tryTakePrio_eq_some (h : c.tryTakePrio = some (item, c')) :
    c'.boundedCapacity = c.boundedCapacity ∧ ∃ before behind,
      c.container = before ++ item :: behind ∧ c'.container = before ++ behind ∧
      before.length = c.container.length - c.lowestPriority := by
  unfold tryTakePrio at h
  split_ifs at h with hempty hall
  · obtain ⟨hc, hcapacity⟩ := tryTake_eq_some h
    exact ⟨hcapacity, [], c'.container, hc, rfl, by rw [hall, Nat.sub_self]; rfl⟩
  · obtain ⟨x, hx, heq⟩ := Option.map_eq_some_iff.mp h
    cases heq
    obtain ⟨hi, rfl⟩ := List.getElem?_eq_some_iff.mp hx
    refine ⟨rfl, c.container.take (c.container.length - c.lowestPriority),
      c.container.drop (c.container.length - c.lowestPriority + 1), ?_, ?_, ?_⟩
    · rw [← List.drop_eq_getElem_cons, List.take_append_drop]
    · exact List.eraseIdx_eq_take_drop_succ ..
    · rw [List.length_take]
      omega

theorem tryTakePrio_eq_none : c.tryTakePrio = none ↔ c.container.length = 0 := by
  unfold tryTakePrio
  split_ifs with hempty hall
  · simpa using hempty
  · exact tryTake_eq_none
  · have hbounds := lowestPriority_bounds (by simpa using hempty)
    have hne : c.container.length ≠ 0 := by omega
    simp only [eraseAt, Option.map_eq_none_iff, List.getElem?_eq_none_iff, hne, iff_false]
    omega

section Lawful
variable [LawfulComparer comparer]

theorem continueSearch_eq (current : T) (l : List T) (hl : (current :: l).reverse.Pairwise
    fun x y => 0 ≤ comparer x y) : continueSearch comparer current l =
      (l.takeWhile fun x => comparer x current ≤ 0).length := by
  induction l generalizing current with
  | nil => rfl
  | cons x l ih =>
    rw [List.reverse_cons, List.pairwise_append] at hl
    obtain ⟨hrest, -, hcurrent⟩ := hl
    have hge : 0 ≤ comparer x current := hcurrent x (by simp) current (by simp)
    unfold continueSearch
    split_ifs with hle
    · have hsame : (fun y => decide (comparer y x ≤ 0)) = fun y => decide (comparer y current ≤ 0) := by
        funext y
        rw [decide_eq_decide]
        exact nonpos_congr (by omega) y
      rw [ih x hrest, hsame, List.takeWhile_cons_of_pos (by simpa using hle), List.length_cons]
    · rw [List.takeWhile_cons_of_neg (by simpa using hle), List.length_nil]

theorem lowestPriority_eq (h : Descending comparer c.container) (hnil : c.container ≠ []) :
    c.lowestPriority =
      (c.container.rtakeWhile fun x => comparer x (c.container.getLast hnil) ≤ 0).length := by
  unfold lowestPriority
  rw [List.rtakeWhile, List.length_reverse]
  cases hreverse : c.container.reverse with
  | nil => exact absurd (List.reverse_eq_nil_iff.mp hreverse) hnil
  | cons last rest =>
    have hc : c.container = (last :: rest).reverse := by rw [← hreverse, List.reverse_reverse]
    have hlast : c.container.getLast hnil = last := by simp [hc]
    rw [hlast, List.takeWhile_cons_of_pos (by simp [compare_self]), List.length_cons]
    simp only []
    rw [continueSearch_eq last rest (hc ▸ h)]

theorem tryTakePrio_lowest (h : Descending comparer c.container)
    (htake : c.tryTakePrio = some (item, c')) : ∃ before behind,
      c.container = before ++ item :: behind ∧ c'.container = before ++ behind ∧
      (∀ x ∈ before, 0 < comparer x item) ∧ ∀ x ∈ c.container, comparer item x ≤ 0 := by
  obtain ⟨-, before, behind, hc, hc', hlength⟩ := tryTakePrio_eq_some htake
  have hnil : c.container ≠ [] := by simp [hc]
  let p := fun x => decide (comparer x (c.container.getLast hnil) ≤ 0)
  have hsplit : c.container.rdropWhile p ++ c.container.rtakeWhile p = before ++ item :: behind := by
    rw [List.rdropWhile_append_rtakeWhile, hc]
  have hsum : (c.container.rdropWhile p).length + (c.container.rtakeWhile p).length =
      c.container.length := by
    rw [← List.length_append, List.rdropWhile_append_rtakeWhile]
  have hlowest : c.lowestPriority = (c.container.rtakeWhile p).length := lowestPriority_eq h hnil
  obtain ⟨hbefore, hbehind⟩ := List.append_inj hsplit (by omega)
  have hitem : comparer item (c.container.getLast hnil) = 0 := by
    have hle : p item = true := List.mem_rtakeWhile_imp (hbehind ▸ List.mem_cons_self)
    have hge := h.getLast_le hnil (x := item) (by simp [hc])
    rw [decide_eq_true_eq] at hle
    omega
  refine ⟨before, behind, hc, hc', ?_, ?_⟩
  · intro x hx
    have hpos := rdropWhile_pos h (c.container.getLast hnil) x (hbefore ▸ hx)
    have hcongr := nonpos_congr hitem x
    omega
  · intro x hx
    rw [← LawfulComparer.swap, nonneg_congr hitem]
    exact h.getLast_le hnil hx

end Lawful

instance : LawfulCollection (PriorityContainer T comparer) where
  items c := c.container
  boundedCapacity c := c.boundedCapacity
  items_new _ := rfl
  boundedCapacity_new _ := rfl
  card_items _ := rfl
  tryAdd_eq_none {c item} := by
    change c.tryAdd item = none ↔ c.container.length = c.boundedCapacity
    rw [tryAdd_eq_tryEmplace, tryEmplace_eq_none]
  tryAdd_eq_some {c c' item} h := by
    change c.tryAdd item = some c' at h
    rw [tryAdd_eq_tryEmplace] at h
    obtain ⟨-, rfl⟩ := tryEmplace_eq_some h
    exact ⟨Multiset.coe_eq_coe.mpr (perm_insertBehind item c.container), rfl⟩
  tryEmplace_eq_none := tryEmplace_eq_none
  tryEmplace_eq_some {c c' item} h := by
    obtain ⟨-, rfl⟩ := tryEmplace_eq_some h
    exact ⟨Multiset.coe_eq_coe.mpr (perm_insertBehind item c.container), rfl⟩
  tryTake_eq_none := tryTake_eq_none
  tryTake_eq_some {c c' item} h := by
    obtain ⟨hc, hcapacity⟩ := tryTake_eq_some h
    exact ⟨by rw [hc]; rfl, hcapacity⟩
  tryTakePrio_eq_none {take c} htake := by
    cases htake
    exact tryTakePrio_eq_none
  tryTakePrio_eq_some {take c c' item} htake h := by
    cases htake
    obtain ⟨hcapacity, before, behind, hc, hc', -⟩ := tryTakePrio_eq_some h
    refine ⟨?_, hcapacity⟩
    rw [hc, hc']
    exact Multiset.coe_eq_coe.mpr List.perm_middle

end PriorityContainer
end Mbtest.CodeMachina
