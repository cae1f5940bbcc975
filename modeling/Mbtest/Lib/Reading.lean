import Mathlib.Algebra.Ring.Int.Defs
import Mathlib.Algebra.Ring.Nat
import Mathlib.Data.List.Basic

/-! Code that looks at the positions of a buffer, and loops that count with a signed counter up
to an unsigned size. -/
namespace Mbtest.Lib

/-- The positions that were looked at, in order, beside the result. The result is `none` when an
element does not exist, and when the fuel of a loop has ended. -/
structure Reading (α : Type) where
  value : Option α
  positions : List ℤ
  deriving DecidableEq, Repr

structure CInt where
  val : ℤ
  lower : -2 ^ 31 ≤ val
  upper : val < 2 ^ 31
  deriving DecidableEq, Repr

namespace CInt

def zero : CInt := ⟨0, by decide, by decide⟩

/-- `j++`. What an overflow leaves in the counter is not defined. -/
def next (j overflow : CInt) : CInt :=
  if h : j.val + 1 < 2 ^ 31 then ⟨j.val + 1, Int.le_add_one j.lower, h⟩ else overflow

/-- The conversion to `size_t`. -/
def toSize (j : CInt) : ℕ := (j.val % 2 ^ 64).toNat

theorem lt_of_toSize_lt {j : CInt} {size : ℕ} (hsize : size ≤ 2 ^ 63) (h : j.toSize < size) :
    0 ≤ j.val ∧ j.val < size := by
  have hlower := j.lower
  have hupper := j.upper
  unfold toSize at h
  omega

theorem toSize_of_nonneg {j : CInt} (h : 0 ≤ j.val) : j.toSize = j.val.toNat := by
  have hupper := j.upper
  unfold toSize
  omega

theorem next_of_lt {j : CInt} (h : j.val + 1 < 2 ^ 31) (overflow : CInt) :
    (j.next overflow).val = j.val + 1 := by
  rw [next, dif_pos h]

end CInt

namespace Reading
variable {α β σ : Type}

instance : Monad Reading where
  pure a := ⟨some a, []⟩
  bind x f :=
    match x.value with
    | some a => ⟨(f a).value, x.positions ++ (f a).positions⟩
    | none => ⟨none, x.positions⟩

/-- Element number `j` of a vector whose elements stand for `w` positions each. -/
def look (w : ℕ) (v : List α) (j : ℤ) : Reading α where
  value := if 0 ≤ j then v[j.toNat]? else none
  positions := (List.range w).map fun k : ℕ => w * j + k

def store (w : ℕ) (v : List α) (j : ℤ) (a : α) : Reading (List α) where
  value := if 0 ≤ j ∧ j < v.length then some (v.set j.toNat a) else none
  positions := (List.range w).map fun k : ℕ => w * j + k

def copy (v : List α) : Reading (List α) where
  value := some v
  positions := (List.range v.length).map fun k : ℕ => (k : ℤ)

/-- `for (int j = ..; j < size; j++)` -/
def forInt (overflow : CInt) (size : ℕ) (body : ℤ → σ → Reading σ) : ℕ → CInt → σ → Reading σ
  | 0, _, _ => ⟨none, []⟩
  | fuel + 1, j, s =>
    if j.toSize < size then do
      let s ← body j.val s
      forInt overflow size body fuel (j.next overflow) s
    else return s

section Values

@[simp] theorem pure_value (a : α) : (pure a : Reading α).value = some a := rfl

@[simp] theorem bind_value (x : Reading α) (f : α → Reading β) :
    (x >>= f).value = x.value.bind fun a => (f a).value := by
  change (match x.value with
    | some a => (⟨(f a).value, x.positions ++ (f a).positions⟩ : Reading β)
    | none => ⟨none, x.positions⟩).value = _
  cases x.value <;> rfl

theorem bind_positions (x : Reading α) (f : α → Reading β) :
    (x >>= f).positions = x.positions ++ x.value.elim [] fun a => (f a).positions := by
  change (match x.value with
    | some a => (⟨(f a).value, x.positions ++ (f a).positions⟩ : Reading β)
    | none => ⟨none, x.positions⟩).positions = _
  cases x.value with
  | none => exact (List.append_nil x.positions).symm
  | some a => rfl

@[simp] theorem look_value (w : ℕ) (v : List α) (j : ℕ) : (look w v j).value = v[j]? := by
  rw [look, if_pos (Int.natCast_nonneg j), Int.toNat_natCast]

theorem store_value (w : ℕ) {v : List α} {j : ℕ} (hj : j < v.length) (a : α) :
    (store w v j a).value = some (v.set j a) := by
  rw [store, if_pos ⟨Int.natCast_nonneg j, Int.ofNat_lt.mpr hj⟩, Int.toNat_natCast]

theorem forInt_value_from {overflow : CInt} {size : ℕ} {body : ℤ → σ → Reading σ} (I : ℕ → σ → Prop)
    (hsize : size < 2 ^ 31)
    (hbody : ∀ (j : ℕ) s, j < size → I j s → ∃ s', (body j s).value = some s' ∧ I (j + 1) s')
    {fuel : ℕ} {j : CInt} {i : ℕ} (hj : j.val = i) (hi : i ≤ size) (hfuel : size < fuel + i)
    {s : σ} (hs : I i s) :
    ∃ s', (forInt overflow size body fuel j s).value = some s' ∧ I size s' := by
  induction fuel generalizing j i s with
  | zero => omega
  | succ fuel ih =>
    have htoSize : j.toSize = i := by
      rw [CInt.toSize_of_nonneg (by omega), hj, Int.toNat_natCast]
    rw [forInt, htoSize]
    split_ifs with hlt
    · obtain ⟨t, ht, hnext⟩ := hbody i s hlt hs
      have hval : (j.next overflow).val = j.val + 1 := CInt.next_of_lt (by omega) overflow
      rw [bind_value, hj, ht]
      exact ih (by rw [hval, hj]; rfl) hlt (by omega) hnext
    · have heq : i = size := by omega
      subst heq
      exact ⟨s, rfl, hs⟩

/-- A loop whose counter does not overflow, by an invariant that knows how far it has come. -/
theorem forInt_value {overflow : CInt} {size : ℕ} {body : ℤ → σ → Reading σ} (I : ℕ → σ → Prop)
    (hsize : size < 2 ^ 31)
    (hbody : ∀ (j : ℕ) s, j < size → I j s → ∃ s', (body j s).value = some s' ∧ I (j + 1) s')
    {fuel : ℕ} (hfuel : size < fuel) {s : σ} (hs : I 0 s) :
    ∃ s', (forInt overflow size body fuel .zero s).value = some s' ∧ I size s' :=
  forInt_value_from I hsize hbody rfl (Nat.zero_le size) hfuel hs

end Values

/-- Nothing is looked at outside of the first `n` positions. -/
def Within (n : ℕ) (x : Reading α) : Prop := ∀ i ∈ x.positions, 0 ≤ i ∧ i < n

section Within
variable {n : ℕ}

theorem within_pure (a : α) : (pure a : Reading α).Within n := fun _ h => absurd h List.not_mem_nil

theorem Within.bind {x : Reading α} {f : α → Reading β} (hx : x.Within n)
    (hf : ∀ a, x.value = some a → (f a).Within n) : (x >>= f).Within n := by
  intro i hi
  rw [bind_positions, List.mem_append] at hi
  rcases hi with hi | hi
  · exact hx i hi
  · cases hvalue : x.value with
    | none => rw [hvalue] at hi; cases hi
    | some a => rw [hvalue] at hi; exact hf a hvalue i hi

theorem within_element {w : ℕ} {j : ℤ} (hj : 0 ≤ j) (hn : w * (j + 1) ≤ n) :
    ∀ i ∈ (List.range w).map fun k : ℕ => (w * j + k : ℤ), 0 ≤ i ∧ i < n := by
  intro i hi
  obtain ⟨k, hk, rfl⟩ := List.mem_map.mp hi
  have hlt : (k : ℤ) < w := Int.ofNat_lt.mpr (List.mem_range.mp hk)
  have hnonneg : 0 ≤ (w : ℤ) * j := Int.mul_nonneg (Int.natCast_nonneg w) hj
  rw [Int.mul_add, Int.mul_one] at hn
  omega

theorem within_look {w : ℕ} (v : List α) {j : ℤ} (hj : 0 ≤ j) (hn : w * (j + 1) ≤ n) :
    (look w v j).Within n := within_element hj hn

theorem within_store {w : ℕ} (v : List α) {j : ℤ} (a : α) (hj : 0 ≤ j) (hn : w * (j + 1) ≤ n) :
    (store w v j a).Within n := within_element hj hn

theorem within_copy {v : List α} (hv : v.length ≤ n) : (copy v).Within n := by
  intro i hi
  obtain ⟨k, hk, rfl⟩ := List.mem_map.mp hi
  have hlt := List.mem_range.mp hk
  omega

/-- A loop stays within if its body does for every element that the size allows, whatever an
overflow leaves in the counter. -/
theorem within_forInt {overflow : CInt} {size : ℕ} {body : ℤ → σ → Reading σ}
    (hsize : size ≤ 2 ^ 63) (hbody : ∀ (j : ℤ) s, 0 ≤ j → j < size → (body j s).Within n) (fuel : ℕ)
    (j : CInt) (s : σ) : (forInt overflow size body fuel j s).Within n := by
  induction fuel generalizing j s with
  | zero => exact fun _ h => absurd h List.not_mem_nil
  | succ fuel ih =>
    rw [forInt]
    split_ifs with hlt
    · obtain ⟨hnonneg, hinside⟩ := CInt.lt_of_toSize_lt hsize hlt
      exact (hbody j.val s hnonneg hinside).bind fun t _ => ih (j.next overflow) t
    · exact within_pure s

/-- What every iteration keeps of the state of a loop. -/
theorem forInt_invariant {overflow : CInt} {size : ℕ} {body : ℤ → σ → Reading σ} (I : σ → Prop)
    (hbody : ∀ j s s', I s → (body j s).value = some s' → I s') {fuel : ℕ} {j : CInt} {s s' : σ}
    (hs : I s) (h : (forInt overflow size body fuel j s).value = some s') : I s' := by
  induction fuel generalizing j s with
  | zero => cases h
  | succ fuel ih =>
    rw [forInt] at h
    split_ifs at h
    · rw [bind_value] at h
      obtain ⟨t, ht, hrest⟩ := Option.bind_eq_some_iff.mp h
      exact ih (hbody j.val s t hs ht) hrest
    · cases h
      exact hs

end Within
end Reading
end Mbtest.Lib
