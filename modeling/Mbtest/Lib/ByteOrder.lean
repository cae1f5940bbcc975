import Mathlib.Data.List.Induction
import Mathlib.Tactic.Positivity

/-! Fixed-width unsigned numbers in memory and on the network. A number of width
`w` lies in memory in the byte order of its host; on the network it is big-endian. -/
namespace Mbtest.Lib

/-- The low `w` bytes of `n`, most significant first. -/
def toBytes : ℕ → ℕ → List UInt8
  | 0, _ => []
  | w + 1, n => toBytes w (n / 256) ++ [UInt8.ofNat n]

/-- The number that bytes spell, most significant first. -/
def ofBytes (bs : List UInt8) : ℕ :=
  bs.foldl (fun n b => 256 * n + b.toNat) 0

@[simp] theorem length_toBytes (w n : ℕ) : (toBytes w n).length = w := by
  induction w generalizing n with
  | zero => rfl
  | succ w ih => simp [toBytes, ih]

theorem ofBytes_snoc (bs : List UInt8) (b : UInt8) :
    ofBytes (bs ++ [b]) = 256 * ofBytes bs + b.toNat := by
  simp [ofBytes]

theorem ofBytes_toBytes (w n : ℕ) : ofBytes (toBytes w n) = n % 256 ^ w := by
  induction w generalizing n with
  | zero => simp [toBytes, ofBytes, Nat.mod_one]
  | succ w ih =>
    rw [toBytes, ofBytes_snoc, ih, UInt8.toNat_ofNat', pow_succ' 256 w, Nat.mod_mul]
    omega

theorem ofBytes_lt (bs : List UInt8) : ofBytes bs < 256 ^ bs.length := by
  induction bs using List.reverseRecOn with
  | nil => simp [ofBytes]
  | append_singleton bs b ih =>
    have hb := b.toNat_lt
    rw [ofBytes_snoc, List.length_append, List.length_singleton, pow_succ]
    omega

theorem toBytes_ofBytes (bs : List UInt8) : toBytes bs.length (ofBytes bs) = bs := by
  induction bs using List.reverseRecOn with
  | nil => rfl
  | append_singleton bs b ih =>
    have hb := b.toNat_lt
    have hdiv : (256 * ofBytes bs + b.toNat) / 256 = ofBytes bs := by omega
    have hmod : UInt8.ofNat (256 * ofBytes bs + b.toNat) = b := by
      apply UInt8.toNat_inj.mp
      rw [UInt8.toNat_ofNat']
      omega
    rw [List.length_append, List.length_singleton, toBytes, ofBytes_snoc, hdiv, hmod, ih]

theorem toBytes_mod (w n : ℕ) : toBytes w (n % 256 ^ w) = toBytes w n := by
  have h := toBytes_ofBytes (toBytes w n)
  rwa [length_toBytes, ofBytes_toBytes] at h

inductive ByteOrder
  | little
  | big
  deriving DecidableEq, Repr

namespace ByteOrder

/-- The bytes of a number of width `w` at increasing addresses. -/
def store : ByteOrder → ℕ → ℕ → List UInt8
  | .big, w, n => toBytes w n
  | .little, w, n => (toBytes w n).reverse

/-- The number that a host of this byte order reads from bytes at increasing addresses. -/
def load : ByteOrder → List UInt8 → ℕ
  | .big, bs => ofBytes bs
  | .little, bs => ofBytes bs.reverse

/-- Conversion between host and network order of a number of width `w`, in either
direction: nothing on a big-endian host, a reversal of the bytes on a little-endian one. -/
def swap : ByteOrder → ℕ → ℕ → ℕ
  | .big, w, n => n % 256 ^ w
  | .little, w, n => ofBytes (toBytes w n).reverse

theorem swap_lt (o : ByteOrder) (w n : ℕ) : o.swap w n < 256 ^ w := by
  cases o with
  | big => exact Nat.mod_lt _ (by positivity)
  | little => simpa [swap] using ofBytes_lt (toBytes w n).reverse

theorem load_lt (o : ByteOrder) (bs : List UInt8) : o.load bs < 256 ^ bs.length := by
  cases o with
  | big => exact ofBytes_lt bs
  | little => simpa [load] using ofBytes_lt bs.reverse

/-- What a converted number looks like in memory does not depend on the host. -/
theorem store_swap (o : ByteOrder) (w n : ℕ) : o.store w (o.swap w n) = toBytes w n := by
  cases o with
  | big => exact toBytes_mod w n
  | little =>
    have h := toBytes_ofBytes (toBytes w n).reverse
    rw [List.length_reverse, length_toBytes] at h
    simp [store, swap, h]

/-- Reading network bytes into memory and converting gives the number they spell. -/
theorem swap_load (o : ByteOrder) (bs : List UInt8) : o.swap bs.length (o.load bs) = ofBytes bs := by
  cases o with
  | big => exact Nat.mod_eq_of_lt (ofBytes_lt bs)
  | little =>
    have h := toBytes_ofBytes bs.reverse
    rw [List.length_reverse] at h
    simp [swap, load, h]

end ByteOrder
end Mbtest.Lib
