import Mbtest.Network

/-! Socket calls whose outcomes follow a script: any call may fail, at any point of its
transfer, and a call after a failed one may succeed. -/
namespace Mbtest

/-- The outcomes of the calls made on a socket, by their number, and the bytes that
arrive on it: `none` is success, `some k` an error after `k` bytes. -/
structure Script where
  outcome : ℕ → Option ℕ
  stream : ℕ → UInt8

/-- The number of calls made so far, and of the bytes taken off the stream. -/
structure Progress where
  calls : ℕ
  taken : ℕ
  deriving DecidableEq, Repr

namespace Script
variable (sc : Script)

def bytes (pos n : ℕ) : List UInt8 := (List.range n).map fun j => sc.stream (pos + j)

/-- A failed read leaves at least one of the bytes asked for; to read nothing succeeds. -/
def read : Source Progress := fun n p =>
  match sc.outcome p.calls with
  | none => (⟨sc.bytes p.taken n, false⟩, ⟨p.calls + 1, p.taken + n⟩)
  | some k =>
    let got := min k (n - 1)
    (⟨sc.bytes p.taken got, decide (0 < n)⟩, ⟨p.calls + 1, p.taken + got⟩)

def write (p : Progress) : Bool × Progress :=
  ((sc.outcome p.calls).isNone, { p with calls := p.calls + 1 })

def FirstFailure (f : ℕ) : Prop := (sc.outcome f).isSome ∧ ∀ j < f, sc.outcome j = none

variable {sc}

@[simp] theorem length_bytes (pos n : ℕ) : (sc.bytes pos n).length = n := by
  rw [bytes, List.length_map, List.length_range]

theorem read_success {p : Progress} (h : sc.outcome p.calls = none) (n : ℕ) :
    sc.read n p = (⟨sc.bytes p.taken n, false⟩, ⟨p.calls + 1, p.taken + n⟩) := by
  simp only [read, h]

theorem read_failure {p : Progress} {k : ℕ} (h : sc.outcome p.calls = some k) (n : ℕ) :
    sc.read n p = (⟨sc.bytes p.taken (min k (n - 1)), decide (0 < n)⟩,
      ⟨p.calls + 1, p.taken + min k (n - 1)⟩) := by
  simp only [read, h]

variable (sc) in
theorem length_read_le (n : ℕ) (p : Progress) : (sc.read n p).1.bytes.length ≤ n := by
  cases h : sc.outcome p.calls with
  | none => rw [read_success h, length_bytes]
  | some k =>
    rw [read_failure h, length_bytes]
    omega

end Script
end Mbtest
