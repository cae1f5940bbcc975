import Mbtest.Client.Reader
import Mathlib.Data.List.TakeDrop

/-! What the client makes of a response that is cut before its end. -/
namespace Mbtest.Client
open Lib

variable (o : ByteOrder) {p : List UInt8}

theorem readResponse_cut_header {k : ℕ} (hk : k < 4) :
    (readResponse o streamRead ((frame 4 p).take k)).1 = [] := by
  have hshort : ((frame 4 p).take k).length < 4 := by
    rw [List.length_take]
    omega
  simp only [readResponse, streamRead, decide_eq_true hshort, if_true]

/-- The missing bytes of the payload are zero in the buffer, as `resize` has left them. -/
theorem readResponse_cut_payload (hp : p.length < 2 ^ 32) {k : ℕ} (hk : 4 ≤ k) :
    (readResponse o streamRead ((frame 4 p).take k)).1 =
      p.take (k - 4) ++ .replicate (p.length - (k - 4)) 0 := by
  have hcut : (frame 4 p).take k = toBytes 4 p.length ++ p.take (k - 4) := by
    rw [frame, List.take_append, length_toBytes, List.take_of_length_le]
    rw [length_toBytes]
    exact hk
  have hheader := streamRead_append (toBytes 4 p.length) (p.take (k - 4))
  rw [length_toBytes] at hheader
  have hread : (streamRead p.length (p.take (k - 4))).1.bytes = p.take (k - 4) := by
    apply List.take_of_length_le
    rw [List.length_take]
    omega
  rw [hcut]
  simp only [readResponse, hheader, ntohl_header o hp, hread, List.length_take]
  simp only [Bool.false_eq_true, if_false]
  have hmissing : p.length - min (k - 4) p.length = p.length - (k - 4) := by omega
  rw [hmissing]

/-- The zeros stand for the missing bytes only where these are zero themselves. -/
theorem take_append_zeros_eq_iff (j : ℕ) :
    p.take j ++ List.replicate (p.length - j) 0 = p ↔ ∀ b ∈ p.drop j, b = 0 := by
  have hlen : (p.drop j).length = p.length - j := List.length_drop
  have hdrop : p.drop j = List.replicate (p.length - j) 0 ↔ ∀ b ∈ p.drop j, b = 0 := by
    rw [List.eq_replicate_iff]
    exact and_iff_right hlen
  rw [← hdrop]
  constructor
  · intro h
    have hsplit : p.take j ++ List.replicate (p.length - j) 0 = p.take j ++ p.drop j := by
      rw [h, List.take_append_drop]
    exact (List.append_cancel_left hsplit).symm
  · intro h
    rw [← h, List.take_append_drop]

/-- A cut leaves the whole payload or nothing in the buffer, unless it falls into the
payload before a byte that is not zero. -/
theorem readResponse_cut_iff (hp : p.length < 2 ^ 32) (k : ℕ) :
    (readResponse o streamRead ((frame 4 p).take k)).1 = p ∨
        (readResponse o streamRead ((frame 4 p).take k)).1 = [] ↔
      k < 4 ∨ 4 + p.length ≤ k ∨ ∀ b ∈ p.drop (k - 4), b = 0 := by
  by_cases hk : k < 4
  · have hnil := readResponse_cut_header o (p := p) hk
    constructor
    · intro _
      exact .inl hk
    · intro _
      exact .inr hnil
  rw [readResponse_cut_payload o hp (Nat.le_of_not_lt hk), take_append_zeros_eq_iff]
  constructor
  · rintro (hzero | hnil)
    · exact .inr (.inr hzero)
    · have hempty : p.length = 0 := by
        have hlen := congrArg List.length hnil
        rw [List.length_append, List.length_take, List.length_replicate, List.length_nil] at hlen
        omega
      right
      left
      omega
  · rintro (hlt | hall | hzero)
    · exact absurd hlt hk
    · left
      intro b hb
      rw [List.drop_eq_nil_of_le (by omega)] at hb
      cases hb
    · exact .inl hzero

theorem readResponse_cut_iff_word :
    (readResponse .little streamRead ((frame 4 [1, 0]).take 5)).1 = [1, 0] ∨
        (readResponse .little streamRead ((frame 4 [1, 0]).take 5)).1 = [] ↔
      5 < 4 ∨ 4 + [1, 0].length ≤ 5 ∨ ∀ b ∈ ([1, 0] : List UInt8).drop (5 - 4), b = 0 :=
  readResponse_cut_iff .little (by decide) 5

/-- The connection is lost after the first byte of a register with the value 258. -/
theorem readResponse_cut_word :
    (readResponse .little streamRead ((frame 4 [1, 2]).take 5)).1 = [1, 0] ∧
      decodeWord .little [1, 0] = some 256 ∧ decodeWord .little [1, 2] = some 258 := by
  decide

end Mbtest.Client
