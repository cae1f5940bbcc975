import Mbtest.Lib.ByteOrder

/-! Streams of length-prefixed frames, and blocks of two-byte words. A stream has
no delimiters: a reader finds the end of a frame only through its prefix. -/
namespace Mbtest.Lib

/-- A payload behind its length, written in `w` bytes. -/
def frame (w : ℕ) (p : List UInt8) : List UInt8 :=
  toBytes w p.length ++ p

def unframe (w : ℕ) (bs : List UInt8) : Option (List UInt8 × List UInt8) :=
  if w + ofBytes (bs.take w) ≤ bs.length then
    some ((bs.drop w).take (ofBytes (bs.take w)), (bs.drop w).drop (ofBytes (bs.take w)))
  else none

def unframes (w : ℕ) : ℕ → List UInt8 → Option (List (List UInt8) × List UInt8)
  | 0, bs => some ([], bs)
  | n + 1, bs => do
    let (p, bs) ← unframe w bs
    let (ps, bs) ← unframes w n bs
    some (p :: ps, bs)

@[simp] theorem length_frame (w : ℕ) (p : List UInt8) : (frame w p).length = w + p.length := by
  simp [frame]

theorem unframe_frame {w : ℕ} {p : List UInt8} (hp : p.length < 256 ^ w) (rest : List UInt8) :
    unframe w (frame w p ++ rest) = some (p, rest) := by
  have htake : (frame w p ++ rest).take w = toBytes w p.length := by
    simp [frame, List.append_assoc]
  have hdrop : (frame w p ++ rest).drop w = p ++ rest := by
    simp [frame, List.append_assoc]
  have hlen : ofBytes (toBytes w p.length) = p.length := by
    rw [ofBytes_toBytes, Nat.mod_eq_of_lt hp]
  unfold unframe
  rw [htake, hdrop, hlen, if_pos (by simp)]
  simp

/-- Frames written back to back are read back one by one, whatever follows them. -/
theorem unframes_frames {w : ℕ} {ps : List (List UInt8)} (hps : ∀ p ∈ ps, p.length < 256 ^ w)
    (rest : List UInt8) : unframes w ps.length (ps.flatMap (frame w) ++ rest) = some (ps, rest) := by
  induction ps with
  | nil => rfl
  | cons p ps ih =>
    have hp := unframe_frame (hps p (by simp)) (ps.flatMap (frame w) ++ rest)
    have hrest := ih fun q hq => hps q (by simp [hq])
    simp only [List.length_cons, List.flatMap_cons, List.append_assoc, unframes, hp]
    simp [hrest]

/-- The big-endian bytes of a block of words. -/
def wordBytes (ws : List UInt16) : List UInt8 :=
  ws.flatMap fun w => toBytes 2 w.toNat

/-- The big-endian words of a block, pair by pair; an odd last byte is dropped. -/
def bytesWords : List UInt8 → List UInt16
  | hi :: lo :: bs => UInt16.ofNat (ofBytes [hi, lo]) :: bytesWords bs
  | _ => []

@[simp] theorem length_wordBytes (ws : List UInt16) : (wordBytes ws).length = 2 * ws.length := by
  induction ws with
  | nil => rfl
  | cons w ws ih =>
    simp only [wordBytes, List.flatMap_cons, List.length_append, length_toBytes] at ih ⊢
    rw [ih, List.length_cons]
    omega

theorem length_bytesWords (bs : List UInt8) : (bytesWords bs).length = bs.length / 2 := by
  induction bs using bytesWords.induct with
  | case1 hi lo bs ih =>
    rw [bytesWords, List.length_cons, ih, List.length_cons, List.length_cons]
    omega
  | case2 bs hbs =>
    rcases bs with _ | ⟨b, _ | ⟨c, bs⟩⟩
    · rfl
    · simp [bytesWords]
    · exact absurd rfl (hbs b c bs)

theorem toNat_word (hi lo : UInt8) :
    (UInt16.ofNat (ofBytes [hi, lo])).toNat = 256 * hi.toNat + lo.toNat := by
  have hword : ofBytes [hi, lo] = 256 * hi.toNat + lo.toNat := by simp [ofBytes]
  have hlt : 256 * hi.toNat + lo.toNat < 2 ^ 16 := by
    have hhi := hi.toNat_lt
    have hlo := lo.toNat_lt
    omega
  rw [hword, UInt16.toNat_ofNat_of_lt' hlt]

theorem ofBytes_toBytes_word (w : UInt16) : UInt16.ofNat (ofBytes (toBytes 2 w.toNat)) = w := by
  have h : w.toNat < 256 ^ 2 := w.toNat_lt
  rw [ofBytes_toBytes, Nat.mod_eq_of_lt h, UInt16.ofNat_toNat]

theorem bytesWords_wordBytes (ws : List UInt16) : bytesWords (wordBytes ws) = ws := by
  induction ws with
  | nil => rfl
  | cons w ws ih =>
    obtain ⟨hi, lo, hw⟩ : ∃ hi lo, toBytes 2 w.toNat = [hi, lo] := ⟨_, _, rfl⟩
    have hb : wordBytes (w :: ws) = hi :: lo :: wordBytes ws := by
      simp [wordBytes, hw]
    rw [hb, bytesWords, ih, ← hw, ofBytes_toBytes_word]

end Mbtest.Lib
