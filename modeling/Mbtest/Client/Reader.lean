import Mbtest.Network

/-! The client's side of one exchange: sending a command, reading the response and
decoding it. -/
namespace Mbtest.Client
open Lib

/-- The buffers that `sendCommand` writes before it reads the response. -/
def sendCommand (o : ByteOrder) (cmd : UInt8) (arg : UInt16) : List (List UInt8) :=
  [[cmd], mem16 o (htons o arg)]

/-- The response and the socket after it. The buffer is resized to the announced length
before the payload is read, and the error of the second read is not looked at. -/
def readResponse {S : Type} (o : ByteOrder) (read : Source S) (s : S) : List UInt8 × S :=
  let (r1, s) := read 4 s
  if r1.ec then ([], s)
  else
    let n := (ntohl o (load32 o r1.bytes)).toNat
    let (r2, s) := read n s
    (r2.bytes ++ .replicate (n - r2.bytes.length) 0, s)

/-- Word number `j` of a buffer seen as an array of 16-bit words; `none` when one of its
bytes lies outside the buffer. -/
def wordAt (o : ByteOrder) (response : List UInt8) (j : ℕ) : Option UInt16 := do
  let b0 ← response[2 * j]?
  let b1 ← response[2 * j + 1]?
  some (ntohs o (load16 o [b0, b1]))

/-- `decodeResponse(.., std::vector<uint8_t> &data)` -/
def decodeBytes (response : List UInt8) : List UInt8 := response

/-- `decodeResponse(.., uint8_t &data)` -/
def decodeByte (response : List UInt8) : Option UInt8 := response[0]?

/-- `decodeResponse(.., uint16_t &data)` -/
def decodeWord (o : ByteOrder) (response : List UInt8) : Option UInt16 := wordAt o response 0

/-- `decodeResponse(.., std::vector<uint16_t> &data)` -/
def decodeWords (o : ByteOrder) (response : List UInt8) : Option (List UInt16) :=
  (List.range (response.length / 2)).mapM (wordAt o response)

theorem streamRead_frame (p rest : List UInt8) :
    streamRead 4 (frame 4 p ++ rest) = (⟨toBytes 4 p.length, false⟩, p ++ rest) := by
  have h := streamRead_append (toBytes 4 p.length) (p ++ rest)
  rwa [length_toBytes, ← List.append_assoc] at h

theorem ntohl_header (o : ByteOrder) {n : ℕ} (hn : n < 2 ^ 32) :
    (ntohl o (load32 o (toBytes 4 n))).toNat = n := by
  have hmod : n % 256 ^ 4 = n := Nat.mod_eq_of_lt hn
  rw [ntohl_load32 o (length_toBytes 4 _), ofBytes_toBytes, hmod, UInt32.toNat_ofNat_of_lt' hn]

theorem readResponse_frame (o : ByteOrder) {p : List UInt8} (hp : p.length < 2 ^ 32)
    (rest : List UInt8) : readResponse o streamRead (frame 4 p ++ rest) = (p, rest) := by
  simp only [readResponse, streamRead_frame, ntohl_header o hp, streamRead_append]
  simp

theorem wordAt_cons (o : ByteOrder) (hi lo : UInt8) (bs : List UInt8) (j : ℕ) :
    wordAt o (hi :: lo :: bs) (j + 1) = wordAt o bs j := by
  have hj : 2 * (j + 1) = 2 * j + 1 + 1 := by omega
  simp only [wordAt, hj, List.getElem?_cons_succ]

/-- A buffer seen as an array of words holds exactly the big-endian words of its pairs. -/
theorem wordAt_eq (o : ByteOrder) (bs : List UInt8) (j : ℕ) :
    wordAt o bs j = (bytesWords bs)[j]? := by
  induction bs using bytesWords.induct generalizing j with
  | case1 hi lo bs ih =>
    cases j with
    | zero => exact congrArg some (ntohs_load16 o rfl)
    | succ j =>
      rw [wordAt_cons, ih]
      rfl
  | case2 bs hbs =>
    rcases bs with _ | ⟨b, _ | ⟨c, bs⟩⟩
    · rfl
    · simp [wordAt, bytesWords]
    · exact absurd rfl (hbs b c bs)

theorem mapM_getElem? {α : Type} (l : List α) :
    (List.range l.length).mapM (fun j => l[j]?) = some l := by
  induction l with
  | nil => rfl
  | cons a l ih =>
    rw [List.length_cons, List.range_succ_eq_map, List.mapM_cons, List.mapM_map]
    change ((List.range l.length).mapM fun j => l[j]?) >>= _ = _
    rw [ih]
    rfl

theorem decodeWords_eq (o : ByteOrder) (bs : List UInt8) :
    decodeWords o bs = some (bytesWords bs) := by
  have hwords : wordAt o bs = fun j => (bytesWords bs)[j]? := funext (wordAt_eq o bs)
  rw [decodeWords, hwords, ← length_bytesWords, mapM_getElem?]

end Mbtest.Client
