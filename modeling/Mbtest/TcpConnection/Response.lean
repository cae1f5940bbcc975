import Mbtest.Interfaces
import Mbtest.Network

/-! The six `writeResponse` overloads of `TcpConnection`. Each returns the buffers
that it hands to `boost::asio::write`, one after the other. -/
namespace Mbtest.TcpConnection
open Lib

abbrev Writes := List (List UInt8)

/-- `writeResponse(uint8_t *data, uint32_t size)` -/
def writeResponse (o : ByteOrder) (data : List UInt8) (size : UInt32) : Writes :=
  mem32 o (ntohl o size) :: if size ≠ 0 then [data.take size.toNat] else []

/-- `writeResponse(uint8_t data)` -/
def writeResponseByte (o : ByteOrder) (data : UInt8) : Writes :=
  writeResponse o [data] 1

/-- `writeResponse(uint16_t data)` -/
def writeResponseWord (o : ByteOrder) (data : UInt16) : Writes :=
  writeResponse o (mem16 o (htons o data)) 2

/-- `writeResponse(const std::vector<uint8_t> &data)` -/
def writeResponseBytes (o : ByteOrder) (data : List UInt8) : Writes :=
  mem32 o (ntohl o (UInt32.ofNat data.length)) :: if data.length ≠ 0 then [data] else []

/-- `writeResponse(const std::vector<uint16_t> &data)`: one write for each word. -/
def writeResponseWords (o : ByteOrder) (data : List UInt16) : Writes :=
  mem32 o (ntohl o (UInt32.ofNat (data.length * 2))) :: data.map fun w => mem16 o (htons o w)

/-- The sum has type `size_t` and is returned as an `int`. -/
def getSize (data : AllRegs) : ℤ :=
  Int.bmod (data.coils.length + 4 + data.discrete.length + 4 + data.inputs.length * 2 + 4 +
    data.holding.length * 2 + 4 : ℕ) (2 ^ 32)

/-- `writeResponse(const allRegs &data)` -/
def writeResponseRegs (o : ByteOrder) (data : AllRegs) : Writes :=
  mem32 o (ntohl o (UInt32.ofInt (getSize data))) ::
    (writeResponseBytes o data.coils ++ writeResponseBytes o data.discrete ++
      writeResponseWords o data.inputs ++ writeResponseWords o data.holding)

theorem header_flatten (o : ByteOrder) (n : ℕ) (ws : Writes) :
    (mem32 o (ntohl o (UInt32.ofNat n)) :: ws).flatten = toBytes 4 n ++ ws.flatten := by
  rw [List.flatten_cons, mem32_ntohl, UInt32.toNat_ofNat']
  exact congrArg (· ++ ws.flatten) (toBytes_mod 4 n)

theorem writeResponse_nil (o : ByteOrder) : (writeResponse o [] 0).flatten = frame 4 [] :=
  header_flatten o 0 []

theorem writeResponseByte_flatten (o : ByteOrder) (data : UInt8) :
    (writeResponseByte o data).flatten = frame 4 [data] :=
  header_flatten o 1 [[data]]

theorem writeResponseWord_flatten (o : ByteOrder) (data : UInt16) :
    (writeResponseWord o data).flatten = frame 4 (toBytes 2 data.toNat) := by
  rw [writeResponseWord, mem16_htons]
  exact header_flatten o 2 [toBytes 2 data.toNat]

theorem writeResponseBytes_flatten (o : ByteOrder) (data : List UInt8) :
    (writeResponseBytes o data).flatten = frame 4 data := by
  unfold writeResponseBytes
  rw [header_flatten, frame]
  split_ifs with hlen
  · simp
  · simp [List.length_eq_zero_iff.mp (not_not.mp hlen)]

theorem writeResponseWords_flatten (o : ByteOrder) (data : List UInt16) :
    (writeResponseWords o data).flatten = frame 4 (wordBytes data) := by
  unfold writeResponseWords
  simp only [header_flatten, mem16_htons, frame, length_wordBytes, Nat.mul_comm data.length 2]
  rfl

/-- The four blocks inside a READ_ALL response, in the order in which they are written. -/
def regsBlocks (data : AllRegs) : List (List UInt8) :=
  [data.coils, data.discrete, wordBytes data.inputs, wordBytes data.holding]

def regsPayload (data : AllRegs) : List UInt8 :=
  (regsBlocks data).flatMap (frame 4)

theorem length_regsPayload (data : AllRegs) :
    (regsPayload data).length = data.coils.length + 4 + data.discrete.length + 4 +
      data.inputs.length * 2 + 4 + data.holding.length * 2 + 4 := by
  simp only [regsPayload, regsBlocks, List.flatMap_cons, List.flatMap_nil, List.length_append,
    length_frame, length_wordBytes, List.length_nil]
  omega

/-- Up to the range of `int` the announced size is the size of the nested blocks. -/
theorem getSize_eq {data : AllRegs} (hsize : (regsPayload data).length < 2 ^ 31) :
    getSize data = (regsPayload data).length := by
  have hle : -((2 ^ 32 : ℕ) : ℤ) ≤ ((regsPayload data).length : ℤ) * 2 := by
    norm_num
    omega
  have hlt : ((regsPayload data).length : ℤ) * 2 < ((2 ^ 32 : ℕ) : ℤ) := by
    norm_num
    omega
  have hsum : getSize data = Int.bmod (regsPayload data).length (2 ^ 32) := by
    rw [length_regsPayload]
    rfl
  exact hsum.trans (Int.bmod_eq_of_le_mul_two hle hlt)

/-- Whatever the header says, the nested blocks follow it. -/
theorem writeResponseRegs_eq (o : ByteOrder) (data : AllRegs) :
    (writeResponseRegs o data).flatten =
      mem32 o (ntohl o (UInt32.ofInt (getSize data))) ++ regsPayload data := by
  simp [writeResponseRegs, writeResponseBytes_flatten, writeResponseWords_flatten, regsPayload,
    regsBlocks]

theorem length_writeResponseRegs (o : ByteOrder) (data : AllRegs) :
    (writeResponseRegs o data).flatten.length = 4 + (regsPayload data).length := by
  rw [writeResponseRegs_eq, mem32_ntohl, List.length_append, length_toBytes]

theorem drop_writeResponseRegs (o : ByteOrder) (data : AllRegs) :
    (writeResponseRegs o data).flatten.drop 4 = regsPayload data := by
  rw [writeResponseRegs_eq, mem32_ntohl]
  exact List.drop_left' (length_toBytes 4 _)

theorem writeResponseRegs_flatten (o : ByteOrder) {data : AllRegs}
    (hsize : (regsPayload data).length < 2 ^ 31) :
    (writeResponseRegs o data).flatten = frame 4 (regsPayload data) := by
  have hmod : ((regsPayload data).length : ℤ) % 2 ^ 32 = (regsPayload data).length := by omega
  have hlen : (regsPayload data).length < 2 ^ 32 := by omega
  rw [writeResponseRegs_eq, mem32_ntohl, getSize_eq hsize, UInt32.ofInt, hmod, Int.toNat_natCast,
    UInt32.toNat_ofNat_of_lt' hlen, frame]

def decodeRegs (bs : List UInt8) : Option (AllRegs × List UInt8) := do
  let (blocks, rest) ← unframes 4 4 bs
  match blocks with
  | [coils, discrete, inputs, holding] =>
    some (⟨coils, discrete, bytesWords inputs, bytesWords holding⟩, rest)
  | _ => none

theorem decodeRegs_regsPayload {data : AllRegs} (hsize : (regsPayload data).length < 2 ^ 31) :
    decodeRegs (regsPayload data) = some (data, []) := by
  have hblocks : ∀ p ∈ regsBlocks data, p.length < 256 ^ 4 := by
    rw [length_regsPayload] at hsize
    simp only [regsBlocks, List.forall_mem_cons, length_wordBytes]
    exact ⟨by omega, by omega, by omega, by omega, by simp⟩
  have hread := unframes_frames hblocks []
  rw [List.append_nil] at hread
  change unframes 4 4 (regsPayload data) = some (regsBlocks data, []) at hread
  simp only [decodeRegs, hread, regsBlocks]
  change some (AllRegs.mk _ _ _ _, []) = _
  rw [bytesWords_wordBytes, bytesWords_wordBytes]

/-- The header of a READ_ALL response announces the bytes that follow it, and these
determine the four tables. -/
theorem writeResponseRegs_decodes (o : ByteOrder) (data : AllRegs)
    (hsize : (writeResponseRegs o data).flatten.length < 2 ^ 31) :
    let sent := (writeResponseRegs o data).flatten
    ofBytes (sent.take 4) = (sent.drop 4).length ∧
      decodeRegs (sent.drop 4) = some (data, []) ∧
      ∀ other : AllRegs, (writeResponseRegs o other).flatten.drop 4 = sent.drop 4 → other = data := by
  have hpayload : (regsPayload data).length < 2 ^ 31 := by
    rw [length_writeResponseRegs] at hsize
    omega
  have hdecode := decodeRegs_regsPayload hpayload
  intro sent
  have hdrop : sent.drop 4 = regsPayload data := drop_writeResponseRegs o data
  refine ⟨?_, by rw [hdrop, hdecode], ?_⟩
  · have htake : sent.take 4 = toBytes 4 (regsPayload data).length := by
      change (writeResponseRegs o data).flatten.take 4 = _
      rw [writeResponseRegs_flatten o hpayload]
      exact List.take_left' (length_toBytes 4 _)
    rw [hdrop, htake, ofBytes_toBytes, Nat.mod_eq_of_lt (by omega)]
  · intro other hother
    rw [hdrop, drop_writeResponseRegs] at hother
    have hsizeOther : (regsPayload other).length < 2 ^ 31 := by rw [hother]; exact hpayload
    have h := decodeRegs_regsPayload hsizeOther
    rw [hother, hdecode] at h
    cases Option.some.inj h
    rfl

theorem writeResponseRegs_decodes_uneven :
    let sent := (writeResponseRegs .little ⟨[1, 0], [], [258], []⟩).flatten
    ofBytes (sent.take 4) = (sent.drop 4).length ∧
      decodeRegs (sent.drop 4) = some (⟨[1, 0], [], [258], []⟩, []) ∧
      ∀ other : AllRegs, (writeResponseRegs .little other).flatten.drop 4 = sent.drop 4 →
        other = ⟨[1, 0], [], [258], []⟩ :=
  writeResponseRegs_decodes .little ⟨[1, 0], [], [258], []⟩ (by decide)

end Mbtest.TcpConnection
