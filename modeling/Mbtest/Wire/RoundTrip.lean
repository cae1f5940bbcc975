import Mbtest.TcpConnection.Session
import Mbtest.Client.Reader

/-! What one side encodes the other side decodes, whatever the byte orders of the two
hosts and whatever follows on the stream. -/
namespace Mbtest.Wire
open Lib TcpConnection Client

variable (server client : ByteOrder) (rest : List UInt8)

theorem readRequest_sendCommand (cmd : UInt8) (arg : UInt16) :
    readRequest server streamRead ((sendCommand client cmd arg).flatten ++ rest) =
      (⟨false, cmd, arg⟩, rest) := by
  obtain ⟨hi, lo, harg⟩ : ∃ hi lo, toBytes 2 arg.toNat = [hi, lo] := ⟨_, _, rfl⟩
  have hsent : (sendCommand client cmd arg).flatten ++ rest = [cmd] ++ ([hi, lo] ++ rest) := by
    simp [sendCommand, mem16_htons, harg]
  have hcmd : streamRead 1 ([cmd] ++ ([hi, lo] ++ rest)) = (⟨[cmd], false⟩, [hi, lo] ++ rest) :=
    streamRead_append [cmd] _
  have hword : streamRead 2 ([hi, lo] ++ rest) = (⟨[hi, lo], false⟩, rest) :=
    streamRead_append [hi, lo] rest
  have hconv : ntohs server (load16 server [hi, lo]) = arg := by
    rw [ntohs_load16 server rfl, ← harg, ofBytes_toBytes_word]
  simp only [readRequest, hsent, hcmd, hword]
  change (Request.mk false cmd (ntohs server (load16 server [hi, lo])), rest) = _
  rw [hconv]

theorem decodeByte_readResponse (v : UInt8) : ∃ response,
    readResponse client streamRead ((writeResponseByte server v).flatten ++ rest) =
      (response, rest) ∧ decodeByte response = some v := by
  rw [writeResponseByte_flatten]
  exact ⟨[v], readResponse_frame client (by simp) rest, rfl⟩

theorem decodeWord_readResponse (v : UInt16) : ∃ response,
    readResponse client streamRead ((writeResponseWord server v).flatten ++ rest) =
      (response, rest) ∧ decodeWord client response = some v := by
  obtain ⟨hi, lo, hv⟩ : ∃ hi lo, toBytes 2 v.toNat = [hi, lo] := ⟨_, _, rfl⟩
  have hconv : ntohs client (load16 client [hi, lo]) = v := by
    rw [ntohs_load16 client rfl, ← hv, ofBytes_toBytes_word]
  rw [writeResponseWord_flatten]
  exact ⟨_, readResponse_frame client (by simp) rest, by rw [hv]; exact congrArg some hconv⟩

theorem decodeBytes_readResponse {v : List UInt8} (hv : v.length < 2 ^ 32) : ∃ response,
    readResponse client streamRead ((writeResponseBytes server v).flatten ++ rest) =
      (response, rest) ∧ decodeBytes response = v := by
  rw [writeResponseBytes_flatten]
  exact ⟨v, readResponse_frame client hv rest, rfl⟩

theorem decodeWords_readResponse {v : List UInt16} (hv : 2 * v.length < 2 ^ 32) : ∃ response,
    readResponse client streamRead ((writeResponseWords server v).flatten ++ rest) =
      (response, rest) ∧ decodeWords client response = some v := by
  rw [writeResponseWords_flatten]
  refine ⟨_, readResponse_frame client (by rwa [length_wordBytes]) rest, ?_⟩
  rw [decodeWords_eq, bytesWords_wordBytes]

/-- Requests and responses of every kind survive the way from one host to the other.
The bounds are on the payload, whose length the header has to hold. -/
theorem roundTrip :
    (∀ cmd arg, readRequest server streamRead ((sendCommand client cmd arg).flatten ++ rest) =
      (⟨false, cmd, arg⟩, rest)) ∧
    (∀ v : UInt8, ∃ response,
      readResponse client streamRead ((writeResponseByte server v).flatten ++ rest) =
        (response, rest) ∧ decodeByte response = some v) ∧
    (∀ v : UInt16, ∃ response,
      readResponse client streamRead ((writeResponseWord server v).flatten ++ rest) =
        (response, rest) ∧ decodeWord client response = some v) ∧
    (∀ v : List UInt8, v.length < 2 ^ 32 → ∃ response,
      readResponse client streamRead ((writeResponseBytes server v).flatten ++ rest) =
        (response, rest) ∧ decodeBytes response = v) ∧
    (∀ v : List UInt16, 2 * v.length < 2 ^ 32 → ∃ response,
      readResponse client streamRead ((writeResponseWords server v).flatten ++ rest) =
        (response, rest) ∧ decodeWords client response = some v) :=
  ⟨readRequest_sendCommand server client rest, decodeByte_readResponse server client rest,
    decodeWord_readResponse server client rest,
    fun _ hv => decodeBytes_readResponse server client rest hv,
    fun _ hv => decodeWords_readResponse server client rest hv⟩

theorem roundTrip_twoWords : ∃ response,
    readResponse .little streamRead ((writeResponseWords .big [1, 258]).flatten ++ [7]) =
      (response, [7]) ∧ decodeWords .little response = some [1, 258] :=
  (roundTrip .big .little [7]).2.2.2.2 [1, 258] (by decide)

end Mbtest.Wire
