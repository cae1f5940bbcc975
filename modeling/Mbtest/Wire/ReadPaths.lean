import Mbtest.TcpConnection.Session
import Mbtest.Client.Commands

/-! The three ways in which a client can read a register: alone, with its table, and with
all four tables. -/
namespace Mbtest.Wire
open Lib TcpConnection Client

inductive RegType
  | coil
  | discrete
  | input
  | holding
  deriving DecidableEq, Repr

namespace RegType

def mode : RegType → Console.Str
  | .coil => "coil".toList
  | .discrete => "discrete".toList
  | .input => "input".toList
  | .holding => "holding".toList

def single : RegType → Code
  | .coil => .readCoil
  | .discrete => .readDiscrete
  | .input => .readInput
  | .holding => .readHolding

def all : RegType → Code
  | .coil => .readCoilAll
  | .discrete => .readDiscreteAll
  | .input => .readInputAll
  | .holding => .readHoldingAll

def table (m : ModbusServer.Mapping) : RegType → List ℕ
  | .coil => m.tabBits.map UInt8.toNat
  | .discrete => m.tabInputBits.map UInt8.toNat
  | .input => m.tabInputRegisters.map UInt16.toNat
  | .holding => m.tabRegisters.map UInt16.toNat

/-- The block of the type in a READ_ALL response. -/
def block (regs : AllRegs) : RegType → List ℕ
  | .coil => regs.coils.map UInt8.toNat
  | .discrete => regs.discrete.map UInt8.toNat
  | .input => regs.inputs.map UInt16.toNat
  | .holding => regs.holding.map UInt16.toNat

/-- The overload of `decodeResponse` for one register of the type. -/
def decodeEntry (o : ByteOrder) (response : List UInt8) : RegType → Option ℕ
  | .coil | .discrete => (decodeByte response).map UInt8.toNat
  | .input | .holding => (decodeWord o response).map UInt16.toNat

/-- The overload of `decodeResponse` for the table of the type. -/
def decodeTable (o : ByteOrder) (response : List UInt8) : RegType → Option (List ℕ)
  | .coil | .discrete => some ((decodeBytes response).map UInt8.toNat)
  | .input | .holding => (decodeWords o response).map (List.map UInt16.toNat)

end RegType

theorem decodeByte_toList (x : Option UInt8) : decodeByte x.toList = x := by
  cases x <;> rfl

theorem decodeWord_toList (o : ByteOrder) (x : Option UInt16) :
    decodeWord o (wordBytes x.toList) = x := by
  cases x with
  | none => rfl
  | some w =>
    obtain ⟨hi, lo, hw⟩ : ∃ hi lo, toBytes 2 w.toNat = [hi, lo] := ⟨_, _, rfl⟩
    have hbytes : wordBytes (some w).toList = [hi, lo] := by simp [wordBytes, hw]
    have hconv : ntohs o (load16 o [hi, lo]) = w := by
      rw [ntohs_load16 o rfl, ← hw, ofBytes_toBytes_word]
    rw [hbytes]
    exact congrArg some hconv

section Payloads
variable (o : ByteOrder) (m : ModbusServer.AllocatedMapping) (τ : RegType)

theorem decodeEntry_payload (arg : ℕ) :
    τ.decodeEntry o (payload (.same m) arg τ.single) = (τ.table m.toMapping)[arg]? := by
  cases τ with
  | coil => exact (congrArg _ (decodeByte_toList _)).trans List.getElem?_map.symm
  | discrete => exact (congrArg _ (decodeByte_toList _)).trans List.getElem?_map.symm
  | input => exact (congrArg _ (decodeWord_toList o _)).trans List.getElem?_map.symm
  | holding => exact (congrArg _ (decodeWord_toList o _)).trans List.getElem?_map.symm

theorem payload_eq_nil {arg : ℕ} (harg : (τ.table m.toMapping).length ≤ arg) :
    payload (.same m) arg τ.single = [] := by
  cases τ <;>
  · simp only [RegType.table, List.length_map] at harg
    simp [payload, RegType.single, ServedView.same, List.getElem?_eq_none harg, wordBytes]

theorem decodeTable_payload (arg : ℕ) :
    τ.decodeTable o (payload (.same m) arg τ.all) = some (τ.table m.toMapping) := by
  have hwords : ∀ ws, decodeWords o (wordBytes ws) = some ws := fun ws => by
    rw [decodeWords_eq, bytesWords_wordBytes]
  cases τ with
  | coil => rfl
  | discrete => rfl
  | input => exact congrArg (Option.map _) (hwords _)
  | holding => exact congrArg (Option.map _) (hwords _)

theorem block_regs : τ.block (ServedView.same m).regs = τ.table m.toMapping := by
  cases τ <;> rfl

end Payloads

/-- What a handler sends is read back by the client as its payload. -/
theorem dispatch_readResponse (server client : ByteOrder) (v : ServedView) (c : Code)
    (arg : UInt16) : ∃ ws,
      dispatch server (ModbusServer.service v.view) c.toByte arg = .ok ws ∧
      ws.flatten = frame 4 (payload v arg.toNat c) ∧
      readResponse client streamRead ws.flatten = (payload v arg.toNat c, []) := by
  obtain ⟨ws, hws, hflat⟩ := dispatch_code server v c arg
  have hlen := length_payload_le v arg.toNat c
  have hread := readResponse_frame client (p := payload v arg.toNat c) (by omega) []
  rw [List.append_nil] at hread
  exact ⟨ws, hws, hflat, by rw [hflat, hread]⟩

/-- The three read paths agree on every register, and on which registers there are. No argument
matters to the reads of whole tables. -/
theorem read_paths_agree (server client : ByteOrder) (m : ModbusServer.AllocatedMapping)
    (τ : RegType) (arg argAll argEvery : UInt16) :
    ∃ ws wsAll wsEvery single all every xs regs,
      (dispatch server (ModbusServer.service (ServedView.same m).view) τ.single.toByte arg = .ok ws ∧
        dispatch server (ModbusServer.service (ServedView.same m).view) τ.all.toByte argAll =
          .ok wsAll ∧
        dispatch server (ModbusServer.service (ServedView.same m).view) Code.readAll.toByte
          argEvery = .ok wsEvery) ∧
      (readResponse client streamRead ws.flatten = (single, []) ∧
        readResponse client streamRead wsAll.flatten = (all, []) ∧
        readResponse client streamRead wsEvery.flatten = (every, [])) ∧
      (τ.decodeTable client all = some xs ∧ decodeRegs every = some (regs, [])) ∧
      ((τ.table m.toMapping).length ≤ arg.toNat → ws.flatten = frame 4 []) ∧
      (arg.toNat < (τ.table m.toMapping).length → ∃ x, τ.decodeEntry client single = some x ∧
        xs[arg.toNat]? = some x ∧ (τ.block regs)[arg.toNat]? = some x ∧
        (τ.table m.toMapping)[arg.toNat]? = some x) := by
  obtain ⟨ws, hws, hflat, hread⟩ := dispatch_readResponse server client (.same m) τ.single arg
  obtain ⟨wsAll, hwsAll, -, hreadAll⟩ :=
    dispatch_readResponse server client (.same m) τ.all argAll
  obtain ⟨wsEvery, hwsEvery, -, hreadEvery⟩ :=
    dispatch_readResponse server client (.same m) .readAll argEvery
  have hregs : decodeRegs (regsPayload (ServedView.same m).regs) =
      some ((ServedView.same m).regs, []) := by
    apply decodeRegs_regsPayload
    rw [length_regsPayload_regs]
    omega
  refine ⟨ws, wsAll, wsEvery, _, _, _, _, _, ⟨hws, hwsAll, hwsEvery⟩,
    ⟨hread, hreadAll, hreadEvery⟩, ⟨decodeTable_payload client m τ _, hregs⟩, ?_, ?_⟩
  · intro harg
    rw [hflat, payload_eq_nil m τ harg]
  · intro harg
    have hentry : (τ.table m.toMapping)[arg.toNat]? = some (τ.table m.toMapping)[arg.toNat] :=
      List.getElem?_eq_getElem harg
    exact ⟨_, (decodeEntry_payload client m τ _).trans hentry, hentry,
      by rw [block_regs, hentry], hentry⟩

end Mbtest.Wire
