import Mbtest.ModbusServer.Tables
import Mbtest.TcpConnection.Response

/-! The command handlers and the command loop of `TcpConnection`. -/
namespace Mbtest.TcpConnection
open Lib

/-- The body shared by the nine handlers: write what the service returned, or a
response without payload if it returned 0. -/
def respond {α : Type} (o : ByteOrder) (write : α → Writes) (result : Access (Option α)) :
    Access Writes := do
  match ← result with
  | some retVal => return write retVal
  | none => return writeResponse o [] 0

section Handlers
variable (o : ByteOrder) (server2 : IModbusService)

def readCoil (arg : ℤ) : Access Writes :=
  respond o (writeResponseByte o) (server2.readCoil arg)

def readDiscrete (arg : ℤ) : Access Writes :=
  respond o (writeResponseByte o) (server2.readDiscrete arg)

def readInput (arg : ℤ) : Access Writes :=
  respond o (writeResponseWord o) (server2.readInput arg)

def readHolding (arg : ℤ) : Access Writes :=
  respond o (writeResponseWord o) (server2.readHolding arg)

def readCoilAll : Access Writes :=
  respond o (writeResponseBytes o) server2.readCoilAll

def readDiscreteAll : Access Writes :=
  respond o (writeResponseBytes o) server2.readDiscreteAll

def readInputAll : Access Writes :=
  respond o (writeResponseWords o) server2.readInputAll

def readHoldingAll : Access Writes :=
  respond o (writeResponseWords o) server2.readHoldingAll

def readAll : Access Writes :=
  respond o (writeResponseRegs o) server2.readAll

/-- The `switch` of the command loop; an unknown code is skipped. -/
def dispatch (cmd : UInt8) (arg : UInt16) : Access Writes :=
  match Code.ofByte? cmd with
  | some .readCoil => readCoil o server2 arg.toNat
  | some .readDiscrete => readDiscrete o server2 arg.toNat
  | some .readInput => readInput o server2 arg.toNat
  | some .readHolding => readHolding o server2 arg.toNat
  | some .readCoilAll => readCoilAll o server2
  | some .readDiscreteAll => readDiscreteAll o server2
  | some .readInputAll => readInputAll o server2
  | some .readHoldingAll => readHoldingAll o server2
  | some .readAll => readAll o server2
  | none => .ok []

end Handlers

/-- What one pass of the loop reads. The second read overwrites the `error_code` of
the first; a byte that did not arrive keeps its initial value 0. -/
structure Request where
  ec : Bool
  cmd : UInt8
  arg : UInt16
  deriving DecidableEq, Repr

def readRequest {S : Type} (o : ByteOrder) (read : Source S) (s : S) : Request × S :=
  let (r1, s) := read 1 s
  let (r2, s) := read 2 s
  (⟨r2.ec, r1.bytes.headD 0, ntohs o (load16 o ((r2.bytes ++ [0, 0]).take 2))⟩, s)

theorem readRequest_unit (o : ByteOrder) (c hi lo : UInt8) (bs : List UInt8) :
    readRequest o streamRead (c :: hi :: lo :: bs) =
      (⟨false, c, UInt16.ofNat (ofBytes [hi, lo])⟩, bs) := by
  have hcmd : streamRead 1 (c :: hi :: lo :: bs) = (⟨[c], false⟩, hi :: lo :: bs) :=
    streamRead_append [c] _
  have hword : streamRead 2 (hi :: lo :: bs) = (⟨[hi, lo], false⟩, bs) :=
    streamRead_append [hi, lo] bs
  simp only [readRequest, hcmd, hword]
  change (Request.mk false c (ntohs o (load16 o [hi, lo])), bs) = _
  rw [ntohs_load16 o rfl]

/-- Fewer than three bytes end the loop: the read of the argument reports the end of
the stream, whichever of the two reads met it first. -/
theorem readRequest_short (o : ByteOrder) {bs : List UInt8} (hbs : bs.length < 3) :
    (readRequest o streamRead bs).1.ec = true ∧ (readRequest o streamRead bs).2 = [] := by
  simp only [readRequest, streamRead, List.length_drop, decide_eq_true_eq, List.drop_drop]
  exact ⟨by omega, List.drop_eq_nil_of_le (by omega)⟩

structure Session (S : Type) where
  rest : S
  dispatched : List (UInt8 × UInt16)
  written : Writes

/-- The loop of `TcpConnection::run__` from its pass number `i` on. `running i` is what the test of
`bRunning` finds and `server2 i` the service as the command of pass `i` sees it; the
result is `none` when the fuel ends before the loop. -/
def run {S : Type} (o : ByteOrder) (read : Source S) (running : ℕ → Bool)
    (server2 : ℕ → IModbusService) : ℕ → ℕ → S → Access (Option (Session S))
  | 0, _, _ => .ok none
  | fuel + 1, i, s =>
    if running i then
      let (req, s) := readRequest o read s
      if req.ec then .ok (some ⟨s, [], []⟩)
      else do
        let writes ← dispatch o (server2 i) req.cmd req.arg
        let later ← run o read running server2 fuel (i + 1) s
        return later.map fun t =>
          ⟨t.rest, (req.cmd, req.arg) :: t.dispatched, writes ++ t.written⟩
    else .ok (some ⟨s, [], []⟩)

/-- A view all of whose sections find an allocated mapping. -/
structure ServedView where
  coils : ModbusServer.AllocatedMapping
  inputs : ModbusServer.AllocatedMapping
  discrete : ModbusServer.AllocatedMapping
  holding : ModbusServer.AllocatedMapping

/-- The view of a command in whose time the tables do not change. -/
def ServedView.same (m : ModbusServer.AllocatedMapping) : ServedView := ⟨m, m, m, m⟩

def ServedView.view (v : ServedView) : ModbusServer.View :=
  ⟨some v.coils.toMapping, some v.inputs.toMapping, some v.discrete.toMapping,
    some v.holding.toMapping⟩

def ServedView.regs (v : ServedView) : AllRegs :=
  ⟨v.coils.tabBits, v.discrete.tabInputBits, v.inputs.tabInputRegisters, v.holding.tabRegisters⟩

/-- The payload that answers a command: the entry or the table asked for, without any
reference to how it is sent. It is empty when the table has no such entry. -/
def payload (v : ServedView) (arg : ℕ) : Code → List UInt8
  | .readCoil => v.coils.tabBits[arg]?.toList
  | .readDiscrete => v.discrete.tabInputBits[arg]?.toList
  | .readInput => wordBytes v.inputs.tabInputRegisters[arg]?.toList
  | .readHolding => wordBytes v.holding.tabRegisters[arg]?.toList
  | .readCoilAll => v.coils.tabBits
  | .readDiscreteAll => v.discrete.tabInputBits
  | .readInputAll => wordBytes v.inputs.tabInputRegisters
  | .readHoldingAll => wordBytes v.holding.tabRegisters
  | .readAll => regsPayload v.regs

theorem length_regsPayload_regs (v : ServedView) : (regsPayload v.regs).length = 76 := by
  rw [length_regsPayload]
  simp only [ServedView.regs, v.coils.length_tabBits, v.discrete.length_tabInputBits,
    v.inputs.length_tabInputRegisters, v.holding.length_tabRegisters]

theorem length_toList_le {α : Type} (x : Option α) : x.toList.length ≤ 1 := by
  cases x <;> simp

theorem length_payload_le (v : ServedView) (arg : ℕ) (c : Code) : (payload v arg c).length ≤ 76 := by
  have h1 := v.coils.length_tabBits
  have h2 := v.discrete.length_tabInputBits
  have h3 := v.inputs.length_tabInputRegisters
  have h4 := v.holding.length_tabRegisters
  have h5 := length_toList_le v.coils.tabBits[arg]?
  have h6 := length_toList_le v.discrete.tabInputBits[arg]?
  have h7 := length_toList_le v.inputs.tabInputRegisters[arg]?
  have h8 := length_toList_le v.holding.tabRegisters[arg]?
  cases c <;> simp only [payload, length_wordBytes, length_regsPayload_regs] <;> omega

private theorem respond_entry {α : Type} (o : ByteOrder) (write : α → Writes)
    (bytes : List α → List UInt8) (hnil : bytes [] = [])
    (hwrite : ∀ x, (write x).flatten = frame 4 (bytes [x])) (x : Option α) :
    ∃ ws, respond o write (.ok x) = .ok ws ∧ ws.flatten = frame 4 (bytes x.toList) := by
  cases x with
  | none => exact ⟨_, rfl, by simpa [hnil] using writeResponse_nil o⟩
  | some x => exact ⟨_, rfl, hwrite x⟩

private theorem respond_some {α : Type} (o : ByteOrder) (write : α → Writes) (x : α)
    {p : List UInt8} (hwrite : (write x).flatten = frame 4 p) :
    ∃ ws, respond o write (.ok (some x)) = .ok ws ∧ ws.flatten = frame 4 p :=
  ⟨_, rfl, hwrite⟩

private theorem writeWord_flatten (o : ByteOrder) (x : UInt16) :
    (writeResponseWord o x).flatten = frame 4 (wordBytes [x]) := by
  simpa [wordBytes] using writeResponseWord_flatten o x

/-- Each handler sends exactly one frame, with the payload of its command. -/
theorem dispatch_code (o : ByteOrder) (v : ServedView) (c : Code) (arg : UInt16) :
    ∃ ws, dispatch o (ModbusServer.service v.view) c.toByte arg = .ok ws ∧
      ws.flatten = frame 4 (payload v arg.toNat c) := by
  unfold dispatch
  rw [Code.ofByte?_toByte]
  cases c with
  | readCoil =>
    change ∃ ws, respond o _ (ModbusServer.readCoil _ _) = .ok ws ∧ _
    rw [show v.view.coils = some v.coils.toMapping from rfl, ModbusServer.readCoil_eq]
    exact respond_entry o _ id rfl (writeResponseByte_flatten o) _
  | readDiscrete =>
    change ∃ ws, respond o _ (ModbusServer.readDiscrete _ _) = .ok ws ∧ _
    rw [show v.view.discrete = some v.discrete.toMapping from rfl, ModbusServer.readDiscrete_eq]
    exact respond_entry o _ id rfl (writeResponseByte_flatten o) _
  | readInput =>
    change ∃ ws, respond o _ (ModbusServer.readInput _ _) = .ok ws ∧ _
    rw [show v.view.inputs = some v.inputs.toMapping from rfl, ModbusServer.readInput_eq]
    exact respond_entry o _ wordBytes rfl (writeWord_flatten o) _
  | readHolding =>
    change ∃ ws, respond o _ (ModbusServer.readHolding _ _) = .ok ws ∧ _
    rw [show v.view.holding = some v.holding.toMapping from rfl, ModbusServer.readHolding_eq]
    exact respond_entry o _ wordBytes rfl (writeWord_flatten o) _
  | readCoilAll => exact respond_some o _ _ (writeResponseBytes_flatten o _)
  | readDiscreteAll => exact respond_some o _ _ (writeResponseBytes_flatten o _)
  | readInputAll => exact respond_some o _ _ (writeResponseWords_flatten o _)
  | readHoldingAll => exact respond_some o _ _ (writeResponseWords_flatten o _)
  | readAll =>
    have hsize : (regsPayload v.regs).length < 2 ^ 31 := by
      rw [length_regsPayload_regs]
      omega
    exact respond_some o _ _ (writeResponseRegs_flatten o hsize)

def response (v : ServedView) (unit : UInt8 × UInt16) : Option (List UInt8) :=
  (Code.ofByte? unit.1).map (payload v unit.2.toNat)

theorem dispatch_response (o : ByteOrder) (v : ServedView) (unit : UInt8 × UInt16) :
    ∃ ws, dispatch o (ModbusServer.service v.view) unit.1 unit.2 = .ok ws ∧
      ws.flatten = (response v unit).toList.flatMap (frame 4) := by
  cases hc : Code.ofByte? unit.1 with
  | none =>
    refine ⟨[], ?_, by simp [response, hc]⟩
    unfold dispatch
    rw [hc]
  | some c =>
    obtain ⟨ws, hws, hflat⟩ := dispatch_code o v c unit.2
    rw [Code.ofByte?_eq_some hc]
    exact ⟨ws, hws, by simp [response, hc, hflat]⟩

end Mbtest.TcpConnection
