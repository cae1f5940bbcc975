import Mbtest.ModbusServer.Snapshot
import Mbtest.Wire.RoundTrip

/-! Any number of clients, each on a connection of its own that stays open, beside the Modbus
requests that change the tables. -/
namespace Mbtest.Wire.Clients
open Lib TcpConnection Client

/-- The command that a client waits for. States are counted, and `since` is the first one after
the command was sent. -/
structure Asked where
  code : Code
  arg : UInt16
  since : ℕ
  deriving DecidableEq, Repr

/-- A response that a client has read; `returned` is the first state after it. -/
structure Result where
  client : ℕ
  asked : Asked
  response : List UInt8
  returned : ℕ
  deriving DecidableEq, Repr

/-- Connection `t` has the thread `t` of the server. `inRequest` is set while a Modbus connection
holds `ctxMutex`, and `handling t` while the thread `t` is in the handler of a command; `tables` is
history: what `mb_mapping_` pointed to in every state. -/
structure State where
  server : ModbusServer.State
  inRequest : Bool
  handling : ℕ → Bool
  asked : ℕ → Option Asked
  toServer : ℕ → List UInt8
  toClient : ℕ → List UInt8
  tables : List (Option ModbusServer.Mapping)
  results : List Result

/-- `lockRequest` begins `handleModbusRequest`, which ends with a reply, that may have written the
tables, in `request`, or without one in `endRequest`. It may wait for its query in between. -/
inductive Action
  | startup (ok : Bool)
  | lockRequest
  | request (coils : List UInt8) (holding : List UInt16)
  | endRequest
  | ask (t : ℕ) (code : Code) (arg : UInt16)
  | receive (t : ℕ)
  | readSection (t : ℕ)
  | answer (t : ℕ)
  | response (t : ℕ)
  deriving DecidableEq, Repr

/-- The read that the handler of a command calls, if it is one of the single-table reads. -/
def readOp (arg : UInt16) : Code → Option ModbusServer.ReadOp
  | .readCoil => some (.readCoil arg.toNat)
  | .readDiscrete => some (.readDiscrete arg.toNat)
  | .readInput => some (.readInput arg.toNat)
  | .readHolding => some (.readHolding arg.toNat)
  | .readCoilAll => some .readCoilAll
  | .readDiscreteAll => some .readDiscreteAll
  | .readInputAll => some .readInputAll
  | .readHoldingAll => some .readHoldingAll
  | .readAll => none

def call (t : ℕ) (arg : UInt16) (code : Code) : ModbusServer.Action :=
  match readOp arg code with
  | some op => .call t op
  | none => .callAll t

def writes (o : ByteOrder) : ModbusServer.Reader → Option (Access Writes)
  | .value _ (.bit val) => some (respond o (writeResponseByte o) (.ok val))
  | .value _ (.word val) => some (respond o (writeResponseWord o) (.ok val))
  | .value _ (.bits val) => some (respond o (writeResponseBytes o) (.ok val))
  | .value _ (.words val) => some (respond o (writeResponseWords o) (.ok val))
  | .regs val => some (respond o (writeResponseRegs o) (.ok val))
  | _ => none

namespace State
variable (server client : ByteOrder) (s : State) (t : ℕ)

def onServer (a : ModbusServer.Action) : Option State :=
  (ModbusServer.serving.next s.server a).map fun server => { s with server := server }

/-- The two writes of `sendCommand`. No other thread writes to this socket, and the server waits
for the bytes of both. -/
def ask (code : Code) (arg : UInt16) : State :=
  { s with
    asked := Function.update s.asked t (some ⟨code, arg, s.tables.length⟩)
    toServer := Function.update s.toServer t
      (s.toServer t ++ (sendCommand client code.toByte arg).flatten) }

/-- One pass of the command loop up to the call of the server; an unknown code is skipped. -/
def receive : Option State :=
  let (req, rest) := readRequest server streamRead (s.toServer t)
  let s := { s with toServer := Function.update s.toServer t rest }
  match Code.ofByte? req.cmd with
  | some code => (s.onServer (call t req.arg code)).map fun s =>
      { s with handling := Function.update s.handling t true }
  | none => some s

def answer (writes : Writes) : State :=
  { s with
    handling := Function.update s.handling t false
    toClient := Function.update s.toClient t (s.toClient t ++ writes.flatten) }

def response (a : Asked) : State :=
  let (response, rest) := readResponse client streamRead (s.toClient t)
  { s with
    asked := Function.update s.asked t none
    toClient := Function.update s.toClient t rest
    results := s.results ++ [⟨t, a, response, s.tables.length⟩] }

end State

def Arrived (client : ByteOrder) (bs : List UInt8) : Prop :=
  4 ≤ bs.length ∧ 4 + (ntohl client (load32 client (bs.take 4))).toNat ≤ bs.length

instance (client : ByteOrder) (bs : List UInt8) : Decidable (Arrived client bs) :=
  inferInstanceAs (Decidable (_ ∧ _))

section Model
variable (server client : ByteOrder)

/-- A read of a socket blocks until all its bytes are there. -/
def move (s : State) : Action → Option State
  | .startup ok => s.onServer (.startup ok)
  | .lockRequest =>
    if s.server.startup = .serving ∧ s.inRequest = false then some { s with inRequest := true }
    else none
  | .request coils holding =>
    if s.inRequest then
      (s.onServer (.request coils holding)).map fun s => { s with inRequest := false }
    else none
  | .endRequest => if s.inRequest then some { s with inRequest := false } else none
  | .ask t code arg => if s.asked t = none then some (s.ask client t code arg) else none
  | .receive t =>
    if s.handling t = false ∧ 3 ≤ (s.toServer t).length then s.receive server t else none
  | .readSection t => if s.inRequest = false then s.onServer (.readSection t) else none
  | .answer t =>
    if s.handling t then
      match writes server (s.server.reader t) with
      | some (.ok ws) => some (s.answer t ws)
      | _ => none
    else none
  | .response t =>
    match s.asked t with
    | some a => if Arrived client (s.toClient t) then some (s.response client t a) else none
    | none => none

def State.record (s : State) : State :=
  { s with tables := s.tables ++ [s.server.mapping] }

def clients : TransitionSystem State Action where
  init := ⟨ModbusServer.serving.init, false, fun _ => false, fun _ => none, fun _ => [], fun _ => [],
    [none], []⟩
  next s a := (move server client s a).map State.record

end Model

/-- No section of a read is executed before the start-up has filled the tables. -/
def AfterStartup (s : State) : Action → Prop
  | .readSection _ => s.server.startup.discreteFilled = true
  | _ => True

instance (s : State) (a : Action) : Decidable (AfterStartup s a) :=
  match a with
  | .readSection _ => inferInstanceAs (Decidable (s.server.startup.discreteFilled = true))
  | .startup _ | .lockRequest | .request _ _ | .endRequest | .ask _ _ _ | .receive _ | .answer _
  | .response _ => .isTrue trivial

/-- A response that is right for its command: a read of one table shows the table as it stood at
one instant between the command and the response; `readAll` shows the coils of one such instant
and the three other tables of one not before it. -/
def Answers (tables : List (Option ModbusServer.Mapping)) (a : Asked) (returned : ℕ)
    (response : List UInt8) : Prop :=
  ∃ (j k : ℕ) (m m' : ModbusServer.AllocatedMapping), a.since ≤ j ∧ j ≤ k ∧ k < returned ∧
    tables[j]? = some (some m.toMapping) ∧ tables[k]? = some (some m'.toMapping) ∧
    (a.code ≠ .readAll → j = k) ∧ response = payload ⟨m, m', m', m'⟩ a.arg.toNat a.code

/-! ### Handlers -/

/-- A read that returns gives its handler the value that it writes. -/
theorem writes_map {α : Type} (o : ByteOrder) {op : ModbusServer.ReadOp} {val : ModbusServer.Value}
    {result : Access (Option α)} {kind : Option α → ModbusServer.Value} {write : α → Writes}
    (hkind : ∀ x, writes o (.value op (kind x)) = some (respond o write (.ok x)))
    (hval : kind <$> result = .ok val) :
    writes o (.value op val) = some (respond o write result) := by
  cases result with
  | ok x =>
    rw [← Except.ok.inj hval]
    exact hkind x
  | error e => cases hval

theorem writes_value (o : ByteOrder) {mapping : Option ModbusServer.Mapping} {arg : UInt16}
    {code : Code} {op : ModbusServer.ReadOp} {val : ModbusServer.Value}
    (hop : readOp arg code = some op) (hval : op.call mapping = .ok val) :
    writes o (.value op val) = some (dispatch o
      (ModbusServer.service ⟨mapping, mapping, mapping, mapping⟩) code.toByte arg) := by
  unfold dispatch
  rw [Code.ofByte?_toByte]
  cases code with
  | readAll => cases hop
  | readCoil => cases hop; exact writes_map o (fun _ => rfl) hval
  | readDiscrete => cases hop; exact writes_map o (fun _ => rfl) hval
  | readInput => cases hop; exact writes_map o (fun _ => rfl) hval
  | readHolding => cases hop; exact writes_map o (fun _ => rfl) hval
  | readCoilAll => cases hop; exact writes_map o (fun _ => rfl) hval
  | readDiscreteAll => cases hop; exact writes_map o (fun _ => rfl) hval
  | readInputAll => cases hop; exact writes_map o (fun _ => rfl) hval
  | readHoldingAll => cases hop; exact writes_map o (fun _ => rfl) hval

theorem writes_payload (o : ByteOrder) {m : ModbusServer.AllocatedMapping} {arg : UInt16}
    {code : Code} {op : ModbusServer.ReadOp} {val : ModbusServer.Value}
    (hop : readOp arg code = some op) (hval : op.call (some m.toMapping) = .ok val) :
    ∃ ws, writes o (.value op val) = some (.ok ws) ∧
      ws.flatten = frame 4 (payload (.same m) arg.toNat code) := by
  obtain ⟨ws, hws, hflat⟩ := dispatch_code o (.same m) code arg
  refine ⟨ws, ?_, hflat⟩
  rw [writes_value o hop hval]
  exact congrArg some hws

theorem writes_regs (o : ByteOrder) (v : ServedView) (arg : UInt16) :
    ∃ ws, writes o (.regs (some v.regs)) = some (.ok ws) ∧
      ws.flatten = frame 4 (payload v arg.toNat .readAll) := by
  obtain ⟨ws, hws, hflat⟩ := dispatch_code o v .readAll arg
  exact ⟨ws, congrArg some hws, hflat⟩

/-! ### Tables -/

/-- The tables once they are filled: requests leave their lengths and the input tables alone. -/
theorem exists_allocated {s : ModbusServer.State} (hs : ModbusServer.MappingInv s)
    (hfilled : s.startup.discreteFilled = true) :
    ∃ m : ModbusServer.AllocatedMapping, s.mapping = some m.toMapping ∧
      m.tabInputRegisters = ModbusServer.filledMapping.tabInputRegisters ∧
      m.tabInputBits = ModbusServer.filledMapping.tabInputBits := by
  have htab : ∀ p : ModbusServer.Startup, p.discreteFilled = true →
      p.mapping = some ModbusServer.filledMapping := by
    intro p hp
    cases p <;> first | rfl | cases hp
  obtain ⟨m, hm, hsame⟩ := hs.exists_mapping (htab _ hfilled)
  exact ⟨⟨m, hsame.bits, congrArg List.length hsame.inputBits,
    congrArg List.length hsame.inputRegisters, hsame.registers⟩, hm, hsame.inputRegisters,
    hsame.inputBits⟩

theorem sectionReady_of_filled {p : ModbusServer.Startup} (hp : p.discreteFilled = true)
    (r : ModbusServer.Reader) : ModbusServer.sectionReady p r := by
  have hallocated : p.allocated = true := by cases p <;> first | rfl | cases hp
  have hinputs : p.inputsFilled = true := by cases p <;> first | rfl | cases hp
  cases r with
  | single op =>
    cases op with
    | readCoil arg => exact fun _ => hallocated
    | readInput arg => exact fun _ => hinputs
    | readDiscrete arg => exact fun _ => hp
    | readHolding arg => exact fun _ => hallocated
    | readCoilAll => exact hallocated
    | readInputAll => exact hinputs
    | readDiscreteAll => exact hp
    | readHoldingAll => exact hallocated
  | coils => exact hallocated
  | inputs n1 => exact hinputs
  | discrete n1 n2 => exact hp
  | holding n1 n2 n3 => exact hallocated
  | idle => trivial
  | value op val => trivial
  | regs val => trivial

/-! ### Connections -/

/-- What a thread that handles a command has read for it. -/
def ReadFor (tables : List (Option ModbusServer.Mapping)) (a : Asked) : ModbusServer.Reader → Prop
  | .idle => False
  | .single op => readOp a.arg a.code = some op
  | .coils => a.code = .readAll
  | .inputs n1 | .discrete n1 _ | .holding n1 _ _ => a.code = .readAll ∧
      ∃ (j : ℕ) (m : ModbusServer.AllocatedMapping), a.since ≤ j ∧
        tables[j]? = some (some m.toMapping) ∧ n1 = some m.tabBits
  | .value op val => readOp a.arg a.code = some op ∧
      ∃ (j : ℕ) (m : ModbusServer.AllocatedMapping), a.since ≤ j ∧
        tables[j]? = some (some m.toMapping) ∧ op.call (some m.toMapping) = .ok val
  | .regs val => a.code = .readAll ∧
      ∃ (j k : ℕ) (m m' : ModbusServer.AllocatedMapping), a.since ≤ j ∧ j ≤ k ∧
        tables[j]? = some (some m.toMapping) ∧ tables[k]? = some (some m'.toMapping) ∧
        val = some (ServedView.regs ⟨m, m', m', m'⟩)

theorem lt_of_getElem?_eq_some {α : Type} {l : List α} {j : ℕ} {x : α} (h : l[j]? = some x) :
    j < l.length :=
  (List.getElem?_eq_some_iff.mp h).1

theorem getElem?_append_some {α : Type} {l : List α} {j : ℕ} {x : α} (h : l[j]? = some x)
    (l' : List α) : (l ++ l')[j]? = some x := by
  rw [List.getElem?_append_left (lt_of_getElem?_eq_some h)]
  exact h

section Mono
variable {tables : List (Option ModbusServer.Mapping)} {a : Asked}

theorem Answers.mono {returned returned' : ℕ} {p : List UInt8} (h : Answers tables a returned p)
    (hle : returned ≤ returned') (more : List (Option ModbusServer.Mapping)) :
    Answers (tables ++ more) a returned' p := by
  obtain ⟨j, k, m, m', hsince, hjk, hk, hm, hm', hone, hp⟩ := h
  exact ⟨j, k, m, m', hsince, hjk, Nat.lt_of_lt_of_le hk hle, getElem?_append_some hm more,
    getElem?_append_some hm' more, hone, hp⟩

theorem ReadFor.mono {r : ModbusServer.Reader} (h : ReadFor tables a r)
    (more : List (Option ModbusServer.Mapping)) : ReadFor (tables ++ more) a r := by
  cases r with
  | idle => exact h
  | single op => exact h
  | coils => exact h
  | inputs n1 =>
    obtain ⟨hcode, j, m, hj, hm, hn1⟩ := h
    exact ⟨hcode, j, m, hj, getElem?_append_some hm more, hn1⟩
  | discrete n1 n2 =>
    obtain ⟨hcode, j, m, hj, hm, hn1⟩ := h
    exact ⟨hcode, j, m, hj, getElem?_append_some hm more, hn1⟩
  | holding n1 n2 n3 =>
    obtain ⟨hcode, j, m, hj, hm, hn1⟩ := h
    exact ⟨hcode, j, m, hj, getElem?_append_some hm more, hn1⟩
  | value op val =>
    obtain ⟨hop, j, m, hj, hm, hval⟩ := h
    exact ⟨hop, j, m, hj, getElem?_append_some hm more, hval⟩
  | regs val =>
    obtain ⟨hcode, j, k, m, m', hj, hjk, hm, hm', hval⟩ := h
    exact ⟨hcode, j, k, m, m', hj, hjk, getElem?_append_some hm more,
      getElem?_append_some hm' more, hval⟩

end Mono

theorem ReadFor.section {s s' : ModbusServer.State} {t : ℕ}
    {tables : List (Option ModbusServer.Mapping)} {a : Asked} (hsafe : ModbusServer.Safe s)
    (hmap : ModbusServer.MappingInv s) (hfilled : s.startup.discreteFilled = true)
    (h : ReadFor tables a (s.reader t)) (hsince : a.since ≤ tables.length)
    (hn : ModbusServer.sectionNext s t = some s') :
    ReadFor (tables ++ [s'.mapping]) a (s'.reader t) := by
  obtain ⟨m, hm, hinputs, hbits⟩ := exists_allocated hmap hfilled
  have hread := hsafe.filled t
  have hnow : (tables ++ [s'.mapping])[tables.length]? = some (some m.toMapping) := by
    rw [List.getElem?_concat_length, (ModbusServer.sectionNext_frame hn).2, hm]
  unfold ModbusServer.sectionNext at hn
  rw [hm] at hn
  cases hr : s.reader t with
  | idle => rw [hr] at hn; cases hn
  | value op val => rw [hr] at hn; cases hn
  | regs val => rw [hr] at hn; cases hn
  | single op =>
    rw [hr] at hn h
    have hready : ModbusServer.opReady s.startup op := sectionReady_of_filled hfilled (.single op)
    obtain ⟨val, hval, -⟩ := ModbusServer.call_of_ready hmap hready
    rw [hm] at hval
    simp only [hval, ModbusServer.resume, Option.some.injEq] at hn
    subst hn
    change ReadFor _ a (Function.update s.reader t (.value op val) t)
    rw [Function.update_self]
    exact ⟨h, tables.length, m, hsince, hnow, hval⟩
  | coils =>
    rw [hr] at hn h
    cases Option.some.inj hn
    change ReadFor _ a (Function.update s.reader t (.inputs (some m.tabBits)) t)
    rw [Function.update_self]
    exact ⟨h, tables.length, m, hsince, hnow, rfl⟩
  | inputs n1 =>
    rw [hr] at hn h
    cases Option.some.inj hn
    change ReadFor _ a (Function.update s.reader t (.discrete n1 (some m.tabInputRegisters)) t)
    rw [Function.update_self]
    exact ReadFor.mono h _
  | discrete n1 n2 =>
    rw [hr] at hn h
    cases Option.some.inj hn
    change ReadFor _ a (Function.update s.reader t (.holding n1 n2 (some m.tabInputBits)) t)
    rw [Function.update_self]
    exact ReadFor.mono h _
  | holding n1 n2 n3 =>
    rw [hr] at hn h hread
    cases Option.some.inj hn
    change ReadFor _ a (Function.update s.reader t
      (.regs (ModbusServer.collect n1 n2 n3 (some m.tabRegisters))) t)
    rw [Function.update_self]
    obtain ⟨hcode, j, m₀, hj, hm₀, rfl⟩ := h
    obtain ⟨rfl, rfl⟩ := hread
    refine ⟨hcode, j, tables.length, m₀, m, hj, Nat.le_of_lt (lt_of_getElem?_eq_some hm₀),
      getElem?_append_some hm₀ _, hnow, ?_⟩
    rw [← hinputs, ← hbits]
    rfl

structure Side where
  asked : Option Asked
  toServer : List UInt8
  toClient : List UInt8
  handling : Bool
  reader : ModbusServer.Reader

def State.side (s : State) (t : ℕ) : Side :=
  ⟨s.asked t, s.toServer t, s.toClient t, s.handling t, s.server.reader t⟩

/-- The way of a command: it is sent, it is handled, it is answered. -/
inductive Phase (client : ByteOrder) (tables : List (Option ModbusServer.Mapping)) : Side → Prop
  | free {r : ModbusServer.Reader} (hr : r.Ready) : Phase client tables ⟨none, [], [], false, r⟩
  | sent {a : Asked} {r : ModbusServer.Reader} (hr : r.Ready) (hsince : a.since ≤ tables.length) :
      Phase client tables
        ⟨some a, (sendCommand client a.code.toByte a.arg).flatten, [], false, r⟩
  | handled {a : Asked} {r : ModbusServer.Reader} (hread : ReadFor tables a r)
      (hsince : a.since ≤ tables.length) : Phase client tables ⟨some a, [], [], true, r⟩
  | answered {a : Asked} {r : ModbusServer.Reader} {p : List UInt8} (hr : r.Ready)
      (hp : Answers tables a tables.length p) :
      Phase client tables ⟨some a, [], frame 4 p, false, r⟩

theorem Phase.mono {client : ByteOrder} {tables : List (Option ModbusServer.Mapping)} {d : Side}
    (h : Phase client tables d) (more : List (Option ModbusServer.Mapping)) :
    Phase client (tables ++ more) d := by
  have hle : tables.length ≤ (tables ++ more).length := by simp
  cases h with
  | free hr => exact .free hr
  | sent hr hsince => exact .sent hr (Nat.le_trans hsince hle)
  | handled hread hsince => exact .handled (hread.mono more) (Nat.le_trans hsince hle)
  | answered hr hp => exact .answered hr (hp.mono hle more)

/-- The reads of a thread that its next sections make. -/
def sectionsLeft : ModbusServer.Reader → ℕ
  | .coils => 4
  | .inputs _ => 3
  | .discrete _ _ => 2
  | .holding _ _ _ | .single _ => 1
  | _ => 0

/-- What the steps of a connection do to it. -/
inductive Goes (client : ByteOrder) (tables : List (Option ModbusServer.Mapping)) (t : ℕ) :
    Action → Side → Side → Prop
  | ask {a : Asked} {r : ModbusServer.Reader} (hr : r.Ready) (hsince : a.since ≤ tables.length) :
      Goes client tables t (.ask t a.code a.arg) ⟨none, [], [], false, r⟩
        ⟨some a, (sendCommand client a.code.toByte a.arg).flatten, [], false, r⟩
  | receive {a : Asked} {r r' : ModbusServer.Reader} (hread : ReadFor tables a r')
      (hsince : a.since ≤ tables.length) : Goes client tables t (.receive t)
        ⟨some a, (sendCommand client a.code.toByte a.arg).flatten, [], false, r⟩
        ⟨some a, [], [], true, r'⟩
  | readSection {a : Asked} {r r' : ModbusServer.Reader} (hread : ReadFor tables a r')
      (hsince : a.since ≤ tables.length) (hleft : sectionsLeft r' < sectionsLeft r) :
      Goes client tables t (.readSection t) ⟨some a, [], [], true, r⟩ ⟨some a, [], [], true, r'⟩
  | answer {a : Asked} {r : ModbusServer.Reader} {p : List UInt8} (hr : r.Ready)
      (hp : Answers tables a tables.length p) : Goes client tables t (.answer t)
        ⟨some a, [], [], true, r⟩ ⟨some a, [], frame 4 p, false, r⟩
  | response {a : Asked} {r : ModbusServer.Reader} {p : List UInt8} (hr : r.Ready) :
      Goes client tables t (.response t) ⟨some a, [], frame 4 p, false, r⟩ ⟨none, [], [], false, r⟩

theorem Goes.phase {client : ByteOrder} {tables : List (Option ModbusServer.Mapping)} {t : ℕ}
    {b : Action} {d d' : Side} (h : Goes client tables t b d d') : Phase client tables d' := by
  cases h with
  | ask hr hsince => exact .sent hr hsince
  | receive hread hsince => exact .handled hread hsince
  | readSection hread hsince hleft => exact .handled hread hsince
  | answer hr hp => exact .answered hr hp
  | response hr => exact .free hr

section Inversion
variable {client : ByteOrder} {tables : List (Option ModbusServer.Mapping)} {d : Side}

theorem Phase.of_free (h : Phase client tables d) (hasked : d.asked = none) :
    ∃ r, r.Ready ∧ d = ⟨none, [], [], false, r⟩ := by
  cases h with
  | free hr => exact ⟨_, hr, rfl⟩
  | sent => cases hasked
  | handled => cases hasked
  | answered => cases hasked

theorem Phase.of_bytes (h : Phase client tables d) (hlen : 3 ≤ d.toServer.length) :
    ∃ a r, a.since ≤ tables.length ∧
      d = ⟨some a, (sendCommand client a.code.toByte a.arg).flatten, [], false, r⟩ := by
  cases h with
  | sent hr hsince => exact ⟨_, _, hsince, rfl⟩
  | free => simp at hlen
  | handled => simp at hlen
  | answered => simp at hlen

theorem Phase.of_handling (h : Phase client tables d)
    (hd : d.handling = true ∨ d.reader.Ready = false) :
    ∃ a r, ReadFor tables a r ∧ a.since ≤ tables.length ∧ d = ⟨some a, [], [], true, r⟩ := by
  cases h with
  | handled hread hsince => exact ⟨_, _, hread, hsince, rfl⟩
  | free hr => simp [hr] at hd
  | sent hr => simp [hr] at hd
  | answered hr => simp [hr] at hd

theorem Phase.of_answer (h : Phase client tables d) (hd : d.toClient ≠ []) :
    ∃ a r p, r.Ready ∧ Answers tables a tables.length p ∧ d = ⟨some a, [], frame 4 p, false, r⟩ := by
  cases h with
  | answered hr hp => exact ⟨_, _, _, hr, hp, rfl⟩
  | free => exact absurd rfl hd
  | sent => exact absurd rfl hd
  | handled => exact absurd rfl hd

end Inversion

/-! ### Steps -/

def Action.own (t : ℕ) : Action → Bool
  | .receive u | .readSection u | .answer u | .response u => u == t
  | _ => false

theorem readOp_eq_none {arg : UInt16} {code : Code} (h : readOp arg code = none) :
    code = .readAll := by
  cases code <;> first | rfl | cases h

theorem call_eq {s s' : ModbusServer.State} {t : ℕ} {a : Asked}
    (hn : ModbusServer.serving.next s (call t a.arg a.code) = some s') :
    ∃ r, s' = { s with reader := Function.update s.reader t r } ∧ ∀ tables, ReadFor tables a r := by
  change ModbusServer.next s _ = some s' at hn
  unfold ModbusServer.next call at hn
  split_ifs at hn
  cases hop : readOp a.arg a.code with
  | some op =>
    rw [hop] at hn
    exact ⟨_, ModbusServer.callNext_eq hn, fun _ => hop⟩
  | none =>
    rw [hop] at hn
    exact ⟨_, ModbusServer.callNext_eq hn, fun _ => readOp_eq_none hop⟩

theorem section_of_next {s s' : ModbusServer.State} {t : ℕ}
    (hn : ModbusServer.serving.next s (.readSection t) = some s') :
    ModbusServer.sectionNext s t = some s' := by
  change ModbusServer.next s (.readSection t) = some s' at hn
  unfold ModbusServer.next at hn
  split_ifs at hn
  exact hn

theorem reader_of_startup {s s' : ModbusServer.State} {ok : Bool}
    (hn : ModbusServer.serving.next s (.startup ok) = some s') : s'.reader = s.reader := by
  change ModbusServer.next s (.startup ok) = some s' at hn
  unfold ModbusServer.next at hn
  split_ifs at hn
  exact (ModbusServer.startupNext_frame hn).1

theorem reader_of_request {s s' : ModbusServer.State} {coils : List UInt8} {holding : List UInt16}
    (hn : ModbusServer.serving.next s (.request coils holding) = some s') :
    s'.reader = s.reader := by
  change ModbusServer.next s (.request coils holding) = some s' at hn
  unfold ModbusServer.next at hn
  split_ifs at hn
  exact (ModbusServer.requestNext_frame hn).1

theorem ready_of_writes {o : ByteOrder} {r : ModbusServer.Reader} {result : Access Writes}
    (h : writes o r = some result) : r.Ready := by
  cases r <;> first | rfl | cases h

theorem isSome_sectionNext (m : ModbusServer.State) (t : ℕ) :
    (ModbusServer.sectionNext m t).isSome = !(m.reader t).Ready := by
  unfold ModbusServer.sectionNext
  cases m.reader t <;> rfl

theorem sectionsLeft_lt {s s' : ModbusServer.State} {t : ℕ} (hcrashed : s'.crashed = none)
    (hn : ModbusServer.sectionNext s t = some s') :
    sectionsLeft (s'.reader t) < sectionsLeft (s.reader t) := by
  have hresume : ∀ {α : Type} (result : Access α) (go : α → ModbusServer.Reader),
      (ModbusServer.resume s t result go).crashed = none →
      ∃ v, (ModbusServer.resume s t result go).reader t = go v := by
    intro α result go h
    cases result with
    | ok v => exact ⟨v, Function.update_self _ _ _⟩
    | error f => cases h
  unfold ModbusServer.sectionNext at hn
  split at hn
  case h_6 => cases hn
  all_goals
    rename_i hr
    cases Option.some.inj hn
    obtain ⟨v, hv⟩ := hresume _ _ hcrashed
    rw [hv, hr]
    exact Nat.lt_succ_self _

/-- A read that has returned is written as a right answer, in one frame. -/
theorem ReadFor.writes {tables : List (Option ModbusServer.Mapping)} {a : Asked}
    {r : ModbusServer.Reader} (h : ReadFor tables a r) (hr : r.Ready) (o : ByteOrder) :
    ∃ ws p, writes o r = some (.ok ws) ∧ ws.flatten = frame 4 p ∧
      Answers tables a tables.length p := by
  cases r with
  | idle => cases h
  | single op => cases hr
  | coils => cases hr
  | inputs n1 => cases hr
  | discrete n1 n2 => cases hr
  | holding n1 n2 n3 => cases hr
  | value op val =>
    obtain ⟨hop, j, m, hj, hm, hval⟩ := h
    obtain ⟨ws, hws, hflat⟩ := writes_payload o hop hval
    exact ⟨ws, _, hws, hflat, j, j, m, m, hj, Nat.le_refl j, lt_of_getElem?_eq_some hm, hm, hm,
      fun _ => rfl, rfl⟩
  | regs val =>
    obtain ⟨hcode, j, k, m, m', hj, hjk, hm, hm', rfl⟩ := h
    obtain ⟨ws, hws, hflat⟩ := writes_regs o ⟨m, m', m', m'⟩ a.arg
    exact ⟨ws, _, hws, hflat, j, k, m, m', hj, hjk, lt_of_getElem?_eq_some hm', hm, hm',
      fun hne => absurd hcode hne, by rw [hcode]⟩

theorem length_lt_of_answers {tables : List (Option ModbusServer.Mapping)} {a : Asked}
    {returned : ℕ} {p : List UInt8} (h : Answers tables a returned p) : p.length < 2 ^ 32 := by
  obtain ⟨j, k, m, m', -, -, -, -, -, -, rfl⟩ := h
  have hle := length_payload_le ⟨m, m', m', m'⟩ a.arg.toNat a.code
  omega

structure Inv (client : ByteOrder) (s : State) : Prop where
  server : ModbusServer.serving.ReachableVia ModbusServer.ReadsReady s.server
  phase : ∀ t, Phase client s.tables (s.side t)
  results : ∀ r ∈ s.results, Answers s.tables r.asked r.returned r.response

theorem Inv.safe {client : ByteOrder} {s : State} (h : Inv client s) : ModbusServer.Safe s.server :=
  ModbusServer.safe_of_readsReady h.server

theorem Inv.mappingInv {client : ByteOrder} {s : State} (h : Inv client s) :
    ModbusServer.MappingInv s.server :=
  ModbusServer.mappingInv_of_reachable h.server.reachable

/-- What a step can do: one connection goes on, or none does. -/
structure Moved (client : ByteOrder) (s : State) (b : Action) (s₁ : State) : Prop where
  tables : s₁.tables = s.tables
  server : ModbusServer.serving.ReachableVia ModbusServer.ReadsReady s₁.server
  results : ∀ r ∈ s₁.results, r ∈ s.results ∨ Answers s.tables r.asked r.returned r.response
  side : (s₁.side = s.side ∧ ∀ t, b.own t = false) ∨ ∃ t d, s₁.side = Function.update s.side t d ∧
    Goes client (s.tables ++ [s₁.server.mapping]) t b (s.side t) d

section Steps
variable {server client : ByteOrder} {s s₁ : State}

theorem Inv.moved_server (h : Inv client s) {b : Action} {c : ModbusServer.Action}
    {next : ModbusServer.State} (hown : ∀ t, b.own t = false)
    (hready : ModbusServer.ReadsReady s.server c)
    (hn : ModbusServer.serving.next s.server c = some next)
    (hreader : next.reader = s.server.reader) (inRequest : Bool) :
    Moved client s b { s with server := next, inRequest := inRequest } where
  tables := rfl
  server := h.server.step hready hn
  results _ hr := .inl hr
  side := .inl ⟨funext fun u => by simp only [State.side, hreader], hown⟩

theorem Inv.moved_mutex (h : Inv client s) {b : Action} (hown : ∀ t, b.own t = false)
    (inRequest : Bool) : Moved client s b { s with inRequest := inRequest } where
  tables := rfl
  server := h.server
  results _ hr := .inl hr
  side := .inl ⟨rfl, hown⟩

theorem Inv.moved_ask (h : Inv client s) {t : ℕ} (hasked : s.asked t = none) (code : Code)
    (arg : UInt16) : Moved client s (.ask t code arg) (s.ask client t code arg) := by
  obtain ⟨r, hr, hd⟩ := (h.phase t).of_free hasked
  let a : Asked := ⟨code, arg, s.tables.length⟩
  have hside : (s.ask client t code arg).side t =
      ⟨some a, (sendCommand client code.toByte arg).flatten, [], false, r⟩ := by
    calc (s.ask client t code arg).side t
        = { s.side t with
            asked := some a
            toServer := (s.side t).toServer ++ (sendCommand client code.toByte arg).flatten } := by
          simp only [State.side, State.ask, Function.update_self, a]
      _ = _ := by rw [hd]; rfl
  refine ⟨rfl, h.server, fun r hr => .inl hr, .inr ⟨t, _, Function.eq_update_iff.mpr
    ⟨hside, fun u hu => ?_⟩, ?_⟩⟩
  · simp only [State.side, State.ask, Function.update_of_ne hu]
  · rw [hd]
    exact .ask (a := a) hr (by simp [a])

theorem Inv.moved_receive (h : Inv client s) {t : ℕ} (hlen : 3 ≤ (s.toServer t).length)
    (hn : s.receive server t = some s₁) : Moved client s (.receive t) s₁ := by
  obtain ⟨a, r₀, hsince, hd⟩ := (h.phase t).of_bytes hlen
  have hreq : readRequest server streamRead (s.toServer t) =
      (⟨false, a.code.toByte, a.arg⟩, []) := by
    rw [show s.toServer t = _ from congrArg Side.toServer hd]
    simpa using readRequest_sendCommand server client [] a.code.toByte a.arg
  simp only [State.receive, hreq, Code.ofByte?_toByte] at hn
  obtain ⟨s₂, hs₂, rfl⟩ := Option.map_eq_some_iff.mp hn
  obtain ⟨next, hnext, rfl⟩ := Option.map_eq_some_iff.mp hs₂
  have hserver := h.server.step (by unfold call; split <;> trivial) hnext
  obtain ⟨r, rfl, hread⟩ := call_eq hnext
  refine ⟨rfl, hserver, fun r hr => .inl hr, .inr ⟨t, ⟨some a, [], [], true, r⟩,
    Function.eq_update_iff.mpr ⟨?_, fun u hu => ?_⟩, ?_⟩⟩
  · simp only [State.side, Function.update_self, show s.asked t = _ from congrArg Side.asked hd,
      show s.toClient t = _ from congrArg Side.toClient hd]
  · simp only [State.side, Function.update_of_ne hu]
  · rw [hd]
    exact .receive (hread _) (by rw [List.length_append]; omega)

theorem Inv.moved_readSection (h : Inv client s) {t : ℕ} {next : ModbusServer.State}
    (hfilled : s.server.startup.discreteFilled = true)
    (hn : ModbusServer.serving.next s.server (.readSection t) = some next) :
    Moved client s (.readSection t) { s with server := next } := by
  have hready : ModbusServer.ReadsReady s.server (.readSection t) := sectionReady_of_filled hfilled _
  have hserver := h.server.step hready hn
  have hsection := section_of_next hn
  have hleft := sectionsLeft_lt (ModbusServer.safe_of_readsReady hserver).crashed hsection
  have hmid : (s.server.reader t).Ready = false := by
    have h := isSome_sectionNext s.server t
    rw [hsection] at h
    exact (Bool.not_eq_true' _).mp h.symm
  obtain ⟨a, r, hread, hsince, hd⟩ :=
    (h.phase t).of_handling (.inr hmid)
  have hr : s.server.reader t = r := congrArg Side.reader hd
  rw [← hr] at hread
  rw [hr] at hleft
  refine ⟨rfl, hserver, fun r hr => .inl hr, .inr ⟨t, { s.side t with reader := next.reader t },
    Function.eq_update_iff.mpr ⟨rfl, fun u hu => ?_⟩, ?_⟩⟩
  · simp only [State.side, ModbusServer.sectionNext_other hu hsection]
  · rw [hd]
    exact .readSection (hread.section h.safe h.mappingInv hfilled hsince hsection)
      (by rw [List.length_append]; omega) hleft

theorem Inv.moved_answer (h : Inv client s) {t : ℕ} {ws : Writes} (hhandling : s.handling t = true)
    (hws : writes server (s.server.reader t) = some (.ok ws)) :
    Moved client s (.answer t) (s.answer t ws) := by
  obtain ⟨a, r, hread, hsince, hd⟩ := (h.phase t).of_handling (.inl hhandling)
  have hr : s.server.reader t = r := congrArg Side.reader hd
  rw [hr] at hws
  have hready := ready_of_writes hws
  obtain ⟨ws', p, hws', hflat, hp⟩ := hread.writes hready server
  have hsame : ws' = ws := Except.ok.inj (Option.some.inj (hws'.symm.trans hws))
  have hside : (s.answer t ws).side t = ⟨some a, [], frame 4 p, false, r⟩ := by
    calc (s.answer t ws).side t
        = { s.side t with handling := false, toClient := (s.side t).toClient ++ ws.flatten } := by
          simp only [State.side, State.answer, Function.update_self]
      _ = _ := by rw [hd, ← hsame, hflat]; rfl
  refine ⟨rfl, h.server, fun r hr => .inl hr, .inr ⟨t, _, Function.eq_update_iff.mpr
    ⟨hside, fun u hu => ?_⟩, ?_⟩⟩
  · simp only [State.side, State.answer, Function.update_of_ne hu]
  · rw [hd]
    exact .answer hready (hp.mono (by simp) _)

theorem Inv.moved_response (h : Inv client s) {t : ℕ} {a : Asked} (hasked : s.asked t = some a)
    (harrived : Arrived client (s.toClient t)) :
    Moved client s (.response t) (s.response client t a) := by
  have hne : s.toClient t ≠ [] :=
    List.ne_nil_of_length_pos (Nat.lt_of_lt_of_le (by decide) harrived.1)
  obtain ⟨a', r, p, hr, hp, hd⟩ := (h.phase t).of_answer hne
  have ha : a' = a := Option.some.inj ((congrArg Side.asked hd).symm.trans hasked)
  subst ha
  have hread : readResponse client streamRead (s.toClient t) = (p, []) := by
    rw [show s.toClient t = _ from congrArg Side.toClient hd]
    simpa using readResponse_frame client (length_lt_of_answers hp) []
  have hside : (s.response client t a').side t = ⟨none, [], [], false, r⟩ := by
    calc (s.response client t a').side t
        = { s.side t with asked := none, toClient := [] } := by
          simp only [State.side, State.response, Function.update_self, hread]
      _ = _ := by rw [hd]
  refine ⟨?_, h.server, fun r hr => ?_, .inr ⟨t, _, Function.eq_update_iff.mpr
    ⟨hside, fun u hu => ?_⟩, ?_⟩⟩
  · simp only [State.response]
  · simp only [State.response, hread] at hr
    obtain hold | hnew := List.mem_append.mp hr
    · exact .inl hold
    · rw [List.mem_singleton.mp hnew]
      exact .inr hp
  · simp only [State.side, State.response, Function.update_of_ne hu]
  · rw [hd]
    exact .response hr

theorem Inv.moved (h : Inv client s) {b : Action} (hready : AfterStartup s b)
    (hmove : move server client s b = some s₁) : Moved client s b s₁ := by
  cases b with
  | startup ok =>
    obtain ⟨next, hnext, rfl⟩ := Option.map_eq_some_iff.mp hmove
    exact h.moved_server (c := .startup ok) (fun _ => rfl) trivial hnext (reader_of_startup hnext)
      s.inRequest
  | lockRequest =>
    cases Option.some.inj (of_guard hmove).2
    exact h.moved_mutex (fun _ => rfl) true
  | request coils holding =>
    obtain ⟨s₂, hs₂, rfl⟩ := Option.map_eq_some_iff.mp (of_guard hmove).2
    obtain ⟨next, hnext, rfl⟩ := Option.map_eq_some_iff.mp hs₂
    exact h.moved_server (c := .request coils holding) (fun _ => rfl) trivial hnext
      (reader_of_request hnext) false
  | endRequest =>
    cases Option.some.inj (of_guard hmove).2
    exact h.moved_mutex (fun _ => rfl) false
  | ask t code arg =>
    obtain ⟨hasked, heq⟩ := of_guard hmove
    cases Option.some.inj heq
    exact h.moved_ask hasked code arg
  | receive t =>
    obtain ⟨hcan, hreceive⟩ := of_guard hmove
    exact h.moved_receive hcan.2 hreceive
  | readSection t =>
    obtain ⟨next, hnext, rfl⟩ := Option.map_eq_some_iff.mp (of_guard hmove).2
    exact h.moved_readSection hready hnext
  | answer t =>
    obtain ⟨hhandling, hwrites⟩ := of_guard hmove
    split at hwrites
    · rename_i ws hws
      cases Option.some.inj hwrites
      exact h.moved_answer hhandling hws
    · cases hwrites
  | response t =>
    simp only [move] at hmove
    split at hmove
    · rename_i a hasked
      obtain ⟨harrived, heq⟩ := of_guard hmove
      cases Option.some.inj heq
      exact h.moved_response hasked harrived
    · cases hmove

theorem Moved.inv {b : Action} (hmoved : Moved client s b s₁) (h : Inv client s) :
    Inv client s₁.record := by
  have hrecord : s₁.record.tables = s.tables ++ [s₁.server.mapping] := by rw [← hmoved.tables]; rfl
  refine ⟨hmoved.server, fun u => ?_, fun r hr => ?_⟩
  · rw [hrecord]
    change Phase client _ (s₁.side u)
    obtain ⟨hside, -⟩ | ⟨t, d, hside, hgoes⟩ := hmoved.side
    · rw [hside]
      exact (h.phase u).mono _
    · rw [hside]
      by_cases hu : u = t
      · subst hu
        rw [Function.update_self]
        exact hgoes.phase
      · rw [Function.update_of_ne hu]
        exact (h.phase u).mono _
  · rw [hrecord]
    obtain hold | hnew := hmoved.results r hr
    · exact (h.results r hold).mono (Nat.le_refl _) _
    · exact hnew.mono (Nat.le_refl _) _

end Steps

theorem inv_init (server client : ByteOrder) : Inv client (clients server client).init where
  server := .init
  phase _ := .free rfl
  results r hr := by cases hr

theorem inv_of_reachable {server client : ByteOrder} {s : State}
    (hs : (clients server client).ReachableVia AfterStartup s) : Inv client s := by
  refine hs.invariant (inv_init server client) fun s b s' hready h hn => ?_
  obtain ⟨s₁, hmove, rfl⟩ := Option.map_eq_some_iff.mp hn
  exact (h.moved hready hmove).inv h

/-- However the steps of the clients, of the threads that serve them and of the Modbus requests
are ordered, every response is right for its command, and no thread has followed a wrong
pointer. -/
theorem responses_of_reachable (server client : ByteOrder) {s : State}
    (hs : (clients server client).ReachableVia AfterStartup s) :
    s.server.crashed = none ∧ ∀ r ∈ s.results, Answers s.tables r.asked r.returned r.response :=
  ⟨(inv_of_reachable hs).safe.crashed, (inv_of_reachable hs).results⟩

/-- Client 0 asks for everything and client 1 for a coil; a request sets the coils after client 0
has read them, and another one the holding registers. -/
private def twoClients : List Action :=
  .replicate 5 (.startup true) ++
    [.ask 0 .readAll 0, .ask 1 .readCoil 3, .receive 0, .readSection 0, .lockRequest,
      .request (.replicate 10 1) (.replicate 10 0), .receive 1, .readSection 1, .answer 1,
      .response 1, .lockRequest, .request (.replicate 10 1) (.replicate 10 7), .readSection 0,
      .readSection 0, .readSection 0, .answer 0, .response 0]

theorem responses_of_reachable_torn : ∃ s, (clients .big .little).ReachableVia AfterStartup s ∧
    s.results.map (fun r => (r.client, r.response.take 16)) =
      [(1, [1]), (0, [0, 0, 0, 10, 0, 0, 0, 0, 0, 0, 0, 0, 0, 0, 0, 0])] ∧
    s.server.crashed = none ∧ ∀ r ∈ s.results, Answers s.tables r.asked r.returned r.response := by
  obtain ⟨s, hs, hr⟩ := TransitionSystem.exists_reachableVia_of_runVia (clients .big .little)
    AfterStartup twoClients (fun s => decide
      (s.results.map (fun r => (r.client, r.response.take 16)) =
        [(1, [1]), (0, [0, 0, 0, 10, 0, 0, 0, 0, 0, 0, 0, 0, 0, 0, 0, 0])])) (by decide +kernel)
  exact ⟨s, hs, of_decide_eq_true hr, responses_of_reachable .big .little hs⟩

end Mbtest.Wire.Clients
