import Mbtest.Wire.ReadPaths
import Mbtest.Wire.Session

/-! One command line of the client, from the number typed in to the lines printed, against
a connection of the server. -/
namespace Mbtest.Wire
open Lib TcpConnection Client Client.Console

/-- What is under way on a connection, in both directions. -/
structure Link where
  toServer : List UInt8
  toClient : List UInt8
  deriving DecidableEq, Repr

section Endpoint
variable (server : ByteOrder) (v : ServedView)

/-- A pass of the server's command loop; it stays in its two reads until they have all
their bytes. -/
def Link.serve (l : Link) : Link :=
  let (req, rest) := readRequest server streamRead l.toServer
  if req.ec then l
  else
    match dispatch server (ModbusServer.service v.view) req.cmd req.arg with
    | .ok writes => ⟨rest, l.toClient ++ writes.flatten⟩
    | .error _ => l

/-- The socket of a client that is connected to the server. -/
def served : Endpoint Link where
  write buffer l := (true, Link.serve server v { l with toServer := l.toServer ++ buffer })
  read n l := ((streamRead n l.toClient).1, { l with toClient := (streamRead n l.toClient).2 })

end Endpoint

namespace RegType

/-- The size of response from which the command of the type prints a value. -/
def size : RegType → ℕ
  | .coil | .discrete => 1
  | .input | .holding => 2

def print (o : ByteOrder) : RegType → List UInt8 → Option (List Line)
  | .coil | .discrete => printByte
  | .input | .holding => printWord o

/-- What there is to print about a register of the type. -/
def lines (m : ModbusServer.Mapping) (τ : RegType) (n : ℤ) : List Line :=
  if 0 ≤ n then
    match (τ.table m)[n.toNat]? with
    | some x => [.value x]
    | none => [.noValues]
  else [.noValues]

end RegType

section Client
variable {S : Type} (o : ByteOrder) (sock : Endpoint S) (τ : RegType)

theorem readRegByType_mode (n : ℤ) :
    readRegByType o sock τ.mode n =
      command o sock τ.single (UInt16.ofInt n) τ.size (τ.print o) := by
  cases τ <;> rfl

theorem processReadOp_number (verb : Str) {arg : Str} {n : ℤ} (hn : stoi arg = .ok n)
    (more : List Str) :
    processReadOp o sock (verb :: τ.mode :: arg :: more) = readRegByType o sock τ.mode n := by
  have hall : stoi "all".toList = .error .invalidArgument := by decide
  have harg : arg ≠ "all".toList := by
    rintro rfl
    cases hall.symm.trans hn
  rw [processReadOp, if_neg harg, hn]
  rfl

theorem print_eq (response : List UInt8) :
    τ.print o response = (τ.decodeEntry o response).map fun x => [Line.value x] := by
  cases τ <;> simp only [RegType.print, RegType.decodeEntry, printByte, printWord, Option.map_map] <;>
    first | cases decodeByte response <;> rfl | cases decodeWord o response <;> rfl

theorem size_le_of_decodeEntry {response : List UInt8} {x : ℕ}
    (h : τ.decodeEntry o response = some x) : τ.size ≤ response.length := by
  have hbyte : ∀ b, decodeByte response = some b → 1 ≤ response.length := fun b hb =>
    (List.getElem?_eq_some_iff.mp hb).1
  have hword : ∀ w, decodeWord o response = some w → 2 ≤ response.length := by
    intro w hw
    obtain ⟨_, -, hw⟩ := Option.bind_eq_some_iff.mp hw
    obtain ⟨_, hlo, -⟩ := Option.bind_eq_some_iff.mp hw
    exact (List.getElem?_eq_some_iff.mp hlo).1
  cases τ with
  | coil => obtain ⟨b, hb, -⟩ := Option.map_eq_some_iff.mp h; exact hbyte b hb
  | discrete => obtain ⟨b, hb, -⟩ := Option.map_eq_some_iff.mp h; exact hbyte b hb
  | input => obtain ⟨w, hw, -⟩ := Option.map_eq_some_iff.mp h; exact hword w hw
  | holding => obtain ⟨w, hw, -⟩ := Option.map_eq_some_iff.mp h; exact hword w hw

/-- Without a write in between, the endpoint is read like the stream it holds. -/
theorem readResponse_served (server client : ByteOrder) (v : ServedView) (l : Link) :
    Client.readResponse client (served server v).read l =
      ((Client.readResponse client streamRead l.toClient).1,
        { l with toClient := (Client.readResponse client streamRead l.toClient).2 }) := by
  cases hec : (streamRead 4 l.toClient).1.ec with
  | true => simp only [Client.readResponse, served, hec, if_true]
  | false => simp only [Client.readResponse, served, hec, Bool.false_eq_true, if_false]

end Client

section Served
variable (server client : ByteOrder) (m : ModbusServer.AllocatedMapping) (τ : RegType)

theorem serve_short (v : ServedView) (l : Link) (h : l.toServer.length < 3) :
    l.serve server v = l := by
  have hec := (readRequest_short server h).1
  simp only [Link.serve, hec, if_true]

/-- The three bytes of a command bring its response. -/
theorem sendCommand_served (v : ServedView) (c : Code) (arg : UInt16) :
    Console.sendCommand client (served server v) c arg ⟨[], []⟩ =
      (.ok (payload v arg.toNat c), ⟨[], []⟩) := by
  obtain ⟨ws, hws, -, hread⟩ := dispatch_readResponse server client v c arg
  obtain ⟨hi, lo, hbytes⟩ : ∃ hi lo, toBytes 2 arg.toNat = [hi, lo] := ⟨_, _, rfl⟩
  have hcode : (served server v).write [c.toByte] ⟨[], []⟩ = (true, ⟨[c.toByte], []⟩) :=
    congrArg (true, ·) (serve_short server v ⟨[c.toByte], []⟩ (by simp))
  have hunit : (readRequest server streamRead [c.toByte, hi, lo]) = (⟨false, c.toByte, arg⟩, []) := by
    rw [readRequest_unit, ← hbytes, ofBytes_toBytes_word]
  have harg : (served server v).write (mem16 client (htons client arg)) ⟨[c.toByte], []⟩ =
      (true, ⟨[], ws.flatten⟩) := by
    rw [mem16_htons, hbytes]
    change (true, Link.serve server v ⟨[c.toByte, hi, lo], []⟩) = _
    simp only [Link.serve, hunit, Bool.false_eq_true, if_false, hws, List.nil_append]
  rw [sendCommand_sent hcode harg, readResponse_served]
  simp only [hread]

/-- The lines that a single read prints are those of the register the server was asked for. -/
theorem processReadOp_served (verb : Str) {arg : Str} {n : ℤ} (hn : stoi arg = .ok n)
    (more : List Str) :
    processReadOp client (served server (.same m)) (verb :: τ.mode :: arg :: more) ⟨[], []⟩ =
      (.ok (some (τ.lines m.toMapping (UInt16.ofInt n).toNat)), ⟨[], []⟩) := by
  have hsent := sendCommand_served server client (.same m) τ.single (UInt16.ofInt n)
  rw [processReadOp_number client _ τ verb hn, readRegByType_mode, command_sent hsent, print_eq,
    decodeEntry_payload, RegType.lines, if_pos (Int.natCast_nonneg _), Int.toNat_natCast]
  cases hentry : (τ.table m.toMapping)[(UInt16.ofInt n).toNat]? with
  | none =>
    have hlen := List.getElem?_eq_none_iff.mp hentry
    have hsize : ¬ τ.size ≤ (payload (.same m) (UInt16.ofInt n).toNat τ.single).length := by
      rw [payload_eq_nil m τ hlen]
      cases τ <;> decide
    rw [if_neg hsize]
  | some x =>
    have hsize := size_le_of_decodeEntry client τ ((decodeEntry_payload client m τ _).trans hentry)
    rw [if_pos hsize]
    rfl

theorem toNat_ofInt (n : ℤ) : ((UInt16.ofInt n).toNat : ℤ) = n % 2 ^ 16 := by
  have hmod : n % 2 ^ 16 = ((n % 2 ^ 16).toNat : ℤ) := by omega
  have hlt : (n % 2 ^ 16).toNat < 2 ^ 16 := by omega
  rw [hmod]
  exact congrArg Nat.cast (UInt16.toNat_ofNat_of_lt' hlt)

theorem length_table : (τ.table m.toMapping).length = 10 := by
  cases τ with
  | coil => exact (List.length_map _).trans m.length_tabBits
  | discrete => exact (List.length_map _).trans m.length_tabInputBits
  | input => exact (List.length_map _).trans m.length_tabInputRegisters
  | holding => exact (List.length_map _).trans m.length_tabRegisters

theorem lines_of_lt {n : ℤ} (hn : 0 ≤ n) (hlen : n < (τ.table m.toMapping).length) :
    ∃ x, (τ.table m.toMapping)[n.toNat]? = some x ∧ τ.lines m.toMapping n = [.value x] := by
  have hlt : n.toNat < (τ.table m.toMapping).length := by omega
  have hentry := List.getElem?_eq_getElem hlt
  exact ⟨_, hentry, by simp only [RegType.lines, if_pos hn, hentry]⟩

theorem lines_of_not_lt {n : ℤ} (hn : ¬ (0 ≤ n ∧ n < (τ.table m.toMapping).length)) :
    τ.lines m.toMapping n = [.noValues] := by
  unfold RegType.lines
  split_ifs with hpos
  · have hlen : (τ.table m.toMapping).length ≤ n.toNat := by omega
    rw [List.getElem?_eq_none hlen]
  · rfl

/-- The client prints the entry that was asked for, and nothing for a number that is not
an index, exactly when reduction to 16 bits makes no index of a number that is none. -/
theorem processReadOp_lines_iff (verb arg : Str) (n : ℤ) (hn : stoi arg = .ok n)
    (more : List Str) :
    (processReadOp client (served server (.same m)) (verb :: τ.mode :: arg :: more) ⟨[], []⟩).1 =
        .ok (some (τ.lines m.toMapping n)) ↔
      (n % 2 ^ 16 < (τ.table m.toMapping).length →
        0 ≤ n ∧ n < (τ.table m.toMapping).length) := by
  have hlen := length_table m τ
  rw [processReadOp_served server client m τ verb hn, toNat_ofInt]
  constructor
  · intro hlines hlt
    by_contra hout
    obtain ⟨x, -, hx⟩ := lines_of_lt m τ (Int.emod_nonneg n (by decide)) hlt
    simp only [Except.ok.injEq, Option.some.injEq] at hlines
    rw [hx, lines_of_not_lt m τ hout] at hlines
    simp at hlines
  · intro hindex
    by_cases hin : 0 ≤ n ∧ n < (τ.table m.toMapping).length
    · rw [Int.emod_eq_of_lt hin.1 (by omega)]
    · have hout : ¬ (0 ≤ n % 2 ^ 16 ∧ n % 2 ^ 16 < (τ.table m.toMapping).length) :=
        fun h => hin (hindex h.2)
      rw [lines_of_not_lt m τ hin, lines_of_not_lt m τ hout]

/-- Entry 4 of the holding registers, of which there are ten, and number 70000. -/
theorem processReadOp_lines_iff_four :
    stoi "4".toList = .ok 4 ∧ stoi "70000".toList = .ok 70000 ∧
    (processReadOp .little (served .little (.same .new))
        ["read".toList, RegType.holding.mode, "4".toList] ⟨[], []⟩).1 =
      .ok (some (RegType.holding.lines ModbusServer.AllocatedMapping.new.toMapping 4)) := by
  have hn : stoi "4".toList = .ok 4 := by decide
  exact ⟨hn, by decide,
    (processReadOp_lines_iff .little .little .new .holding "read".toList "4".toList 4 hn []).mpr
      fun _ => by decide⟩

/-- Register 65539 is read as register 3. -/
theorem processReadOp_wraps : ∃ m : ModbusServer.AllocatedMapping,
    stoi "65539".toList = .ok 65539 ∧
    (processReadOp .little (served .little (.same m))
      ["read".toList, RegType.input.mode, "65539".toList] ⟨[], []⟩).1 = .ok (some [.value 4]) ∧
    RegType.input.lines m.toMapping 65539 = [.noValues] := by
  let m : ModbusServer.AllocatedMapping :=
    { ModbusServer.AllocatedMapping.new with
      tabInputRegisters := [1, 2, 3, 4, 5, 6, 7, 8, 9, 10]
      length_tabInputRegisters := rfl }
  have hn : stoi "65539".toList = .ok 65539 := by decide
  refine ⟨m, hn, ?_, by decide⟩
  rw [processReadOp_served .little .little m .input "read".toList hn []]
  decide

end Served

end Mbtest.Wire
