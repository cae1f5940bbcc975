import Mbtest.Interfaces
import Mathlib.Tactic.SplitIfs

/-! The register tables of the Modbus server and its read operations. -/
namespace Mbtest.ModbusServer

/-- The tables of a `modbus_mapping_t`; the count that libmodbus keeps beside each
table is the length of its list. -/
structure Mapping where
  tabBits : List UInt8
  tabInputBits : List UInt8
  tabInputRegisters : List UInt16
  tabRegisters : List UInt16
  deriving DecidableEq, Repr

/-- `modbus_mapping_new`: zeroed tables of the given lengths. -/
def mappingNew (bits inputBits registers inputRegisters : ℕ) : Mapping :=
  ⟨.replicate bits 0, .replicate inputBits 0, .replicate inputRegisters 0, .replicate registers 0⟩

def nbBits : ℕ := 10
def nbInputBits : ℕ := 10
def nbRegisters : ℕ := 10
def nbInputRegisters : ℕ := 10

/-- A mapping with the table lengths that `run__` allocates. Requests change the
entries of a mapping, never its lengths. -/
structure AllocatedMapping extends Mapping where
  length_tabBits : tabBits.length = 10
  length_tabInputBits : tabInputBits.length = 10
  length_tabInputRegisters : tabInputRegisters.length = 10
  length_tabRegisters : tabRegisters.length = 10

/-- Zeroed tables, one for each class constant. -/
def AllocatedMapping.new : AllocatedMapping :=
  ⟨mappingNew nbBits nbInputBits nbRegisters nbInputRegisters, rfl, rfl, rfl, rfl⟩

/-- Follow `mb_mapping_`. -/
def deref : Option Mapping → Access Mapping
  | some m => .ok m
  | none => .error .nullMapping

/-- Follow a table pointer to the entry number `arg`. -/
def entry {α : Type} (tab : List α) (arg : ℕ) : Access α :=
  match tab[arg]? with
  | some v => .ok v
  | none => .error .outOfRange

/-- The body shared by the four single reads: `nb` is the class constant that bounds
the argument, `tab` the table read. -/
def readEntry {α : Type} (nb : ℕ) (tab : Mapping → List α) (mapping : Option Mapping)
    (arg : ℤ) : Access (Option α) :=
  if arg ≥ nb ∨ arg < 0 then .ok none
  else do
    let m ← deref mapping
    let val ← entry (tab m) arg.toNat
    return some val

def readCoil : Option Mapping → ℤ → Access (Option UInt8) := readEntry nbBits (·.tabBits)

def readInput : Option Mapping → ℤ → Access (Option UInt16) :=
  readEntry nbInputRegisters (·.tabInputRegisters)

def readDiscrete : Option Mapping → ℤ → Access (Option UInt8) :=
  readEntry nbInputBits (·.tabInputBits)

def readHolding : Option Mapping → ℤ → Access (Option UInt16) :=
  readEntry nbRegisters (·.tabRegisters)

/-- The body shared by the four table reads. -/
def readTable {α : Type} (nb : ℕ) (tab : Mapping → List α) (mapping : Option Mapping) :
    Access (Option (List α)) :=
  if nb = 0 then .ok none
  else do
    let m ← deref mapping
    return some (tab m)

def readCoilAll : Option Mapping → Access (Option (List UInt8)) := readTable nbBits (·.tabBits)

def readInputAll : Option Mapping → Access (Option (List UInt16)) :=
  readTable nbInputRegisters (·.tabInputRegisters)

def readDiscreteAll : Option Mapping → Access (Option (List UInt8)) :=
  readTable nbInputBits (·.tabInputBits)

def readHoldingAll : Option Mapping → Access (Option (List UInt16)) :=
  readTable nbRegisters (·.tabRegisters)

/-- The reads that take the mutex once. -/
inductive ReadOp
  | readCoil (arg : ℤ)
  | readInput (arg : ℤ)
  | readDiscrete (arg : ℤ)
  | readHolding (arg : ℤ)
  | readCoilAll
  | readInputAll
  | readDiscreteAll
  | readHoldingAll
  deriving DecidableEq, Repr

inductive Value
  | bit (val : Option UInt8)
  | word (val : Option UInt16)
  | bits (val : Option (List UInt8))
  | words (val : Option (List UInt16))
  deriving DecidableEq, Repr

def ReadOp.call (mapping : Option Mapping) : ReadOp → Access Value
  | .readCoil arg => Value.bit <$> ModbusServer.readCoil mapping arg
  | .readInput arg => Value.word <$> ModbusServer.readInput mapping arg
  | .readDiscrete arg => Value.bit <$> ModbusServer.readDiscrete mapping arg
  | .readHolding arg => Value.word <$> ModbusServer.readHolding mapping arg
  | .readCoilAll => Value.bits <$> ModbusServer.readCoilAll mapping
  | .readInputAll => Value.words <$> ModbusServer.readInputAll mapping
  | .readDiscreteAll => Value.bits <$> ModbusServer.readDiscreteAll mapping
  | .readHoldingAll => Value.words <$> ModbusServer.readHoldingAll mapping

/-- What the lock sections of one command find behind `mb_mapping_`. The sections of
`readAll` are apart, so each may find other contents. -/
structure View where
  coils : Option Mapping
  inputs : Option Mapping
  discrete : Option Mapping
  holding : Option Mapping

def collect (n1 : Option (List UInt8)) (n2 : Option (List UInt16)) (n3 : Option (List UInt8))
    (n4 : Option (List UInt16)) : Option AllRegs := do
  let coils ← n1
  let inputs ← n2
  let discrete ← n3
  let holding ← n4
  return ⟨coils, discrete, inputs, holding⟩

def readAll (v : View) : Access (Option AllRegs) := do
  let n1 ← readCoilAll v.coils
  let n2 ← readInputAll v.inputs
  let n3 ← readDiscreteAll v.discrete
  let n4 ← readHoldingAll v.holding
  return collect n1 n2 n3 n4

/-- The Modbus server as one command of a TCP connection sees it. -/
def service (v : View) : IModbusService where
  readCoil := readCoil v.coils
  readInput := readInput v.inputs
  readDiscrete := readDiscrete v.discrete
  readHolding := readHolding v.holding
  readCoilAll := readCoilAll v.coils
  readInputAll := readInputAll v.inputs
  readDiscreteAll := readDiscreteAll v.discrete
  readHoldingAll := readHoldingAll v.holding
  readAll := readAll v

theorem entry_of_lt {α : Type} {tab : List α} {arg : ℕ} (h : arg < tab.length) :
    entry tab arg = .ok tab[arg] := by
  unfold entry
  rw [List.getElem?_eq_getElem h]

/-- A single read of a table as long as its bound never leaves the table: it returns
the entry where there is one. -/
theorem readEntry_eq {α : Type} {nb : ℕ} {tab : Mapping → List α} {m : Mapping}
    (hnb : (tab m).length = nb) (arg : ℕ) :
    readEntry nb tab (some m) arg = .ok (tab m)[arg]? := by
  unfold readEntry
  split_ifs with harg
  · have hlen : (tab m).length ≤ arg := by omega
    rw [List.getElem?_eq_none hlen]
  · have hlt : arg < (tab m).length := by omega
    change (entry (tab m) (arg : ℤ).toNat >>= fun val => return some val) = _
    rw [Int.toNat_natCast, entry_of_lt hlt, List.getElem?_eq_getElem hlt]
    rfl

def InRange (nb : ℕ) (arg : ℤ) : Prop := 0 ≤ arg ∧ arg < nb

instance (nb : ℕ) (arg : ℤ) : Decidable (InRange nb arg) :=
  inferInstanceAs (Decidable (_ ∧ _))

theorem readEntry_of_not_inRange {α : Type} {nb : ℕ} {tab : Mapping → List α} {arg : ℤ}
    (harg : ¬ InRange nb arg) (mapping : Option Mapping) :
    readEntry nb tab mapping arg = .ok none := by
  unfold InRange at harg
  unfold readEntry
  rw [if_pos (by omega)]

/-- The mapping matters only for an argument in range, and only through one table. -/
theorem readEntry_congr {α : Type} {nb : ℕ} {tab : Mapping → List α} {arg : ℤ}
    {mapping : Option Mapping} {m' : Mapping}
    (h : InRange nb arg → ∃ m, mapping = some m ∧ tab m = tab m') :
    readEntry nb tab mapping arg = readEntry nb tab (some m') arg := by
  by_cases harg : InRange nb arg
  · obtain ⟨m, rfl, htab⟩ := h harg
    simp only [readEntry, deref]
    change (if _ then _ else (entry (tab m) arg.toNat >>= _)) =
      (if _ then _ else (entry (tab m') arg.toNat >>= _))
    rw [htab]
  · rw [readEntry_of_not_inRange harg, readEntry_of_not_inRange harg]

theorem readEntry_total {α : Type} {nb : ℕ} {tab : Mapping → List α} {m : Mapping}
    (hnb : (tab m).length = nb) (arg : ℤ) : ∃ v, readEntry nb tab (some m) arg = .ok v := by
  by_cases harg : InRange nb arg
  · have hcast : ((arg.toNat : ℕ) : ℤ) = arg := Int.toNat_of_nonneg harg.1
    rw [← hcast]
    exact ⟨_, readEntry_eq hnb arg.toNat⟩
  · exact ⟨none, readEntry_of_not_inRange harg _⟩

section Allocated
variable (m : AllocatedMapping) (arg : ℕ)

theorem readCoil_eq : readCoil (some m.toMapping) arg = .ok m.tabBits[arg]? :=
  readEntry_eq m.length_tabBits arg

theorem readInput_eq : readInput (some m.toMapping) arg = .ok m.tabInputRegisters[arg]? :=
  readEntry_eq m.length_tabInputRegisters arg

theorem readDiscrete_eq : readDiscrete (some m.toMapping) arg = .ok m.tabInputBits[arg]? :=
  readEntry_eq m.length_tabInputBits arg

theorem readHolding_eq : readHolding (some m.toMapping) arg = .ok m.tabRegisters[arg]? :=
  readEntry_eq m.length_tabRegisters arg

end Allocated

end Mbtest.ModbusServer
