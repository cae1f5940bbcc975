import Mathlib.Data.Int.Notation
import Mathlib.Data.List.Basic

/-! The command codes of the register protocol and the interface between a TCP
connection and the Modbus server. -/
namespace Mbtest

/-- Every command is one byte command code followed by a two-byte argument. -/
inductive Code
  | readCoil
  | readDiscrete
  | readInput
  | readHolding
  | readCoilAll
  | readDiscreteAll
  | readInputAll
  | readHoldingAll
  | readAll
  deriving DecidableEq, Repr

def Code.toByte : Code → UInt8
  | .readCoil => 1
  | .readDiscrete => 2
  | .readInput => 3
  | .readHolding => 4
  | .readCoilAll => 5
  | .readDiscreteAll => 6
  | .readInputAll => 7
  | .readHoldingAll => 8
  | .readAll => 9

def Code.ofByte? (b : UInt8) : Option Code :=
  match b.toNat with
  | 1 => some .readCoil
  | 2 => some .readDiscrete
  | 3 => some .readInput
  | 4 => some .readHolding
  | 5 => some .readCoilAll
  | 6 => some .readDiscreteAll
  | 7 => some .readInputAll
  | 8 => some .readHoldingAll
  | 9 => some .readAll
  | _ => none

@[simp] theorem Code.ofByte?_toByte (c : Code) : Code.ofByte? c.toByte = some c := by
  cases c <;> rfl

theorem Code.ofByte?_eq_some {b : UInt8} {c : Code} (h : Code.ofByte? b = some c) :
    b = c.toByte := by
  apply UInt8.toNat_inj.mp
  unfold Code.ofByte? at h
  split at h <;> cases h <;> assumption

/-- What goes wrong when a read follows a pointer: the mapping has not been
allocated, or the index lies outside the table. -/
inductive Fault
  | nullMapping
  | outOfRange
  deriving DecidableEq, Repr

abbrev Access := Except Fault

structure AllRegs where
  coils : List UInt8
  discrete : List UInt8
  inputs : List UInt16
  holding : List UInt16
  deriving DecidableEq, Repr

/-- The read operations that a TCP connection calls; `none` stands for the return
value 0, `some v` for the return value 1 with `val` set to `v`. -/
structure IModbusService where
  readCoil : ℤ → Access (Option UInt8)
  readInput : ℤ → Access (Option UInt16)
  readDiscrete : ℤ → Access (Option UInt8)
  readHolding : ℤ → Access (Option UInt16)
  readCoilAll : Access (Option (List UInt8))
  readInputAll : Access (Option (List UInt16))
  readDiscreteAll : Access (Option (List UInt8))
  readHoldingAll : Access (Option (List UInt16))
  readAll : Access (Option AllRegs)

end Mbtest
