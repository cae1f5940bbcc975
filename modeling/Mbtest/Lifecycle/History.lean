import Mbtest.Lifecycle.Step
import Mathlib.Data.Finset.Insert

/-! What the threads of `mbserver` have done to objects that the state does not keep: the
calls of `deleteWorker` and the descriptors opened and closed. -/
namespace Mbtest.Lifecycle
open Lib

/-- `accepted` are the connections for which the Modbus server's `accept` returned a
descriptor, and `closes` counts the calls of `close` on each of these. A listening
descriptor is `opened` once. -/
structure History where
  handOvers : ℕ → ℕ
  accepted : Finset ℕ
  closes : ℕ → ℕ
  opened : Server → Bool
  listenerCloses : Server → ℕ

def History.empty : History where
  handOvers _ := 0
  accepted := ∅
  closes _ := 0
  opened _ := false
  listenerCloses _ := 0

/-- `close` is called on a descriptor: `server_socket_` keeps its number for good, while an
acceptor forgets the one it has closed. -/
def ClosesListener (s : State) (h : History) : Server → Bool
  | .modbus => h.opened .modbus
  | .tcp => s.listening .tcp

/-- `stop__` of a `ModbusConnection` closes its `socket_`. -/
def OfModbus (s : State) (i : ℕ) : Bool := (s.conn i).any (·.server = .modbus)

def record (s : State) (a : Action) (h : History) : History :=
  match a with
  | .deleteWorker i _ =>
    { h with handOvers := Function.update h.handOvers i (h.handOvers i + 1) }
  | .accepted .modbus i _ => { h with accepted := insert i h.accepted }
  | .closeSocket _ _ i =>
    if OfModbus s i then { h with closes := Function.update h.closes i (h.closes i + 1) } else h
  | .startup k ok => { h with opened := Function.update h.opened k ok }
  | .closeListener c =>
    if ClosesListener s h c.server then
      { h with
        listenerCloses := Function.update h.listenerCloses c.server
          (h.listenerCloses c.server + 1) }
    else h
  | _ => h

section record
variable (s : State) (h : History)

theorem record_accepted (k : Server) (i a : ℕ) :
    record s (.accepted k i a) h =
      { h with accepted := if k = .modbus then insert i h.accepted else h.accepted } := by
  cases k <;> rfl

theorem record_closeSocket (c : Call) (a i : ℕ) :
    record s (.closeSocket c a i) h =
      { h with
        closes := Function.update h.closes i
          (h.closes i + if OfModbus s i then 1 else 0) } := by
  simp only [record]
  split_ifs
  · rfl
  · simp

theorem record_closeListener (c : Call) :
    record s (.closeListener c) h =
      { h with
        listenerCloses := Function.update h.listenerCloses c.server
          (h.listenerCloses c.server + if ClosesListener s h c.server then 1 else 0) } := by
  simp only [record]
  split_ifs
  · rfl
  · simp

end record

/-- `mbserver` with its history. -/
def observed : TransitionSystem (State × History) Action := mbserver.observe .empty record

theorem observed_step {p p' : State × History} {a : Action} (hn : observed.next p a = some p') :
    step p.1 a = some p'.1 ∧ p'.2 = record p.1 a p.2 := by
  obtain ⟨hn, hrecord⟩ := TransitionSystem.observe_next hn
  exact ⟨(of_guard hn).2, hrecord⟩

end Mbtest.Lifecycle
