import Mbtest.Lib.TransitionSystem
import Mathlib.Data.Int.Notation
import Mathlib.Logic.Function.Basic

/-! The threads of the Modbus connections, from `select` through `handleModbusRequest`,
beside the TCP commands that take the same mutex. -/
namespace Mbtest.ModbusConnection
open Lib

/-- What becomes of a call of `select` without a timeout. -/
inductive Outcome
  | readable
  | interrupted
  | failed
  deriving DecidableEq, Repr

/-- The result of `select`, and whether `socket_` is in `rdset` after it. An error leaves the
set as it was. -/
def select (outcome : Outcome) (rdset : Bool) : ℤ × Bool :=
  match outcome with
  | .readable => (1, true)
  | .interrupted | .failed => (-1, rdset)

/-- The thread of a connection: the test of `bRunning`, `select`, `FD_ISSET`, and
`handleModbusRequest` from the lock to the end of its scope. -/
inductive Pc
  | test
  | select
  | isset
  | lock
  | receive
  | reply (rc : ℤ)
  | unlock (rc : ℤ)
  | finished
  deriving DecidableEq, Repr

def Pc.Handles : Pc → Prop
  | .lock | .receive | .reply _ | .unlock _ => True
  | _ => False

/-- `n` and `rdset` are the variables of the loop. `arrived` counts the bytes that wait on the
socket; `hungUp` says that the peer has closed it, `closed` that `stop__` has. -/
structure Connection where
  pc : Pc
  bRunning : Bool
  n : ℤ
  rdset : Bool
  arrived : ℕ
  hungUp : Bool
  closed : Bool
  deriving DecidableEq, Repr

namespace Connection
variable (c : Connection)

/-- A read of the socket returns at once. -/
def Ready : Prop := 0 < c.arrived ∨ c.hungUp = true ∨ c.closed = true

/-- `modbus_receive` is blocked before the first byte of a request. -/
def Waits : Prop := c.pc = .receive ∧ ¬ c.Ready

instance : Decidable c.Ready := inferInstanceAs (Decidable (_ ∨ _ ∨ _))

instance : Decidable c.Waits := inferInstanceAs (Decidable (_ ∧ _))

end Connection

/-- A TCP command before, at and after its lock of `ctxMutex`. -/
inductive TcpPc
  | idle
  | lock
  | section
  deriving DecidableEq, Repr

inductive User
  | modbus (i : ℕ)
  | tcp (t : ℕ)
  deriving DecidableEq, Repr

structure State where
  conn : ℕ → Connection
  tcp : ℕ → TcpPc
  ctxMutex : Option User

def initial : State := ⟨fun _ => ⟨.test, true, 0, false, 0, false, false⟩, fun _ => .idle, none⟩

def State.setConn (s : State) (i : ℕ) (c : Connection) : State :=
  { s with conn := Function.update s.conn i c }

def State.setTcp (s : State) (t : ℕ) (pc : TcpPc) : State :=
  { s with tcp := Function.update s.tcp t pc }

/-- `arrive`, `hangUp`, `clearRunning` and `close` come from the peer and from `stop`, the
others are steps of the threads. -/
inductive Action
  | arrive (i : ℕ)
  | hangUp (i : ℕ)
  | clearRunning (i : ℕ)
  | close (i : ℕ)
  | test (i : ℕ)
  | select (i : ℕ) (outcome : Outcome)
  | isset (i : ℕ)
  | lock (i : ℕ)
  /-- `modbus_receive` returns `rc`, and has taken `taken` bytes off the socket. -/
  | receive (i : ℕ) (rc : ℤ) (taken : ℕ)
  | reply (i : ℕ)
  | unlock (i : ℕ)
  | call (t : ℕ)
  | lockTcp (t : ℕ)
  | unlockTcp (t : ℕ)
  deriving DecidableEq, Repr

def next (s : State) : Action → Option State
  | .arrive i => some (s.setConn i { s.conn i with arrived := (s.conn i).arrived + 1 })
  | .hangUp i => some (s.setConn i { s.conn i with hungUp := true })
  | .clearRunning i => some (s.setConn i { s.conn i with bRunning := false })
  | .close i => some (s.setConn i { s.conn i with closed := true })
  | .test i =>
    if (s.conn i).pc = .test then
      -- `FD_ZERO` and `FD_SET` come before `select`
      some (s.setConn i { s.conn i with
        rdset := true
        pc := if (s.conn i).bRunning then .select else .finished })
    else none
  | .select i outcome =>
    if (s.conn i).pc = .select ∧ (outcome = .readable → (s.conn i).Ready) then
      some (s.setConn i { s.conn i with
        n := (select outcome (s.conn i).rdset).1
        rdset := (select outcome (s.conn i).rdset).2
        pc := .isset })
    else none
  | .isset i =>
    if (s.conn i).pc = .isset then
      some (s.setConn i { s.conn i with pc := if (s.conn i).rdset then .lock else .test })
    else none
  | .lock i =>
    if (s.conn i).pc = .lock ∧ s.ctxMutex = none then
      some { s.setConn i { s.conn i with pc := .receive } with ctxMutex := some (.modbus i) }
    else none
  | .receive i rc taken =>
    if (s.conn i).pc = .receive ∧ (s.conn i).Ready then
      some (s.setConn i { s.conn i with
        arrived := (s.conn i).arrived - taken
        pc := if rc > 0 then .reply rc else .unlock rc })
    else none
  | .reply i =>
    match (s.conn i).pc with
    | .reply rc => some (s.setConn i { s.conn i with pc := .unlock rc })
    | _ => none
  | .unlock i =>
    match (s.conn i).pc with
    | .unlock rc =>
      some { s.setConn i { s.conn i with pc := if rc < 0 then .finished else .test } with
        ctxMutex := none }
    | _ => none
  | .call t => if s.tcp t = .idle then some (s.setTcp t .lock) else none
  | .lockTcp t =>
    if s.tcp t = .lock ∧ s.ctxMutex = none then
      some { s.setTcp t .section with ctxMutex := some (.tcp t) }
    else none
  | .unlockTcp t =>
    if s.tcp t = .section then some { s.setTcp t .idle with ctxMutex := none } else none

def connections : TransitionSystem State Action := ⟨initial, next⟩

def SelectsReadable (_ : State) : Action → Prop
  | .select _ outcome => outcome = .readable
  | _ => True

instance (s : State) (a : Action) : Decidable (SelectsReadable s a) := by
  cases a <;> unfold SelectsReadable <;> infer_instance

/-- `handleModbusRequest` is called after a `select` that reported the socket, and finds a byte
there. -/
structure Connection.Selected (c : Connection) : Prop where
  reported : c.pc.Handles → 0 < c.n
  isset : c.pc = .isset → 0 < c.n
  ready : c.pc = .isset ∨ c.pc = .lock ∨ c.pc = .receive → c.Ready

section Selected
variable {s s' : State}

theorem selected_setConn (hs : ∀ j, (s.conn j).Selected) {i : ℕ} {c : Connection}
    (hc : c.Selected) (j : ℕ) : ((s.setConn i c).conn j).Selected := by
  unfold State.setConn
  by_cases hj : j = i
  · subst hj
    simpa using hc
  · simpa [hj] using hs j

theorem selected_of_pc {c : Connection} (hhandles : ¬ c.pc.Handles) (hisset : c.pc ≠ .isset) :
    c.Selected := by
  refine ⟨fun h => absurd h hhandles, fun h => absurd h hisset, ?_⟩
  rintro (h | h | h)
  · exact absurd h hisset
  · rw [h] at hhandles
    exact absurd trivial hhandles
  · rw [h] at hhandles
    exact absurd trivial hhandles

theorem Connection.Selected.of_ready {c c' : Connection} (hc : c.Selected) (hpc : c'.pc = c.pc)
    (hn : c'.n = c.n) (hready : c.Ready → c'.Ready) : c'.Selected := by
  constructor
  · rw [hpc, hn]
    exact hc.reported
  · rw [hpc, hn]
    exact hc.isset
  · rw [hpc]
    exact fun h => hready (hc.ready h)

theorem selected_step (hs : ∀ j, (s.conn j).Selected) {a : Action} (hguard : SelectsReadable s a)
    (hn : next s a = some s') : ∀ j, (s'.conn j).Selected := by
  cases a with
  | arrive i =>
    cases hn
    refine selected_setConn hs ((hs i).of_ready rfl rfl fun h => ?_)
    rcases h with h | h
    · exact .inl (Nat.succ_pos _)
    · exact .inr h
  | hangUp i =>
    cases hn
    exact selected_setConn hs ((hs i).of_ready rfl rfl fun _ => .inr (.inl rfl))
  | clearRunning i =>
    cases hn
    exact selected_setConn hs ((hs i).of_ready rfl rfl id)
  | close i =>
    cases hn
    exact selected_setConn hs ((hs i).of_ready rfl rfl fun _ => .inr (.inr rfl))
  | test i =>
    obtain ⟨-, ⟨⟩⟩ := of_guard hn
    refine selected_setConn hs (selected_of_pc ?_ ?_) <;> dsimp only <;> split_ifs <;>
      simp [Pc.Handles]
  | select i outcome =>
    obtain ⟨⟨hpc, hready⟩, ⟨⟩⟩ := of_guard hn
    have hone : (select outcome (s.conn i).rdset).1 = 1 := by
      rw [show outcome = .readable from hguard]
      rfl
    refine selected_setConn hs ⟨by simp [Pc.Handles], fun _ => ?_, fun _ => hready hguard⟩
    dsimp only
    rw [hone]
    exact Int.one_pos
  | isset i =>
    obtain ⟨hpc, ⟨⟩⟩ := of_guard hn
    refine selected_setConn hs ?_
    split_ifs
    · exact ⟨fun _ => (hs i).isset hpc, by simp, fun _ => (hs i).ready (.inl hpc)⟩
    · exact selected_of_pc (by simp [Pc.Handles]) (by simp)
  | lock i =>
    obtain ⟨⟨hpc, -⟩, ⟨⟩⟩ := of_guard hn
    have hhandles : (s.conn i).pc.Handles := by
      rw [hpc]
      trivial
    exact selected_setConn hs
      ⟨fun _ => (hs i).reported hhandles, by simp, fun _ => (hs i).ready (.inr (.inl hpc))⟩
  | receive i rc taken =>
    obtain ⟨⟨hpc, -⟩, ⟨⟩⟩ := of_guard hn
    have hhandles : (s.conn i).pc.Handles := by
      rw [hpc]
      trivial
    refine selected_setConn hs ⟨fun _ => (hs i).reported hhandles, ?_, ?_⟩ <;>
      dsimp only <;> split_ifs <;> simp
  | reply i =>
    simp only [next] at hn
    split at hn
    case h_1 rc hpc =>
      cases hn
      have hhandles : (s.conn i).pc.Handles := by
        rw [hpc]
        trivial
      exact selected_setConn hs ⟨fun _ => (hs i).reported hhandles, by simp, by simp⟩
    case h_2 => cases hn
  | unlock i =>
    simp only [next] at hn
    split at hn
    case h_1 rc hpc =>
      cases hn
      refine selected_setConn hs (selected_of_pc ?_ ?_) <;> dsimp only <;> split_ifs <;>
        simp [Pc.Handles]
    case h_2 => cases hn
  | call t | lockTcp t | unlockTcp t =>
    obtain ⟨-, ⟨⟩⟩ := of_guard hn
    exact hs

end Selected

/-- `handleModbusRequest` runs only after a `select` that reported the socket of its
connection, and nobody waits for a first byte with `ctxMutex` in hand. -/
def CalledWhenReadable (s : State) : Prop :=
  ∀ i, ((s.conn i).pc.Handles → 0 < (s.conn i).n) ∧
    (s.ctxMutex = some (.modbus i) → ¬ (s.conn i).Waits)

theorem calledWhenReadable_of_readable {s : State}
    (hs : connections.ReachableVia SelectsReadable s) : CalledWhenReadable s := by
  have hselected : ∀ j, (s.conn j).Selected := by
    refine hs.invariant (I := fun s => ∀ j, (s.conn j).Selected) ?_ ?_
    · intro j
      exact selected_of_pc id (by simp [connections, initial])
    · intro s a s' hguard hs hn
      exact selected_step hs hguard hn
  intro i
  refine ⟨(hselected i).reported, fun _ hwaits => ?_⟩
  exact hwaits.2 ((hselected i).ready (.inr (.inr hwaits.1)))

theorem calledWhenReadable_of_readable_request : ∃ s,
    connections.ReachableVia SelectsReadable s ∧ (s.conn 0).pc = .receive ∧
      s.ctxMutex = some (.modbus 0) ∧ (s.conn 1).pc = .lock ∧ CalledWhenReadable s := by
  obtain ⟨s, hs, htest⟩ := TransitionSystem.exists_reachableVia_of_runVia connections
    SelectsReadable
    [.arrive 0, .arrive 1, .test 0, .select 0 .readable, .isset 0, .lock 0, .test 1,
      .select 1 .readable, .isset 1]
    (fun s => (s.conn 0).pc = .receive ∧ s.ctxMutex = some (.modbus 0) ∧ (s.conn 1).pc = .lock)
    (by decide)
  obtain ⟨hpc, hmutex, hother⟩ := of_decide_eq_true htest
  exact ⟨s, hs, hpc, hmutex, hother, calledWhenReadable_of_readable hs⟩

/-- A signal ends the `select` of an idle connection: it waits for a first byte with the mutex
in hand, before a connection with a request and before a TCP command. -/
theorem mutex_held_idle : ∃ s, connections.Reachable s ∧ s.ctxMutex = some (.modbus 0) ∧
    (s.conn 0).Waits ∧ (s.conn 0).n = -1 ∧ (s.conn 1).pc = .lock ∧ (s.conn 1).Ready ∧
      s.tcp 0 = .lock ∧ ¬ CalledWhenReadable s := by
  obtain ⟨s, hs, htest⟩ := TransitionSystem.exists_reachable_of_run connections
    [.test 0, .select 0 .interrupted, .isset 0, .lock 0, .arrive 1, .test 1, .select 1 .readable,
      .isset 1, .call 0]
    (fun s => s.ctxMutex = some (.modbus 0) ∧ (s.conn 0).Waits ∧ (s.conn 0).n = -1 ∧
      (s.conn 1).pc = .lock ∧ (s.conn 1).Ready ∧ s.tcp 0 = .lock)
    (by decide)
  obtain ⟨hmutex, hwaits, hn, hother, hready, htcp⟩ := of_decide_eq_true htest
  exact ⟨s, hs, hmutex, hwaits, hn, hother, hready, htcp, fun h => (h 0).2 hmutex hwaits⟩

end Mbtest.ModbusConnection
