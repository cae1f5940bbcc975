import Mbtest.Network.Outcomes
import Mbtest.TcpConnection.Session

/-! The thread of a TCP connection, from its first statement to `deregisterConnection`, on
a socket whose calls have any outcomes. -/
namespace Mbtest.TcpConnection
open Lib

/-- The socket of a connection: whether `remote_endpoint` finds a peer, what a read brings,
and whether a write succeeds. -/
structure Socket (S : Type) where
  remoteEndpoint : S → Bool × S
  read : Source S
  write : List UInt8 → S → Bool × S

/-- The writes of a response. The `error_code` of each is dropped. -/
def send {S : Type} (sock : Socket S) (writes : Writes) (s : S) : S :=
  writes.foldl (fun s buffer => (sock.write buffer s).2) s

/-- A call that goes on when the fuel ends, one that has returned, and one that an exception
has left. -/
inductive Ending
  | goesOn
  | returned
  | thrown
  deriving DecidableEq, Repr

structure World (S : Type) where
  socket : S
  deregistered : ℕ
  deriving DecidableEq, Repr

def deregisterConnection {S : Type} (w : World S) : World S :=
  { w with deregistered := w.deregistered + 1 }

section Thread
variable {S : Type} (o : ByteOrder) (sock : Socket S) (running : ℕ → Bool)
  (server2 : ℕ → IModbusService)

def pass (i : ℕ) (s : S) : Access (Bool × S) :=
  if running i then
    let (req, s) := readRequest o sock.read s
    if req.ec then .ok (false, s)
    else do
      let writes ← dispatch o (server2 i) req.cmd req.arg
      return (true, send sock writes s)
  else .ok (false, s)

def loop : ℕ → ℕ → S → Access (Bool × S)
  | 0, _, s => .ok (false, s)
  | fuel + 1, i, s => do
    let (more, s) ← pass o sock running server2 i s
    if more then loop fuel (i + 1) s else return (true, s)

/-- `TcpConnection::run__`. Nothing in it or in `Worker::run_` catches what
`remote_endpoint` throws. -/
def runThread (fuel : ℕ) (w : World S) : Access (Ending × World S) :=
  let (connected, s) := sock.remoteEndpoint w.socket
  if connected then do
    let (ended, s) ← loop o sock running server2 fuel 0 s
    return if ended then (.returned, deregisterConnection { w with socket := s })
      else (.goesOn, { w with socket := s })
  else .ok (.thrown, { w with socket := s })

/-- The loop is at the start of its pass number `i`: in every pass before, the flag was
found set and a request was read without an error. -/
inductive Reaches (s₀ : S) : ℕ → S → Prop
  | start : Reaches s₀ 0 s₀
  | pass {i : ℕ} {s s' : S} : Reaches s₀ i s → running i = true →
      (readRequest o sock.read s).1.ec = false →
      pass o sock running server2 i s = .ok (true, s') → Reaches s₀ (i + 1) s'

end Thread

abbrev served (views : ℕ → ServedView) : ℕ → IModbusService :=
  fun i => ModbusServer.service (views i).view

section Ending
variable {S : Type} {o : ByteOrder} {sock : Socket S} {running : ℕ → Bool}
  {views : ℕ → ServedView}

theorem pass_eq (o : ByteOrder) (sock : Socket S) (running : ℕ → Bool) (views : ℕ → ServedView)
    (i : ℕ) (s : S) :
    ∃ more s', pass o sock running (served views) i s = .ok (more, s') ∧
      (more = true → running i = true ∧ (readRequest o sock.read s).1.ec = false) := by
  unfold pass
  split_ifs with hrunning
  · rcases hread : readRequest o sock.read s with ⟨⟨ec, cmd, arg⟩, t⟩
    cases ec with
    | true => exact ⟨false, t, rfl, by simp⟩
    | false =>
      obtain ⟨ws, hws, -⟩ := dispatch_response o (views i) (cmd, arg)
      refine ⟨true, send sock ws t, ?_, fun _ => ⟨hrunning, rfl⟩⟩
      simp only [Bool.false_eq_true, if_false, hws]
      rfl
  · exact ⟨false, s, rfl, by simp⟩

theorem loop_reaches {s₀ : S} (fuel : ℕ) {i : ℕ} {s : S}
    (hs : Reaches o sock running (served views) s₀ i s) :
    ∃ ended s', loop o sock running (served views) fuel i s = .ok (ended, s') ∧
      (ended = false → Reaches o sock running (served views) s₀ (i + fuel) s') := by
  induction fuel generalizing i s with
  | zero => exact ⟨false, s, rfl, fun _ => hs⟩
  | succ fuel ih =>
    obtain ⟨more, t, hpass, hmore⟩ := pass_eq o sock running views i s
    rw [loop, hpass]
    cases more with
    | false => exact ⟨true, t, rfl, by simp⟩
    | true =>
      obtain ⟨hrunning, hec⟩ := hmore rfl
      have hnext := ih (hs.pass hrunning hec hpass)
      rwa [show i + 1 + fuel = i + (fuel + 1) by omega] at hnext

end Ending

/-- No exception leaves the thread. It returns after one call of `deregisterConnection`, or
has read a request in each of its passes so far. -/
def EndsByDeregistering {S : Type} (o : ByteOrder) (sock : Socket S) (running : ℕ → Bool)
    (views : ℕ → ServedView) (s : S) : Prop :=
  ∀ fuel, ∃ t,
    runThread o sock running (served views) fuel ⟨s, 0⟩ = .ok (.returned, ⟨t, 1⟩) ∨
      runThread o sock running (served views) fuel ⟨s, 0⟩ = .ok (.goesOn, ⟨t, 0⟩) ∧
        Reaches o sock running (served views) (sock.remoteEndpoint s).2 fuel t

/-- All that matters is whether the peer is still there when the thread starts. -/
theorem endsByDeregistering_iff {S : Type} (o : ByteOrder) (sock : Socket S) (running : ℕ → Bool)
    (views : ℕ → ServedView) (s : S) :
    EndsByDeregistering o sock running views s ↔ (sock.remoteEndpoint s).1 = true := by
  constructor
  · intro h
    by_contra hgone
    obtain ⟨t, hrun⟩ := h 0
    simp only [runThread, if_neg hgone] at hrun
    rcases hrun with hrun | ⟨hrun, -⟩ <;> cases hrun
  · intro hconnected fuel
    have hstart : Reaches o sock running (served views) (sock.remoteEndpoint s).2 0
      (sock.remoteEndpoint s).2 := .start
    obtain ⟨ended, t, hloop, hreaches⟩ := loop_reaches fuel hstart
    refine ⟨t, ?_⟩
    simp only [runThread, hconnected, if_true, hloop]
    cases ended with
    | true => exact .inl rfl
    | false =>
      have h := hreaches rfl
      rw [Nat.zero_add] at h
      exact .inr ⟨rfl, h⟩

def scripted (sc : Script) : Socket Progress where
  remoteEndpoint := sc.write
  read := sc.read
  write _ := sc.write

/-- The peer is gone, or `stop` has closed the socket, when the thread starts. -/
private def gone : Script where
  outcome _ := some 0
  stream _ := 0

theorem runThread_gone (fuel : ℕ) :
    runThread .little (scripted gone) (fun _ => true) (served fun _ => .same .new) fuel
      ⟨⟨0, 0⟩, 0⟩ = .ok (.thrown, ⟨⟨1, 0⟩, 0⟩) := rfl

theorem thread_uncaught :
    (∀ fuel, runThread .little (scripted gone) (fun _ => true) (served fun _ => .same .new) fuel
      ⟨⟨0, 0⟩, 0⟩ = .ok (.thrown, ⟨⟨1, 0⟩, 0⟩)) ∧
    ¬ EndsByDeregistering .little (scripted gone) (fun _ => true) (fun _ => .same .new) ⟨0, 0⟩ := by
  refine ⟨runThread_gone, fun h => ?_⟩
  obtain ⟨t, hrun⟩ := h 0
  rw [runThread_gone] at hrun
  rcases hrun with hrun | ⟨hrun, -⟩ <;> cases hrun

end Mbtest.TcpConnection
