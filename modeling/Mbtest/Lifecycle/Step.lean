import Mbtest.Lifecycle.State

/-! One step of one thread. Every operation on a set, on the deletion queue or on a
mutex, every call of `stop` and every deletion is a step. -/
namespace Mbtest.Lifecycle
open Lib

namespace State
variable (s : State)

def setWorker (w : WorkerId) (x : Worker) : State :=
  { s with worker := Function.update s.worker w x }

/-- `bRunning = true` of `Worker::run`. -/
def setRunning (w : WorkerId) : State := s.setWorker w { s.worker w with bRunning := true }

/-- `bRunning = false` of `Worker::stop`. -/
def clearRunning (w : WorkerId) : State := s.setWorker w { s.worker w with bRunning := false }

/-- The start of the thread in `Worker::run`; it begins at the top of `run__`. -/
def startThread : WorkerId → State
  | .server k => { s with accept := Function.update s.accept k .startup }
  | .deleter => { s with deleter := .test }
  | .conn i => { s with thread := Function.update s.thread i .test }

/-- The store into `thread_` in `Worker::run`. -/
def storeHandle (w : WorkerId) : State := s.setWorker w { s.worker w with joinable := true }

/-- `Worker::wait`: blocks in `join`, or does nothing if `thread_` holds no thread. -/
def wait (w : WorkerId) : Option State :=
  if (s.worker w).joinable then
    if s.finished w then
      some (s.setWorker w { s.worker w with joinable := false, joined := true })
    else none
  else some s

end State

def exec (s : State) : Stmt → Option State
  | .sigaction => some s
  | .setRunning w => some (s.setRunning w)
  | .startThread w => some (s.startThread w)
  | .storeHandle w => some (s.storeHandle w)
  | .wait w => s.wait w
  | .clearRunning w => some (s.clearRunning w)
  | .completeAdding => some { s with addingCompleted := true }

def mainNext (s : State) : Option State :=
  match s.main with
  | [] => none
  | stmt :: rest => exec { s with main := rest } stmt

/-- Where the iteration of `stopConnections` comes to with the elements still ahead. -/
def stopAt (heap : ℕ → Option ℕ) (ahead : Finset ℕ) : StopPc :=
  match ahead.min with
  | (a : ℕ) => .callStop ⟨a, heap a⟩
  | ⊤ => .clear

/-- The element inside the `stop` of whose connection the iteration is. -/
def StopPc.calling : StopPc → Option Element
  | .callStop e | .closeSocket e | .cancelConn e => some e
  | _ => none

def StopPc.leaving : StopPc → Option Element
  | .advance e => some e
  | _ => none

/-- The worker whose thread a call is about to signal. -/
def State.signals (s : State) (c : Call) : Option WorkerId :=
  match s.stop c with
  | .cancelIo => some (.server c.server)
  | .cancelConn e => e.conn.map .conn
  | _ => none

inductive Action
  | main
  /-- SIGINT is delivered to a thread. -/
  | interrupt (t : Thread)
  | clearRunning (c : Call)
  | closeListener (c : Call)
  | cancelIo (c : Call)
  | first (c : Call)
  | callStop (c : Call) (a i : ℕ)
  | closeSocket (c : Call) (a i : ℕ)
  | cancelConn (c : Call) (a i : ℕ)
  | advance (c : Call) (a i : ℕ)
  | clear (c : Call)
  /-- The start-up of an accepting thread, and whether it succeeds. -/
  | startup (k : Server) (ok : Bool)
  | test (k : Server)
  /-- `accept` returns, with the new connection `i` at the address `a`, or with an error. -/
  | accepted (k : Server) (i a : ℕ)
  | acceptFailed (k : Server)
  | lockToInsert (k : Server) (i : ℕ)
  | insert (k : Server) (i a : ℕ)
  | unlockInserted (k : Server) (i : ℕ)
  | setRunning (k : Server) (i : ℕ)
  | startThread (k : Server) (i : ℕ)
  | storeHandle (k : Server) (i : ℕ)
  | testRunning (i : ℕ)
  /-- The body of a connection's loop comes to its end, or to a `break`. -/
  | again (i : ℕ)
  | leave (i : ℕ)
  | lockToErase (i : ℕ) (c : Connection)
  | erase (i : ℕ) (c : Connection)
  | deleteWorker (i : ℕ) (c : Connection)
  | unlockErased (i : ℕ) (c : Connection)
  | testCompleted
  /-- `take` returns an address, or that no more will come. -/
  | take (a : ℕ)
  | takeCompleted
  | join (a i : ℕ)
  | delete (a i : ℕ)
  /-- A thread is about to follow a pointer that must not be followed. -/
  | fault (f : Fault) (c : Call) (a i : ℕ)
  deriving DecidableEq, Repr

/-- The thread that takes a step; the steps of the handler are its own. -/
def Action.thread : Action → Option Thread
  | .main => some .main
  | .startup k _ | .test k | .accepted k _ _ | .acceptFailed k | .lockToInsert k _ | .insert k _ _
  | .unlockInserted k _ | .setRunning k _ | .startThread k _ | .storeHandle k _ =>
    some (.worker (.server k))
  | .testRunning i | .again i | .leave i | .lockToErase i _ | .erase i _ | .deleteWorker i _
  | .unlockErased i _ => some (.worker (.conn i))
  | .testCompleted | .take _ | .takeCompleted | .join _ _ | .delete _ _ => some (.worker .deleter)
  | .fault .waitDeleted _ _ _ | .fault .deleteDeleted _ _ _ | .fault .terminate _ _ _ =>
    some (.worker .deleter)
  | .fault .storeDeleted c _ _ => some (.worker (.server c.server))
  | .fault .stopDeleted _ _ _ | .fault .advanceErased _ _ _ | .fault .signalNobody _ _ _ => none
  | .interrupt _ | .clearRunning _ | .closeListener _ | .cancelIo _ | .first _ | .callStop _ _ _
  | .closeSocket _ _ _ | .cancelConn _ _ _ | .advance _ _ _ | .clear _ => none

/-- The situations of the faults. -/
def State.Faulty (s : State) (c : Call) (a i : ℕ) : Fault → Prop
  | .stopDeleted => ∃ e ∈ (s.stop c).calling, ¬ s.living e
  | .advanceErased =>
    ∃ e ∈ (s.stop c).leaving, ¬ (e.addr ∈ s.connections c.server ∧ s.living e)
  | .signalNobody => (∀ e ∈ (s.stop c).calling, s.living e) ∧
      ∃ w ∈ s.signals c, (s.worker w).joinable = false
  | .waitDeleted => s.deleter = .wait a ∧ s.heap a = none
  | .deleteDeleted => s.deleter = .delete a ∧ s.heap a = none
  | .storeDeleted => s.accept c.server = .storeHandle i ∧ s.deletes i ≠ 0
  | .terminate => s.deleter = .delete a ∧ s.heap a = some i ∧ (s.worker (.conn i)).joinable

instance (s : State) (c : Call) (a i : ℕ) (f : Fault) : Decidable (s.Faulty c a i f) :=
  match f with
  | .stopDeleted => inferInstanceAs (Decidable (∃ e ∈ (s.stop c).calling, ¬ s.living e))
  | .advanceErased => inferInstanceAs (Decidable
      (∃ e ∈ (s.stop c).leaving, ¬ (e.addr ∈ s.connections c.server ∧ s.living e)))
  | .signalNobody => inferInstanceAs (Decidable ((∀ e ∈ (s.stop c).calling, s.living e) ∧
      ∃ w ∈ s.signals c, (s.worker w).joinable = false))
  | .waitDeleted => inferInstanceAs (Decidable (s.deleter = .wait a ∧ s.heap a = none))
  | .deleteDeleted => inferInstanceAs (Decidable (s.deleter = .delete a ∧ s.heap a = none))
  | .storeDeleted => inferInstanceAs
      (Decidable (s.accept c.server = .storeHandle i ∧ s.deletes i ≠ 0))
  | .terminate => inferInstanceAs
      (Decidable (s.deleter = .delete a ∧ s.heap a = some i ∧ (s.worker (.conn i)).joinable))

def step (s : State) : Action → Option State
  | .main => mainNext s
  | .interrupt t =>
    if .sigaction ∉ s.main ∧ s.alive t ∧ ¬ s.handling t then
      some { s with
        interrupts := s.interrupts + 1
        on := Function.update s.on s.interrupts t
        handler := Function.update s.handler s.interrupts [.modbus, .tcp] }
    else none
  | .clearRunning c =>
    if (s.handler c.number).head? = some c.server ∧ s.stop c = .notCalled then
      some { s.clearRunning (.server c.server) with
        stop := Function.update s.stop c .closeListener }
    else none
  | .closeListener c =>
    if s.stop c = .closeListener then
      some { s with
        listening := Function.update s.listening c.server false
        stop := Function.update s.stop c .cancelIo }
    else none
  | .cancelIo c =>
    if s.stop c = .cancelIo ∧ (s.worker (.server c.server)).joinable then
      some { s with stop := Function.update s.stop c .first }
    else none
  | .first c =>
    if s.stop c = .first then
      some { s with stop := Function.update s.stop c (stopAt s.heap (s.connections c.server)) }
    else none
  | .callStop c a i =>
    if s.stop c = .callStop ⟨a, some i⟩ ∧ s.heap a = some i then
      some { s.clearRunning (.conn i) with
        stops := Function.update s.stops i (s.stops i + 1)
        stop := Function.update s.stop c (.closeSocket ⟨a, some i⟩) }
    else none
  | .closeSocket c a i =>
    if s.stop c = .closeSocket ⟨a, some i⟩ ∧ s.heap a = some i then
      some { s with stop := Function.update s.stop c (.cancelConn ⟨a, some i⟩) }
    else none
  | .cancelConn c a i =>
    if s.stop c = .cancelConn ⟨a, some i⟩ ∧ s.heap a = some i ∧ (s.worker (.conn i)).joinable then
      some { s with stop := Function.update s.stop c (.advance ⟨a, some i⟩) }
    else none
  | .advance c a i =>
    if s.stop c = .advance ⟨a, some i⟩ ∧ a ∈ s.connections c.server ∧ s.heap a = some i then
      some { s with
        stop := Function.update s.stop c
          (stopAt s.heap ((s.connections c.server).filter (a < ·))) }
    else none
  | .clear c =>
    if s.stop c = .clear then
      some { s with
        connections := Function.update s.connections c.server ∅
        stop := Function.update s.stop c .returned
        handler := Function.update s.handler c.number (s.handler c.number).tail }
    else none
  | .startup k ok =>
    if s.accept k = .startup then
      some { s with
        listening := Function.update s.listening k ok
        accept := Function.update s.accept k (if ok then .test else .finished) }
    else none
  | .test k =>
    if s.accept k = .test then
      some { s with
        accept := Function.update s.accept k
          (if (s.worker (.server k)).bRunning then .accept (s.listening k) else .finished) }
    else none
  | .accepted k i a =>
    if s.accept k = .accept true ∧ s.conn i = none ∧ s.heap a = none then
      some { s with
        conn := Function.update s.conn i (some ⟨k, a⟩)
        heap := Function.update s.heap a (some i)
        accept := Function.update s.accept k (.lock i) }
    else none
  | .acceptFailed k =>
    if s.accept k = .accept true ∨ s.accept k = .accept false then
      some { s with accept := Function.update s.accept k .test }
    else none
  | .lockToInsert k i =>
    if s.accept k = .lock i ∧ s.connsetMutex k = none then
      some { s with
        connsetMutex := Function.update s.connsetMutex k (some (.server k))
        accept := Function.update s.accept k (.insert i) }
    else none
  | .insert k i a =>
    if s.accept k = .insert i ∧ s.conn i = some ⟨k, a⟩ then
      some { s with
        connections := Function.update s.connections k (insert a (s.connections k))
        registered := insert i s.registered
        accept := Function.update s.accept k (.unlock i) }
    else none
  | .unlockInserted k i =>
    if s.accept k = .unlock i then
      some { s with
        connsetMutex := Function.update s.connsetMutex k none
        accept := Function.update s.accept k (.setRunning i) }
    else none
  | .setRunning k i =>
    if s.accept k = .setRunning i then
      some { s.setRunning (.conn i) with
        accept := Function.update s.accept k (.startThread i) }
    else none
  | .startThread k i =>
    if s.accept k = .startThread i then
      some { s.startThread (.conn i) with
        accept := Function.update s.accept k (.storeHandle i) }
    else none
  | .storeHandle k i =>
    if s.accept k = .storeHandle i ∧ s.deletes i = 0 then
      some { s.storeHandle (.conn i) with accept := Function.update s.accept k .test }
    else none
  | .testRunning i =>
    if s.thread i = .test then
      some { s with
        thread := Function.update s.thread i
          (if (s.worker (.conn i)).bRunning then .loop else .lock) }
    else none
  | .again i =>
    if s.thread i = .loop then some { s with thread := Function.update s.thread i .test } else none
  | .leave i =>
    if s.thread i = .loop then some { s with thread := Function.update s.thread i .lock } else none
  | .lockToErase i c =>
    if s.thread i = .lock ∧ s.conn i = some c ∧ s.connsetMutex c.server = none then
      some { s with
        connsetMutex := Function.update s.connsetMutex c.server (some (.conn i))
        thread := Function.update s.thread i .erase }
    else none
  | .erase i c =>
    if s.thread i = .erase ∧ s.conn i = some c then
      some { s with
        connections := Function.update s.connections c.server ((s.connections c.server).erase c.addr)
        thread := Function.update s.thread i .deleteWorker }
    else none
  | .deleteWorker i c =>
    if s.thread i = .deleteWorker ∧ s.conn i = some c then
      -- after `complete_adding` the queue refuses the pointer, and nobody looks at the result
      some { s with
        threads := if s.addingCompleted then s.threads else s.threads ++ [c.addr]
        added := if s.addingCompleted then s.added else Function.update s.added i true
        thread := Function.update s.thread i .unlock }
    else none
  | .unlockErased i c =>
    if s.thread i = .unlock ∧ s.conn i = some c then
      some { s with
        connsetMutex := Function.update s.connsetMutex c.server none
        thread := Function.update s.thread i .finished }
    else none
  | .testCompleted =>
    if s.deleter = .test then
      some { s with deleter := if s.addingCompleted ∧ s.threads = [] then .finished else .take }
    else none
  | .take a =>
    if s.deleter = .take ∧ s.threads.head? = some a then
      some { s with deleter := .wait a, threads := s.threads.tail }
    else none
  | .takeCompleted =>
    if s.deleter = .take ∧ s.threads = [] ∧ s.addingCompleted then some { s with deleter := .test }
    else none
  | .join a i =>
    if s.deleter = .wait a ∧ s.heap a = some i then State.wait { s with deleter := .delete a } (.conn i)
    else none
  | .delete a i =>
    if s.deleter = .delete a ∧ s.heap a = some i ∧ (s.worker (.conn i)).joinable = false then
      some { s with
        heap := Function.update s.heap a none
        deletes := Function.update s.deletes i (s.deletes i + 1)
        deleter := .test }
    else none
  | .fault f c a i => if s.Faulty c a i f then some { s with fault := some f } else none

/-- Nothing is said about a run after a fault, and a thread on which the handler runs waits. -/
def next (s : State) (a : Action) : Option State :=
  if s.fault = none ∧ ∀ t ∈ a.thread, ¬ s.handling t then step s a else none

def mbserver : TransitionSystem State Action := ⟨initial, next⟩

end Mbtest.Lifecycle
