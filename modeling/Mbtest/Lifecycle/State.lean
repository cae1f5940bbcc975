import Mbtest.Lib.TransitionSystem
import Mathlib.Data.Finset.Max

/-! The threads of `mbserver` from `main` to its return: `main` itself, the accepting threads
of the two servers, one thread for each connection and the thread of `ThreadDeleter`, and on
any of them the handler of SIGINT. -/
namespace Mbtest.Lifecycle
open Lib

inductive Server
  | modbus
  | tcp
  deriving DecidableEq, Repr

instance (p : Server → Prop) [DecidablePred p] : Decidable (∀ k, p k) :=
  decidable_of_iff (p .modbus ∧ p .tcp)
    ⟨fun h k => match k with
      | .modbus => h.1
      | .tcp => h.2,
      fun h => ⟨h _, h _⟩⟩

/-- The objects derived from `Worker`. The numbers of connections are never reused,
their addresses may be. -/
inductive WorkerId
  | server (k : Server)
  | deleter
  | conn (i : ℕ)
  deriving DecidableEq, Repr

inductive Thread
  | main
  | worker (w : WorkerId)
  deriving DecidableEq, Repr

/-- `joinable` and `joined` are about `thread_`: it holds a thread that was not joined
yet, it held one that was. -/
structure Worker where
  bRunning : Bool
  joinable : Bool
  joined : Bool
  deriving DecidableEq, Repr

structure Connection where
  server : Server
  addr : ℕ
  deriving DecidableEq, Repr

/-- What is left of `main`. `Worker::run` is three statements, for the flag, the start of
the thread and the store of its handle into `thread_`; `Worker::stop` of the deleter is
the flag and `complete_adding`. -/
inductive Stmt
  | sigaction
  | setRunning (w : WorkerId)
  | startThread (w : WorkerId)
  | storeHandle (w : WorkerId)
  | wait (w : WorkerId)
  | clearRunning (w : WorkerId)
  | completeAdding
  deriving DecidableEq, Repr

def run (w : WorkerId) : List Stmt := [.setRunning w, .startThread w, .storeHandle w]

def mainProgram : List Stmt :=
  .sigaction :: run (.server .modbus) ++ run (.server .tcp) ++ run .deleter ++
    [.wait (.server .modbus), .wait (.server .tcp), .clearRunning .deleter, .completeAdding,
      .wait .deleter]

/-- An accepting thread: its start-up, the test of `bRunning`, a pending `accept` (on a
descriptor that was open when it was called, or not), `registerConnection` and `run` of
the connection `i` just accepted. -/
inductive AcceptPc
  | notStarted
  | startup
  | test
  | accept (valid : Bool)
  | lock (i : ℕ)
  | insert (i : ℕ)
  | unlock (i : ℕ)
  | setRunning (i : ℕ)
  | startThread (i : ℕ)
  | storeHandle (i : ℕ)
  | finished
  deriving DecidableEq, Repr

/-- The thread of a connection: the test of `bRunning`, the body of its loop, then
`deregisterConnection`. -/
inductive ConnPc
  | notStarted
  | test
  | loop
  | lock
  | erase
  | deleteWorker
  | unlock
  | finished
  deriving DecidableEq, Repr

/-- An element of `connections_` at which an iteration stands: the address in it, and the
connection that lived there when the iteration came to it. -/
structure Element where
  addr : ℕ
  conn : Option ℕ
  deriving DecidableEq, Repr

/-- `stop` of a server: the flag comes first, then the steps of `stop__`. At an element the
iteration of `stopConnections` has the three steps of `stop` of the connection (the flag, the
close of its socket, `cancelIO`) and then advances. -/
inductive StopPc
  | notCalled
  | closeListener
  | cancelIo
  | first
  | callStop (e : Element)
  | closeSocket (e : Element)
  | cancelConn (e : Element)
  | advance (e : Element)
  | clear
  | returned
  deriving DecidableEq, Repr

/-- A call of `stop` of a server by the handler. Each delivery of SIGINT has a number, and a
run of the handler of its own. -/
structure Call where
  number : ℕ
  server : Server
  deriving DecidableEq, Repr

inductive DeleterPc
  | notStarted
  | test
  | take
  | wait (a : ℕ)
  | delete (a : ℕ)
  | finished
  deriving DecidableEq, Repr

/-- Steps whose behaviour is undefined, and the end of the process in the destructor of
a thread that was not joined. `signalNobody` is `pthread_kill` with the handle of a `thread_`
that holds no thread. -/
inductive Fault
  | stopDeleted
  | advanceErased
  | signalNobody
  | waitDeleted
  | deleteDeleted
  | storeDeleted
  | terminate
  deriving DecidableEq, Repr

/-- `handler n` are the servers that the handler of the SIGINT `n` has yet to stop, on the
thread `on n`; SIGINT has come `interrupts` times. `connections` and `threads` hold addresses,
as the pointers they are; `heap` says which connection lives at an address. The last four
fields are history: the connections registered, the calls of `stop` on each, the ones that
the deletion queue has accepted, and how often each was deleted. -/
structure State where
  main : List Stmt
  interrupts : ℕ
  on : ℕ → Thread
  handler : ℕ → List Server
  worker : WorkerId → Worker
  accept : Server → AcceptPc
  listening : Server → Bool
  stop : Call → StopPc
  connections : Server → Finset ℕ
  connsetMutex : Server → Option WorkerId
  thread : ℕ → ConnPc
  conn : ℕ → Option Connection
  heap : ℕ → Option ℕ
  deleter : DeleterPc
  threads : List ℕ
  addingCompleted : Bool
  fault : Option Fault
  registered : Finset ℕ
  stops : ℕ → ℕ
  added : ℕ → Bool
  deletes : ℕ → ℕ

def initial : State where
  main := mainProgram
  interrupts := 0
  on _ := .main
  handler _ := []
  worker _ := ⟨false, false, false⟩
  accept _ := .notStarted
  listening _ := false
  stop _ := .notCalled
  connections _ := ∅
  connsetMutex _ := none
  thread _ := .notStarted
  conn _ := none
  heap _ := none
  deleter := .notStarted
  threads := []
  addingCompleted := false
  fault := none
  registered := ∅
  stops _ := 0
  added _ := false
  deletes _ := 0

namespace State
variable (s : State)

def started : WorkerId → Prop
  | .server k => s.accept k ≠ .notStarted
  | .deleter => s.deleter ≠ .notStarted
  | .conn i => s.thread i ≠ .notStarted

def finished : WorkerId → Prop
  | .server k => s.accept k = .finished
  | .deleter => s.deleter = .finished
  | .conn i => s.thread i = .finished

instance (w : WorkerId) : Decidable (s.started w) :=
  match w with
  | .server k => inferInstanceAs (Decidable (s.accept k ≠ .notStarted))
  | .deleter => inferInstanceAs (Decidable (s.deleter ≠ .notStarted))
  | .conn i => inferInstanceAs (Decidable (s.thread i ≠ .notStarted))

instance (w : WorkerId) : Decidable (s.finished w) :=
  match w with
  | .server k => inferInstanceAs (Decidable (s.accept k = .finished))
  | .deleter => inferInstanceAs (Decidable (s.deleter = .finished))
  | .conn i => inferInstanceAs (Decidable (s.thread i = .finished))

def alive : Thread → Prop
  | .main => s.main ≠ []
  | .worker w => s.started w ∧ ¬ s.finished w

instance (t : Thread) : Decidable (s.alive t) :=
  match t with
  | .main => inferInstanceAs (Decidable (s.main ≠ []))
  | .worker w => inferInstanceAs (Decidable (s.started w ∧ ¬ s.finished w))

/-- The handler runs on a thread, which does nothing else and does not take another SIGINT. -/
def handling (t : Thread) : Prop := ∃ n < s.interrupts, s.on n = t ∧ s.handler n ≠ []

instance (t : Thread) : Decidable (s.handling t) :=
  inferInstanceAs (Decidable (∃ n < s.interrupts, s.on n = t ∧ s.handler n ≠ []))

def living (e : Element) : Prop := e.conn ≠ none ∧ s.heap e.addr = e.conn

instance (e : Element) : Decidable (s.living e) :=
  inferInstanceAs (Decidable (e.conn ≠ none ∧ s.heap e.addr = e.conn))

/-- The addresses on their way to deletion, the one in the deleter's hands first. -/
def pending : List ℕ :=
  match s.deleter with
  | .wait a | .delete a => a :: s.threads
  | _ => s.threads

end State

end Mbtest.Lifecycle
