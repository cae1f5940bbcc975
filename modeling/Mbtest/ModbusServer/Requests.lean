import Mbtest.Lib.CriticalSection
import Mbtest.ModbusServer.Tables
import Mathlib.Data.Int.Notation

/-! Requests of Modbus connections and single-table reads of TCP connections, both
executed under `ctxMutex` on one libmodbus context and one mapping. -/
namespace Mbtest.ModbusServer
open Lib

abbrev Socket := ℕ

/-- What the server relies on in libmodbus: the outcome of the `n`-th `modbus_receive`
on a socket, a return code with a query, and the reply to a query with the mapping that
it leaves. -/
structure Libmodbus (Query Reply : Type) where
  receive : Socket → ℕ → ℤ × Query
  reply : Query → ℤ → Mapping → Reply × Mapping

/-- A reply on its way: the socket it was written to and the one its query came from. -/
structure Sent (Reply : Type) where
  replyOn : Socket
  queryFrom : Socket
  reply : Reply
  deriving DecidableEq, Repr

/-- The mapping and the number of receives that each socket has served. -/
structure Store where
  taken : Socket → ℕ
  mapping : Mapping

/-- The data behind `ctxMutex`: the socket set in the context, the store, and the
replies sent so far. -/
structure Shared (Reply : Type) where
  ctxSocket : Socket
  store : Store
  sent : List (Sent Reply)

/-- The variables of one section: the return code, the query with the socket it was
received from, the reply with the socket it was sent on, and the value read. -/
structure Vars (Query Reply : Type) where
  rc : ℤ
  query : Option (Socket × Query)
  reply : Option (Sent Reply)
  val : Option (Access Value)
  deriving Repr

def Vars.start {Query Reply : Type} : Vars Query Reply := ⟨0, none, none, none⟩

inductive Request
  | handleModbusRequest (sock : Socket)
  | read (op : ReadOp)
  deriving DecidableEq, Repr

section Model
variable {Query Reply : Type} (lib : Libmodbus Query Reply)

abbrev MicroStep (Query Reply : Type) : Type :=
  Shared Reply × Vars Query Reply → Shared Reply × Vars Query Reply

def modbusSetSocket (sock : Socket) : MicroStep Query Reply := fun (s, v) =>
  ({ s with ctxSocket := sock }, v)

/-- Reads from the socket last set in the context. -/
def modbusReceive : MicroStep Query Reply := fun (s, v) =>
  let n := s.store.taken s.ctxSocket
  let r := lib.receive s.ctxSocket n
  ({ s with store.taken := Function.update s.store.taken s.ctxSocket (n + 1) },
    { v with rc := r.1, query := some (s.ctxSocket, r.2) })

/-- Writes to the socket last set in the context, if the receive returned a query. -/
def modbusReply : MicroStep Query Reply := fun (s, v) =>
  match v.query with
  | some (sock, query) =>
    if v.rc > 0 then
      let r := lib.reply query v.rc s.store.mapping
      let sent := ⟨s.ctxSocket, sock, r.1⟩
      ({ s with store.mapping := r.2, sent := s.sent ++ [sent] }, { v with reply := some sent })
    else (s, v)
  | none => (s, v)

def readTables (op : ReadOp) : MicroStep Query Reply := fun (s, v) =>
  (s, { v with val := some (op.call (some s.store.mapping)) })

/-- What a request does between taking and releasing `ctxMutex`. -/
def requestSection : Request → Section (Shared Reply) (Vars Query Reply)
  | .handleModbusRequest sock =>
    ⟨.start, [modbusSetSocket sock, modbusReceive lib, modbusReply lib]⟩
  | .read op => ⟨.start, [readTables op]⟩

/-- The effect of one request with no other thread in sight: a query is answered on the
socket it came from, and the context plays no part. -/
def serve (st : Store) : Request → Store × Vars Query Reply
  | .handleModbusRequest sock =>
    let r := lib.receive sock (st.taken sock)
    let taken := Function.update st.taken sock (st.taken sock + 1)
    if r.1 > 0 then
      let a := lib.reply r.2 r.1 st.mapping
      (⟨taken, a.2⟩, ⟨r.1, some (sock, r.2), some ⟨sock, sock, a.1⟩, none⟩)
    else (⟨taken, st.mapping⟩, ⟨r.1, some (sock, r.2), none, none⟩)
  | .read op => (st, ⟨0, none, none, some (op.call (some st.mapping))⟩)

def serveAll : Store → List (ℕ × Request) → Store × List (ℕ × Vars Query Reply)
  | st, [] => (st, [])
  | st, (t, req) :: reqs =>
    let r := serve lib st req
    let rest := serveAll r.1 reqs
    (rest.1, (t, r.2) :: rest.2)

def Shared.initial (m : Mapping) : Shared Reply := ⟨0, ⟨fun _ => 0, m⟩, []⟩

/-- The server once it listens: any number of threads, each with any requests. -/
def requests (m : Mapping) :
    TransitionSystem (Mutex.State ℕ (Shared Reply) (Vars Query Reply) Request)
      (Mutex.Action ℕ Request) :=
  Mutex.system (requestSection lib) (.initial m)

def replies (results : List (ℕ × Vars Query Reply)) : List (Sent Reply) :=
  results.filterMap fun r => r.2.reply

theorem exec_section (s : Shared Reply) (req : Request) :
    let p := exec (requestSection lib req).body (s, (requestSection lib req).start)
    (p.1.store, p.2) = serve lib s.store req ∧ p.1.sent = s.sent ++ p.2.reply.toList := by
  cases req with
  | read op => exact ⟨rfl, by simp [requestSection, exec, readTables, Vars.start]⟩
  | handleModbusRequest sock =>
    by_cases hrc : (lib.receive sock (s.store.taken sock)).1 > 0
    · simp [requestSection, exec, serve, modbusSetSocket, modbusReceive, modbusReply, hrc,
        Vars.start]
    · simp [requestSection, exec, serve, modbusSetSocket, modbusReceive, modbusReply, hrc,
        Vars.start]

theorem serial_eq_serveAll (s : Shared Reply) (reqs : List (ℕ × Request)) :
    let r := Mutex.serial (requestSection lib) s reqs
    (r.1.store, r.2) = serveAll lib s.store reqs ∧ r.1.sent = s.sent ++ replies r.2 := by
  induction reqs generalizing s with
  | nil => simp [Mutex.serial, serveAll, replies]
  | cons o reqs ih =>
    obtain ⟨t, req⟩ := o
    obtain ⟨hserve, hsent⟩ := exec_section lib s req
    obtain ⟨hrest, hsentRest⟩ :=
      ih (exec (requestSection lib req).body (s, (requestSection lib req).start)).1
    simp only [Mutex.serial, serveAll] at hserve hsent hrest hsentRest ⊢
    rw [← hserve, ← hrest]
    refine ⟨rfl, ?_⟩
    rw [hsentRest, hsent, replies, replies, List.filterMap_cons]
    cases (exec (requestSection lib req).body (s, (requestSection lib req).start)).2.reply <;> simp

/-- At each of its micro-steps a section has only sent replies where their queries
came from. -/
theorem sent_of_micro_steps {s : Shared Reply} (hs : ∀ e ∈ s.sent, e.replyOn = e.queryFrom)
    (req : Request) (gone rest : List (MicroStep Query Reply))
    (hbody : (requestSection lib req).body = gone ++ rest) :
    ∀ e ∈ (exec gone (s, (requestSection lib req).start)).1.sent, e.replyOn = e.queryFrom := by
  cases req with
  | read op =>
    rcases gone with _ | ⟨f, gone⟩
    · exact hs
    · obtain ⟨rfl, hnil⟩ : readTables op = f ∧ [] = gone ++ rest := by
        simpa [requestSection] using hbody
      obtain ⟨rfl, rfl⟩ := List.append_eq_nil_iff.mp hnil.symm
      exact hs
  | handleModbusRequest sock =>
    rcases gone with _ | ⟨f, _ | ⟨g, _ | ⟨h, gone⟩⟩⟩
    · exact hs
    · obtain ⟨rfl, -⟩ : modbusSetSocket sock = f ∧ _ := by simpa [requestSection] using hbody
      exact hs
    · obtain ⟨rfl, rfl, -⟩ : modbusSetSocket sock = f ∧ modbusReceive lib = g ∧ _ := by
        simpa [requestSection] using hbody
      exact hs
    · obtain ⟨rfl, rfl, rfl, hnil⟩ : modbusSetSocket sock = f ∧ modbusReceive lib = g ∧
          modbusReply lib = h ∧ [] = gone ++ rest := by
        simpa [requestSection] using hbody
      obtain ⟨rfl, rfl⟩ := List.append_eq_nil_iff.mp hnil.symm
      have hsent := (exec_section lib s (.handleModbusRequest sock)).2
      have hreply := congrArg Prod.snd (exec_section lib s (.handleModbusRequest sock)).1
      simp only [requestSection] at hsent hreply ⊢
      intro e he
      rw [hsent, hreply] at he
      rcases List.mem_append.mp he with he | he
      · exact hs e he
      · simp only [serve] at he
        split_ifs at he <;> simp at he
        rw [he]

end Model

/-- Any interleaving of requests and single-table reads under `ctxMutex` is a serial
execution in the order of locking. -/
theorem requests_serializable {Query Reply : Type} (lib : Libmodbus Query Reply) (m : Mapping)
    {s : Mutex.State ℕ (Shared Reply) (Vars Query Reply) Request}
    (hs : (requests lib m).Reachable s) :
    (∀ e ∈ s.shared.sent, e.replyOn = e.queryFrom) ∧
    (∃ before, before <+: s.entered ∧ s.entered.length ≤ before.length + 1 ∧
      (serveAll lib ⟨fun _ => 0, m⟩ before).2 = s.left) ∧
    (s.owner = none →
      serveAll lib ⟨fun _ => 0, m⟩ s.entered = (s.shared.store, s.left) ∧
        s.shared.sent = replies s.left) := by
  refine ⟨?_, ?_, ?_⟩
  · refine Mutex.shared_invariant (P := fun sh => ∀ e ∈ sh.sent, e.replyOn = e.queryFrom)
      (by simp [Shared.initial]) ?_ hs
    intro req s hs gone rest hbody
    exact sent_of_micro_steps lib hs req gone rest hbody
  · obtain ⟨before, hprefix, hlen, hleft⟩ := Mutex.serial_prefix hs
    refine ⟨before, hprefix, hlen, ?_⟩
    rw [← hleft]
    exact (congrArg Prod.snd (serial_eq_serveAll lib (.initial m) before).1).symm
  · intro hfree
    have hserial := Mutex.serial_of_free hs hfree
    obtain ⟨hall, hsent⟩ := serial_eq_serveAll lib (.initial m) s.entered
    simp only [hserial] at hall hsent
    exact ⟨hall.symm, by simpa [Shared.initial] using hsent⟩

private def writeCoils : Libmodbus (ℕ × UInt8) (ℕ × UInt8) where
  receive sock n := if sock = 5 then (-1, (0, 0)) else (12, (n, 1))
  reply query _ m := (query, { m with tabBits := m.tabBits.set query.1 query.2 })

private def writeReadFail : List (Mutex.Action ℕ Request) :=
  [.lock 0 (.handleModbusRequest 4), .step 0, .step 0, .step 0, .unlock 0,
    .lock 1 (.read (.readCoil 0)), .step 1, .unlock 1,
    .lock 2 (.handleModbusRequest 5), .step 2, .step 2, .step 2, .unlock 2]

theorem requests_serializable_writeReadFail :
    ∃ s, (requests writeCoils (mappingNew 10 10 10 10)).Reachable s ∧
      (replies s.left = [⟨4, 4, (0, 1)⟩] ∧ s.owner = none) ∧
      (∀ e ∈ s.shared.sent, e.replyOn = e.queryFrom) ∧
      (∃ before, before <+: s.entered ∧ s.entered.length ≤ before.length + 1 ∧
        (serveAll writeCoils ⟨fun _ => 0, mappingNew 10 10 10 10⟩ before).2 = s.left) ∧
      (s.owner = none →
        serveAll writeCoils ⟨fun _ => 0, mappingNew 10 10 10 10⟩ s.entered =
            (s.shared.store, s.left) ∧
          s.shared.sent = replies s.left) := by
  have h : ∃ s, (requests writeCoils (mappingNew 10 10 10 10)).Reachable s ∧
      (decide (replies s.left = [⟨4, 4, (0, 1)⟩]) && s.owner.isNone) = true :=
    TransitionSystem.exists_reachable_of_run _ writeReadFail _ (by decide)
  obtain ⟨s, hs, htest⟩ := h
  rw [Bool.and_eq_true, decide_eq_true_eq, Option.isNone_iff_eq_none] at htest
  exact ⟨s, hs, htest, requests_serializable writeCoils _ hs⟩

end Mbtest.ModbusServer
