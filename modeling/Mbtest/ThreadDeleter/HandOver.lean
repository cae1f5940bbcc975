import Mbtest.Lifecycle.State
import Mbtest.ThreadDeleter.Loop

/-! The way of the connections from their loops to the deleter: each server's `connsetMutex`,
the collection with its lock, and the joins. The workers of the collection are the numbers of
the connections, and connection `i` calls `deleteWorker` as its thread `i`. -/
namespace Mbtest.ThreadDeleter.HandOver
open Lib Lifecycle

/-- The thread of a connection: its loop, then `deregisterConnection` from the lock of
`connsetMutex` to its unlock. `calling` lasts from the call of `deleteWorker` on. -/
inductive ConnPc
  | notStarted
  | loop
  | lock
  | erase
  | deleteWorker
  | calling
  | finished
  deriving DecidableEq, Repr

/-- An accepting thread: `accept`, `registerConnection` and `run` of the connection `i`. -/
inductive AcceptPc
  | accept
  | lock (i : ℕ)
  | insert (i : ℕ)
  | unlock (i : ℕ)
  | startThread (i : ℕ)
  | storeHandle (i : ℕ)
  deriving DecidableEq, Repr

def AcceptPc.pending : AcceptPc → Option ℕ
  | .lock i | .insert i | .unlock i | .startThread i => some i
  | _ => none

inductive Holder
  | conn (i : ℕ)
  | accept
  deriving DecidableEq, Repr

/-- `server` says which server has accepted a connection; `joinable i` that the handle of its
thread is stored. -/
structure State where
  queue : ThreadDeleter.State ℕ
  conn : ℕ → ConnPc
  server : ℕ → Option Server
  accept : Server → AcceptPc
  connsetMutex : Server → Option Holder
  joinable : ℕ → Bool

inductive Action
  | accepted (k : Server) (i : ℕ)
  | lockToInsert (k : Server)
  | insert (k : Server)
  | unlockInserted (k : Server)
  | startThread (k : Server)
  | storeHandle (k : Server)
  | leave (i : ℕ)
  | lockToErase (i : ℕ) (k : Server)
  | erase (i : ℕ)
  | deleteWorker (i : ℕ)
  | unlockErased (i : ℕ) (k : Server)
  /-- A step of the deleter, of `stop`, or inside a call of `deleteWorker`. -/
  | queue (a : ThreadDeleter.Action ℕ)

namespace State
variable (s : State)

/-- `Worker::wait` returns: the thread has ended, or there is no handle to join. -/
def Joins : Prop := ∀ w ∈ s.queue.worker, s.joinable w = true → s.conn w = .finished

def Allowed : ThreadDeleter.Action ℕ → Prop
  | .call _ _ => False
  | .wait => s.Joins
  | _ => True

instance : Decidable s.Joins := inferInstanceAs (Decidable (∀ w ∈ s.queue.worker, _ → _))

instance (a : ThreadDeleter.Action ℕ) : Decidable (s.Allowed a) := by
  cases a <;> unfold Allowed <;> infer_instance

end State

def initial : State where
  queue := ThreadDeleter.initial
  conn _ := .notStarted
  server _ := none
  accept _ := .accept
  connsetMutex _ := none
  joinable _ := false

def next (s : State) : Action → Option State
  | .accepted k i =>
    if s.accept k = .accept ∧ s.server i = none then
      some { s with
        server := Function.update s.server i (some k)
        accept := Function.update s.accept k (.lock i) }
    else none
  | .lockToInsert k =>
    match s.accept k with
    | .lock i =>
      if s.connsetMutex k = none then
        some { s with
          connsetMutex := Function.update s.connsetMutex k (some .accept)
          accept := Function.update s.accept k (.insert i) }
      else none
    | _ => none
  | .insert k =>
    match s.accept k with
    | .insert i => some { s with accept := Function.update s.accept k (.unlock i) }
    | _ => none
  | .unlockInserted k =>
    match s.accept k with
    | .unlock i =>
      some { s with
        connsetMutex := Function.update s.connsetMutex k none
        accept := Function.update s.accept k (.startThread i) }
    | _ => none
  | .startThread k =>
    match s.accept k with
    | .startThread i =>
      some { s with
        conn := Function.update s.conn i .loop
        accept := Function.update s.accept k (.storeHandle i) }
    | _ => none
  | .storeHandle k =>
    match s.accept k with
    | .storeHandle i =>
      some { s with
        joinable := Function.update s.joinable i true
        accept := Function.update s.accept k .accept }
    | _ => none
  | .leave i =>
    if s.conn i = .loop then some { s with conn := Function.update s.conn i .lock } else none
  | .lockToErase i k =>
    if s.conn i = .lock ∧ s.server i = some k ∧ s.connsetMutex k = none then
      some { s with
        connsetMutex := Function.update s.connsetMutex k (some (.conn i))
        conn := Function.update s.conn i .erase }
    else none
  | .erase i =>
    if s.conn i = .erase then some { s with conn := Function.update s.conn i .deleteWorker }
    else none
  | .deleteWorker i =>
    if s.conn i = .deleteWorker then
      (ThreadDeleter.next s.queue (.call i i)).map fun q =>
        { s with queue := q, conn := Function.update s.conn i .calling }
    else none
  | .unlockErased i k =>
    if s.conn i = .calling ∧ s.queue.adder i = .idle ∧ s.server i = some k then
      some { s with
        connsetMutex := Function.update s.connsetMutex k none
        conn := Function.update s.conn i .finished }
    else none
  | .queue a =>
    if s.Allowed a then (ThreadDeleter.next s.queue a).map fun q => { s with queue := q } else none

def handOver : TransitionSystem State Action := ⟨initial, next⟩

/-- The steps of the connections that have left their loops, of the accepting threads inside
`registerConnection`, and of the deleter, which neither its start by `main` nor a wake-up out of
nothing is. -/
def Action.ofHandOver : Action → Bool
  | .lockToInsert _ | .insert _ | .unlockInserted _ => true
  | .lockToErase _ _ | .erase _ | .deleteWorker _ | .unlockErased _ _ => true
  | .queue (.lockAdd _) | .queue (.add _) | .queue (.unlockAdd _) => true
  | .queue .acquire | .queue .test | .queue .take | .queue .recheck => true
  | .queue .release | .queue .wait | .queue .delete => true
  | _ => false

/-- The collection moves only as it does on its own. -/
theorem queue_reachable {s : State} (hs : handOver.Reachable s) :
    (deletions ℕ).Reachable s.queue := by
  refine hs.invariant (I := fun s => (deletions ℕ).Reachable s.queue) ?_ ?_
  · exact .init
  intro s a s' _ hs hn
  cases a with
  | accepted k i | leave i | lockToErase i k | erase i | unlockErased i k =>
    obtain ⟨-, ⟨⟩⟩ := of_guard hn
    exact hs
  | lockToInsert k =>
    simp only [handOver, next] at hn
    split at hn
    case h_1 => obtain ⟨-, ⟨⟩⟩ := of_guard hn; exact hs
    case h_2 => cases hn
  | insert k | unlockInserted k | startThread k | storeHandle k =>
    simp only [handOver, next] at hn
    split at hn
    case h_1 => cases hn; exact hs
    case h_2 => cases hn
  | deleteWorker i =>
    obtain ⟨-, hmap⟩ := of_guard hn
    obtain ⟨q, hq, rfl⟩ := Option.map_eq_some_iff.mp hmap
    exact TransitionSystem.Reachable.next (a := .call i i) hs hq
  | queue a =>
    obtain ⟨-, hmap⟩ := of_guard hn
    obtain ⟨q, hq, rfl⟩ := Option.map_eq_some_iff.mp hmap
    exact TransitionSystem.Reachable.next (a := a) hs hq

section Frame
variable {q q' : ThreadDeleter.State ℕ}

theorem notify_frame (q : ThreadDeleter.State ℕ) :
    q.notify.adder = q.adder ∧ q.notify.added = q.added ∧ q.notify.stop = q.stop := by
  unfold ThreadDeleter.State.notify
  split_ifs <;> exact ⟨rfl, rfl, rfl⟩

theorem take_frame (hplain : q.threads.Plain) {outcome : Option BlockingCollectionStatus}
    (houtcome : outcome = q.threads.waitNotEmptyCondition ∨
      outcome = q.threads.wokenNotEmptyCondition) :
    (q.take outcome).adder = q.adder ∧ (q.take outcome).added = q.added ∧
      (q.take outcome).stop = q.stop := by
  rcases take_cases hplain houtcome with ⟨c, -, -, -, -, -, h⟩ | ⟨w, c, -, -, -, h⟩ | ⟨status, -, h⟩
  all_goals
    rw [h]
    exact ⟨rfl, rfl, rfl⟩

def OfCall : ThreadDeleter.Action ℕ → Prop
  | .call _ _ | .lockAdd _ | .add _ | .unlockAdd _ => True
  | _ => False

/-- The other steps touch no call, add nothing, and `stop` is not taken back. -/
theorem queue_frame {a : ThreadDeleter.Action ℕ} (hplain : q.threads.Plain) (ha : ¬ OfCall a)
    (hn : ThreadDeleter.next q a = some q') :
    q'.adder = q.adder ∧ q'.added = q.added ∧ (q'.stop = .notCalled → q.stop = .notCalled) := by
  cases a with
  | call t w | lockAdd t | add t | unlockAdd t => exact absurd trivial ha
  | start | test | spurious =>
    obtain ⟨-, ⟨⟩⟩ := of_guard hn
    exact ⟨rfl, rfl, id⟩
  | acquire | release =>
    simp only [ThreadDeleter.next] at hn
    split at hn
    case h_1 =>
      first
        | cases hn
        | obtain ⟨-, ⟨⟩⟩ := of_guard hn
      exact ⟨rfl, rfl, id⟩
    case h_2 => cases hn
  | take =>
    obtain ⟨-, ⟨⟩⟩ := of_guard hn
    obtain ⟨hadder, hadded, hstop⟩ := take_frame hplain (.inl rfl)
    exact ⟨hadder, hadded, hstop.symm.trans⟩
  | recheck =>
    obtain ⟨-, ⟨⟩⟩ := of_guard hn
    obtain ⟨hadder, hadded, hstop⟩ := take_frame hplain (.inr rfl)
    exact ⟨hadder, hadded, hstop.symm.trans⟩
  | wait =>
    obtain ⟨-, ⟨⟩⟩ := of_guard hn
    unfold ThreadDeleter.State.wait
    split <;> exact ⟨rfl, rfl, id⟩
  | delete =>
    obtain ⟨-, ⟨⟩⟩ := of_guard hn
    unfold ThreadDeleter.State.delete
    split <;> exact ⟨rfl, rfl, id⟩
  | stop | lockStop | unlockStop =>
    obtain ⟨-, ⟨⟩⟩ := of_guard hn
    exact ⟨rfl, rfl, by simp⟩
  | completeAdding =>
    obtain ⟨-, ⟨⟩⟩ := of_guard hn
    unfold ThreadDeleter.State.completeAdding
    dsimp only
    split_ifs
    · exact ⟨rfl, rfl, by simp⟩
    · obtain ⟨hadder, hadded, hstop⟩ :=
        notify_frame { q with threads := q.threads.completeAdding, stop := .unlock }
      exact ⟨hadder, hadded, by simp [hstop]⟩

end Frame

/-- Where the threads are when they hold a mutex or are in a call. A worker is in the
collection's history from its `add` on. -/
structure HandOverInv (s : State) : Prop where
  pending : ∀ k i, (s.accept k).pending = some i → s.server i = some k ∧ s.conn i = .notStarted
  started : ∀ i, s.conn i ≠ .notStarted → ∃ k, s.server i = some k
  calling : ∀ i, s.queue.adder i ≠ .idle → s.conn i = .calling
  self : ∀ i w, s.queue.adder i = .lock w ∨ s.queue.adder i = .add w → w = i
  handed : ∀ i, s.conn i = .calling ∨ s.conn i = .finished →
    s.queue.adder i = .idle ∨ s.queue.adder i = .unlock → s.queue.stop = .notCalled →
      i ∈ s.queue.added
  added : ∀ i ∈ s.queue.added, (s.conn i = .calling ∨ s.conn i = .finished) ∧
    (s.queue.adder i = .idle ∨ s.queue.adder i = .unlock)
  mutexConn : ∀ k i, s.connsetMutex k = some (.conn i) → s.server i = some k ∧
    (s.conn i = .erase ∨ s.conn i = .deleteWorker ∨ s.conn i = .calling)
  mutexAccept : ∀ k, s.connsetMutex k = some .accept →
    ∃ i, s.accept k = .insert i ∨ s.accept k = .unlock i

section HandOverInv
variable {s s' : State}

theorem HandOverInv.of_queue (hs : HandOverInv s) {q : ThreadDeleter.State ℕ}
    (hadder : q.adder = s.queue.adder) (hadded : q.added = s.queue.added)
    (hstop : q.stop = .notCalled → s.queue.stop = .notCalled) :
    HandOverInv { s with queue := q } := by
  refine { hs with
    calling := ?_
    self := ?_
    handed := ?_
    added := ?_ }
  · rw [hadder]
    exact hs.calling
  · rw [hadder]
    exact hs.self
  · rw [hadder, hadded]
    exact fun i hi hpc h => hs.handed i hi hpc (hstop h)
  · rw [hadder, hadded]
    exact hs.added

theorem HandOverInv.setThread (hs : HandOverInv s) (i : ℕ) {q : ThreadDeleter.State ℕ}
    {pc : ConnPc} {call : AdderPc ℕ} (hserver : ∃ k, s.server i = some k)
    (hpending : ∀ k, (s.accept k).pending ≠ some i)
    (hadder : q.adder = Function.update s.queue.adder i call)
    (hothers : ∀ j, j ≠ i → (j ∈ q.added ↔ j ∈ s.queue.added))
    (hstop : q.stop = .notCalled → s.queue.stop = .notCalled)
    (hcalling : call ≠ .idle → pc = .calling)
    (hself : ∀ w, call = .lock w ∨ call = .add w → w = i)
    (hhanded : pc = .calling ∨ pc = .finished → call = .idle ∨ call = .unlock →
      q.stop = .notCalled → i ∈ q.added)
    (hadded : i ∈ q.added → (pc = .calling ∨ pc = .finished) ∧ (call = .idle ∨ call = .unlock))
    (hmutex : ∀ k, s.connsetMutex k = some (.conn i) →
      pc = .erase ∨ pc = .deleteWorker ∨ pc = .calling) :
    HandOverInv { s with queue := q, conn := Function.update s.conn i pc } := by
  have hconnSelf : Function.update s.conn i pc i = pc := Function.update_self i pc s.conn
  have hconnOther : ∀ j, j ≠ i → Function.update s.conn i pc j = s.conn j := by
    intro j hj
    rw [Function.update_of_ne hj]
  have hadderSelf : q.adder i = call := by rw [hadder, Function.update_self]
  have hadderOther : ∀ j, j ≠ i → q.adder j = s.queue.adder j := by
    intro j hj
    rw [hadder, Function.update_of_ne hj]
  refine { hs with
    pending := fun k j hj => ?_
    started := fun j hj => ?_
    calling := fun j hj => ?_
    self := fun j w hj => ?_
    handed := fun j hpc hj h => ?_
    added := fun j hj => ?_
    mutexConn := fun k j hj => ?_ } <;> try dsimp only at hj ⊢
  all_goals by_cases hji : j = i
  · rw [hji] at hj
    exact absurd hj (hpending k)
  · exact ⟨(hs.pending k j hj).1, (hconnOther j hji).trans (hs.pending k j hj).2⟩
  · rw [hji]
    exact hserver
  · exact hs.started j (by rwa [← hconnOther j hji])
  · rw [hji, hadderSelf] at hj
    rw [hji]
    exact hconnSelf.trans (hcalling hj)
  · rw [hadderOther j hji] at hj
    exact (hconnOther j hji).trans (hs.calling j hj)
  · rw [hji, hadderSelf] at hj
    rw [hji]
    exact hself w hj
  · rw [hadderOther j hji] at hj
    exact hs.self j w hj
  · rw [hji, hadderSelf] at hj
    rw [hji] at hpc ⊢
    exact hhanded (by rwa [← hconnSelf]) hj h
  · rw [hadderOther j hji] at hj
    have hbefore : s.conn j = .calling ∨ s.conn j = .finished := by rwa [← hconnOther j hji]
    exact (hothers j hji).mpr (hs.handed j hbefore hj (hstop h))
  · rw [hji] at hj ⊢
    obtain ⟨hpc, hcall⟩ := hadded hj
    rw [hadderSelf]
    exact ⟨hpc.imp hconnSelf.trans hconnSelf.trans, hcall⟩
  · rw [hadderOther j hji, hconnOther j hji]
    exact hs.added j ((hothers j hji).mp hj)
  · rw [hji] at hj ⊢
    rw [hconnSelf]
    exact ⟨(hs.mutexConn k i hj).1, hmutex k hj⟩
  · rw [hconnOther j hji]
    exact hs.mutexConn k j hj

theorem HandOverInv.setConn (hs : HandOverInv s) (i : ℕ) {pc : ConnPc}
    (hserver : ∃ k, s.server i = some k) (hpending : ∀ k, (s.accept k).pending ≠ some i)
    (hcalling : s.queue.adder i ≠ .idle → pc = .calling)
    (hhanded : pc = .calling ∨ pc = .finished →
      s.queue.adder i = .idle ∨ s.queue.adder i = .unlock → s.queue.stop = .notCalled →
        i ∈ s.queue.added)
    (hadded : i ∈ s.queue.added → pc = .calling ∨ pc = .finished)
    (hmutex : ∀ k, s.connsetMutex k = some (.conn i) →
      pc = .erase ∨ pc = .deleteWorker ∨ pc = .calling) :
    HandOverInv { s with conn := Function.update s.conn i pc } := by
  have hadder : s.queue.adder = Function.update s.queue.adder i (s.queue.adder i) :=
    (Function.update_eq_self i s.queue.adder).symm
  exact hs.setThread i hserver hpending hadder (fun _ _ => Iff.rfl) id hcalling (hs.self i) hhanded
    (fun h => ⟨hadded h, (hs.added i h).2⟩) hmutex

theorem HandOverInv.setMutex (hs : HandOverInv s) (k : Server) (h : Option Holder)
    (hconn : ∀ i, h = some (.conn i) → s.server i = some k ∧
      (s.conn i = .erase ∨ s.conn i = .deleteWorker ∨ s.conn i = .calling))
    (haccept : h = some .accept → ∃ i, s.accept k = .insert i ∨ s.accept k = .unlock i) :
    HandOverInv { s with connsetMutex := Function.update s.connsetMutex k h } := by
  refine { hs with
    mutexConn := fun l i hl => ?_
    mutexAccept := fun l hl => ?_ } <;> dsimp only at hl ⊢ <;> by_cases hlk : l = k
  · subst hlk
    rw [Function.update_self] at hl
    exact hconn i hl
  · rw [Function.update_of_ne hlk] at hl
    exact hs.mutexConn l i hl
  · subst hlk
    rw [Function.update_self] at hl
    exact haccept hl
  · rw [Function.update_of_ne hlk] at hl
    exact hs.mutexAccept l hl

theorem HandOverInv.setAccept (hs : HandOverInv s) (k : Server) (pc : AcceptPc)
    (hpending : ∀ i, pc.pending = some i → s.server i = some k ∧ s.conn i = .notStarted)
    (haccept : s.connsetMutex k = some .accept → ∃ i, pc = .insert i ∨ pc = .unlock i) :
    HandOverInv { s with accept := Function.update s.accept k pc } := by
  refine { hs with
    pending := fun l i hl => ?_
    mutexAccept := fun l hl => ?_ } <;> dsimp only at hl ⊢ <;> by_cases hlk : l = k
  · subst hlk
    rw [Function.update_self] at hl
    exact hpending i hl
  · rw [Function.update_of_ne hlk] at hl
    exact hs.pending l i hl
  · subst hlk
    rw [Function.update_self]
    exact haccept hl
  · rw [Function.update_of_ne hlk]
    exact hs.mutexAccept l hl

theorem HandOverInv.not_pending (hs : HandOverInv s) {i : ℕ} (hi : s.conn i ≠ .notStarted)
    (k : Server) : (s.accept k).pending ≠ some i :=
  fun h => hi (hs.pending k i h).2

theorem HandOverInv.before (hs : HandOverInv s) {i : ℕ} (hcalling : s.conn i ≠ .calling)
    (hfinished : s.conn i ≠ .finished) : s.queue.adder i = .idle ∧ i ∉ s.queue.added := by
  constructor
  · by_contra h
    exact hcalling (hs.calling i h)
  · intro h
    rcases (hs.added i h).1 with h | h
    · exact hcalling h
    · exact hfinished h

/-- Only a thread inside its section holds `connsetMutex`. -/
theorem HandOverInv.conn_not_holds (hs : HandOverInv s) {i : ℕ}
    (hi : ¬ (s.conn i = .erase ∨ s.conn i = .deleteWorker ∨ s.conn i = .calling)) (k : Server) :
    s.connsetMutex k ≠ some (.conn i) :=
  fun h => hi (hs.mutexConn k i h).2

theorem HandOverInv.accept_not_holds (hs : HandOverInv s) {k : Server}
    (hk : ∀ i, ¬ (s.accept k = .insert i ∨ s.accept k = .unlock i)) :
    s.connsetMutex k ≠ some .accept := by
  intro h
  obtain ⟨i, hi⟩ := hs.mutexAccept k h
  exact hk i hi

theorem HandOverInv.of_call (hs : HandOverInv s) {q : ThreadDeleter.State ℕ} {i : ℕ}
    {pc : AdderPc ℕ} (hstarted : s.conn i ≠ .notStarted)
    (hadder : q.adder = Function.update s.queue.adder i pc)
    (hself : ∀ w, pc = .lock w ∨ pc = .add w → w = i)
    (hothers : ∀ j, j ≠ i → (j ∈ q.added ↔ j ∈ s.queue.added))
    (hstop : q.stop = .notCalled → s.queue.stop = .notCalled)
    (hhanded : pc = .idle ∨ pc = .unlock → q.stop = .notCalled → i ∈ q.added)
    (hadded : i ∈ q.added → pc = .idle ∨ pc = .unlock) :
    HandOverInv { s with queue := q, conn := Function.update s.conn i .calling } :=
  hs.setThread i (hs.started i hstarted) (hs.not_pending hstarted) hadder hothers hstop
    (fun _ => rfl) hself (fun _ => hhanded) (fun h => ⟨.inl rfl, hadded h⟩)
    fun _ _ => .inr (.inr rfl)

theorem handOverInv_call (hs : HandOverInv s) (hplain : s.queue.threads.Plain)
    (hlock : LockInv s.queue) {a : ThreadDeleter.Action ℕ} (ha : OfCall a) (hallowed : s.Allowed a)
    {q : ThreadDeleter.State ℕ} (hn : ThreadDeleter.next s.queue a = some q) :
    HandOverInv { s with queue := q } := by
  have hsame : ∀ i, s.conn i = .calling → Function.update s.conn i .calling = s.conn := by
    intro i hi
    rw [← hi, Function.update_eq_self]
  cases a with
  | call t w => exact absurd hallowed id
  | lockAdd t =>
    simp only [ThreadDeleter.next] at hn
    split at hn
    case h_2 => cases hn
    case h_1 w hpc =>
      obtain ⟨-, ⟨⟩⟩ := of_guard hn
      have hconn : s.conn t = .calling := hs.calling t (by rw [hpc]; simp)
      have h := hs.of_call (q := { s.queue.setAdder t (.add w) with lock := some (.adder t) })
        (by rw [hconn]; simp) rfl (fun w' hw' => hs.self t w' (by rw [hpc]; simpa using hw'))
        (fun _ _ => Iff.rfl) id (by simp) fun hadded => ?_
      · rwa [hsame t hconn] at h
      · have hcall := (hs.added t hadded).2
        rw [hpc] at hcall
        simp at hcall
  | add t =>
    simp only [ThreadDeleter.next] at hn
    split at hn
    case h_2 => cases hn
    case h_1 w hpc =>
      cases hn
      have hconn : s.conn t = .calling := hs.calling t (by rw [hpc]; simp)
      obtain rfl : w = t := hs.self t w (.inr hpc)
      have hstarted : s.conn w ≠ .notStarted := by rw [hconn]; simp
      rw [← hsame w hconn]
      rcases add_cases hplain w w with ⟨hcompleted, hadd⟩ | ⟨-, c, -, -, -, hadd⟩
      · rw [hadd]
        refine hs.of_call hstarted rfl (by simp) (fun _ _ => Iff.rfl) id (fun _ hstop => ?_) (by simp)
        rw [hlock.notCalled hstop] at hcompleted
        cases hcompleted
      · rw [hadd]
        obtain ⟨hadder, hadded, hstop⟩ := notify_frame
          { s.queue.setAdder w .unlock with threads := c, added := s.queue.added ++ [w] }
        refine hs.of_call hstarted hadder (by simp) (fun j hj => ?_) hstop.symm.trans ?_ (by simp)
        · rw [hadded]
          simp [hj]
        · intro _ _
          rw [hadded]
          simp
  | unlockAdd t =>
    simp only [ThreadDeleter.next] at hn
    split at hn
    case h_2 => cases hn
    case h_1 hpc =>
      cases hn
      have hconn : s.conn t = .calling := hs.calling t (by rw [hpc]; simp)
      have h := hs.of_call (q := { s.queue.setAdder t .idle with lock := none })
        (by rw [hconn]; simp) rfl (by simp) (fun _ _ => Iff.rfl) id
        (fun _ => hs.handed t (.inl hconn) (.inr hpc)) (by simp)
      rwa [hsame t hconn] at h
  | _ => exact absurd ha id

theorem HandOverInv.advance (hs : HandOverInv s) {i : ℕ} {pc : ConnPc}
    (hstarted : s.conn i ≠ .notStarted) (hcalling : s.conn i ≠ .calling)
    (hfinished : s.conn i ≠ .finished) (hpc : pc = .lock ∨ pc = .erase ∨ pc = .deleteWorker)
    (hmutex : ∀ k, s.connsetMutex k = some (.conn i) → pc = .deleteWorker) :
    HandOverInv { s with conn := Function.update s.conn i pc } := by
  obtain ⟨hidle, hnew⟩ := hs.before hcalling hfinished
  refine hs.setConn i (hs.started i hstarted) (hs.not_pending hstarted) (absurd hidle) ?_
    (fun h => absurd h hnew) (fun k hk => .inr (.inl (hmutex k hk)))
  rcases hpc with rfl | rfl | rfl <;> simp

theorem handOverInv_step (hs : HandOverInv s) (hplain : s.queue.threads.Plain)
    (hlock : LockInv s.queue) {a : Action} (hn : next s a = some s') : HandOverInv s' := by
  cases a with
  | accepted k i =>
    obtain ⟨⟨haccept, hserver⟩, ⟨⟩⟩ := of_guard hn
    have hconn : s.conn i = .notStarted := by
      by_contra h
      obtain ⟨l, hl⟩ := hs.started i h
      rw [hserver] at hl
      cases hl
    have hother : ∀ j l, s.server j = some l → Function.update s.server i (some k) j = some l := by
      intro j l hj
      rw [Function.update_of_ne, hj]
      rintro rfl
      rw [hserver] at hj
      cases hj
    have hopened : HandOverInv { s with server := Function.update s.server i (some k) } :=
      { hs with
        pending := fun l j hj => ⟨hother j l (hs.pending l j hj).1, (hs.pending l j hj).2⟩
        started := fun j hj => (hs.started j hj).imp fun l => hother j l
        mutexConn := fun l j hj => ⟨hother j l (hs.mutexConn l j hj).1, (hs.mutexConn l j hj).2⟩ }
    refine hopened.setAccept k (.lock i) (fun j hj => ?_) fun hmutex => ?_
    · cases hj
      exact ⟨Function.update_self i (some k) s.server, hconn⟩
    · exact absurd hmutex (hs.accept_not_holds (by simp [haccept]))
  | lockToInsert k =>
    simp only [next] at hn
    split at hn
    case h_2 => cases hn
    case h_1 i hpc =>
      obtain ⟨-, ⟨⟩⟩ := of_guard hn
      have hmoved := hs.setAccept k (.insert i) (fun j hj => hs.pending k j (by rwa [hpc]))
        fun _ => ⟨i, .inl rfl⟩
      exact hmoved.setMutex k (some .accept) (by simp)
        fun _ => ⟨i, .inl (Function.update_self k _ s.accept)⟩
  | insert k =>
    simp only [next] at hn
    split at hn
    case h_2 => cases hn
    case h_1 i hpc =>
      cases hn
      exact hs.setAccept k (.unlock i) (fun j hj => hs.pending k j (by rwa [hpc]))
        fun _ => ⟨i, .inr rfl⟩
  | unlockInserted k =>
    simp only [next] at hn
    split at hn
    case h_2 => cases hn
    case h_1 i hpc =>
      cases hn
      have hmoved := hs.setMutex k none (by simp) (by simp)
      exact hmoved.setAccept k (.startThread i) (fun j hj => hs.pending k j (by rwa [hpc])) (by simp)
  | startThread k =>
    simp only [next] at hn
    split at hn
    case h_2 => cases hn
    case h_1 i hpc =>
      cases hn
      obtain ⟨hserver, hconn⟩ := hs.pending k i (by rw [hpc]; rfl)
      obtain ⟨hidle, hnew⟩ := hs.before (i := i) (by rw [hconn]; simp) (by rw [hconn]; simp)
      have hmoved := hs.setAccept k (.storeHandle i) (by simp [AcceptPc.pending])
        fun hmutex => absurd hmutex (hs.accept_not_holds (by simp [hpc]))
      refine hmoved.setConn i ⟨k, hserver⟩ (fun l => ?_) (absurd hidle) (by simp)
        (fun h => absurd h hnew) fun l hl => ?_
      · by_cases hlk : l = k
        · simp [hlk, AcceptPc.pending]
        · intro hl
          dsimp only at hl
          rw [Function.update_of_ne hlk] at hl
          have hother := (hs.pending l i hl).1
          rw [hserver] at hother
          exact hlk (Option.some.inj hother).symm
      · exact absurd hl (hs.conn_not_holds (by rw [hconn]; simp) l)
  | storeHandle k =>
    simp only [next] at hn
    split at hn
    case h_2 => cases hn
    case h_1 i hpc =>
      cases hn
      have hmoved := hs.setAccept k .accept (by simp [AcceptPc.pending])
        fun hmutex => absurd hmutex (hs.accept_not_holds (by simp [hpc]))
      exact { hmoved with }
  | leave i =>
    obtain ⟨hpc, ⟨⟩⟩ := of_guard hn
    exact hs.advance (by rw [hpc]; simp) (by rw [hpc]; simp) (by rw [hpc]; simp) (.inl rfl)
      fun k hk => absurd hk (hs.conn_not_holds (by rw [hpc]; simp) k)
  | lockToErase i k =>
    obtain ⟨⟨hpc, hserver, -⟩, ⟨⟩⟩ := of_guard hn
    have hmoved : HandOverInv { s with conn := Function.update s.conn i .erase } := by
      exact hs.advance (by rw [hpc]; simp) (by rw [hpc]; simp) (by rw [hpc]; simp)
        (.inr (.inl rfl)) fun l hl => absurd hl (hs.conn_not_holds (by rw [hpc]; simp) l)
    refine hmoved.setMutex k (some (.conn i)) (fun j hj => ?_) (by simp)
    cases hj
    exact ⟨hserver, .inl (Function.update_self i .erase s.conn)⟩
  | erase i =>
    obtain ⟨hpc, ⟨⟩⟩ := of_guard hn
    exact hs.advance (by rw [hpc]; simp) (by rw [hpc]; simp) (by rw [hpc]; simp) (.inr (.inr rfl))
      fun _ _ => rfl
  | deleteWorker i =>
    obtain ⟨hpc, hmap⟩ := of_guard hn
    obtain ⟨q, hq, rfl⟩ := Option.map_eq_some_iff.mp hmap
    obtain ⟨hidle, hnew⟩ := hs.before (i := i) (by rw [hpc]; simp) (by rw [hpc]; simp)
    simp only [ThreadDeleter.next, hidle] at hq
    cases hq
    exact hs.of_call (by rw [hpc]; simp) rfl (by simp) (fun _ _ => Iff.rfl) id (by simp)
      fun h => absurd h hnew
  | unlockErased i k =>
    obtain ⟨⟨hpc, hidle, hserver⟩, ⟨⟩⟩ := of_guard hn
    have hstarted : s.conn i ≠ .notStarted := by rw [hpc]; simp
    have hunlocked := hs.setMutex k none (by simp) (by simp)
    refine hunlocked.setConn i ⟨k, hserver⟩ (hs.not_pending hstarted) (absurd hidle)
      (fun _ => hs.handed i (.inl hpc)) (fun _ => .inr rfl) fun l hl => ?_
    dsimp only at hl
    by_cases hlk : l = k
    · rw [hlk, Function.update_self] at hl
      cases hl
    · rw [Function.update_of_ne hlk] at hl
      have hother := (hs.mutexConn l i hl).1
      rw [hserver] at hother
      exact absurd (Option.some.inj hother).symm hlk
  | queue a =>
    obtain ⟨hallowed, hmap⟩ := of_guard hn
    obtain ⟨q, hq, rfl⟩ := Option.map_eq_some_iff.mp hmap
    by_cases ha : OfCall a
    · exact handOverInv_call hs hplain hlock ha hallowed hq
    · obtain ⟨hadder, hadded, hstop⟩ := queue_frame hplain ha hq
      exact hs.of_queue hadder hadded hstop

end HandOverInv

theorem handOverInv_of_reachable {s : State} (hs : handOver.Reachable s) : HandOverInv s := by
  suffices h : (deletions ℕ).Reachable s.queue ∧ HandOverInv s from h.2
  induction hs with
  | init =>
    refine ⟨.init, ⟨?_, ?_, ?_, ?_, ?_, ?_, ?_, ?_⟩⟩ <;>
      simp [handOver, initial, ThreadDeleter.initial, AcceptPc.pending]
  | step hs hg hn ih =>
    refine ⟨queue_reachable (.step hs hg hn), ?_⟩
    exact handOverInv_step ih.2 (queueInv_of_reachable ih.1).1.plain (lockInv_of_reachable ih.1) hn

def State.CanGo (s : State) : Prop := ∃ a s', a.ofHandOver = true ∧ next s a = some s'

section Progress
variable {s : State}

theorem canGo_queue (a : ThreadDeleter.Action ℕ) (ha : (Action.queue a).ofHandOver = true)
    (hallowed : s.Allowed a) (hn : (ThreadDeleter.next s.queue a).isSome) : s.CanGo := by
  obtain ⟨q, hq⟩ := Option.isSome_iff_exists.mp hn
  refine ⟨.queue a, { s with queue := q }, ha, ?_⟩
  simp only [next, if_pos hallowed, hq, Option.map_some]

/-- Whoever holds the lock of the collection can go on. -/
theorem canGo_of_locked (hlock : LockInv s.queue) (hstop : s.queue.stop = .notCalled)
    (hheld : s.queue.lock ≠ none) : s.CanGo := by
  obtain ⟨x, hx⟩ := Option.ne_none_iff_exists'.mp hheld
  cases x with
  | deleter =>
    have hholds := hlock.deleter hx
    cases hpc : s.queue.deleter with
    | test => exact canGo_queue .test rfl trivial (by simp [ThreadDeleter.next, hpc])
    | take => exact canGo_queue .take rfl trivial (by simp [ThreadDeleter.next, hpc])
    | recheck => exact canGo_queue .recheck rfl trivial (by simp [ThreadDeleter.next, hpc])
    | unlockTest completed | unlockTake status =>
      exact canGo_queue .release rfl trivial (by simp [ThreadDeleter.next, hpc, DeleterPc.released])
    | _ =>
      rw [hpc] at hholds
      cases hholds
  | adder t =>
    have hholds := hlock.adder t hx
    cases hpc : s.queue.adder t with
    | add w => exact canGo_queue (.add t) rfl trivial (by simp [ThreadDeleter.next, hpc])
    | unlock => exact canGo_queue (.unlockAdd t) rfl trivial (by simp [ThreadDeleter.next, hpc])
    | _ =>
      rw [hpc] at hholds
      cases hholds
  | stop =>
    have hholds := hlock.stop hx
    rw [hstop] at hholds
    cases hholds

/-- A connection inside its section of `connsetMutex` waits at most for the lock of the
collection. -/
theorem canGo_of_inside (hs : HandOverInv s) (hlock : s.queue.lock = none) {i : ℕ}
    (hi : s.conn i = .erase ∨ s.conn i = .deleteWorker ∨ s.conn i = .calling) : s.CanGo := by
  rcases hi with hpc | hpc | hpc
  · exact ⟨.erase i, _, rfl, if_pos hpc⟩
  · have hidle := (hs.before (i := i) (by rw [hpc]; simp) (by rw [hpc]; simp)).1
    have hcall : (next s (.deleteWorker i)).isSome := by
      simp [next, hpc, ThreadDeleter.next, hidle]
    obtain ⟨s', hn⟩ := Option.isSome_iff_exists.mp hcall
    exact ⟨.deleteWorker i, s', rfl, hn⟩
  · cases hcall : s.queue.adder i with
    | idle =>
      obtain ⟨k, hserver⟩ := hs.started i (by rw [hpc]; simp)
      exact ⟨.unlockErased i k, _, rfl, if_pos ⟨hpc, hcall, hserver⟩⟩
    | lock w =>
      exact canGo_queue (.lockAdd i) rfl trivial (by simp [ThreadDeleter.next, hcall, hlock])
    | add w => exact canGo_queue (.add i) rfl trivial (by simp [ThreadDeleter.next, hcall])
    | unlock => exact canGo_queue (.unlockAdd i) rfl trivial (by simp [ThreadDeleter.next, hcall])

/-- A connection that waits for `connsetMutex` waits for a thread that can go on. -/
theorem canGo_of_lock (hs : HandOverInv s) (hlock : s.queue.lock = none) {i : ℕ}
    (hpc : s.conn i = .lock) : s.CanGo := by
  obtain ⟨k, hserver⟩ := hs.started i (by rw [hpc]; simp)
  cases hmutex : s.connsetMutex k with
  | none => exact ⟨.lockToErase i k, _, rfl, if_pos ⟨hpc, hserver, hmutex⟩⟩
  | some x =>
    cases x with
    | conn j => exact canGo_of_inside hs hlock (hs.mutexConn k j hmutex).2
    | accept =>
      obtain ⟨j, hj | hj⟩ := hs.mutexAccept k hmutex
      · exact ⟨.insert k, _, rfl, by simp only [next, hj]; rfl⟩
      · exact ⟨.unlockInserted k, _, rfl, by simp only [next, hj]; rfl⟩

end Progress

def ConnPc.Left : ConnPc → Prop
  | .notStarted | .loop => False
  | _ => True

/-- While a connection that has left its loop is not deleted, the deleter started and not
stopped, a thread of the hand-over can go on; and a thread that the deleter joins has no more to
do than to unlock. -/
structure NoDeadlock (s : State) : Prop where
  canGo : ∀ i, (s.conn i).Left → i ∉ s.queue.deleted → s.queue.deleter ≠ .notStarted →
    s.queue.stop = .notCalled → s.CanGo
  joined : ∀ w, s.queue.deleter = .wait → s.queue.worker = some w → s.conn w ≠ .finished →
    ∃ a s', (a = .queue (.unlockAdd w) ∨ ∃ k, a = .unlockErased w k) ∧ next s a = some s'

theorem joined_of_inv {s : State} (hs : HandOverInv s) (hqueue : QueueInv s.queue) {w : ℕ}
    (hpc : s.queue.deleter = .wait) (hw : s.queue.worker = some w) (hconn : s.conn w ≠ .finished) :
    ∃ a s', (a = .queue (.unlockAdd w) ∨ ∃ k, a = .unlockErased w k) ∧ next s a = some s' := by
  have hinHand : s.queue.inHand = [w] := inHand_of_carries (by rw [hpc]; rfl) hw
  have hadded : w ∈ s.queue.added := by
    rw [← hqueue.order, hinHand]
    simp
  obtain ⟨hcalling, hcall⟩ := hs.added w hadded
  have hcalling : s.conn w = .calling := hcalling.resolve_right hconn
  rcases hcall with hcall | hcall
  · obtain ⟨k, hserver⟩ := hs.started w (by rw [hcalling]; simp)
    exact ⟨.unlockErased w k, _, .inr ⟨k, rfl⟩, if_pos ⟨hcalling, hcall, hserver⟩⟩
  · have hunlock : (next s (.queue (.unlockAdd w))).isSome := by
      simp [next, State.Allowed, ThreadDeleter.next, hcall]
    obtain ⟨s', hn⟩ := Option.isSome_iff_exists.mp hunlock
    exact ⟨.queue (.unlockAdd w), s', .inl rfl, hn⟩

theorem noDeadlock_of_reachable {s : State} (hs : handOver.Reachable s) : NoDeadlock s := by
  have hinv := handOverInv_of_reachable hs
  obtain ⟨hqueue, hsleeps⟩ := queueInv_of_reachable (queue_reachable hs)
  have hlocks := lockInv_of_reachable (queue_reachable hs)
  refine ⟨fun i hleft hdeleted hstarted hstop => ?_, fun w => joined_of_inv hinv hqueue⟩
  have hopen := hlocks.notCalled hstop
  by_cases hlock : s.queue.lock = none
  swap
  · exact canGo_of_locked hlocks hstop hlock
  cases hpc : s.queue.deleter with
  | notStarted => exact absurd hpc hstarted
  | lockTest | lockTake | woken =>
    exact canGo_queue .acquire rfl trivial
      (by simp [ThreadDeleter.next, hpc, DeleterPc.acquired, hlock])
  | test => exact canGo_queue .test rfl trivial (by simp [ThreadDeleter.next, hpc])
  | take => exact canGo_queue .take rfl trivial (by simp [ThreadDeleter.next, hpc])
  | recheck => exact canGo_queue .recheck rfl trivial (by simp [ThreadDeleter.next, hpc])
  | unlockTest completed | unlockTake status =>
    exact canGo_queue .release rfl trivial (by simp [ThreadDeleter.next, hpc, DeleterPc.released])
  | delete => exact canGo_queue .delete rfl trivial (by simp [ThreadDeleter.next, hpc])
  | finished =>
    have hcompleted := (hqueue.empty (.inr hpc)).1
    rw [hopen] at hcompleted
    cases hcompleted
  | wait =>
    by_cases hjoins : s.Joins
    · exact canGo_queue .wait rfl hjoins (by simp [ThreadDeleter.next, hpc])
    · -- the thread that is joined has only to unlock
      simp only [State.Joins, not_forall] at hjoins
      obtain ⟨w, hw, -, hconn⟩ := hjoins
      obtain ⟨a, s', ha, hn⟩ := joined_of_inv hinv hqueue hpc hw hconn
      refine ⟨a, s', ?_, hn⟩
      rcases ha with rfl | ⟨k, rfl⟩ <;> rfl
  | asleep =>
    -- nothing is on its way, so the connection is still on its own
    cases hconn : s.conn i with
    | notStarted | loop =>
      rw [hconn] at hleft
      exact absurd hleft id
    | lock => exact canGo_of_lock hinv hlock hconn
    | erase => exact canGo_of_inside hinv hlock (.inl hconn)
    | deleteWorker => exact canGo_of_inside hinv hlock (.inr (.inl hconn))
    | calling => exact canGo_of_inside hinv hlock (.inr (.inr hconn))
    | finished =>
      have hidle : s.queue.adder i = .idle := by
        by_contra h
        have hcalling := hinv.calling i h
        rw [hconn] at hcalling
        cases hcalling
      have hadded := hinv.handed i (.inr hconn) (.inl hidle) hstop
      have hinHand : s.queue.inHand = [] := inHand_of_not_carries (by rw [hpc]; rfl)
      rw [← hqueue.order, hinHand, (hsleeps hpc).1, List.append_nil, List.append_nil] at hadded
      exact absurd hadded hdeleted

private def handedOver (k : Server) (i : ℕ) : List Action :=
  [.accepted k i, .lockToInsert k, .insert k, .unlockInserted k, .startThread k, .storeHandle k,
    .leave i, .lockToErase i k, .erase i, .deleteWorker i]

private def addWorker (i : ℕ) : List Action :=
  [.queue (.lockAdd i), .queue (.add i), .queue (.unlockAdd i)]

private def toJoin : List Action :=
  [.queue .start, .queue .acquire, .queue .test, .queue .release, .queue .acquire, .queue .take,
    .queue .release]

theorem noDeadlock_of_reachable_joining : ∃ s, handOver.Reachable s ∧ s.queue.deleter = .wait ∧
    s.queue.worker = some 0 ∧ s.connsetMutex .tcp = some (.conn 0) ∧ s.conn 0 = .calling ∧
    NoDeadlock s := by
  obtain ⟨s, hs, htest⟩ := handOver.exists_reachable_of_run
    (handedOver .tcp 0 ++ addWorker 0 ++ toJoin)
    (fun s => s.queue.deleter = .wait ∧ s.queue.worker = some 0 ∧
      s.connsetMutex .tcp = some (.conn 0) ∧ s.conn 0 = .calling) (by decide)
  obtain ⟨hpc, hworker, hmutex, hconn⟩ := of_decide_eq_true htest
  exact ⟨s, hs, hpc, hworker, hmutex, hconn, noDeadlock_of_reachable hs⟩

/-- Before `main` comes to `td.run()`, a connection that is over waits for the deleter's thread
to exist. -/
theorem handed_before_start : ∃ s, handOver.Reachable s ∧ (s.conn 0).Left ∧
    0 ∉ s.queue.deleted ∧ s.queue.stop = .notCalled ∧ ¬ s.CanGo := by
  obtain ⟨s, hs, hdeleter, hdeleted, hstop, hconn, haccept⟩ : ∃ s, handOver.Reachable s ∧
      s.queue.deleter = .notStarted ∧ s.queue.deleted = [] ∧ s.queue.stop = .notCalled ∧
      (∀ i, s.conn i = if i = 0 then .finished else .notStarted) ∧ ∀ k, s.accept k = .accept := by
    refine ⟨_, .of_run .init (handedOver .tcp 0 ++ addWorker 0 ++ [.unlockErased 0 .tcp]) rfl,
      rfl, rfl, rfl, fun i => ?_, fun k => ?_⟩
    · by_cases hi : i = 0
      · subst hi
        rfl
      · simp [hi, handOver, initial]
    · cases k <;> rfl
  have hidle : ∀ i, s.queue.adder i = .idle := by
    intro i
    by_contra h
    have hcalling := (handOverInv_of_reachable hs).calling i h
    rw [hconn] at hcalling
    split_ifs at hcalling
  have hconn' : ∀ i, s.conn i = .finished ∨ s.conn i = .notStarted := by
    intro i
    rw [hconn]
    split_ifs <;> simp
  refine ⟨s, hs, ?_, ?_, hstop, ?_⟩
  · rw [hconn, if_pos rfl]
    trivial
  · simp [hdeleted]
  · rintro ⟨a, s', ha, hn⟩
    cases a with
    | lockToInsert k | insert k | unlockInserted k =>
      simp only [next, haccept] at hn
      cases hn
    | lockToErase i k | unlockErased i k | erase i | deleteWorker i =>
      obtain ⟨hpc, -⟩ := of_guard hn
      rcases hconn' i with h | h <;> simp [h] at hpc
    | queue a =>
      obtain ⟨-, hmap⟩ := of_guard hn
      obtain ⟨q, hq, -⟩ := Option.map_eq_some_iff.mp hmap
      cases a with
      | lockAdd i | add i | unlockAdd i =>
        simp only [ThreadDeleter.next, hidle] at hq
        cases hq
      | acquire | test | take | recheck | release | wait | delete =>
        simp [ThreadDeleter.next, hdeleter, DeleterPc.acquired, DeleterPc.released] at hq
      | _ => cases ha
    | _ => cases ha

end Mbtest.ThreadDeleter.HandOver
