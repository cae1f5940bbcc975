import Mbtest.Lifecycle.Step
import Mathlib.Data.List.Nodup

/-! Which pointers to connections are good: those in the sets of the servers until they
are erased, those in the deletion queue until the deleter has deleted them. -/
namespace Mbtest.Lifecycle
open Lib

/-- The connection that an accepting thread has accepted and not yet started. -/
def AcceptPc.starting : AcceptPc → Option ℕ
  | .lock i | .insert i | .unlock i | .setRunning i | .startThread i => some i
  | _ => none

def ConnPc.BeforeErase : ConnPc → Prop
  | .notStarted | .test | .loop | .lock | .erase => True
  | _ => False

/-- A thread that has handed its connection to the deleter. -/
def ConnPc.HandedOver : ConnPc → Prop
  | .unlock | .finished => True
  | _ => False

theorem ConnPc.BeforeErase.not_handedOver {pc : ConnPc} (h : pc.BeforeErase) : ¬ pc.HandedOver := by
  cases pc <;> first | exact h.elim | exact id

structure Owned (s : State) : Prop where
  main : ∀ i, .startThread (.conn i) ∉ s.main
  heap : ∀ a i, s.heap a = some i → ∃ k, s.conn i = some ⟨k, a⟩
  alive : ∀ i c, s.conn i = some c → ¬ (s.thread i).HandedOver → s.heap c.addr = some i
  thread : ∀ i, s.thread i ≠ .notStarted → ∃ c, s.conn i = some c
  connections : ∀ k a, a ∈ s.connections k →
    ∃ i, s.conn i = some ⟨k, a⟩ ∧ (s.thread i).BeforeErase
  starting : ∀ k i, (s.accept k).starting = some i →
    s.thread i = .notStarted ∧ ∃ a, s.conn i = some ⟨k, a⟩
  pending : ∀ a ∈ s.pending, ∃ i, s.heap a = some i ∧ (s.thread i).HandedOver
  nodup : s.pending.Nodup
  registered : ∀ i ∈ s.registered, ∃ c, s.conn i = some c
  undeleted : ∀ a i, s.heap a = some i → s.deletes i = 0
  fresh : ∀ i, s.conn i = none → s.deletes i = 0

variable {s s' : State}

theorem owned_initial : Owned initial where
  main i h := by simp [initial, mainProgram, run] at h
  heap a i h := by cases h
  alive i c h := by cases h
  thread i h := absurd rfl h
  connections k a h := by simp [initial] at h
  starting k i h := by cases h
  pending a h := by cases h
  nodup := List.nodup_nil
  registered i h := by simp [initial] at h
  undeleted a i h := by cases h
  fresh i _ := rfl

theorem Owned.deleting_ne (hs : Owned s) {a b : ℕ} (hd : s.deleter = .delete b)
    (ha : s.heap a = none) : b ≠ a := by
  rintro rfl
  have hmem : b ∈ s.pending := by simp [State.pending, hd]
  obtain ⟨i, hi, -⟩ := hs.pending b hmem
  cases ha.symm.trans hi

/-- An accepting thread moves without letting a connection out of its hands. -/
theorem Owned.setAccept (hs : Owned s) (k : Server) (pc : AcceptPc)
    (hpc : ∀ i, pc.starting = some i → (s.accept k).starting = some i) :
    Owned { s with accept := Function.update s.accept k pc } := by
  refine { hs with starting := fun j i h => ?_ }
  by_cases hj : j = k
  · subst hj
    exact hs.starting j i (hpc i (by simpa using h))
  · exact hs.starting j i (by simpa [Function.update_of_ne hj] using h)

theorem Owned.accepted (hs : Owned s) {k : Server} {i a : ℕ} (hi : s.conn i = none)
    (ha : s.heap a = none) :
    Owned { s with
      conn := Function.update s.conn i (some ⟨k, a⟩)
      heap := Function.update s.heap a (some i)
      accept := Function.update s.accept k (.lock i) } := by
  have hconn : ∀ {j c}, s.conn j = some c →
      Function.update s.conn i (some ⟨k, a⟩) j = some c := by
    intro j c hj
    rw [Function.update_of_ne (by rintro rfl; rw [hi] at hj; cases hj), hj]
  have hheap : ∀ {b j}, s.heap b = some j → Function.update s.heap a (some i) b = some j := by
    intro b j hb
    rw [Function.update_of_ne (by rintro rfl; rw [ha] at hb; cases hb), hb]
  have hthread : s.thread i = .notStarted := by
    by_contra h
    obtain ⟨c, hc⟩ := hs.thread i h
    rw [hi] at hc; cases hc
  refine { hs with
    heap := ?_, alive := ?_, thread := ?_, connections := ?_, starting := ?_, pending := ?_,
    registered := ?_, undeleted := ?_, fresh := ?_ }
  · intro b j hb
    by_cases hba : b = a
    · subst hba
      obtain rfl : i = j := by simpa using hb
      exact ⟨k, by simp⟩
    · obtain ⟨k', hk'⟩ := hs.heap b j (by simpa [Function.update_of_ne hba] using hb)
      exact ⟨k', hconn hk'⟩
  · intro j c hj hthr
    by_cases hji : j = i
    · subst hji
      obtain rfl : (⟨k, a⟩ : Connection) = c := by simpa using hj
      simp
    · exact hheap (hs.alive j c (by simpa [Function.update_of_ne hji] using hj) hthr)
  · intro j hj
    obtain ⟨c, hc⟩ := hs.thread j hj
    exact ⟨c, hconn hc⟩
  · intro j b hb
    obtain ⟨i', hi', hbefore⟩ := hs.connections j b hb
    exact ⟨i', hconn hi', hbefore⟩
  · intro j i' hi'
    by_cases hjk : j = k
    · subst hjk
      obtain rfl : i = i' := by simpa [AcceptPc.starting] using hi'
      exact ⟨hthread, a, by simp⟩
    · obtain ⟨hnot, b, hb⟩ := hs.starting j i' (by simpa [Function.update_of_ne hjk] using hi')
      exact ⟨hnot, b, hconn hb⟩
  · intro b hb
    obtain ⟨j, hj, hhanded⟩ := hs.pending b hb
    exact ⟨j, hheap hj, hhanded⟩
  · intro j hj
    obtain ⟨c, hc⟩ := hs.registered j hj
    exact ⟨c, hconn hc⟩
  · intro b j hb
    by_cases hba : b = a
    · subst hba
      obtain rfl : i = j := by simpa using hb
      exact hs.fresh i hi
    · exact hs.undeleted b j (by simpa [Function.update_of_ne hba] using hb)
  · intro j hj
    refine hs.fresh j (by_contra fun h => ?_)
    obtain ⟨c, hc⟩ := Option.ne_none_iff_exists'.mp h
    cases (hconn hc).symm.trans hj

theorem Owned.insert (hs : Owned s) {k : Server} {i a : ℕ} (hi : s.conn i = some ⟨k, a⟩)
    (hthread : s.thread i = .notStarted) :
    Owned { s with
      connections := Function.update s.connections k (insert a (s.connections k))
      registered := insert i s.registered } := by
  refine { hs with connections := fun j b hb => ?_, registered := fun j hj => ?_ }
  · by_cases hjk : j = k
    · subst hjk
      rcases Finset.mem_insert.mp (by simpa using hb) with rfl | hb
      · exact ⟨i, hi, by rw [hthread]; trivial⟩
      · exact hs.connections j b hb
    · exact hs.connections j b (by simpa [Function.update_of_ne hjk] using hb)
  · rcases Finset.mem_insert.mp hj with rfl | hj
    · exact ⟨_, hi⟩
    · exact hs.registered j hj

theorem Owned.shrink (hs : Owned s) {k : Server} {rest : Finset ℕ} (hrest : rest ⊆ s.connections k) :
    Owned { s with connections := Function.update s.connections k rest } := by
  refine { hs with connections := fun j b hb => ?_ }
  by_cases hjk : j = k
  · subst hjk
    exact hs.connections j b (hrest (by simpa using hb))
  · exact hs.connections j b (by simpa [Function.update_of_ne hjk] using hb)

/-- The thread of a connection moves on; a thread that is past the erasure has its address
no longer in the set. -/
theorem Owned.setThread (hs : Owned s) {i : ℕ} {c : Connection} (pc : ConnPc)
    (hi : s.conn i = some c) (hstarting : ∀ k, (s.accept k).starting ≠ some i)
    (hset : c.addr ∈ s.connections c.server → (s.thread i).BeforeErase → pc.BeforeErase)
    (hhanded : (s.thread i).HandedOver → pc.HandedOver) :
    Owned { s with thread := Function.update s.thread i pc } := by
  refine { hs with alive := ?_, thread := ?_, connections := ?_, starting := ?_, pending := ?_ }
  · intro j d hj hthr
    refine hs.alive j d hj fun h => hthr ?_
    by_cases hji : j = i
    · subst hji; simpa using hhanded h
    · simpa [Function.update_of_ne hji] using h
  · intro j hj
    by_cases hji : j = i
    · subst hji; exact ⟨c, hi⟩
    · exact hs.thread j (by simpa [Function.update_of_ne hji] using hj)
  · intro k b hb
    obtain ⟨j, hj, hbefore⟩ := hs.connections k b hb
    refine ⟨j, hj, ?_⟩
    by_cases hji : j = i
    · subst hji
      cases Option.some.inj (hi.symm.trans hj)
      simpa using hset hb hbefore
    · simpa [Function.update_of_ne hji] using hbefore
  · intro k j hj
    obtain ⟨hnot, b, hb⟩ := hs.starting k j hj
    have hji : j ≠ i := fun h => hstarting k (h ▸ hj)
    exact ⟨by simpa [Function.update_of_ne hji] using hnot, b, hb⟩
  · intro b hb
    obtain ⟨j, hj, hthr⟩ := hs.pending b hb
    refine ⟨j, hj, ?_⟩
    by_cases hji : j = i
    · subst hji; simpa using hhanded hthr
    · simpa [Function.update_of_ne hji] using hthr

theorem pending_append (s : State) (a : ℕ) :
    State.pending { s with threads := s.threads ++ [a] } = s.pending ++ [a] := by
  unfold State.pending
  cases s.deleter <;> rfl

theorem Owned.enqueue (hs : Owned s) {i a : ℕ} (ha : s.heap a = some i)
    (hthread : (s.thread i).HandedOver) (hnew : a ∉ s.pending) :
    Owned { s with threads := s.threads ++ [a] } := by
  refine { hs with pending := ?_, nodup := ?_ }
  · intro b hb
    rw [pending_append] at hb
    rcases List.mem_append.mp hb with hb | hb
    · exact hs.pending b hb
    · rw [List.mem_singleton.mp hb]
      exact ⟨i, ha, hthread⟩
  · rw [pending_append]
    exact hs.nodup.append (List.nodup_singleton a) (by simpa using hnew)

theorem Owned.setDeleter (hs : Owned s) (pc : DeleterPc) (threads : List ℕ)
    (hpending : (State.pending { s with deleter := pc, threads := threads }).Sublist s.pending) :
    Owned { s with deleter := pc, threads := threads } :=
  { hs with
    pending := fun b hb => hs.pending b (hpending.subset hb)
    nodup := hs.nodup.sublist hpending }

theorem Owned.delete (hs : Owned s) {i a : ℕ} (hdeleter : s.deleter = .delete a)
    (ha : s.heap a = some i) :
    Owned { s with
      heap := Function.update s.heap a none
      deletes := Function.update s.deletes i (s.deletes i + 1)
      deleter := .test } := by
  have hpending : s.pending = a :: s.threads := by simp [State.pending, hdeleter]
  have hnodup := hs.nodup
  rw [hpending] at hnodup
  obtain ⟨hnew, hrest⟩ := List.nodup_cons.mp hnodup
  obtain ⟨k, hconn⟩ := hs.heap a i ha
  refine { hs with
    heap := ?_, alive := ?_, pending := ?_, nodup := hrest, undeleted := ?_, fresh := ?_ }
  · intro b j hb
    by_cases hba : b = a
    · subst hba; simp at hb
    · exact hs.heap b j (by simpa [Function.update_of_ne hba] using hb)
  · intro j c hj hthr
    have hc := hs.alive j c hj hthr
    have hca : c.addr ≠ a := by
      rintro rfl
      obtain ⟨j', hj', hhanded⟩ := hs.pending c.addr (by rw [hpending]; exact List.mem_cons_self)
      obtain rfl := Option.some.inj (hc.symm.trans hj')
      exact hthr hhanded
    exact (Function.update_of_ne hca _ _).trans hc
  · intro b hb
    have hba : b ≠ a := by rintro rfl; exact hnew hb
    obtain ⟨j, hj, hhanded⟩ := hs.pending b (by rw [hpending]; exact List.mem_cons_of_mem a hb)
    exact ⟨j, (Function.update_of_ne hba _ _).trans hj, hhanded⟩
  · intro b j hb
    have hba : b ≠ a := by rintro rfl; simp at hb
    replace hb : s.heap b = some j := by simpa [Function.update_of_ne hba] using hb
    have hji : j ≠ i := by
      rintro rfl
      obtain ⟨k', hk'⟩ := hs.heap b j hb
      cases Option.some.inj (hconn.symm.trans hk')
      exact hba rfl
    exact (Function.update_of_ne hji _ _).trans (hs.undeleted b j hb)
  · intro j hj
    have hji : j ≠ i := by
      rintro rfl
      rw [show s.conn j = none from hj] at hconn
      cases hconn
    exact (Function.update_of_ne hji _ _).trans (hs.fresh j hj)

theorem Owned.alive_of_beforeErase (hs : Owned s) {i : ℕ} {c : Connection} (hc : s.conn i = some c)
    (h : (s.thread i).BeforeErase) : s.heap c.addr = some i :=
  hs.alive i c hc h.not_handedOver

theorem Owned.not_starting (hs : Owned s) {i : ℕ} (hi : s.thread i ≠ .notStarted) (k : Server) :
    (s.accept k).starting ≠ some i :=
  fun h => hi (hs.starting k i h).1

theorem Owned.loopThread (hs : Owned s) {i : ℕ} {pc : ConnPc} (hstarted : s.thread i ≠ .notStarted)
    (hpc : pc.BeforeErase) (hnot : ¬ (s.thread i).HandedOver) :
    Owned { s with thread := Function.update s.thread i pc } := by
  obtain ⟨c, hc⟩ := hs.thread i hstarted
  exact hs.setThread pc hc (hs.not_starting hstarted) (fun _ _ => hpc) (fun h => absurd h hnot)

theorem wait_frame {w : WorkerId} (hn : s.wait w = some s') :
    s' = { s with worker := s'.worker } := by
  unfold State.wait at hn
  split_ifs at hn <;> cases Option.some.inj hn <;> rfl

theorem exec_main {stmt : Stmt} (hn : exec s stmt = some s') : s'.main = s.main := by
  cases stmt with
  | wait w => rw [wait_frame hn]
  | startThread w => cases Option.some.inj hn; cases w <;> rfl
  | _ => cases Option.some.inj hn; rfl

/-- `main` executes the first of the statements left. -/
theorem mainNext_cases (hn : mainNext s = some s') : ∃ stmt rest, s.main = stmt :: rest ∧
    exec { s with main := rest } stmt = some s' := by
  unfold mainNext at hn
  split at hn
  · cases hn
  · rename_i stmt rest hmain
    exact ⟨stmt, rest, hmain, hn⟩

/-- What a step of `main` may change. -/
theorem mainNext_frame (hs : Owned s) (hn : mainNext s = some s') :
    s' = { s with
      main := s'.main, worker := s'.worker, accept := s'.accept, deleter := s'.deleter,
      addingCompleted := s'.addingCompleted } := by
  obtain ⟨stmt, rest, hmain, hexec⟩ := mainNext_cases hn
  cases stmt with
  | wait w => rw [wait_frame hexec]
  | startThread w =>
    cases Option.some.inj hexec
    cases w with
    | server k => rfl
    | deleter => rfl
    | conn i => exact absurd (hmain ▸ List.mem_cons_self) (hs.main i)
  | _ => cases Option.some.inj hexec; rfl

theorem exec_accept {stmt : Stmt} (hn : exec s stmt = some s') {k : Server}
    (hstmt : stmt ≠ .startThread (.server k)) : s'.accept k = s.accept k := by
  cases stmt with
  | wait w => rw [wait_frame hn]
  | startThread w =>
    cases Option.some.inj hn
    cases w with
    | server j =>
      have hkj : k ≠ j := by rintro rfl; exact hstmt rfl
      exact Function.update_of_ne hkj _ _
    | deleter => rfl
    | conn i => rfl
  | _ => cases Option.some.inj hn; rfl

theorem mainNext_accept (hn : mainNext s = some s') (k : Server) :
    s'.accept k = s.accept k ∨ s'.accept k = .startup := by
  obtain ⟨stmt, rest, -, hexec⟩ := mainNext_cases hn
  by_cases hstart : stmt = .startThread (.server k)
  · subst hstart
    cases Option.some.inj hexec
    exact .inr (Function.update_self _ _ _)
  · have haccept : s'.accept k = s.accept k := exec_accept hexec hstart
    exact .inl haccept

theorem owned_exec (hs : Owned s) {stmt : Stmt} (hstmt : ∀ i, stmt ≠ .startThread (.conn i))
    (hn : exec s stmt = some s') : Owned s' := by
  cases stmt with
  | sigaction => cases Option.some.inj hn; exact hs
  | setRunning w => cases Option.some.inj hn; exact { hs with }
  | storeHandle w => cases Option.some.inj hn; exact { hs with }
  | clearRunning w => cases Option.some.inj hn; exact { hs with }
  | completeAdding => cases Option.some.inj hn; exact { hs with }
  | wait w => rw [wait_frame hn]; exact { hs with }
  | startThread w =>
    cases Option.some.inj hn
    cases w with
    | server k => exact hs.setAccept k .startup fun i hi => by cases hi
    | deleter => exact hs.setDeleter _ _ (by unfold State.pending; cases s.deleter <;> simp)
    | conn i => exact absurd rfl (hstmt i)

theorem owned_main (hs : Owned s) (hn : mainNext s = some s') : Owned s' := by
  obtain ⟨stmt, rest, hmain, hexec⟩ := mainNext_cases hn
  have hrest : Owned { s with main := rest } :=
    { hs with main := fun i hi => hs.main i (by rw [hmain]; exact List.mem_cons_of_mem _ hi) }
  refine owned_exec hrest (fun i hi => hs.main i ?_) hexec
  rw [hmain, hi]
  exact List.mem_cons_self

theorem owned_step (hs : Owned s) {a : Action} (hn : step s a = some s') : Owned s' := by
  cases a with
  | main => exact owned_main hs hn
  | interrupt t => obtain ⟨-, ⟨⟩⟩ := of_guard hn; exact { hs with }
  | clearRunning c => obtain ⟨-, ⟨⟩⟩ := of_guard hn; exact { hs with }
  | closeListener c => obtain ⟨-, ⟨⟩⟩ := of_guard hn; exact { hs with }
  | cancelIo c => obtain ⟨-, ⟨⟩⟩ := of_guard hn; exact { hs with }
  | first c => obtain ⟨-, ⟨⟩⟩ := of_guard hn; exact { hs with }
  | callStop c a i => obtain ⟨-, ⟨⟩⟩ := of_guard hn; exact { hs with }
  | closeSocket c a i => obtain ⟨-, ⟨⟩⟩ := of_guard hn; exact { hs with }
  | cancelConn c a i => obtain ⟨-, ⟨⟩⟩ := of_guard hn; exact { hs with }
  | advance c a i => obtain ⟨-, ⟨⟩⟩ := of_guard hn; exact { hs with }
  | clear c =>
    obtain ⟨-, ⟨⟩⟩ := of_guard hn
    exact { hs.shrink (k := c.server) (Finset.empty_subset _) with }
  | startup k ok =>
    obtain ⟨-, ⟨⟩⟩ := of_guard hn
    exact { hs.setAccept k (if ok then .test else .finished) (fun i hi => by
      cases ok <;> cases hi) with }
  | test k =>
    obtain ⟨-, ⟨⟩⟩ := of_guard hn
    exact hs.setAccept k _ fun i hi => by split at hi <;> cases hi
  | accepted k i a => obtain ⟨⟨-, hi, ha⟩, ⟨⟩⟩ := of_guard hn; exact hs.accepted hi ha
  | acceptFailed k =>
    obtain ⟨-, ⟨⟩⟩ := of_guard hn
    exact hs.setAccept k .test fun i hi => by cases hi
  | lockToInsert k i =>
    obtain ⟨⟨hk, -⟩, ⟨⟩⟩ := of_guard hn
    exact { hs.setAccept k (.insert i) fun j hj => by rw [hk]; exact hj with }
  | insert k i a =>
    obtain ⟨⟨hk, hi⟩, ⟨⟩⟩ := of_guard hn
    have hthread := (hs.starting k i (by rw [hk]; rfl)).1
    exact { (hs.insert hi hthread).setAccept k (.unlock i) fun j hj => by rw [hk]; exact hj with }
  | unlockInserted k i =>
    obtain ⟨hk, ⟨⟩⟩ := of_guard hn
    exact { hs.setAccept k (.setRunning i) fun j hj => by rw [hk]; exact hj with }
  | setRunning k i =>
    obtain ⟨hk, ⟨⟩⟩ := of_guard hn
    exact { hs.setAccept k (.startThread i) fun j hj => by rw [hk]; exact hj with }
  | startThread k i =>
    obtain ⟨hk, ⟨⟩⟩ := of_guard hn
    obtain ⟨hthread, a, hi⟩ := hs.starting k i (by rw [hk]; rfl)
    have haccept := hs.setAccept k (.storeHandle i) fun j hj => by cases hj
    refine haccept.setThread .test hi (fun j hj => ?_) (fun _ _ => trivial)
      (fun h => by rw [hthread] at h; exact h)
    -- the other server would be starting a connection of its own
    by_cases hjk : j = k
    · subst hjk; simp [AcceptPc.starting] at hj
    · obtain ⟨-, b, hb⟩ := hs.starting j i (by simpa [Function.update_of_ne hjk] using hj)
      cases Option.some.inj (hi.symm.trans hb)
      exact hjk rfl
  | storeHandle k i =>
    obtain ⟨-, ⟨⟩⟩ := of_guard hn
    exact { hs.setAccept k .test (fun j hj => by cases hj) with }
  | testRunning i =>
    obtain ⟨hthread, ⟨⟩⟩ := of_guard hn
    exact hs.loopThread (by rw [hthread]; nofun) (by split_ifs <;> trivial)
      (by rw [hthread]; exact id)
  | again i =>
    obtain ⟨hthread, ⟨⟩⟩ := of_guard hn
    exact hs.loopThread (by rw [hthread]; nofun) trivial (by rw [hthread]; exact id)
  | leave i =>
    obtain ⟨hthread, ⟨⟩⟩ := of_guard hn
    exact hs.loopThread (by rw [hthread]; nofun) trivial (by rw [hthread]; exact id)
  | lockToErase i c =>
    obtain ⟨⟨hthread, hc, -⟩, ⟨⟩⟩ := of_guard hn
    exact { hs.setThread .erase hc (hs.not_starting (by rw [hthread]; nofun)) (fun _ _ => trivial)
      (fun h => by rw [hthread] at h; exact h) with }
  | erase i c =>
    obtain ⟨⟨hthread, hc⟩, ⟨⟩⟩ := of_guard hn
    exact (hs.shrink (Finset.erase_subset c.addr _)).setThread .deleteWorker hc
      (hs.not_starting (by rw [hthread]; nofun)) (fun h => by simp at h)
      (fun h => by rw [hthread] at h; exact h.elim)
  | deleteWorker i c =>
    obtain ⟨⟨hthread, hc⟩, ⟨⟩⟩ := of_guard hn
    have hheap := hs.alive i c hc (by rw [hthread]; exact id)
    have hmoved := hs.setThread .unlock hc (hs.not_starting (by rw [hthread]; nofun))
      (fun _ h => by rw [hthread] at h; exact h.elim) (fun _ => trivial)
    cases hcompleted : s.addingCompleted with
    | true => exact { hmoved with }
    | false =>
      refine { hmoved.enqueue hheap (by simp [ConnPc.HandedOver]) fun hpending => ?_ with }
      -- a pending address belongs to a connection that has handed itself over
      obtain ⟨j, hj, hhanded⟩ := hs.pending c.addr hpending
      cases Option.some.inj (hheap.symm.trans hj)
      rw [hthread] at hhanded
      exact hhanded
  | unlockErased i c =>
    obtain ⟨⟨hthread, hc⟩, ⟨⟩⟩ := of_guard hn
    exact { hs.setThread .finished hc (hs.not_starting (by rw [hthread]; nofun))
      (fun _ h => by rw [hthread] at h; exact h.elim) (fun _ => trivial) with }
  | testCompleted =>
    obtain ⟨hd, ⟨⟩⟩ := of_guard hn
    exact hs.setDeleter _ _ (by unfold State.pending; simp only [hd]; split_ifs <;> simp)
  | take a =>
    obtain ⟨⟨hd, hhead⟩, ⟨⟩⟩ := of_guard hn
    obtain ⟨rest, hthreads⟩ := List.head?_eq_some_iff.mp hhead
    exact hs.setDeleter _ _ (by simp [State.pending, hd, hthreads])
  | takeCompleted =>
    obtain ⟨⟨hd, -⟩, ⟨⟩⟩ := of_guard hn
    exact hs.setDeleter _ _ (by simp [State.pending, hd])
  | join a i =>
    obtain ⟨⟨hd, -⟩, hwait⟩ := of_guard hn
    rw [wait_frame hwait]
    exact { hs.setDeleter (.delete a) s.threads
      (by simp [State.pending, hd]) with }
  | delete a i =>
    obtain ⟨⟨hd, ha, -⟩, ⟨⟩⟩ := of_guard hn
    exact { hs.delete hd ha with }
  | fault f c a i => obtain ⟨-, ⟨⟩⟩ := of_guard hn; exact { hs with }

end Mbtest.Lifecycle
