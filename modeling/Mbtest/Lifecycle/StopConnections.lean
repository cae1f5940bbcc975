import Mbtest.Lifecycle.Handlers

/-! The iteration of `stopConnections`, which does not take `connsetMutex`, against the
erasures by ending connections and the insertions by the accepting thread. -/
namespace Mbtest.Lifecycle
open Lib

def StopPc.current : StopPc → Option Element
  | .callStop e | .closeSocket e | .cancelConn e | .advance e => some e
  | _ => none

/-- An address that the iteration still comes to, if it is in the set. -/
def StopPc.Ahead (b : ℕ) : StopPc → Prop
  | .notCalled | .closeListener | .cancelIo | .first => True
  | .callStop e => e.addr ≤ b
  | .closeSocket e | .cancelConn e | .advance e => e.addr < b
  | .clear | .returned => False

instance (b : ℕ) (pc : StopPc) : Decidable (pc.Ahead b) :=
  match pc with
  | .notCalled | .closeListener | .cancelIo | .first => .isTrue trivial
  | .callStop e => inferInstanceAs (Decidable (e.addr ≤ b))
  | .closeSocket e | .cancelConn e | .advance e => inferInstanceAs (Decidable (e.addr < b))
  | .clear | .returned => .isFalse id

/-- No connection erases itself while an iteration of its server stands at it, and no `clear`
empties a set in which another handler's iteration stands. -/
def ErasesAside (s : State) : Action → Prop
  | .erase i c =>
    ∀ n < s.interrupts, (s.stop ⟨n, c.server⟩).current ≠ some ⟨c.addr, some i⟩
  | .clear c =>
    ∀ n < s.interrupts, n ≠ c.number → (s.stop ⟨n, c.server⟩).current = none
  | _ => True

instance (s : State) (a : Action) : Decidable (ErasesAside s a) :=
  match a with
  | .erase i c => inferInstanceAs (Decidable
      (∀ n < s.interrupts, (s.stop ⟨n, c.server⟩).current ≠ some ⟨c.addr, some i⟩))
  | .clear c => inferInstanceAs (Decidable
      (∀ n < s.interrupts, n ≠ c.number → (s.stop ⟨n, c.server⟩).current = none))
  | .main | .interrupt _ | .clearRunning _ | .closeListener _ | .cancelIo _ | .first _
  | .callStop _ _ _ | .closeSocket _ _ _ | .cancelConn _ _ _ | .advance _ _ _ | .startup _ _
  | .test _ | .accepted _ _ _ | .acceptFailed _ | .lockToInsert _ _ | .insert _ _ _
  | .unlockInserted _ _ | .setRunning _ _ | .startThread _ _ | .storeHandle _ _ | .testRunning _
  | .again _ | .leave _ | .lockToErase _ _ | .deleteWorker _ _ | .unlockErased _ _
  | .testCompleted | .take _ | .takeCompleted | .join _ _ | .delete _ _ | .fault _ _ _ _ => .isTrue trivial

/-- A connection is inserted only where every iteration of its server still comes to it. -/
def InsertsAhead (s : State) : Action → Prop
  | .insert k _ a => ∀ n < s.interrupts, (s.stop ⟨n, k⟩).Ahead a
  | _ => True

instance (s : State) (a : Action) : Decidable (InsertsAhead s a) :=
  match a with
  | .insert k _ a => inferInstanceAs (Decidable (∀ n < s.interrupts, (s.stop ⟨n, k⟩).Ahead a))
  | .main | .interrupt _ | .clearRunning _ | .closeListener _ | .cancelIo _ | .first _
  | .callStop _ _ _ | .closeSocket _ _ _ | .cancelConn _ _ _ | .advance _ _ _ | .clear _
  | .startup _ _ | .test _ | .accepted _ _ _ | .acceptFailed _ | .lockToInsert _ _
  | .unlockInserted _ _ | .setRunning _ _ | .startThread _ _ | .storeHandle _ _ | .testRunning _
  | .again _ | .leave _ | .lockToErase _ _ | .erase _ _ | .deleteWorker _ _ | .unlockErased _ _
  | .testCompleted | .take _ | .takeCompleted | .join _ _ | .delete _ _ | .fault _ _ _ _ => .isTrue trivial

theorem StopPc.current_of_calling {pc : StopPc} {e : Element} (h : pc.calling = some e) :
    pc.current = some e := by
  cases pc <;> first | exact h | cases h

theorem StopPc.current_of_leaving {pc : StopPc} {e : Element} (h : pc.leaving = some e) :
    pc.current = some e := by
  cases pc <;> first | exact h | cases h

/-- An iteration stands at a living connection in the set. -/
def IterationInv (s : State) : Prop :=
  ∀ c e, (s.stop c).current = some e → e.addr ∈ s.connections c.server ∧ s.living e

variable {s s' : State}

theorem Owned.living_of_mem (hs : Owned s) {k : Server} {a : ℕ} (ha : a ∈ s.connections k) :
    s.living ⟨a, s.heap a⟩ := by
  obtain ⟨i, hi, hbefore⟩ := hs.connections k a ha
  have hheap : s.heap a = some i := hs.alive_of_beforeErase hi hbefore
  exact ⟨by simp [hheap], rfl⟩

/-- The connection at which an iteration stands has not erased itself. -/
theorem IterationInv.conn (hs : IterationInv s) (howned : Owned s) {c : Call} {e : Element} {i : ℕ}
    (he : (s.stop c).current = some e) (hi : e.conn = some i) :
    s.conn i = some ⟨c.server, e.addr⟩ ∧ (s.thread i).BeforeErase := by
  obtain ⟨hmem, -, hheap⟩ := hs c e he
  obtain ⟨j, hj, hbefore⟩ := howned.connections c.server e.addr hmem
  cases (howned.alive_of_beforeErase hj hbefore).symm.trans (hheap.trans hi)
  exact ⟨hj, hbefore⟩

theorem stopAt_current (howned : Owned s) {k : Server} {ahead : Finset ℕ}
    (hahead : ahead ⊆ s.connections k) {e : Element}
    (h : (stopAt s.heap ahead).current = some e) : e.addr ∈ s.connections k ∧ s.living e := by
  rcases stopAt_cases s.heap ahead with ⟨hclear, -⟩ | ⟨a, ha, hcall, -⟩
  · rw [hclear] at h; cases h
  · rw [hcall] at h
    cases h
    exact ⟨hahead ha, howned.living_of_mem (hahead ha)⟩

theorem IterationInv.setStop (hs : IterationInv s) (c : Call) {pc : StopPc}
    (hpc : ∀ e, pc.current = some e → e.addr ∈ s.connections c.server ∧ s.living e) :
    IterationInv { s with stop := Function.update s.stop c pc } := by
  intro d e he
  by_cases hdc : d = c
  · subst hdc; exact hpc e (by simpa using he)
  · exact hs d e (by simpa [Function.update_of_ne hdc] using he)

theorem IterationInv.moveStop (hs : IterationInv s) (c : Call) {pc : StopPc}
    (hpc : pc.current = (s.stop c).current) :
    IterationInv { s with stop := Function.update s.stop c pc } :=
  hs.setStop c fun e he => hs c e (hpc ▸ he)

theorem IterationInv.setConnections (hs : IterationInv s) (k : Server) (rest : Finset ℕ)
    (hrest : ∀ n e, (s.stop ⟨n, k⟩).current = some e → e.addr ∈ rest) :
    IterationInv { s with connections := Function.update s.connections k rest } := by
  intro c e he
  refine ⟨?_, (hs c e he).2⟩
  by_cases hck : c.server = k
  · subst hck; simpa using hrest c.number e he
  · simpa [Function.update_of_ne hck] using (hs c e he).1

theorem IterationInv.accepted (hs : IterationInv s) {a : ℕ} (i : ℕ) (ha : s.heap a = none) :
    IterationInv { s with heap := Function.update s.heap a (some i) } := by
  intro c e he
  obtain ⟨hmem, hconn, hheap⟩ := hs c e he
  have hne : e.addr ≠ a := by
    intro h
    rw [h, ha] at hheap
    exact hconn hheap.symm
  exact ⟨hmem, hconn, (Function.update_of_ne hne _ _).trans hheap⟩

theorem IterationInv.delete (hs : IterationInv s) (howned : Owned s) {a : ℕ}
    (hd : s.deleter = .delete a) :
    IterationInv { s with heap := Function.update s.heap a none } := by
  intro c e he
  obtain ⟨hmem, hconn, hheap⟩ := hs c e he
  have hne : e.addr ≠ a := by
    rintro rfl
    obtain ⟨i, hi, hhanded⟩ := howned.pending e.addr (by simp [State.pending, hd])
    obtain ⟨j, hj, hbefore⟩ := howned.connections c.server e.addr hmem
    cases hi.symm.trans (howned.alive_of_beforeErase hj hbefore)
    exact hbefore.not_handedOver hhanded
  exact ⟨hmem, hconn, (Function.update_of_ne hne _ _).trans hheap⟩

theorem iteration_step (hs : IterationInv s) (howned : Owned s) (hhandler : HandlerInv s)
    {act : Action} (haside : ErasesAside s act) (hn : step s act = some s') :
    IterationInv s' := by
  cases act with
  | main => rw [mainNext_frame howned hn]; exact hs
  | clearRunning c => obtain ⟨-, ⟨⟩⟩ := of_guard hn; exact hs.setStop c nofun
  | closeListener c => obtain ⟨-, ⟨⟩⟩ := of_guard hn; exact hs.setStop c nofun
  | cancelIo c => obtain ⟨-, ⟨⟩⟩ := of_guard hn; exact hs.setStop c nofun
  | first c =>
    obtain ⟨-, ⟨⟩⟩ := of_guard hn
    exact hs.setStop c fun _ => stopAt_current howned (Finset.Subset.refl _)
  | callStop c a i => obtain ⟨⟨hc, -⟩, ⟨⟩⟩ := of_guard hn; exact hs.moveStop c (by rw [hc]; rfl)
  | closeSocket c a i => obtain ⟨⟨hc, -⟩, ⟨⟩⟩ := of_guard hn; exact hs.moveStop c (by rw [hc]; rfl)
  | cancelConn c a i => obtain ⟨⟨hc, -⟩, ⟨⟩⟩ := of_guard hn; exact hs.moveStop c (by rw [hc]; rfl)
  | advance c a i =>
    obtain ⟨-, ⟨⟩⟩ := of_guard hn
    exact hs.setStop c fun _ => stopAt_current howned (Finset.filter_subset _ _)
  | clear c =>
    obtain ⟨hc, ⟨⟩⟩ := of_guard hn
    have hcleared := hs.setConnections c.server ∅ fun n e he => by
      have hnumber : n ≠ c.number := by rintro rfl; rw [hc] at he; cases he
      have hlt : n < s.interrupts := by
        by_contra hle
        rw [(hhandler.fresh n (Nat.le_of_not_lt hle)).2] at he
        cases he
      rw [haside n hlt hnumber] at he
      cases he
    exact hcleared.setStop c nofun
  | accepted k i a => obtain ⟨⟨-, -, ha⟩, ⟨⟩⟩ := of_guard hn; exact hs.accepted i ha
  | insert k i a =>
    obtain ⟨-, ⟨⟩⟩ := of_guard hn
    exact hs.setConnections k _ fun n e he => Finset.mem_insert_of_mem (hs ⟨n, k⟩ e he).1
  | erase i c =>
    obtain ⟨⟨hthread, hi⟩, ⟨⟩⟩ := of_guard hn
    refine hs.setConnections c.server _ fun n e he => Finset.mem_erase.mpr ⟨?_, (hs _ e he).1⟩
    intro haddr
    have hheap := howned.alive_of_beforeErase hi (by rw [hthread]; trivial)
    have hconn := (hs _ e he).2.2
    rw [haddr, hheap] at hconn
    have helem : e = ⟨c.addr, some i⟩ := by
      cases e
      cases haddr
      cases hconn
      rfl
    have hnot := hhandler.forall_calls (p := fun pc => pc.current ≠ some ⟨c.addr, some i⟩)
      nofun haside n
    exact hnot (helem ▸ he)
  | startThread k i => obtain ⟨-, ⟨⟩⟩ := of_guard hn; exact hs
  | join a i =>
    obtain ⟨-, hwait⟩ := of_guard hn
    rw [wait_frame hwait]
    exact hs
  | delete a i => obtain ⟨⟨hd, -⟩, ⟨⟩⟩ := of_guard hn; exact hs.delete howned hd
  | _ => obtain ⟨-, ⟨⟩⟩ := of_guard hn; exact hs

/-- A fault arises in its situation only. -/
theorem step_fault (howned : Owned s) {act : Action} (hn : step s act = some s') :
    s'.fault = s.fault ∨ ∃ f c a i, s.Faulty c a i f ∧ s'.fault = some f := by
  cases act with
  | main => rw [mainNext_frame howned hn]; exact .inl rfl
  | join a i =>
    obtain ⟨-, hwait⟩ := of_guard hn
    rw [wait_frame hwait]
    exact .inl rfl
  | fault f c a i =>
    obtain ⟨hfaulty, ⟨⟩⟩ := of_guard hn
    exact .inr ⟨f, c, a, i, hfaulty, rfl⟩
  | _ => obtain ⟨-, ⟨⟩⟩ := of_guard hn; exact .inl rfl

/-- What is behind the element at which an iteration stands. -/
structure IterationSafe (s : State) : Prop where
  alive : ∀ c e, (s.stop c).calling = some e →
    ∃ i, e.conn = some i ∧ s.heap e.addr = some i ∧ s.deletes i = 0
  present : ∀ c e, (s.stop c).leaving = some e → e.addr ∈ s.connections c.server ∧ s.living e
  fault : s.fault ≠ some .stopDeleted ∧ s.fault ≠ some .advanceErased

theorem iterationSafe_of_inv (howned : Owned s) (hiter : IterationInv s)
    (hfault : s.fault ≠ some .stopDeleted ∧ s.fault ≠ some .advanceErased) : IterationSafe s where
  alive c e hc := by
    obtain ⟨-, hconn, hheap⟩ := hiter c e (StopPc.current_of_calling hc)
    obtain ⟨i, hi⟩ := Option.ne_none_iff_exists'.mp hconn
    rw [hi] at hheap
    exact ⟨i, hi, hheap, howned.undeleted e.addr i hheap⟩
  present c e hc := hiter c e (StopPc.current_of_leaving hc)
  fault := hfault

/-- In a run in which no element is erased while an iteration stands at it, `stop` is called on
living connections only and the iteration advances from elements of the set only. -/
theorem iteration_safe (hs : mbserver.ReachableVia ErasesAside s) : IterationSafe s := by
  have hinv : Owned s ∧ HandlerInv s ∧ IterationInv s ∧ IterationSafe s := by
    refine hs.invariant (I := fun s => Owned s ∧ HandlerInv s ∧ IterationInv s ∧ IterationSafe s)
      ?_ ?_
    · have hinit : IterationInv initial := by intro c e h; cases h
      exact ⟨owned_initial, handlerInv_initial, hinit,
        iterationSafe_of_inv owned_initial hinit ⟨nofun, nofun⟩⟩
    · intro s a s' haside hinv hn
      obtain ⟨howned, hhandler, hiter, hsafe⟩ := hinv
      obtain ⟨-, hstep⟩ := of_guard hn
      have howned' := owned_step howned hstep
      have hiter' := iteration_step hiter howned hhandler haside hstep
      refine ⟨howned', handlerInv_step hhandler howned hstep, hiter',
        iterationSafe_of_inv howned' hiter' ?_⟩
      rcases step_fault howned hstep with hsame | ⟨f, c, b, i, hfaulty, hf⟩
      · rw [hsame]; exact hsafe.fault
      · rw [hf]
        constructor
        · rintro ⟨⟩
          obtain ⟨e, he, hdead⟩ := hfaulty
          exact hdead (hiter c e (StopPc.current_of_calling he)).2
        · rintro ⟨⟩
          obtain ⟨e, he, herased⟩ := hfaulty
          exact herased (hsafe.present c e he)
  exact hinv.2.2.2

section Schedules
variable (n : ℕ) (k : Server) (i a : ℕ)

/-- `main` comes to `s1.wait()` and both servers to their first `accept`. -/
def serversRunning : List Action :=
  .replicate 10 .main ++
    [.startup .modbus true, .startup .tcp true, .test .modbus, .test .tcp, .testCompleted]

def connect : List Action :=
  [.accepted k i a, .lockToInsert k i, .insert k i a, .unlockInserted k i, .setRunning k i,
    .startThread k i, .testRunning i, .storeHandle k i, .test k]

def deregister : List Action :=
  [.leave i, .lockToErase i ⟨k, a⟩, .erase i ⟨k, a⟩, .deleteWorker i ⟨k, a⟩, .unlockErased i ⟨k, a⟩]

def deleteConnection : List Action := [.take a, .join a i, .delete a i, .testCompleted]

def beginStop : List Action :=
  [.clearRunning ⟨n, k⟩, .closeListener ⟨n, k⟩, .cancelIo ⟨n, k⟩, .first ⟨n, k⟩]

def stopConn : List Action :=
  [.callStop ⟨n, k⟩ a i, .closeSocket ⟨n, k⟩ a i, .cancelConn ⟨n, k⟩ a i]

def stopIdle : List Action := beginStop n k ++ [.clear ⟨n, k⟩]

end Schedules

theorem iteration_safe_otherDeleted : ∃ s, mbserver.ReachableVia ErasesAside s ∧
    (s.stop ⟨0, .tcp⟩ = .advance ⟨100, some 0⟩ ∧ s.deletes 1 = 1) ∧ IterationSafe s := by
  obtain ⟨s, hs, htest⟩ := TransitionSystem.exists_reachableVia_of_runVia
    mbserver ErasesAside
    (serversRunning ++ connect .tcp 0 100 ++ connect .tcp 1 200 ++ [.interrupt .main] ++
      stopIdle 0 .modbus ++ beginStop 0 .tcp ++ deregister .tcp 1 200 ++
      deleteConnection 1 200 ++ stopConn 0 .tcp 0 100)
    (fun s => decide (s.stop ⟨0, .tcp⟩ = .advance ⟨100, some 0⟩ ∧ s.deletes 1 = 1)) (by decide)
  exact ⟨s, hs, of_decide_eq_true htest, iteration_safe hs⟩

/-- A connection that ends while the iteration stands at it is stopped after its
deletion, or is left from although it has been erased. -/
theorem iteration_unsafe :
    (∃ s, mbserver.Reachable s ∧ s.fault = some .stopDeleted) ∧
    (∃ s, mbserver.Reachable s ∧ s.fault = some .advanceErased) := by
  constructor
  · obtain ⟨s, hs, htest⟩ := TransitionSystem.exists_reachable_of_run mbserver
      (serversRunning ++ connect .tcp 0 100 ++ [.interrupt .main] ++ stopIdle 0 .modbus ++
        beginStop 0 .tcp ++ deregister .tcp 0 100 ++ deleteConnection 0 100 ++
        [.fault .stopDeleted ⟨0, .tcp⟩ 100 0])
      (fun s => decide (s.fault = some .stopDeleted)) (by decide)
    exact ⟨s, hs, of_decide_eq_true htest⟩
  · obtain ⟨s, hs, htest⟩ := TransitionSystem.exists_reachable_of_run mbserver
      (serversRunning ++ connect .tcp 0 100 ++ [.interrupt .main] ++ stopIdle 0 .modbus ++
        beginStop 0 .tcp ++ stopConn 0 .tcp 0 100 ++ deregister .tcp 0 100 ++
        [.fault .advanceErased ⟨0, .tcp⟩ 100 0])
      (fun s => decide (s.fault = some .advanceErased)) (by decide)
    exact ⟨s, hs, of_decide_eq_true htest⟩

/-- A registered connection that has not come to its erasure has had its `stop` called,
or every iteration of its server still comes to it. -/
def Covered (s : State) : Prop :=
  ∀ i ∈ s.registered, ∀ k a, s.conn i = some ⟨k, a⟩ → (s.thread i).BeforeErase →
    0 < s.stops i ∨ a ∈ s.connections k ∧ ∀ n, (s.stop ⟨n, k⟩).Ahead a

theorem Covered.setStop (hs : Covered s) (c : Call) {pc : StopPc}
    (hpc : ∀ a ∈ s.connections c.server, (s.stop c).Ahead a → pc.Ahead a) :
    Covered { s with stop := Function.update s.stop c pc } := by
  intro i hi k a hconn hbefore
  refine (hs i hi k a hconn hbefore).imp_right fun ⟨ha, hahead⟩ => ⟨ha, fun n => ?_⟩
  by_cases hc : (⟨n, k⟩ : Call) = c
  · subst hc; simpa using hpc a ha (hahead n)
  · simpa [Function.update_of_ne hc] using hahead n

theorem Covered.setThread (hs : Covered s) (i : ℕ) {pc : ConnPc}
    (hpc : pc.BeforeErase → (s.thread i).BeforeErase) :
    Covered { s with thread := Function.update s.thread i pc } := by
  intro j hj k a hconn hbefore
  refine hs j hj k a hconn ?_
  by_cases hji : j = i
  · subst hji; exact hpc (by simpa using hbefore)
  · simpa [Function.update_of_ne hji] using hbefore

theorem Covered.callStop (hs : Covered s) (howned : Owned s) {c : Call} {a i : ℕ}
    (hc : s.stop c = .callStop ⟨a, some i⟩) (ha : s.heap a = some i) :
    Covered { s with
      stops := Function.update s.stops i (s.stops i + 1)
      stop := Function.update s.stop c (.closeSocket ⟨a, some i⟩) } := by
  intro j hj l b hconn hbefore
  by_cases hji : j = i
  · subst hji; exact .inl (by simp)
  have hstops : Function.update s.stops i (s.stops i + 1) j = s.stops j :=
    Function.update_of_ne hji _ _
  refine (hs j hj l b hconn hbefore).imp (fun h => h.trans_eq hstops.symm)
    fun ⟨hb, hahead⟩ => ⟨hb, fun n => ?_⟩
  by_cases hl : (⟨n, l⟩ : Call) = c
  · subst hl
    have hle := hahead n
    rw [hc] at hle
    have hba : b ≠ a := by
      rintro rfl
      exact hji (Option.some.inj ((howned.alive_of_beforeErase hconn hbefore).symm.trans ha))
    simpa [StopPc.Ahead] using lt_of_le_of_ne hle hba.symm
  · simpa [Function.update_of_ne hl] using hahead n

/-- What is cleared has been stopped. -/
theorem Covered.clear (hs : Covered s) {c : Call} (hc : s.stop c = .clear) :
    Covered { s with
      connections := Function.update s.connections c.server ∅
      stop := Function.update s.stop c .returned } := by
  intro i hi k a hconn hbefore
  refine (hs i hi k a hconn hbefore).imp_right fun ⟨ha, hahead⟩ => ?_
  have hk : k ≠ c.server := by
    rintro rfl
    have hfalse := hahead c.number
    rw [hc] at hfalse
    exact hfalse
  refine ⟨by simpa [Function.update_of_ne hk] using ha, fun n => ?_⟩
  have hne : (⟨n, k⟩ : Call) ≠ c := by rintro rfl; exact hk rfl
  simpa [Function.update_of_ne hne] using hahead n

theorem Covered.accepted (hs : Covered s) (howned : Owned s) {k : Server} {i a : ℕ}
    (hi : s.conn i = none) :
    Covered { s with conn := Function.update s.conn i (some ⟨k, a⟩) } := by
  intro j hj l b hconn hbefore
  have hji : j ≠ i := by
    rintro rfl
    obtain ⟨c, hc⟩ := howned.registered j hj
    rw [hi] at hc; cases hc
  exact hs j hj l b (by simpa [Function.update_of_ne hji] using hconn) hbefore

theorem Covered.insert (hs : Covered s) {k : Server} {i a : ℕ} (hi : s.conn i = some ⟨k, a⟩)
    (hahead : ∀ n, (s.stop ⟨n, k⟩).Ahead a) :
    Covered { s with
      connections := Function.update s.connections k (insert a (s.connections k))
      registered := insert i s.registered } := by
  intro j hj l b hconn hbefore
  rcases Finset.mem_insert.mp hj with rfl | hj
  · cases Option.some.inj (hi.symm.trans hconn)
    exact .inr ⟨by simp, hahead⟩
  · refine (hs j hj l b hconn hbefore).imp_right fun ⟨hb, hbahead⟩ => ⟨?_, hbahead⟩
    by_cases hlk : l = k
    · subst hlk; simp [hb]
    · simpa [Function.update_of_ne hlk] using hb

theorem Covered.erase (hs : Covered s) (howned : Owned s) {i : ℕ} {c : Connection}
    (hi : s.conn i = some c) (hthread : s.thread i = .erase) :
    Covered { s with
      connections := Function.update s.connections c.server ((s.connections c.server).erase c.addr)
      thread := Function.update s.thread i .deleteWorker } := by
  intro j hj k a hconn hbefore
  have hji : j ≠ i := by rintro rfl; simp [ConnPc.BeforeErase] at hbefore
  replace hbefore : (s.thread j).BeforeErase := by
    simpa [Function.update_of_ne hji] using hbefore
  refine (hs j hj k a hconn hbefore).imp_right fun ⟨ha, hahead⟩ => ⟨?_, hahead⟩
  by_cases hkc : k = c.server
  · subst hkc
    -- two living connections have different addresses
    have hac : a ≠ c.addr := by
      rintro rfl
      have hheap := howned.alive_of_beforeErase hi (by rw [hthread]; trivial)
      exact hji (Option.some.inj ((howned.alive_of_beforeErase hconn hbefore).symm.trans hheap))
    simpa using ⟨hac, ha⟩
  · simpa [Function.update_of_ne hkc] using ha

/-- The iteration comes to the least of the elements ahead. -/
theorem ahead_stopAt (heap : ℕ → Option ℕ) {ahead : Finset ℕ} {b : ℕ} (hb : b ∈ ahead) :
    (stopAt heap ahead).Ahead b := by
  rcases stopAt_cases heap ahead with ⟨-, hempty⟩ | ⟨m, -, hm, hmin⟩
  · rw [hempty] at hb; simp at hb
  · rw [hm]; exact hmin b hb

theorem covered_step (hs : Covered s) (howned : Owned s) (hhandler : HandlerInv s) {act : Action}
    (hahead : InsertsAhead s act) (hn : step s act = some s') : Covered s' := by
  cases act with
  | main => rw [mainNext_frame howned hn]; exact hs
  | clearRunning c => obtain ⟨-, ⟨⟩⟩ := of_guard hn; exact hs.setStop c fun _ _ _ => trivial
  | closeListener c => obtain ⟨-, ⟨⟩⟩ := of_guard hn; exact hs.setStop c fun _ _ _ => trivial
  | cancelIo c => obtain ⟨-, ⟨⟩⟩ := of_guard hn; exact hs.setStop c fun _ _ _ => trivial
  | first c => obtain ⟨-, ⟨⟩⟩ := of_guard hn; exact hs.setStop c fun _ hb _ => ahead_stopAt _ hb
  | callStop c a i =>
    obtain ⟨⟨hc, ha⟩, ⟨⟩⟩ := of_guard hn
    exact hs.callStop howned hc ha
  | closeSocket c a i =>
    obtain ⟨⟨hc, -⟩, ⟨⟩⟩ := of_guard hn
    exact hs.setStop c fun b _ hb => by rw [hc] at hb; exact hb
  | cancelConn c a i =>
    obtain ⟨⟨hc, -⟩, ⟨⟩⟩ := of_guard hn
    exact hs.setStop c fun b _ hb => by rw [hc] at hb; exact hb
  | advance c a i =>
    obtain ⟨⟨hc, -⟩, ⟨⟩⟩ := of_guard hn
    refine hs.setStop c fun b hb hba => ahead_stopAt _ (Finset.mem_filter.mpr ⟨hb, ?_⟩)
    rw [hc] at hba
    exact hba
  | clear c => obtain ⟨hc, ⟨⟩⟩ := of_guard hn; exact hs.clear hc
  | accepted k i a => obtain ⟨⟨-, hi, -⟩, ⟨⟩⟩ := of_guard hn; exact hs.accepted howned hi
  | insert k i a =>
    obtain ⟨⟨-, hi⟩, ⟨⟩⟩ := of_guard hn
    exact hs.insert hi (hhandler.forall_calls (p := fun pc => pc.Ahead a) trivial hahead)
  | startThread k i =>
    obtain ⟨hk, ⟨⟩⟩ := of_guard hn
    have hthread := (howned.starting k i (by rw [hk]; rfl)).1
    exact hs.setThread i fun _ => by rw [hthread]; trivial
  | testRunning i =>
    obtain ⟨hi, ⟨⟩⟩ := of_guard hn
    exact hs.setThread i fun _ => by rw [hi]; trivial
  | again i => obtain ⟨hi, ⟨⟩⟩ := of_guard hn; exact hs.setThread i fun _ => by rw [hi]; trivial
  | leave i => obtain ⟨hi, ⟨⟩⟩ := of_guard hn; exact hs.setThread i fun _ => by rw [hi]; trivial
  | lockToErase i c =>
    obtain ⟨⟨hi, -⟩, ⟨⟩⟩ := of_guard hn
    exact hs.setThread i fun _ => by rw [hi]; trivial
  | erase i c => obtain ⟨⟨hthread, hi⟩, ⟨⟩⟩ := of_guard hn; exact hs.erase howned hi hthread
  | deleteWorker i c => obtain ⟨-, ⟨⟩⟩ := of_guard hn; exact hs.setThread i fun h => h.elim
  | unlockErased i c => obtain ⟨-, ⟨⟩⟩ := of_guard hn; exact hs.setThread i fun h => h.elim
  | join a i =>
    obtain ⟨-, hwait⟩ := of_guard hn
    rw [wait_frame hwait]
    exact hs
  | _ => obtain ⟨-, ⟨⟩⟩ := of_guard hn; exact hs

/-- In a run in which connections are inserted only where every iteration of `stop` still
comes to them, a `stop` has left no connection behind when it returns. -/
theorem stopped_of_returned (hs : mbserver.ReachableVia InsertsAhead s) (c : Call)
    (hc : s.stop c = .returned) (i : ℕ) (hi : i ∈ s.registered) (a : ℕ)
    (hconn : s.conn i = some ⟨c.server, a⟩) : ¬ (s.thread i).BeforeErase ∨ 0 < s.stops i := by
  have hinv : Owned s ∧ HandlerInv s ∧ Covered s := by
    refine hs.invariant (I := fun s => Owned s ∧ HandlerInv s ∧ Covered s)
      ⟨owned_initial, handlerInv_initial, ?_⟩ ?_
    · intro i hi; simp [mbserver, initial] at hi
    · intro s a s' hahead hinv hn
      obtain ⟨howned, hhandler, hcovered⟩ := hinv
      obtain ⟨-, hstep⟩ := of_guard hn
      exact ⟨owned_step howned hstep, handlerInv_step hhandler howned hstep,
        covered_step hcovered howned hhandler hahead hstep⟩
  by_cases hbefore : (s.thread i).BeforeErase
  · rcases hinv.2.2 i hi c.server a hconn hbefore with hstops | ⟨-, hahead⟩
    · exact .inr hstops
    · have hfalse := hahead c.number
      rw [hc] at hfalse
      exact hfalse.elim
  · exact .inl hbefore

theorem stopped_of_returned_insertedAhead : ∃ s, mbserver.ReachableVia InsertsAhead s ∧
    (s.stop ⟨0, .tcp⟩ = .returned ∧ 1 ∈ s.registered ∧ s.conn 1 = some ⟨.tcp, 200⟩) ∧
    (¬ (s.thread 1).BeforeErase ∨ 0 < s.stops 1) := by
  obtain ⟨s, hs, htest⟩ := TransitionSystem.exists_reachableVia_of_runVia
    mbserver InsertsAhead
    (serversRunning ++ connect .tcp 0 100 ++ [.interrupt .main] ++ stopIdle 0 .modbus ++
      beginStop 0 .tcp ++ connect .tcp 1 200 ++ stopConn 0 .tcp 0 100 ++
      [.advance ⟨0, .tcp⟩ 100 0] ++ stopConn 0 .tcp 1 200 ++
      [.advance ⟨0, .tcp⟩ 200 1, .clear ⟨0, .tcp⟩])
    (fun s => decide (s.stop ⟨0, .tcp⟩ = .returned ∧ 1 ∈ s.registered ∧
      s.conn 1 = some ⟨.tcp, 200⟩)) (by decide)
  have h := of_decide_eq_true htest
  exact ⟨s, hs, h, stopped_of_returned hs ⟨0, .tcp⟩ h.1 1 h.2.1 200 h.2.2⟩

/-- A connection that is accepted before and registered after `stop` runs on. -/
theorem registered_after_stop : ∃ s, mbserver.Reachable s ∧ s.stop ⟨0, .tcp⟩ = .returned ∧
    s.accept .tcp = .finished ∧ 0 ∈ s.registered ∧ s.conn 0 = some ⟨.tcp, 100⟩ ∧
    s.thread 0 = .loop ∧ s.stops 0 = 0 := by
  obtain ⟨s, hs, htest⟩ := TransitionSystem.exists_reachable_of_run mbserver
    (serversRunning ++ [.accepted .tcp 0 100, .interrupt .main] ++ stopIdle 0 .modbus ++
      stopIdle 0 .tcp ++ (connect .tcp 0 100).tail)
    (fun s => decide (s.stop ⟨0, .tcp⟩ = .returned ∧ s.accept .tcp = .finished ∧
      0 ∈ s.registered ∧ s.conn 0 = some ⟨.tcp, 100⟩ ∧ s.thread 0 = .loop ∧ s.stops 0 = 0))
    (by decide)
  exact ⟨s, hs, of_decide_eq_true htest⟩

end Mbtest.Lifecycle
