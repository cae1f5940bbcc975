import Mbtest.Lifecycle.StopConnections
import Mbtest.Lifecycle.History

/-! What is in the set of a server that has not been stopped: the connections registered
and not yet deregistered. Erasure and hand-over are one section under `connsetMutex`. -/
namespace Mbtest.Lifecycle
open Lib

/-- An accepting thread inside `registerConnection`, with the mutex. -/
def AcceptPc.InSection : AcceptPc → Prop
  | .insert _ | .unlock _ => True
  | _ => False

/-- The thread of a connection inside `deregisterConnection`, with the mutex. -/
def ConnPc.InSection : ConnPc → Prop
  | .erase | .deleteWorker | .unlock => True
  | _ => False

structure MutexInv (s : State) : Prop where
  accept : ∀ k, (s.accept k).InSection → s.connsetMutex k = some (.server k)
  thread : ∀ i c, s.conn i = some c → (s.thread i).InSection →
    s.connsetMutex c.server = some (.conn i)

variable {s s' : State}

theorem mutexInv_initial : MutexInv initial where
  accept k h := h.elim
  thread i c h := by cases h

theorem MutexInv.setAccept (hs : MutexInv s) (k : Server) (pc : AcceptPc)
    (hpc : pc.InSection → s.connsetMutex k = some (.server k)) :
    MutexInv { s with accept := Function.update s.accept k pc } := by
  refine { hs with accept := fun j hj => ?_ }
  by_cases hjk : j = k
  · subst hjk; exact hpc (by simpa using hj)
  · exact hs.accept j (by simpa [Function.update_of_ne hjk] using hj)

theorem MutexInv.setThread (hs : MutexInv s) (i : ℕ) (pc : ConnPc)
    (hpc : pc.InSection → ∀ c, s.conn i = some c → s.connsetMutex c.server = some (.conn i)) :
    MutexInv { s with thread := Function.update s.thread i pc } := by
  refine { hs with thread := fun j c hj hin => ?_ }
  by_cases hji : j = i
  · subst hji; exact hpc (by simpa using hin) c hj
  · exact hs.thread j c hj (by simpa [Function.update_of_ne hji] using hin)

theorem MutexInv.lock (hs : MutexInv s) {k : Server} (hfree : s.connsetMutex k = none)
    (w : WorkerId) :
    MutexInv { s with connsetMutex := Function.update s.connsetMutex k (some w) } := by
  constructor
  · intro j hj
    have hmutex := hs.accept j hj
    have hjk : j ≠ k := by rintro rfl; rw [hfree] at hmutex; cases hmutex
    exact (Function.update_of_ne hjk _ _).trans hmutex
  · intro i c hi hin
    have hmutex := hs.thread i c hi hin
    have hck : c.server ≠ k := by rintro rfl; rw [hfree] at hmutex; cases hmutex
    exact (Function.update_of_ne hck _ _).trans hmutex

theorem MutexInv.unlock (hs : MutexInv s) {k : Server} {w : WorkerId}
    (hheld : s.connsetMutex k = some w) (haccept : w = .server k → ¬ (s.accept k).InSection)
    (hthread : ∀ i, w = .conn i → ¬ (s.thread i).InSection) :
    MutexInv { s with connsetMutex := Function.update s.connsetMutex k none } := by
  constructor
  · intro j hj
    have hmutex := hs.accept j hj
    have hjk : j ≠ k := by
      rintro rfl
      exact haccept (Option.some.inj (hheld.symm.trans hmutex)) hj
    exact (Function.update_of_ne hjk _ _).trans hmutex
  · intro i c hi hin
    have hmutex := hs.thread i c hi hin
    have hck : c.server ≠ k := by
      rintro rfl
      exact hthread i (Option.some.inj (hheld.symm.trans hmutex)) hin
    exact (Function.update_of_ne hck _ _).trans hmutex

theorem mutexInv_main (hs : MutexInv s) (howned : Owned s) (hn : mainNext s = some s') :
    MutexInv s' := by
  have haccept := mainNext_accept hn
  have hframe := mainNext_frame howned hn
  constructor
  · intro k hk
    rw [hframe]
    rcases haccept k with hsame | hstartup
    · exact hs.accept k (hsame ▸ hk)
    · rw [hstartup] at hk; exact hk.elim
  · rw [hframe]
    exact hs.thread

theorem mutexInv_step (hs : MutexInv s) (howned : Owned s) {act : Action}
    (hn : step s act = some s') : MutexInv s' := by
  cases act with
  | main => exact mutexInv_main hs howned hn
  | startup k ok =>
    obtain ⟨-, ⟨⟩⟩ := of_guard hn
    exact { hs.setAccept k (if ok then .test else .finished) (by cases ok <;> exact False.elim)
      with }
  | test k =>
    obtain ⟨-, ⟨⟩⟩ := of_guard hn
    exact hs.setAccept k _ (by split_ifs <;> exact False.elim)
  | accepted k i a =>
    obtain ⟨⟨-, hi, -⟩, ⟨⟩⟩ := of_guard hn
    refine { hs.setAccept k (.lock i) False.elim with thread := fun j c hj hin => ?_ }
    have hji : j ≠ i := by
      rintro rfl
      obtain ⟨c', hc'⟩ := howned.thread j fun h => by
        rw [show s.thread j = _ from h] at hin
        exact hin
      cases hi.symm.trans hc'
    exact hs.thread j c (by simpa [Function.update_of_ne hji] using hj) hin
  | acceptFailed k => obtain ⟨-, ⟨⟩⟩ := of_guard hn; exact hs.setAccept k .test False.elim
  | lockToInsert k i =>
    obtain ⟨⟨-, hfree⟩, ⟨⟩⟩ := of_guard hn
    exact (hs.lock hfree (.server k)).setAccept k (.insert i) fun _ => by simp
  | insert k i a =>
    obtain ⟨⟨hk, -⟩, ⟨⟩⟩ := of_guard hn
    exact { hs.setAccept k (.unlock i) fun _ => hs.accept k (by rw [hk]; trivial) with }
  | unlockInserted k i =>
    obtain ⟨hk, ⟨⟩⟩ := of_guard hn
    have hheld := hs.accept k (by rw [hk]; trivial)
    exact (hs.setAccept k (.setRunning i) False.elim).unlock hheld
      (fun _ => by simp [AcceptPc.InSection]) (by simp)
  | setRunning k i =>
    obtain ⟨-, ⟨⟩⟩ := of_guard hn
    exact { hs.setAccept k (.startThread i) False.elim with }
  | startThread k i =>
    obtain ⟨-, ⟨⟩⟩ := of_guard hn
    exact (hs.setThread i .test False.elim).setAccept k (.storeHandle i) False.elim
  | storeHandle k i =>
    obtain ⟨-, ⟨⟩⟩ := of_guard hn
    exact { hs.setAccept k .test False.elim with }
  | testRunning i =>
    obtain ⟨-, ⟨⟩⟩ := of_guard hn
    exact hs.setThread i _ (by split_ifs <;> exact False.elim)
  | again i => obtain ⟨-, ⟨⟩⟩ := of_guard hn; exact hs.setThread i .test False.elim
  | leave i => obtain ⟨-, ⟨⟩⟩ := of_guard hn; exact hs.setThread i .lock False.elim
  | lockToErase i c =>
    obtain ⟨⟨-, hi, hfree⟩, ⟨⟩⟩ := of_guard hn
    refine (hs.lock hfree (.conn i)).setThread i .erase fun _ d hd => ?_
    cases Option.some.inj (hi.symm.trans hd)
    simp
  | erase i c =>
    obtain ⟨⟨hthread, -⟩, ⟨⟩⟩ := of_guard hn
    exact { hs.setThread i .deleteWorker fun _ d hd =>
      hs.thread i d hd (by rw [hthread]; trivial) with }
  | deleteWorker i c =>
    obtain ⟨⟨hthread, -⟩, ⟨⟩⟩ := of_guard hn
    exact { hs.setThread i .unlock fun _ d hd =>
      hs.thread i d hd (by rw [hthread]; trivial) with }
  | unlockErased i c =>
    obtain ⟨⟨hthread, hi⟩, ⟨⟩⟩ := of_guard hn
    have hheld := hs.thread i c hi (by rw [hthread]; trivial)
    refine (hs.setThread i .finished False.elim).unlock hheld (by simp) fun j hj => ?_
    cases hj
    simp [ConnPc.InSection]
  | join a i =>
    obtain ⟨-, hwait⟩ := of_guard hn
    rw [wait_frame hwait]
    exact { hs with }
  | _ => obtain ⟨-, ⟨⟩⟩ := of_guard hn; exact { hs with }

/-- The set of a server that has not been stopped against the connections registered. -/
structure RegistrationInv (s : State) : Prop where
  present : ∀ k, s.unstopped k → ∀ i ∈ s.registered, ∀ a, s.conn i = some ⟨k, a⟩ →
    (s.thread i).BeforeErase → a ∈ s.connections k
  registered : ∀ k a, a ∈ s.connections k → ∀ i, s.conn i = some ⟨k, a⟩ →
    (s.thread i).BeforeErase → i ∈ s.registered

theorem registrationInv_initial : RegistrationInv initial where
  present k _ i hi := by simp [initial] at hi
  registered k a ha := by simp [initial] at ha

/-- Two connections that have not erased themselves have different addresses. -/
theorem Owned.eq_of_addr (hs : Owned s) {i j : ℕ} {k l : Server} {a : ℕ}
    (hi : s.conn i = some ⟨k, a⟩) (hthread : (s.thread i).BeforeErase)
    (hj : s.conn j = some ⟨l, a⟩) (hthread' : (s.thread j).BeforeErase) : i = j := by
  have hheap : s.heap a = some i := hs.alive_of_beforeErase hi hthread
  have hheap' : s.heap a = some j := hs.alive_of_beforeErase hj hthread'
  exact Option.some.inj (hheap.symm.trans hheap')

theorem RegistrationInv.of_same (hs : RegistrationInv s)
    (hstop : ∀ k, s'.unstopped k → s.unstopped k) (hconn : s'.conn = s.conn)
    (hset : s'.connections = s.connections) (hregistered : s'.registered = s.registered)
    (hthread : ∀ i, (s'.thread i).BeforeErase → (s.thread i).BeforeErase) :
    RegistrationInv s' := by
  constructor
  · rw [hconn, hset, hregistered]
    exact fun k hk i hi a ha hbefore => hs.present k (hstop k hk) i hi a ha (hthread i hbefore)
  · rw [hconn, hset, hregistered]
    exact fun k a ha i hi hbefore => hs.registered k a ha i hi (hthread i hbefore)

theorem RegistrationInv.setStop (hs : RegistrationInv s) (c : Call) (pc : StopPc)
    (hpc : pc ≠ .notCalled) : RegistrationInv { s with stop := Function.update s.stop c pc } := by
  refine hs.of_same (fun j hj n hlt => ?_) rfl rfl rfl fun _ => id
  have hmoved := hj n hlt
  by_cases hc : (⟨n, j⟩ : Call) = c
  · subst hc; exact absurd (by simpa using hmoved) hpc
  · simpa [Function.update_of_ne hc] using hmoved

theorem RegistrationInv.interrupt (hs : RegistrationInv s) :
    RegistrationInv { s with interrupts := s.interrupts + 1 } :=
  hs.of_same (fun _ hj n hlt => hj n (Nat.lt_succ_of_lt hlt)) rfl rfl rfl fun _ => id

theorem RegistrationInv.setThread (hs : RegistrationInv s) (i : ℕ) (pc : ConnPc)
    (hpc : pc.BeforeErase → (s.thread i).BeforeErase) :
    RegistrationInv { s with thread := Function.update s.thread i pc } := by
  refine hs.of_same (fun _ => id) rfl rfl rfl fun j hj => ?_
  by_cases hji : j = i
  · subst hji; exact hpc (by simpa using hj)
  · simpa [Function.update_of_ne hji] using hj

theorem RegistrationInv.accepted (hs : RegistrationInv s) (howned : Owned s) {k : Server}
    {i a : ℕ} (hi : s.conn i = none) (ha : s.heap a = none) :
    RegistrationInv { s with conn := Function.update s.conn i (some ⟨k, a⟩) } := by
  constructor
  · intro l hl j hj b hb hbefore
    have hji : j ≠ i := by
      rintro rfl
      obtain ⟨c, hc⟩ := howned.registered j hj
      cases hi.symm.trans hc
    exact hs.present l hl j hj b (by simpa [Function.update_of_ne hji] using hb) hbefore
  · intro l b hmem j hj hbefore
    by_cases hji : j = i
    · -- the new address is in no set, since nobody lives there
      subst hji
      obtain ⟨rfl, rfl⟩ : k = l ∧ a = b := by simpa using hj
      obtain ⟨j', hj', hbefore'⟩ := howned.connections k a hmem
      cases ha.symm.trans (howned.alive_of_beforeErase hj' hbefore')
    · exact hs.registered l b hmem j (by simpa [Function.update_of_ne hji] using hj) hbefore

theorem RegistrationInv.inserted (hs : RegistrationInv s) (howned : Owned s) {k : Server} {i a : ℕ}
    (hi : s.conn i = some ⟨k, a⟩) (hthread : (s.thread i).BeforeErase) :
    RegistrationInv { s with
      connections := Function.update s.connections k (insert a (s.connections k))
      registered := insert i s.registered } := by
  constructor
  · intro l hl j hj b hb hbefore
    have hold : ∀ c ∈ s.connections l,
        c ∈ Function.update s.connections k (insert a (s.connections k)) l := by
      intro c hc
      by_cases hlk : l = k
      · subst hlk; simp [hc]
      · rwa [Function.update_of_ne hlk]
    rcases Finset.mem_insert.mp hj with rfl | hj
    · cases Option.some.inj (hi.symm.trans hb)
      simp
    · exact hold b (hs.present l hl j hj b hb hbefore)
  · intro l b hmem j hj hbefore
    by_cases hlk : l = k
    · subst hlk
      rcases Finset.mem_insert.mp (by simpa using hmem) with rfl | hmem
      · rw [howned.eq_of_addr hj hbefore hi hthread]
        exact Finset.mem_insert_self i s.registered
      · exact Finset.mem_insert_of_mem (hs.registered l b hmem j hj hbefore)
    · have hold : b ∈ s.connections l := by simpa [Function.update_of_ne hlk] using hmem
      exact Finset.mem_insert_of_mem (hs.registered l b hold j hj hbefore)

/-- Elements leave a set: those of connections that are past the erasure, or all of them
when the server has been stopped. -/
theorem RegistrationInv.shrink (hs : RegistrationInv s) {k : Server} {rest : Finset ℕ}
    (hrest : rest ⊆ s.connections k)
    (hkept : s.unstopped k → ∀ i a, s.conn i = some ⟨k, a⟩ → (s.thread i).BeforeErase →
      a ∈ s.connections k → a ∈ rest) :
    RegistrationInv { s with connections := Function.update s.connections k rest } := by
  constructor
  · intro l hl j hj b hb hbefore
    have hmem := hs.present l hl j hj b hb hbefore
    by_cases hlk : l = k
    · subst hlk; simpa using hkept hl j b hb hbefore hmem
    · simpa [Function.update_of_ne hlk] using hmem
  · intro l b hmem j hj hbefore
    refine hs.registered l b ?_ j hj hbefore
    by_cases hlk : l = k
    · subst hlk; exact hrest (by simpa using hmem)
    · simpa [Function.update_of_ne hlk] using hmem

theorem registration_step (hs : RegistrationInv s) (howned : Owned s) (hhandler : HandlerInv s)
    {act : Action} (hn : step s act = some s') : RegistrationInv s' := by
  cases act with
  | main =>
    rw [mainNext_frame howned hn]
    exact hs.of_same (fun _ => id) rfl rfl rfl fun _ => id
  | interrupt t => obtain ⟨-, ⟨⟩⟩ := of_guard hn; exact { hs.interrupt with }
  | clearRunning c => obtain ⟨-, ⟨⟩⟩ := of_guard hn; exact { hs.setStop c .closeListener nofun with }
  | closeListener c => obtain ⟨-, ⟨⟩⟩ := of_guard hn; exact { hs.setStop c .cancelIo nofun with }
  | cancelIo c => obtain ⟨-, ⟨⟩⟩ := of_guard hn; exact hs.setStop c .first nofun
  | first c =>
    obtain ⟨-, ⟨⟩⟩ := of_guard hn
    exact hs.setStop c _ (stopAt_inProgress _ _).ne_notCalled
  | callStop c a i =>
    obtain ⟨-, ⟨⟩⟩ := of_guard hn
    exact { hs.setStop c (.closeSocket ⟨a, some i⟩) nofun with }
  | closeSocket c a i =>
    obtain ⟨-, ⟨⟩⟩ := of_guard hn
    exact hs.setStop c (.cancelConn ⟨a, some i⟩) nofun
  | cancelConn c a i =>
    obtain ⟨-, ⟨⟩⟩ := of_guard hn
    exact hs.setStop c (.advance ⟨a, some i⟩) nofun
  | advance c a i =>
    obtain ⟨-, ⟨⟩⟩ := of_guard hn
    exact hs.setStop c _ (stopAt_inProgress _ _).ne_notCalled
  | clear c =>
    obtain ⟨hc, ⟨⟩⟩ := of_guard hn
    have hshrunk := hs.shrink (k := c.server) (Finset.empty_subset _) fun h => by
      cases hc.symm.trans (hhandler.notCalled_of_unstopped h c.number)
    exact { hshrunk.setStop c .returned nofun with }
  | accepted k i a =>
    obtain ⟨⟨-, hi, ha⟩, ⟨⟩⟩ := of_guard hn
    exact { hs.accepted howned hi ha with }
  | insert k i a =>
    obtain ⟨⟨hk, hi⟩, ⟨⟩⟩ := of_guard hn
    have hthread := (howned.starting k i (by rw [hk]; rfl)).1
    exact { hs.inserted howned hi (by rw [hthread]; trivial) with }
  | startThread k i =>
    obtain ⟨hk, ⟨⟩⟩ := of_guard hn
    have hthread := (howned.starting k i (by rw [hk]; rfl)).1
    exact { hs.setThread i .test fun _ => by rw [hthread]; trivial with }
  | testRunning i =>
    obtain ⟨hthread, ⟨⟩⟩ := of_guard hn
    exact hs.setThread i _ fun _ => by rw [hthread]; trivial
  | again i =>
    obtain ⟨hthread, ⟨⟩⟩ := of_guard hn
    exact hs.setThread i .test fun _ => by rw [hthread]; trivial
  | leave i =>
    obtain ⟨hthread, ⟨⟩⟩ := of_guard hn
    exact hs.setThread i .lock fun _ => by rw [hthread]; trivial
  | lockToErase i c =>
    obtain ⟨⟨hthread, -⟩, ⟨⟩⟩ := of_guard hn
    exact { hs.setThread i .erase fun _ => by rw [hthread]; trivial with }
  | erase i c =>
    obtain ⟨⟨hthread, hi⟩, ⟨⟩⟩ := of_guard hn
    have hmoved := hs.setThread i .deleteWorker fun h => h.elim
    refine hmoved.shrink (Finset.erase_subset c.addr _) fun _ j a hj hbefore ha => ?_
    have hji : j ≠ i := by rintro rfl; simp [ConnPc.BeforeErase] at hbefore
    replace hbefore : (s.thread j).BeforeErase := by
      simpa [Function.update_of_ne hji] using hbefore
    refine Finset.mem_erase.mpr ⟨?_, ha⟩
    rintro rfl
    exact hji (howned.eq_of_addr hj hbefore hi (by rw [hthread]; trivial))
  | deleteWorker i c =>
    obtain ⟨-, ⟨⟩⟩ := of_guard hn
    exact { hs.setThread i .unlock fun h => h.elim with }
  | unlockErased i c =>
    obtain ⟨-, ⟨⟩⟩ := of_guard hn
    exact { hs.setThread i .finished fun h => h.elim with }
  | join a i =>
    obtain ⟨-, hwait⟩ := of_guard hn
    rw [wait_frame hwait]
    exact hs.of_same (fun _ => id) rfl rfl rfl fun _ => id
  | _ => obtain ⟨-, ⟨⟩⟩ := of_guard hn; exact { hs with }

def ConnPc.handOvers : ConnPc → ℕ
  | .unlock | .finished => 1
  | _ => 0

def HandOversInv (s : State) (h : History) : Prop := ∀ i, h.handOvers i = (s.thread i).handOvers

variable {h : History}

theorem record_handOvers {act : Action} (hact : ∀ i c, act ≠ .deleteWorker i c) :
    (record s act h).handOvers = h.handOvers := by
  cases act with
  | deleteWorker i c => exact absurd rfl (hact i c)
  | accepted k i a => rw [record_accepted]
  | closeSocket c a i => rw [record_closeSocket]
  | closeListener c => rw [record_closeListener]
  | _ => rfl

theorem HandOversInv.setThread (hs : HandOversInv s h) (i : ℕ) (pc : ConnPc)
    (hpc : pc.handOvers = (s.thread i).handOvers) :
    HandOversInv { s with thread := Function.update s.thread i pc } h := by
  intro j
  by_cases hji : j = i
  · subst hji; simpa [hpc] using hs j
  · simpa [Function.update_of_ne hji] using hs j

theorem handOvers_other (hs : HandOversInv s h) (howned : Owned s) {act : Action}
    (hact : ∀ i c, act ≠ .deleteWorker i c) (hn : step s act = some s') : HandOversInv s' h := by
  cases act with
  | main => rw [mainNext_frame howned hn]; exact hs
  | startThread k i =>
    obtain ⟨hk, ⟨⟩⟩ := of_guard hn
    have hthread := (howned.starting k i (by rw [hk]; rfl)).1
    exact hs.setThread i .test (by rw [hthread]; rfl)
  | testRunning i =>
    obtain ⟨hi, ⟨⟩⟩ := of_guard hn
    exact hs.setThread i _ (by rw [hi]; split_ifs <;> rfl)
  | again i => obtain ⟨hi, ⟨⟩⟩ := of_guard hn; exact hs.setThread i .test (by rw [hi]; rfl)
  | leave i => obtain ⟨hi, ⟨⟩⟩ := of_guard hn; exact hs.setThread i .lock (by rw [hi]; rfl)
  | lockToErase i c =>
    obtain ⟨⟨hi, -⟩, ⟨⟩⟩ := of_guard hn
    exact hs.setThread i .erase (by rw [hi]; rfl)
  | erase i c =>
    obtain ⟨⟨hi, -⟩, ⟨⟩⟩ := of_guard hn
    exact hs.setThread i .deleteWorker (by rw [hi]; rfl)
  | deleteWorker i c => exact absurd rfl (hact i c)
  | unlockErased i c =>
    obtain ⟨⟨hi, -⟩, ⟨⟩⟩ := of_guard hn
    exact hs.setThread i .finished (by rw [hi]; rfl)
  | join a i =>
    obtain ⟨-, hwait⟩ := of_guard hn
    rw [wait_frame hwait]
    exact hs
  | _ => obtain ⟨-, ⟨⟩⟩ := of_guard hn; exact hs

theorem handOvers_step (hs : HandOversInv s h) (howned : Owned s) {act : Action}
    (hn : step s act = some s') : HandOversInv s' (record s act h) := by
  by_cases hact : ∃ i c, act = .deleteWorker i c
  · obtain ⟨i, c, rfl⟩ := hact
    obtain ⟨⟨hi, -⟩, ⟨⟩⟩ := of_guard hn
    intro j
    by_cases hji : j = i
    · subst hji
      have hcount := hs j
      rw [hi] at hcount
      simp [record, hcount, ConnPc.handOvers]
    · simpa [record, Function.update_of_ne hji] using hs j
  · have hother : ∀ i c, act ≠ .deleteWorker i c := fun i c h => hact ⟨i, c, h⟩
    intro i
    rw [record_handOvers hother]
    exact handOvers_other hs howned hother hn i

/-- The set of a server against the connections registered, and their hand-overs. -/
structure ExactlyRegistered (s : State) (h : History) (k : Server) : Prop where
  connections : ∀ a, a ∈ s.connections k ↔
    ∃ i ∈ s.registered, s.conn i = some ⟨k, a⟩ ∧ (s.thread i).BeforeErase
  alive : ∀ a ∈ s.connections k, ∃ i ∈ s.registered, s.heap a = some i ∧ s.deletes i = 0
  waiting : ∀ i, (s.thread i).BeforeErase → h.handOvers i = 0
  handedOver : ∀ i a, s.conn i = some ⟨k, a⟩ → ¬ (s.thread i).BeforeErase →
    h.handOvers i = 1 ∨ h.handOvers i = 0 ∧ s.connsetMutex k = some (.conn i)
  deregistered : ∀ i, s.thread i = .finished → h.handOvers i = 1

/-- Before `stop` is called, the set of a server holds the connections registered and not
yet deregistered; each that has deregistered, or is not just doing so under the mutex, has
been handed over once; and no address in the set is that of a deleted connection. -/
theorem exactlyRegistered {p : State × History} (hp : observed.Reachable p) (k : Server)
    (hk : p.1.unstopped k) : ExactlyRegistered p.1 p.2 k := by
  have hinv : Owned p.1 ∧ HandlerInv p.1 ∧ MutexInv p.1 ∧ RegistrationInv p.1 ∧
      HandOversInv p.1 p.2 := by
    refine hp.invariant
      (I := fun p => Owned p.1 ∧ HandlerInv p.1 ∧ MutexInv p.1 ∧ RegistrationInv p.1 ∧
        HandOversInv p.1 p.2)
      ⟨owned_initial, handlerInv_initial, mutexInv_initial, registrationInv_initial,
        fun _ => rfl⟩ ?_
    intro p act p' _ hinv hn
    obtain ⟨howned, hhandler, hmutex, hreg, hhand⟩ := hinv
    obtain ⟨hstep, hrecord⟩ := observed_step hn
    rw [hrecord]
    exact ⟨owned_step howned hstep, handlerInv_step hhandler howned hstep,
      mutexInv_step hmutex howned hstep, registration_step hreg howned hhandler hstep,
      handOvers_step hhand howned hstep⟩
  obtain ⟨howned, -, hmutex, hreg, hhand⟩ := hinv
  have hmember : ∀ a ∈ p.1.connections k,
      ∃ i ∈ p.1.registered, p.1.conn i = some ⟨k, a⟩ ∧ (p.1.thread i).BeforeErase := by
    intro a ha
    obtain ⟨i, hi, hbefore⟩ := howned.connections k a ha
    exact ⟨i, hreg.registered k a ha i hi hbefore, hi, hbefore⟩
  constructor
  case connections =>
    intro a
    constructor
    · exact hmember a
    · rintro ⟨i, hi, hconn, hbefore⟩
      exact hreg.present k hk i hi a hconn hbefore
  case alive =>
    intro a ha
    obtain ⟨i, hi, hconn, hbefore⟩ := hmember a ha
    have hheap := howned.alive_of_beforeErase hconn hbefore
    exact ⟨i, hi, hheap, howned.undeleted a i hheap⟩
  case waiting =>
    intro i hbefore
    rw [hhand i]
    cases hi : p.1.thread i <;> rw [hi] at hbefore <;> first | rfl | exact hbefore.elim
  case handedOver =>
    intro i a hconn hbefore
    rw [hhand i]
    cases hi : p.1.thread i with
    | deleteWorker => exact .inr ⟨rfl, hmutex.thread i _ hconn (by rw [hi]; trivial)⟩
    | unlock => exact .inl rfl
    | finished => exact .inl rfl
    | _ => rw [hi] at hbefore; exact absurd trivial hbefore
  case deregistered =>
    intro i hi
    rw [hhand i, hi]
    rfl

/-- A connection lives at the address of one that has been deleted. -/
theorem exactlyRegistered_reused : ∃ p, observed.Reachable p ∧
    (p.1.unstopped .tcp ∧ p.1.deletes 0 = 1 ∧ p.1.connections .tcp = {100}) ∧
    ExactlyRegistered p.1 p.2 .tcp := by
  obtain ⟨p, hp, htest⟩ := TransitionSystem.exists_reachable_of_run observed
    (serversRunning ++ connect .tcp 0 100 ++ deregister .tcp 0 100 ++ deleteConnection 0 100 ++
      connect .tcp 1 100)
    (fun p => decide (p.1.unstopped .tcp ∧ p.1.deletes 0 = 1 ∧
      p.1.connections .tcp = {100})) (by decide)
  have h := of_decide_eq_true htest
  exact ⟨p, hp, h, exactlyRegistered hp .tcp h.1⟩

end Mbtest.Lifecycle
