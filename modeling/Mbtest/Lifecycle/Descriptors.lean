import Mbtest.Lifecycle.Registration

/-! The descriptors that the Modbus server's `accept` returns. They are closed in `stop__`
of their connection, and nowhere else. -/
namespace Mbtest.Lifecycle
open Lib

/-- A Modbus connection erases itself only after a call of its `stop`, and SIGINT comes while no
handler is at work. -/
def EndsByStop (s : State) : Action → Prop
  | .interrupt _ => ∀ n < s.interrupts, s.handler n = []
  | .erase i c => c.server = .modbus → 0 < s.stops i
  | _ => True

instance (s : State) (a : Action) : Decidable (EndsByStop s a) :=
  match a with
  | .interrupt _ => inferInstanceAs (Decidable (∀ n < s.interrupts, s.handler n = []))
  | .erase i c => inferInstanceAs (Decidable (c.server = .modbus → 0 < s.stops i))
  | .main | .clearRunning _ | .closeListener _ | .cancelIo _ | .first _ | .callStop _ _ _
  | .closeSocket _ _ _ | .cancelConn _ _ _ | .advance _ _ _ | .clear _ | .startup _ _ | .test _
  | .accepted _ _ _ | .acceptFailed _ | .lockToInsert _ _ | .insert _ _ _ | .unlockInserted _ _
  | .setRunning _ _ | .startThread _ _ | .storeHandle _ _ | .testRunning _ | .again _ | .leave _
  | .lockToErase _ _ | .deleteWorker _ _ | .unlockErased _ _ | .testCompleted | .take _
  | .takeCompleted | .join _ _ | .delete _ _ | .fault _ _ _ _ => .isTrue trivial

/-- The call of `stop` is over when the connection erases itself, and the iteration has left it. -/
def StoppedFirst (p : State × History) (a : Action) : Prop :=
  ErasesAside p.1 a ∧ EndsByStop p.1 a

instance (p : State × History) (a : Action) : Decidable (StoppedFirst p a) :=
  inferInstanceAs (Decidable (ErasesAside p.1 a ∧ EndsByStop p.1 a))

variable {s s' : State}

/-- One handler runs at a time. -/
def AloneInv (s : State) : Prop := ∀ m n, s.handler m ≠ [] → s.handler n ≠ [] → m = n

theorem aloneInv_initial : AloneInv initial := fun _ _ h => absurd rfl h

theorem aloneInv_step (hs : AloneInv s) (howned : Owned s) (hhandler : HandlerInv s) {act : Action}
    (hguard : EndsByStop s act) (hn : step s act = some s') : AloneInv s' := by
  by_cases hact : ∃ t, act = .interrupt t
  · obtain ⟨t, rfl⟩ := hact
    obtain ⟨-, ⟨⟩⟩ := of_guard hn
    have hnew : ∀ n, Function.update s.handler s.interrupts [.modbus, .tcp] n ≠ [] →
        n = s.interrupts := by
      intro n h
      by_contra hne
      rw [Function.update_of_ne hne] at h
      exact h (hguard n (hhandler.number_lt h))
    exact fun m n hm hn => (hnew m hm).trans (hnew n hn).symm
  · have hold : ∀ n, s'.handler n ≠ [] → s.handler n ≠ [] := fun n h hnil =>
      h (List.suffix_nil.mp (hnil ▸ handler_suffix howned (fun t ht => hact ⟨t, ht⟩) hn n))
    exact fun m n hm hn => hs m n (hold m hm) (hold n hn)

theorem AloneInv.call_unique (hs : AloneInv s) (hhandler : HandlerInv s) {c d : Call}
    (hc : (s.stop c).InProgress) (hd : (s.stop d).InProgress) : c = d := by
  have hrunning : ∀ {c : Call}, (s.stop c).InProgress → s.handler c.number ≠ [] := fun hc hnil => by
    have hhead := hhandler.current _ hc
    rw [hnil] at hhead
    cases hhead
  exact hhandler.server_unique hc hd (hs _ _ (hrunning hc) (hrunning hd))

/-- The connection that an accepting thread has yet to insert. -/
def AcceptPc.toInsert : AcceptPc → Option ℕ
  | .lock i | .insert i => some i
  | _ => none

def NewInv (s : State) : Prop := ∀ k i, (s.accept k).toInsert = some i → i ∉ s.registered

theorem newInv_initial : NewInv initial := fun _ _ h => by cases h

theorem NewInv.setAccept (hs : NewInv s) (k : Server) (pc : AcceptPc)
    (hpc : ∀ i, pc.toInsert = some i → i ∉ s.registered) :
    NewInv { s with accept := Function.update s.accept k pc } := by
  intro j i hi
  by_cases hjk : j = k
  · subst hjk; exact hpc i (by simpa using hi)
  · exact hs j i (by simpa [Function.update_of_ne hjk] using hi)

theorem newInv_step (hs : NewInv s) (howned : Owned s) {act : Action}
    (hn : step s act = some s') : NewInv s' := by
  cases act with
  | main =>
    have haccept := mainNext_accept hn
    rw [mainNext_frame howned hn]
    intro k i hi
    rcases haccept k with hsame | hstartup
    · exact hs k i (hsame ▸ hi)
    · rw [show s'.accept k = _ from hstartup] at hi; cases hi
  | startup k ok => obtain ⟨-, ⟨⟩⟩ := of_guard hn; exact hs.setAccept k _ (by cases ok <;> exact nofun)
  | test k => obtain ⟨-, ⟨⟩⟩ := of_guard hn; exact hs.setAccept k _ (by split_ifs <;> exact nofun)
  | accepted k i a =>
    obtain ⟨⟨-, hi, -⟩, ⟨⟩⟩ := of_guard hn
    refine hs.setAccept k (.lock i) fun j hj hmem => ?_
    cases hj
    obtain ⟨c, hc⟩ := howned.registered i hmem
    cases hi.symm.trans hc
  | lockToInsert k i =>
    obtain ⟨⟨hk, -⟩, ⟨⟩⟩ := of_guard hn
    exact hs.setAccept k (.insert i) fun j hj => by cases hj; exact hs k i (by rw [hk]; rfl)
  | insert k i a =>
    obtain ⟨⟨-, hi⟩, ⟨⟩⟩ := of_guard hn
    intro j l hl
    by_cases hjk : j = k
    · subst hjk; simp [AcceptPc.toInsert] at hl
    · replace hl : (s.accept j).toInsert = some l := by simpa [Function.update_of_ne hjk] using hl
      -- the other server inserts a connection of its own
      have hne : l ≠ i := by
        rintro rfl
        obtain ⟨-, b, hb⟩ := howned.starting j l (by
          cases hpc : s.accept j <;> rw [hpc] at hl <;> first | exact hl | cases hl)
        cases Option.some.inj (hi.symm.trans hb)
        exact hjk rfl
      simpa [hne] using hs j l hl
  | acceptFailed k | unlockInserted k i | setRunning k i | startThread k i | storeHandle k i =>
    obtain ⟨-, ⟨⟩⟩ := of_guard hn
    exact hs.setAccept k _ nofun
  | join a i =>
    obtain ⟨-, hwait⟩ := of_guard hn
    rw [wait_frame hwait]
    exact hs
  | _ => obtain ⟨-, ⟨⟩⟩ := of_guard hn; exact hs

/-- An address that the iteration has left behind. -/
def StopPc.Passed (b : ℕ) : StopPc → Prop
  | .callStop e => b < e.addr
  | .closeSocket e | .cancelConn e | .advance e => b ≤ e.addr
  | .clear => True
  | _ => False

theorem StopPc.Passed.inProgress {b : ℕ} {pc : StopPc} (h : pc.Passed b) : pc.InProgress := by
  cases pc <;> first | exact h.elim | trivial

/-- `stop` has been called on a connection once, and while the iteration is under way it has
left the connection behind. -/
structure StoppedInv (s : State) : Prop where
  registered : ∀ i, s.stops i ≠ 0 → i ∈ s.registered
  once : ∀ i, s.stops i ≤ 1
  passed : ∀ i, s.stops i ≠ 0 → ∀ k a, s.conn i = some ⟨k, a⟩ → (s.thread i).BeforeErase →
    a ∈ s.connections k → ∃ n, (s.stop ⟨n, k⟩).Passed a

theorem stoppedInv_initial : StoppedInv initial where
  registered _ h := absurd rfl h
  once _ := Nat.zero_le 1
  passed _ h := absurd rfl h

theorem StoppedInv.setStop (hs : StoppedInv s) (c : Call) (pc : StopPc)
    (hpc : ∀ a, (s.stop c).Passed a → pc.Passed a) :
    StoppedInv { s with stop := Function.update s.stop c pc } := by
  refine { hs with passed := fun i hi k a hconn hbefore ha => ?_ }
  obtain ⟨n, hn⟩ := hs.passed i hi k a hconn hbefore ha
  refine ⟨n, ?_⟩
  by_cases hc : (⟨n, k⟩ : Call) = c
  · subst hc; simpa using hpc a hn
  · simpa [Function.update_of_ne hc] using hn

theorem StoppedInv.setThread (hs : StoppedInv s) (i : ℕ) (pc : ConnPc)
    (hpc : pc.BeforeErase → (s.thread i).BeforeErase) :
    StoppedInv { s with thread := Function.update s.thread i pc } := by
  refine { hs with passed := fun j hj k a hconn hbefore => hs.passed j hj k a hconn ?_ }
  by_cases hji : j = i
  · subst hji; exact hpc (by simpa using hbefore)
  · simpa [Function.update_of_ne hji] using hbefore

theorem StoppedInv.shrink (hs : StoppedInv s) {k : Server} {rest : Finset ℕ}
    (hrest : rest ⊆ s.connections k) :
    StoppedInv { s with connections := Function.update s.connections k rest } := by
  refine { hs with passed := fun i hi j a hconn hbefore ha => ?_ }
  refine hs.passed i hi j a hconn hbefore ?_
  by_cases hjk : j = k
  · subst hjk; exact hrest (by simpa using ha)
  · simpa [Function.update_of_ne hjk] using ha

theorem StoppedInv.accepted (hs : StoppedInv s) (howned : Owned s) {k : Server} {i a : ℕ}
    (hi : s.conn i = none) :
    StoppedInv { s with conn := Function.update s.conn i (some ⟨k, a⟩) } := by
  refine { hs with passed := fun j hj l b hconn => ?_ }
  have hji : j ≠ i := by
    rintro rfl
    obtain ⟨c, hc⟩ := howned.registered j (hs.registered j hj)
    cases hi.symm.trans hc
  exact hs.passed j hj l b (by simpa [Function.update_of_ne hji] using hconn)

theorem StoppedInv.insert (hs : StoppedInv s) (howned : Owned s) {k : Server} {i a : ℕ}
    (hi : s.conn i = some ⟨k, a⟩) (hthread : (s.thread i).BeforeErase) (hnew : i ∉ s.registered) :
    StoppedInv { s with
      connections := Function.update s.connections k (insert a (s.connections k))
      registered := insert i s.registered } := by
  refine ⟨fun j hj => Finset.mem_insert_of_mem (hs.registered j hj), hs.once, ?_⟩
  intro j hj l b hconn hbefore hb
  refine hs.passed j hj l b hconn hbefore ?_
  by_cases hlk : l = k
  · subst hlk
    refine (Finset.mem_insert.mp (by simpa using hb)).resolve_left fun hba => ?_
    subst hba
    have hji : j = i := howned.eq_of_addr hconn hbefore hi hthread
    exact hnew (hji ▸ hs.registered j hj)
  · simpa [Function.update_of_ne hlk] using hb

/-- The iteration comes to each connection once. -/
theorem StoppedInv.not_stopped (hs : StoppedInv s) (howned : Owned s) (hiter : IterationInv s)
    (hhandler : HandlerInv s) (halone : AloneInv s) {c : Call} {a i : ℕ}
    (hc : s.stop c = .callStop ⟨a, some i⟩) : s.stops i = 0 := by
  by_contra hstops
  obtain ⟨hconn, hbefore⟩ := hiter.conn howned (c := c) (by rw [hc]; rfl) rfl
  have hmem := (hiter c _ (by rw [hc]; rfl)).1
  obtain ⟨n, hn⟩ := hs.passed i hstops c.server a hconn hbefore hmem
  have hsame : (⟨n, c.server⟩ : Call) = c :=
    halone.call_unique hhandler hn.inProgress (by rw [hc]; trivial)
  rw [hsame, hc] at hn
  exact Nat.lt_irrefl a hn

theorem StoppedInv.callStop (hs : StoppedInv s) (howned : Owned s) (hiter : IterationInv s)
    (hhandler : HandlerInv s) (halone : AloneInv s) (hreg : RegistrationInv s) {c : Call} {a i : ℕ}
    (hc : s.stop c = .callStop ⟨a, some i⟩) :
    StoppedInv { s with
      stops := Function.update s.stops i (s.stops i + 1)
      stop := Function.update s.stop c (.closeSocket ⟨a, some i⟩) } := by
  obtain ⟨hi, hthread⟩ := hiter.conn howned (c := c) (by rw [hc]; rfl) rfl
  have hmem := (hiter c _ (by rw [hc]; rfl)).1
  have hzero : s.stops i = 0 := hs.not_stopped howned hiter hhandler halone hc
  have hmoved := hs.setStop c (.closeSocket ⟨a, some i⟩) fun b hb => by
    rw [hc] at hb
    exact Nat.le_of_lt hb
  have hother : ∀ j, j ≠ i → Function.update s.stops i (s.stops i + 1) j = s.stops j :=
    fun j hj => Function.update_of_ne hj _ _
  refine ⟨fun j hj => ?_, fun j => ?_, fun j hj k b hconn hbefore hb => ?_⟩
  · by_cases hji : j = i
    · subst hji; exact hreg.registered c.server a hmem j hi hthread
    · exact hs.registered j (hother j hji ▸ hj)
  · by_cases hji : j = i
    · subst hji; simp [hzero]
    · exact (hother j hji).trans_le (hs.once j)
  · by_cases hji : j = i
    · subst hji
      cases Option.some.inj (hi.symm.trans hconn)
      exact ⟨c.number, by simp [StopPc.Passed]⟩
    · exact hmoved.passed j (hother j hji ▸ hj) k b hconn hbefore hb

theorem passed_stopAt (heap : ℕ → Option ℕ) {ahead : Finset ℕ} {b : ℕ} (hb : ∀ a ∈ ahead, b < a) :
    (stopAt heap ahead).Passed b := by
  rcases stopAt_cases heap ahead with ⟨hclear, -⟩ | ⟨a, ha, hcall, -⟩
  · rw [hclear]; trivial
  · rw [hcall]; exact hb a ha

theorem stoppedInv_step (hs : StoppedInv s) (howned : Owned s) (hiter : IterationInv s)
    (hhandler : HandlerInv s) (halone : AloneInv s) (hreg : RegistrationInv s) (hnew : NewInv s)
    {act : Action} (hn : step s act = some s') : StoppedInv s' := by
  cases act with
  | main => rw [mainNext_frame howned hn]; exact { hs with }
  | clearRunning c =>
    obtain ⟨⟨-, hc⟩, ⟨⟩⟩ := of_guard hn
    exact { hs.setStop c .closeListener (by rw [hc]; exact fun _ => False.elim) with }
  | closeListener c =>
    obtain ⟨hc, ⟨⟩⟩ := of_guard hn
    exact { hs.setStop c .cancelIo (by rw [hc]; exact fun _ => False.elim) with }
  | cancelIo c =>
    obtain ⟨⟨hc, -⟩, ⟨⟩⟩ := of_guard hn
    exact hs.setStop c .first (by rw [hc]; exact fun _ => False.elim)
  | first c =>
    obtain ⟨hc, ⟨⟩⟩ := of_guard hn
    exact hs.setStop c _ (by rw [hc]; exact fun _ => False.elim)
  | callStop c a i =>
    obtain ⟨⟨hc, -⟩, ⟨⟩⟩ := of_guard hn
    exact { hs.callStop howned hiter hhandler halone hreg hc with }
  | closeSocket c a i =>
    obtain ⟨⟨hc, -⟩, ⟨⟩⟩ := of_guard hn
    exact hs.setStop c (.cancelConn ⟨a, some i⟩) (by rw [hc]; exact fun _ => id)
  | cancelConn c a i =>
    obtain ⟨⟨hc, -⟩, ⟨⟩⟩ := of_guard hn
    exact hs.setStop c (.advance ⟨a, some i⟩) (by rw [hc]; exact fun _ => id)
  | advance c a i =>
    obtain ⟨⟨hc, -⟩, ⟨⟩⟩ := of_guard hn
    refine hs.setStop c _ fun b hb => passed_stopAt s.heap fun d hd => ?_
    rw [hc] at hb
    exact Nat.lt_of_le_of_lt hb (Finset.mem_filter.mp hd).2
  | clear c =>
    obtain ⟨-, ⟨⟩⟩ := of_guard hn
    refine ⟨hs.registered, hs.once, fun i hi k a hconn hbefore ha => ?_⟩
    -- nothing is left in the set that the iteration was in
    have hk : k ≠ c.server := by rintro rfl; simp at ha
    replace ha : a ∈ s.connections k := by simpa [Function.update_of_ne hk] using ha
    obtain ⟨n, hn⟩ := hs.passed i hi k a hconn hbefore ha
    have hne : (⟨n, k⟩ : Call) ≠ c := by rintro rfl; exact hk rfl
    exact ⟨n, by simpa [Function.update_of_ne hne] using hn⟩
  | accepted k i a =>
    obtain ⟨⟨-, hi, -⟩, ⟨⟩⟩ := of_guard hn
    exact { hs.accepted howned hi with }
  | insert k i a =>
    obtain ⟨⟨hk, hi⟩, ⟨⟩⟩ := of_guard hn
    have hthread := (howned.starting k i (by rw [hk]; rfl)).1
    exact { hs.insert howned hi (by rw [hthread]; trivial) (hnew k i (by rw [hk]; rfl)) with }
  | startThread k i =>
    obtain ⟨hk, ⟨⟩⟩ := of_guard hn
    have hthread := (howned.starting k i (by rw [hk]; rfl)).1
    exact { hs.setThread i .test fun _ => by rw [hthread]; trivial with }
  | testRunning i =>
    obtain ⟨hi, ⟨⟩⟩ := of_guard hn
    exact hs.setThread i _ fun _ => by rw [hi]; trivial
  | again i =>
    obtain ⟨hi, ⟨⟩⟩ := of_guard hn
    exact hs.setThread i .test fun _ => by rw [hi]; trivial
  | leave i =>
    obtain ⟨hi, ⟨⟩⟩ := of_guard hn
    exact hs.setThread i .lock fun _ => by rw [hi]; trivial
  | lockToErase i c =>
    obtain ⟨⟨hi, -⟩, ⟨⟩⟩ := of_guard hn
    exact { hs.setThread i .erase fun _ => by rw [hi]; trivial with }
  | erase i c =>
    obtain ⟨-, ⟨⟩⟩ := of_guard hn
    exact (hs.shrink (Finset.erase_subset c.addr _)).setThread i .deleteWorker fun h => h.elim
  | deleteWorker i c =>
    obtain ⟨-, ⟨⟩⟩ := of_guard hn
    exact { hs.setThread i .unlock fun h => h.elim with }
  | unlockErased i c =>
    obtain ⟨-, ⟨⟩⟩ := of_guard hn
    exact { hs.setThread i .finished fun h => h.elim with }
  | join a i =>
    obtain ⟨-, hwait⟩ := of_guard hn
    rw [wait_frame hwait]
    exact { hs with }
  | _ => obtain ⟨-, ⟨⟩⟩ := of_guard hn; exact { hs with }

/-- A Modbus connection that has erased itself was stopped; what is deleted has erased itself. -/
structure EndedInv (s : State) : Prop where
  stopped : ∀ i, OfModbus s i = true → ¬ (s.thread i).BeforeErase → 0 < s.stops i
  deleted : ∀ i, s.deletes i ≠ 0 → ¬ (s.thread i).BeforeErase

theorem endedInv_initial : EndedInv initial where
  stopped i h := by cases h
  deleted _ h := absurd rfl h

theorem EndedInv.setThread (hs : EndedInv s) (i : ℕ) (pc : ConnPc)
    (hpc : pc.BeforeErase ↔ (s.thread i).BeforeErase) :
    EndedInv { s with thread := Function.update s.thread i pc } := by
  have hsame : ∀ j, (Function.update s.thread i pc j).BeforeErase ↔ (s.thread j).BeforeErase := by
    intro j
    by_cases hji : j = i
    · subst hji; simpa using hpc
    · rw [Function.update_of_ne hji]
  exact ⟨fun j hj hnot => hs.stopped j hj (mt (hsame j).mpr hnot),
    fun j hj => mt (hsame j).mp (hs.deleted j hj)⟩

theorem EndedInv.erase (hs : EndedInv s) {i : ℕ} {c : Connection} (hi : s.conn i = some c)
    (hstopped : c.server = .modbus → 0 < s.stops i) :
    EndedInv { s with thread := Function.update s.thread i .deleteWorker } := by
  refine ⟨fun j hj hnot => ?_, fun j hj => ?_⟩
  · by_cases hji : j = i
    · subst hji; exact hstopped (by simpa [OfModbus, hi] using hj)
    · exact hs.stopped j hj (by simpa [Function.update_of_ne hji] using hnot)
  · by_cases hji : j = i
    · subst hji; simp [ConnPc.BeforeErase]
    · simpa [Function.update_of_ne hji] using hs.deleted j hj

theorem endedInv_step (hs : EndedInv s) (howned : Owned s) {act : Action}
    (hguard : EndsByStop s act) (hn : step s act = some s') : EndedInv s' := by
  cases act with
  | main => rw [mainNext_frame howned hn]; exact { hs with }
  | callStop c a i =>
    obtain ⟨-, ⟨⟩⟩ := of_guard hn
    refine { hs with stopped := fun j hj hnot => (hs.stopped j hj hnot).trans_le ?_ }
    by_cases hji : j = i
    · subst hji; simp
    · simp [Function.update_of_ne hji]
  | accepted k i a =>
    obtain ⟨⟨-, hi, -⟩, ⟨⟩⟩ := of_guard hn
    refine { hs with stopped := fun j hj hnot => hs.stopped j ?_ hnot }
    -- the thread of the new connection has not been started
    have hji : j ≠ i := by
      rintro rfl
      obtain ⟨c, hc⟩ := howned.thread j fun h => hnot (by
        rw [show s.thread j = _ from h]
        trivial)
      cases hi.symm.trans hc
    simpa [OfModbus, Function.update_of_ne hji] using hj
  | startThread k i =>
    obtain ⟨hk, ⟨⟩⟩ := of_guard hn
    have hthread := (howned.starting k i (by rw [hk]; rfl)).1
    exact { hs.setThread i .test (by rw [hthread]; exact Iff.rfl) with }
  | testRunning i =>
    obtain ⟨hi, ⟨⟩⟩ := of_guard hn
    exact hs.setThread i _ (by rw [hi]; split_ifs <;> exact Iff.rfl)
  | again i => obtain ⟨hi, ⟨⟩⟩ := of_guard hn; exact hs.setThread i .test (by rw [hi]; exact Iff.rfl)
  | leave i => obtain ⟨hi, ⟨⟩⟩ := of_guard hn; exact hs.setThread i .lock (by rw [hi]; exact Iff.rfl)
  | lockToErase i c =>
    obtain ⟨⟨hi, -⟩, ⟨⟩⟩ := of_guard hn
    exact { hs.setThread i .erase (by rw [hi]; exact Iff.rfl) with }
  | erase i c => obtain ⟨⟨-, hi⟩, ⟨⟩⟩ := of_guard hn; exact { hs.erase hi hguard with }
  | deleteWorker i c =>
    obtain ⟨⟨hi, -⟩, ⟨⟩⟩ := of_guard hn
    exact { hs.setThread i .unlock (by rw [hi]; exact Iff.rfl) with }
  | unlockErased i c =>
    obtain ⟨⟨hi, -⟩, ⟨⟩⟩ := of_guard hn
    exact { hs.setThread i .finished (by rw [hi]; exact Iff.rfl) with }
  | join a i =>
    obtain ⟨-, hwait⟩ := of_guard hn
    rw [wait_frame hwait]
    exact { hs with }
  | delete a i =>
    obtain ⟨⟨hd, ha, -⟩, ⟨⟩⟩ := of_guard hn
    refine { hs with deleted := fun j hj => ?_ }
    by_cases hji : j = i
    · subst hji
      obtain ⟨l, hl, hhanded⟩ := howned.pending a (by simp [State.pending, hd])
      cases ha.symm.trans hl
      exact fun hbefore => hbefore.not_handedOver hhanded
    · exact hs.deleted j (by simpa [Function.update_of_ne hji] using hj)
  | _ => obtain ⟨-, ⟨⟩⟩ := of_guard hn; exact { hs with }

/-- The connection whose socket a call of `stop` is about to close. -/
def StopPc.closing : StopPc → Option ℕ
  | .closeSocket e => e.conn
  | _ => none

theorem StopPc.inProgress_of_closing {pc : StopPc} {i : ℕ} (h : pc.closing = some i) :
    pc.InProgress := by
  cases pc <;> trivial

theorem stopAt_closing (heap : ℕ → Option ℕ) (ahead : Finset ℕ) :
    (stopAt heap ahead).closing = none := by
  rcases stopAt_cases heap ahead with ⟨hclear, -⟩ | ⟨a, -, hcall, -⟩
  · rw [hclear]; rfl
  · rw [hcall]; rfl

/-- Every call of `stop` on a Modbus connection has closed its descriptor, or is about to. -/
structure DescriptorInv (s : State) (h : History) : Prop where
  accepted : ∀ i, i ∈ h.accepted ↔ OfModbus s i = true
  fresh : ∀ i, s.conn i = none → s.stops i = 0 ∧ h.closes i = 0
  pending : ∀ c i, (s.stop c).closing = some i → OfModbus s i = true →
    s.stops i = 1 ∧ h.closes i = 0
  settled : ∀ i, OfModbus s i = true → (∀ c, (s.stop c).closing ≠ some i) →
    h.closes i = s.stops i

variable {h h' : History}

theorem descriptorInv_initial : DescriptorInv initial .empty where
  accepted i := by simp [History.empty, OfModbus, initial]
  fresh _ _ := ⟨rfl, rfl⟩
  pending _ _ hc := by cases hc
  settled _ _ _ := rfl

theorem DescriptorInv.of_same (hs : DescriptorInv s h) (hconn : s'.conn = s.conn)
    (hstops : s'.stops = s.stops) (hstop : ∀ c, (s'.stop c).closing = (s.stop c).closing)
    (haccepted : h'.accepted = h.accepted) (hcloses : h'.closes = h.closes) :
    DescriptorInv s' h' := by
  have hmodbus : ∀ i, OfModbus s' i = OfModbus s i := fun i => by rw [OfModbus, OfModbus, hconn]
  constructor
  · intro i
    rw [haccepted, hmodbus]
    exact hs.accepted i
  · intro i
    rw [hconn, hstops, hcloses]
    exact hs.fresh i
  · intro c i
    rw [hmodbus, hstop, hstops, hcloses]
    exact hs.pending c i
  · intro i
    rw [hcloses, hmodbus, hstops]
    exact fun hi hnot => hs.settled i hi fun c => hstop c ▸ hnot c

theorem closing_setStop {c : Call} {pc : StopPc} (hpc : pc.closing = (s.stop c).closing)
    (d : Call) : (Function.update s.stop c pc d).closing = (s.stop d).closing := by
  by_cases hdc : d = c
  · subst hdc; simpa using hpc
  · rw [Function.update_of_ne hdc]

theorem DescriptorInv.accept (hs : DescriptorInv s h) {k : Server} {i a : ℕ}
    (hi : s.conn i = none) (hfree : ∀ c, (s.stop c).closing ≠ some i) :
    DescriptorInv { s with conn := Function.update s.conn i (some ⟨k, a⟩) }
      (record s (.accepted k i a) h) := by
  have hother : ∀ j, j ≠ i →
      OfModbus { s with conn := Function.update s.conn i (some ⟨k, a⟩) } j = OfModbus s j := by
    intro j hj
    simp [OfModbus, Function.update_of_ne hj]
  rw [record_accepted]
  constructor
  case accepted =>
    intro j
    by_cases hji : j = i
    · subst hji
      have hnot : j ∉ h.accepted := by
        rw [hs.accepted j, OfModbus, hi]
        simp
      by_cases hk : k = .modbus <;> simp [OfModbus, hk, hnot]
    · rw [hother j hji, ← hs.accepted j]
      by_cases hk : k = .modbus <;> simp [hk, hji]
  case fresh =>
    intro j hj
    have hji : j ≠ i := by rintro rfl; simp at hj
    exact hs.fresh j (by simpa [Function.update_of_ne hji] using hj)
  case pending =>
    intro c j hc hj
    have hji : j ≠ i := by rintro rfl; exact hfree c hc
    exact hs.pending c j hc (hother j hji ▸ hj)
  case settled =>
    intro j hj hnot
    by_cases hji : j = i
    · subst hji; exact (hs.fresh j hi).2.trans (hs.fresh j hi).1.symm
    · exact hs.settled j (hother j hji ▸ hj) hnot

theorem DescriptorInv.callStop (hs : DescriptorInv s h) {c : Call} {a i : ℕ}
    (hc : s.stop c = .callStop ⟨a, some i⟩) (hi : s.conn i ≠ none) (hzero : s.stops i = 0) :
    DescriptorInv { s with
      stops := Function.update s.stops i (s.stops i + 1)
      stop := Function.update s.stop c (.closeSocket ⟨a, some i⟩) } h := by
  have hother : ∀ j, j ≠ i → Function.update s.stops i (s.stops i + 1) j = s.stops j :=
    fun j hj => Function.update_of_ne hj _ _
  have hnot : OfModbus s i = true → ∀ d, (s.stop d).closing ≠ some i := by
    intro hmodbus d hd
    have hone := (hs.pending d i hd hmodbus).1
    rw [hzero] at hone
    cases hone
  refine { hs with fresh := fun j hj => ?_, pending := fun d j hd hj => ?_, settled := ?_ }
  · have hji : j ≠ i := by rintro rfl; exact hi hj
    exact ⟨(hother j hji).trans (hs.fresh j hj).1, (hs.fresh j hj).2⟩
  · by_cases hdc : d = c
    · subst hdc
      obtain rfl : i = j := by simpa [StopPc.closing] using hd
      exact ⟨by simp [hzero], (hs.settled i hj (hnot hj)).trans hzero⟩
    · replace hd : (s.stop d).closing = some j := by simpa [Function.update_of_ne hdc] using hd
      have hji : j ≠ i := by rintro rfl; exact hnot hj d hd
      exact ⟨(hother j hji).trans (hs.pending d j hd hj).1, (hs.pending d j hd hj).2⟩
  · intro j hj hsettled
    have hji : j ≠ i := by
      rintro rfl
      exact hsettled c (by simp [StopPc.closing])
    refine (hs.settled j hj fun d hd => ?_).trans (hother j hji).symm
    have hdc : d ≠ c := by rintro rfl; rw [hc] at hd; cases hd
    exact hsettled d (by simpa [Function.update_of_ne hdc] using hd)

theorem DescriptorInv.closeSocket (hs : DescriptorInv s h) {c : Call} {a i : ℕ}
    (hc : s.stop c = .closeSocket ⟨a, some i⟩) (hi : s.conn i ≠ none)
    (hunique : ∀ d, (s.stop d).InProgress → d = c) :
    DescriptorInv { s with stop := Function.update s.stop c (.cancelConn ⟨a, some i⟩) }
      (record s (.closeSocket c a i) h) := by
  have hnone : ∀ d j, (Function.update s.stop c (.cancelConn ⟨a, some i⟩) d).closing ≠ some j := by
    intro d j hd
    by_cases hdc : d = c
    · subst hdc; simp [StopPc.closing] at hd
    · rw [Function.update_of_ne hdc] at hd
      exact hdc (hunique d (StopPc.inProgress_of_closing hd))
  rw [record_closeSocket]
  refine { hs with
    fresh := fun j hj => ?_, pending := fun d j hd => absurd hd (hnone d j), settled := ?_ }
  · have hji : j ≠ i := by rintro rfl; exact hi hj
    exact ⟨(hs.fresh j hj).1, (Function.update_of_ne hji _ _).trans (hs.fresh j hj).2⟩
  · intro j hj _
    by_cases hji : j = i
    · subst hji
      have hmodbus : OfModbus s j = true := hj
      obtain ⟨hone, hzero⟩ := hs.pending c j (by rw [hc]; rfl) hmodbus
      simp [hmodbus, hone, hzero]
    · refine (Function.update_of_ne hji _ _).trans (hs.settled j hj fun d hd => ?_)
      have hdc : d = c := hunique d (StopPc.inProgress_of_closing hd)
      rw [hdc, hc] at hd
      exact hji (Option.some.inj hd).symm

/-- What a call of `stop` is about to close is a connection that has not erased itself. -/
theorem IterationInv.closing (hs : IterationInv s) (howned : Owned s) {c : Call} {i : ℕ}
    (hc : (s.stop c).closing = some i) : s.conn i ≠ none ∧ (s.thread i).BeforeErase := by
  obtain ⟨e, he, hi⟩ : ∃ e, (s.stop c).current = some e ∧ e.conn = some i := by
    cases hpc : s.stop c <;> rw [hpc] at hc <;> first | cases hc | exact ⟨_, rfl, hc⟩
  obtain ⟨hconn, hbefore⟩ := hs.conn howned he hi
  exact ⟨by rw [hconn]; nofun, hbefore⟩

theorem descriptorInv_step (hs : DescriptorInv s h) (howned : Owned s) (hiter : IterationInv s)
    (hhandler : HandlerInv s) (halone : AloneInv s) (hstopped : StoppedInv s) {act : Action}
    (hn : step s act = some s') : DescriptorInv s' (record s act h) := by
  have hlives : ∀ {a i}, s.heap a = some i → s.conn i ≠ none := fun hheap hnone => by
    obtain ⟨k, hk⟩ := howned.heap _ _ hheap
    cases hnone.symm.trans hk
  cases act with
  | main =>
    have hframe := mainNext_frame howned hn
    exact hs.of_same (by rw [hframe]) (by rw [hframe]) (by rw [hframe]; exact fun _ => rfl) rfl rfl
  | accepted k i a =>
    obtain ⟨⟨-, hi, -⟩, ⟨⟩⟩ := of_guard hn
    have haccepted := hs.accept (k := k) (a := a) hi fun c hc => (hiter.closing howned hc).1 hi
    exact haccepted.of_same rfl rfl (fun _ => rfl) rfl rfl
  | callStop c a i =>
    obtain ⟨⟨hc, hheap⟩, ⟨⟩⟩ := of_guard hn
    have hzero := hstopped.not_stopped howned hiter hhandler halone hc
    exact (hs.callStop hc (hlives hheap) hzero).of_same rfl rfl (fun _ => rfl) rfl rfl
  | closeSocket c a i =>
    obtain ⟨⟨hc, hheap⟩, ⟨⟩⟩ := of_guard hn
    exact hs.closeSocket hc (hlives hheap) fun d hd =>
      halone.call_unique hhandler hd (by rw [hc]; trivial)
  | clearRunning c =>
    obtain ⟨⟨-, hc⟩, ⟨⟩⟩ := of_guard hn
    exact hs.of_same rfl rfl (closing_setStop (by rw [hc]; rfl)) rfl rfl
  | closeListener c =>
    obtain ⟨hc, ⟨⟩⟩ := of_guard hn
    rw [record_closeListener]
    exact hs.of_same rfl rfl (closing_setStop (by rw [hc]; rfl)) rfl rfl
  | cancelIo c =>
    obtain ⟨⟨hc, -⟩, ⟨⟩⟩ := of_guard hn
    exact hs.of_same rfl rfl (closing_setStop (by rw [hc]; rfl)) rfl rfl
  | first c =>
    obtain ⟨hc, ⟨⟩⟩ := of_guard hn
    exact hs.of_same rfl rfl (closing_setStop (by rw [hc, stopAt_closing]; rfl)) rfl rfl
  | cancelConn c a i =>
    obtain ⟨⟨hc, -⟩, ⟨⟩⟩ := of_guard hn
    exact hs.of_same rfl rfl (closing_setStop (by rw [hc]; rfl)) rfl rfl
  | advance c a i =>
    obtain ⟨⟨hc, -⟩, ⟨⟩⟩ := of_guard hn
    exact hs.of_same rfl rfl (closing_setStop (by rw [hc, stopAt_closing]; rfl)) rfl rfl
  | clear c =>
    obtain ⟨hc, ⟨⟩⟩ := of_guard hn
    exact hs.of_same rfl rfl (closing_setStop (by rw [hc]; rfl)) rfl rfl
  | join a i =>
    obtain ⟨-, hwait⟩ := of_guard hn
    have hframe := wait_frame hwait
    exact hs.of_same (by rw [hframe]) (by rw [hframe]) (by rw [hframe]; exact fun _ => rfl) rfl rfl
  | _ => obtain ⟨-, ⟨⟩⟩ := of_guard hn; exact hs.of_same rfl rfl (fun _ => rfl) rfl rfl

/-- The invariants of a run in which connections end by `stop`. -/
structure ClosedInv (s : State) (h : History) : Prop where
  owned : Owned s
  handler : HandlerInv s
  iteration : IterationInv s
  registration : RegistrationInv s
  alone : AloneInv s
  new : NewInv s
  stopped : StoppedInv s
  ended : EndedInv s
  descriptor : DescriptorInv s h

theorem closedInv_initial : ClosedInv initial .empty :=
  ⟨owned_initial, handlerInv_initial, nofun, registrationInv_initial, aloneInv_initial,
    newInv_initial, stoppedInv_initial, endedInv_initial, descriptorInv_initial⟩

theorem closedInv_step (hs : ClosedInv s h) {act : Action} (hguard : StoppedFirst (s, h) act)
    (hn : step s act = some s') : ClosedInv s' (record s act h) where
  owned := owned_step hs.owned hn
  handler := handlerInv_step hs.handler hs.owned hn
  iteration := iteration_step hs.iteration hs.owned hs.handler hguard.1 hn
  registration := registration_step hs.registration hs.owned hs.handler hn
  alone := aloneInv_step hs.alone hs.owned hs.handler hguard.2 hn
  new := newInv_step hs.new hs.owned hn
  stopped :=
    stoppedInv_step hs.stopped hs.owned hs.iteration hs.handler hs.alone hs.registration hs.new hn
  ended := endedInv_step hs.ended hs.owned hguard.2 hn
  descriptor :=
    descriptorInv_step hs.descriptor hs.owned hs.iteration hs.handler hs.alone hs.stopped hn

/-- A connection that has erased itself was stopped once, and its `stop` is over. -/
theorem ClosedInv.closed (hs : ClosedInv s h) {i : ℕ} (hi : OfModbus s i = true)
    (hthread : ¬ (s.thread i).BeforeErase) : h.closes i = 1 := by
  have hsettled : h.closes i = s.stops i := hs.descriptor.settled i hi fun c hc =>
    hthread (hs.iteration.closing hs.owned hc).2
  have hcalled := hs.ended.stopped i hi hthread
  have honce := hs.stopped.once i
  omega

/-- In a run in which no two handlers overlap and a Modbus connection erases itself only after its
`stop`, its descriptor has been closed exactly once when it is deleted, and no more accepted
descriptors are open than there are connections left. -/
theorem descriptors_closed {p : State × History} (hp : observed.ReachableVia StoppedFirst p) :
    (∀ i ∈ p.2.accepted, p.1.deletes i ≠ 0 → p.2.closes i = 1) ∧
      (p.2.accepted.filter (p.2.closes · = 0)).card ≤
        (p.2.accepted.filter (p.1.deletes · = 0)).card := by
  have hinv : ClosedInv p.1 p.2 := by
    refine hp.invariant (I := fun p => ClosedInv p.1 p.2) closedInv_initial ?_
    intro p act p' hguard hinv hn
    obtain ⟨hstep, hrecord⟩ := observed_step hn
    rw [hrecord]
    exact closedInv_step hinv hguard hstep
  have hclosed : ∀ i ∈ p.2.accepted, p.1.deletes i ≠ 0 → p.2.closes i = 1 := fun i hi hdeleted =>
    hinv.closed ((hinv.descriptor.accepted i).mp hi) (hinv.ended.deleted i hdeleted)
  refine ⟨hclosed, Finset.card_le_card fun i hi => ?_⟩
  obtain ⟨hmem, hopen⟩ := Finset.mem_filter.mp hi
  refine Finset.mem_filter.mpr ⟨hmem, ?_⟩
  by_contra hdeleted
  rw [hclosed i hmem hdeleted] at hopen
  cases hopen

theorem descriptors_closed_stopped : ∃ p, observed.ReachableVia StoppedFirst p ∧
    (p.2.accepted = {0, 1} ∧ p.1.deletes 0 = 1 ∧ p.1.deletes 1 = 0) ∧
    ((∀ i ∈ p.2.accepted, p.1.deletes i ≠ 0 → p.2.closes i = 1) ∧
      (p.2.accepted.filter (p.2.closes · = 0)).card ≤
        (p.2.accepted.filter (p.1.deletes · = 0)).card) := by
  obtain ⟨p, hp, htest⟩ := TransitionSystem.exists_reachableVia_of_runVia observed StoppedFirst
    (serversRunning ++ connect .modbus 0 100 ++ connect .modbus 1 200 ++ [.interrupt .main] ++
      beginStop 0 .modbus ++ stopConn 0 .modbus 0 100 ++ [.advance ⟨0, .modbus⟩ 100 0] ++
      deregister .modbus 0 100 ++ deleteConnection 0 100)
    (fun p => decide (p.2.accepted = {0, 1} ∧ p.1.deletes 0 = 1 ∧ p.1.deletes 1 = 0)) (by decide)
  exact ⟨p, hp, of_decide_eq_true htest, descriptors_closed hp⟩

/-- The peer of a Modbus connection disconnects: the connection is deleted with its descriptor
open. Two handlers come to a connection: its descriptor is closed twice. -/
theorem descriptor_leaked :
    (∃ p, observed.Reachable p ∧ p.1.fault = none ∧ p.2.accepted = {0} ∧ p.1.deletes 0 = 1 ∧
      p.2.closes 0 = 0) ∧
    (∃ p, observed.Reachable p ∧ p.1.fault = none ∧ p.2.accepted = {0} ∧ p.1.deletes 0 = 1 ∧
      p.2.closes 0 = 2) := by
  constructor
  · obtain ⟨p, hp, htest⟩ := TransitionSystem.exists_reachable_of_run observed
      (serversRunning ++ connect .modbus 0 100 ++ deregister .modbus 0 100 ++
        deleteConnection 0 100)
      (fun p => decide (p.1.fault = none ∧ p.2.accepted = {0} ∧ p.1.deletes 0 = 1 ∧
        p.2.closes 0 = 0)) (by decide)
    exact ⟨p, hp, of_decide_eq_true htest⟩
  · obtain ⟨p, hp, htest⟩ := TransitionSystem.exists_reachable_of_run observed
      (serversRunning ++ connect .modbus 0 100 ++ [.interrupt .main,
        .interrupt (.worker (.server .tcp))] ++ beginStop 0 .modbus ++ beginStop 1 .modbus ++
        stopConn 0 .modbus 0 100 ++ stopConn 1 .modbus 0 100 ++ [.advance ⟨0, .modbus⟩ 100 0,
        .advance ⟨1, .modbus⟩ 100 0] ++ deregister .modbus 0 100 ++ deleteConnection 0 100)
      (fun p => decide (p.1.fault = none ∧ p.2.accepted = {0} ∧ p.1.deletes 0 = 1 ∧
        p.2.closes 0 = 2)) (by decide)
    exact ⟨p, hp, of_decide_eq_true htest⟩

end Mbtest.Lifecycle
