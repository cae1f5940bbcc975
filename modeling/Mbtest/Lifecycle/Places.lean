import Mbtest.Lifecycle.Flags
import Mbtest.Lifecycle.Registration
import Mbtest.Lifecycle.Targets

/-! Where the threads are: which connections were started, who holds a mutex, how far `main` has
come, and whom the signals of the handler have woken. -/
namespace Mbtest.Lifecycle
open Lib

variable {s s' : State}

/-- The connection that an accepting thread has registered and not yet started. -/
def AcceptPc.placed : AcceptPc → Option ℕ
  | .unlock i | .setRunning i | .startThread i => some i
  | _ => none

/-- Only registered connections are started. -/
structure PlaceInv (s : State) : Prop where
  accept : ∀ k i, (s.accept k).placed = some i → i ∈ s.registered
  thread : ∀ i, s.thread i ≠ .notStarted → i ∈ s.registered

theorem placeInv_initial : PlaceInv initial where
  accept k i h := by cases h
  thread i h := absurd rfl h

theorem PlaceInv.setAccept (hs : PlaceInv s) (k : Server) (pc : AcceptPc)
    (hpc : ∀ i, pc.placed = some i → i ∈ s.registered) :
    PlaceInv { s with accept := Function.update s.accept k pc } := by
  refine { hs with accept := fun j i h => ?_ }
  by_cases hjk : j = k
  · subst hjk; exact hpc i (by simpa using h)
  · exact hs.accept j i (by simpa [Function.update_of_ne hjk] using h)

theorem PlaceInv.setThread (hs : PlaceInv s) {i : ℕ} (hi : i ∈ s.registered) (pc : ConnPc) :
    PlaceInv { s with thread := Function.update s.thread i pc } := by
  refine { hs with thread := fun j h => ?_ }
  by_cases hji : j = i
  · subst hji; exact hi
  · exact hs.thread j (by simpa [Function.update_of_ne hji] using h)

theorem placeInv_step (hs : PlaceInv s) (howned : Owned s) {act : Action}
    (hn : step s act = some s') : PlaceInv s' := by
  cases act with
  | main =>
    have haccept := mainNext_accept hn
    rw [mainNext_frame howned hn]
    refine { hs with accept := fun k i h => ?_ }
    rcases haccept k with hsame | hstartup
    · exact hs.accept k i (hsame ▸ h)
    · rw [show s'.accept k = _ from hstartup] at h; cases h
  | startup k ok =>
    obtain ⟨-, ⟨⟩⟩ := of_guard hn
    exact { hs.setAccept k (if ok then .test else .finished) (by cases ok <;> exact nofun) with }
  | test k =>
    obtain ⟨-, ⟨⟩⟩ := of_guard hn
    exact hs.setAccept k _ (by split_ifs <;> exact nofun)
  | accepted k i a => obtain ⟨-, ⟨⟩⟩ := of_guard hn; exact { hs.setAccept k (.lock i) nofun with }
  | acceptFailed k => obtain ⟨-, ⟨⟩⟩ := of_guard hn; exact hs.setAccept k .test nofun
  | lockToInsert k i =>
    obtain ⟨-, ⟨⟩⟩ := of_guard hn
    exact { hs.setAccept k (.insert i) nofun with }
  | insert k i a =>
    obtain ⟨-, ⟨⟩⟩ := of_guard hn
    constructor
    · intro j i' h
      by_cases hjk : j = k
      · subst hjk
        obtain rfl : i = i' := by simpa [AcceptPc.placed] using h
        exact Finset.mem_insert_self _ _
      · exact Finset.mem_insert_of_mem (hs.accept j i' (by simpa [Function.update_of_ne hjk] using h))
    · exact fun j hj => Finset.mem_insert_of_mem (hs.thread j hj)
  | unlockInserted k i =>
    obtain ⟨hk, ⟨⟩⟩ := of_guard hn
    have hi := hs.accept k i (by rw [hk]; rfl)
    exact { hs.setAccept k (.setRunning i) fun j hj => by cases hj; exact hi with }
  | setRunning k i =>
    obtain ⟨hk, ⟨⟩⟩ := of_guard hn
    have hi := hs.accept k i (by rw [hk]; rfl)
    exact { hs.setAccept k (.startThread i) fun j hj => by cases hj; exact hi with }
  | startThread k i =>
    obtain ⟨hk, ⟨⟩⟩ := of_guard hn
    have hi := hs.accept k i (by rw [hk]; rfl)
    exact (hs.setThread hi .test).setAccept k (.storeHandle i) nofun
  | storeHandle k i => obtain ⟨-, ⟨⟩⟩ := of_guard hn; exact { hs.setAccept k .test nofun with }
  | testRunning i =>
    obtain ⟨hi, ⟨⟩⟩ := of_guard hn
    exact hs.setThread (hs.thread i (by rw [hi]; simp)) _
  | again i =>
    obtain ⟨hi, ⟨⟩⟩ := of_guard hn
    exact hs.setThread (hs.thread i (by rw [hi]; simp)) .test
  | leave i =>
    obtain ⟨hi, ⟨⟩⟩ := of_guard hn
    exact hs.setThread (hs.thread i (by rw [hi]; simp)) .lock
  | lockToErase i c =>
    obtain ⟨⟨hi, -⟩, ⟨⟩⟩ := of_guard hn
    exact { hs.setThread (hs.thread i (by rw [hi]; simp)) .erase with }
  | erase i c =>
    obtain ⟨⟨hi, -⟩, ⟨⟩⟩ := of_guard hn
    exact { hs.setThread (hs.thread i (by rw [hi]; simp)) .deleteWorker with }
  | deleteWorker i c =>
    obtain ⟨⟨hi, -⟩, ⟨⟩⟩ := of_guard hn
    exact { hs.setThread (hs.thread i (by rw [hi]; simp)) .unlock with }
  | unlockErased i c =>
    obtain ⟨⟨hi, -⟩, ⟨⟩⟩ := of_guard hn
    exact { hs.setThread (hs.thread i (by rw [hi]; simp)) .finished with }
  | join a i =>
    obtain ⟨-, hwait⟩ := of_guard hn
    rw [wait_frame hwait]
    exact { hs with }
  | _ => obtain ⟨-, ⟨⟩⟩ := of_guard hn; exact { hs with }

def State.Holds (s : State) (k : Server) : WorkerId → Prop
  | .server j => j = k ∧ (s.accept k).InSection
  | .conn i => (∃ a, s.conn i = some ⟨k, a⟩) ∧ (s.thread i).InSection
  | .deleter => False

def HeldInv (s : State) : Prop := ∀ k w, s.connsetMutex k = some w → s.Holds k w

theorem heldInv_initial : HeldInv initial := fun _ _ h => by cases h

theorem HeldInv.setAccept (hs : HeldInv s) (k : Server) (pc : AcceptPc)
    (hpc : (s.accept k).InSection → pc.InSection) :
    HeldInv { s with accept := Function.update s.accept k pc } := by
  intro j w h
  have hold := hs j w h
  cases w with
  | server l =>
    by_cases hjk : j = k
    · subst hjk; exact ⟨hold.1, by simpa using hpc hold.2⟩
    · exact ⟨hold.1, by simpa [Function.update_of_ne hjk] using hold.2⟩
  | conn i => exact hold
  | deleter => exact hold

theorem HeldInv.setThread (hs : HeldInv s) (i : ℕ) (pc : ConnPc)
    (hpc : (s.thread i).InSection → pc.InSection) :
    HeldInv { s with thread := Function.update s.thread i pc } := by
  intro k w h
  have hold := hs k w h
  cases w with
  | server l => exact hold
  | conn j =>
    by_cases hji : j = i
    · subst hji; exact ⟨hold.1, by simpa using hpc hold.2⟩
    · exact ⟨hold.1, by simpa [Function.update_of_ne hji] using hold.2⟩
  | deleter => exact hold

theorem HeldInv.lock (hs : HeldInv s) {k : Server} {w : WorkerId} (hw : s.Holds k w) :
    HeldInv { s with connsetMutex := Function.update s.connsetMutex k (some w) } := by
  intro j u h
  by_cases hjk : j = k
  · subst hjk
    obtain rfl : w = u := by simpa using h
    cases w <;> exact hw
  · have hold := hs j u (by simpa [Function.update_of_ne hjk] using h)
    cases u <;> exact hold

theorem HeldInv.unlock (hs : HeldInv s) (k : Server) :
    HeldInv { s with connsetMutex := Function.update s.connsetMutex k none } := by
  intro j w h
  by_cases hjk : j = k
  · subst hjk; simp at h
  · have hold := hs j w (by simpa [Function.update_of_ne hjk] using h)
    cases w <;> exact hold

theorem HeldInv.leave (hs : HeldInv s) {k : Server} (hfree : s.connsetMutex k = none)
    (pc : AcceptPc) : HeldInv { s with accept := Function.update s.accept k pc } := by
  intro j w h
  have hjk : j ≠ k := by rintro rfl; rw [show s.connsetMutex j = none from hfree] at h; cases h
  have hold := hs j w h
  cases w with
  | server l => exact ⟨hold.1, by simpa [Function.update_of_ne hjk] using hold.2⟩
  | conn i => exact hold
  | deleter => exact hold

theorem HeldInv.leaveThread (hs : HeldInv s) {i : ℕ} {c : Connection} (hi : s.conn i = some c)
    (hfree : s.connsetMutex c.server = none) (pc : ConnPc) :
    HeldInv { s with thread := Function.update s.thread i pc } := by
  intro k w h
  have hold := hs k w h
  cases w with
  | server l => exact hold
  | conn j =>
    have hji : j ≠ i := by
      rintro rfl
      obtain ⟨⟨a, ha⟩, -⟩ := hold
      cases Option.some.inj (hi.symm.trans ha)
      rw [show s.connsetMutex k = none from hfree] at h
      cases h
    exact ⟨hold.1, by simpa [Function.update_of_ne hji] using hold.2⟩
  | deleter => exact hold

theorem heldInv_main (hs : HeldInv s) (howned : Owned s) (hstart : StartInv s)
    (hn : mainNext s = some s') : HeldInv s' := by
  obtain ⟨stmt, rest, hmain, hexec⟩ := mainNext_cases hn
  have haccept : ∀ k, (s.accept k).InSection → s'.accept k = s.accept k := by
    intro k hk
    refine exec_accept hexec ?_
    rintro rfl
    have hnot : s.accept k = .notStarted := (hstart k).mp (hmain ▸ List.mem_cons_self)
    rw [hnot] at hk
    exact hk
  intro k w h
  rw [mainNext_frame howned hn] at h ⊢
  have hold := hs k w h
  cases w with
  | server l => exact ⟨hold.1, (haccept k hold.2).symm ▸ hold.2⟩
  | conn i => exact hold
  | deleter => exact hold

theorem heldInv_step (hs : HeldInv s) (howned : Owned s) (hstart : StartInv s) {act : Action}
    (hn : step s act = some s') : HeldInv s' := by
  cases act with
  | main => exact heldInv_main hs howned hstart hn
  | startup k ok =>
    obtain ⟨hk, ⟨⟩⟩ := of_guard hn
    exact hs.setAccept k _ (by rw [hk]; exact False.elim)
  | test k =>
    obtain ⟨hk, ⟨⟩⟩ := of_guard hn
    exact hs.setAccept k _ (by rw [hk]; exact False.elim)
  | accepted k i a =>
    obtain ⟨⟨hk, hi, -⟩, ⟨⟩⟩ := of_guard hn
    intro j w h
    have hold := hs.setAccept k (.lock i) (by rw [hk]; exact False.elim) j w h
    cases w with
    | server l => exact hold
    | conn l =>
      obtain ⟨⟨b, hb⟩, hin⟩ := hold
      have hli : l ≠ i := by rintro rfl; cases hi.symm.trans hb
      exact ⟨⟨b, (Function.update_of_ne hli _ _).trans hb⟩, hin⟩
    | deleter => exact hold
  | acceptFailed k =>
    obtain ⟨hk, ⟨⟩⟩ := of_guard hn
    exact hs.setAccept k .test (by rcases hk with hk | hk <;> rw [hk] <;> exact False.elim)
  | lockToInsert k i =>
    obtain ⟨⟨hk, -⟩, ⟨⟩⟩ := of_guard hn
    refine (hs.setAccept k (.insert i) (by rw [hk]; exact False.elim)).lock (w := .server k) ⟨rfl, ?_⟩
    simp [AcceptPc.InSection]
  | insert k i a =>
    obtain ⟨-, ⟨⟩⟩ := of_guard hn
    exact hs.setAccept k (.unlock i) fun _ => trivial
  | unlockInserted k i =>
    obtain ⟨hk, ⟨⟩⟩ := of_guard hn
    exact (hs.unlock k).leave (by simp) (.setRunning i)
  | setRunning k i =>
    obtain ⟨hk, ⟨⟩⟩ := of_guard hn
    exact hs.setAccept k (.startThread i) (by rw [hk]; exact False.elim)
  | startThread k i =>
    obtain ⟨hk, ⟨⟩⟩ := of_guard hn
    have hi := (howned.starting k i (by rw [hk]; rfl)).1
    exact (hs.setThread i .test (by rw [hi]; exact False.elim)).setAccept k (.storeHandle i)
      (by rw [hk]; exact False.elim)
  | storeHandle k i =>
    obtain ⟨⟨hk, -⟩, ⟨⟩⟩ := of_guard hn
    exact hs.setAccept k .test (by rw [hk]; exact False.elim)
  | testRunning i =>
    obtain ⟨hi, ⟨⟩⟩ := of_guard hn
    exact hs.setThread i _ (by rw [hi]; exact False.elim)
  | again i =>
    obtain ⟨hi, ⟨⟩⟩ := of_guard hn
    exact hs.setThread i .test (by rw [hi]; exact False.elim)
  | leave i =>
    obtain ⟨hi, ⟨⟩⟩ := of_guard hn
    exact hs.setThread i .lock (by rw [hi]; exact False.elim)
  | lockToErase i c =>
    obtain ⟨⟨hi, hc, -⟩, ⟨⟩⟩ := of_guard hn
    refine (hs.setThread i .erase (by rw [hi]; exact False.elim)).lock (w := .conn i) ⟨⟨c.addr, hc⟩, ?_⟩
    simp [ConnPc.InSection]
  | erase i c =>
    obtain ⟨-, ⟨⟩⟩ := of_guard hn
    exact hs.setThread i .deleteWorker fun _ => trivial
  | deleteWorker i c =>
    obtain ⟨-, ⟨⟩⟩ := of_guard hn
    exact hs.setThread i .unlock fun _ => trivial
  | unlockErased i c =>
    obtain ⟨⟨-, hc⟩, ⟨⟩⟩ := of_guard hn
    exact (hs.unlock c.server).leaveThread hc (by simp) .finished
  | join a i =>
    obtain ⟨-, hwait⟩ := of_guard hn
    rw [wait_frame hwait]
    exact hs
  | _ => obtain ⟨-, ⟨⟩⟩ := of_guard hn; exact hs

/-- What `main` has done: the deleter is started, adding is completed. -/
structure ProgressInv (s : State) : Prop where
  deleter : .startThread .deleter ∉ s.main → s.deleter ≠ .notStarted
  completed : .completeAdding ∉ s.main → s.addingCompleted = true

theorem progressInv_initial : ProgressInv initial where
  deleter h := by simp [initial, mainProgram, run] at h
  completed h := by simp [initial, mainProgram, run] at h

theorem progressInv_step (hs : ProgressInv s) {act : Action} (hn : step s act = some s') :
    ProgressInv s' := by
  cases act with
  | main =>
    obtain ⟨stmt, rest, hmain, hexec⟩ := mainNext_cases hn
    have hleft : s'.main = rest := exec_main hexec
    have hahead : ∀ t, t ≠ stmt → t ∉ s'.main → t ∉ s.main := fun t hne hnot => by
      rw [hmain]
      exact List.not_mem_cons_of_ne_of_not_mem hne (hleft ▸ hnot)
    have hkept : .startThread .deleter ≠ stmt → .completeAdding ≠ stmt →
        s'.deleter = s.deleter → s'.addingCompleted = s.addingCompleted → ProgressInv s' :=
      fun hstart hcomplete hdeleter hcompleted =>
        ⟨fun h => hdeleter ▸ hs.deleter (hahead _ hstart h),
          fun h => hcompleted ▸ hs.completed (hahead _ hcomplete h)⟩
    cases stmt with
    | startThread w =>
      cases Option.some.inj hexec
      cases w with
      | deleter =>
        refine ⟨fun _ => by simp [State.startThread], fun h => ?_⟩
        exact hs.completed (hahead _ (by simp) h)
      | server k => exact hkept (by simp) (by simp) rfl rfl
      | conn i => exact hkept (by simp) (by simp) rfl rfl
    | completeAdding =>
      cases Option.some.inj hexec
      exact ⟨fun h => hs.deleter (hahead _ (by simp) h), fun _ => rfl⟩
    | wait w => exact hkept (by simp) (by simp) (by rw [wait_frame hexec]) (by rw [wait_frame hexec])
    | _ => cases Option.some.inj hexec; exact hkept (by simp) (by simp) rfl rfl
  | testCompleted =>
    obtain ⟨-, ⟨⟩⟩ := of_guard hn
    refine { hs with deleter := fun _ => ?_ }
    simp only []
    split_ifs <;> simp
  | take a => obtain ⟨-, ⟨⟩⟩ := of_guard hn; exact { hs with deleter := fun _ => by simp }
  | takeCompleted => obtain ⟨-, ⟨⟩⟩ := of_guard hn; exact { hs with deleter := fun _ => by simp }
  | join a i =>
    obtain ⟨-, hwait⟩ := of_guard hn
    rw [wait_frame hwait]
    exact { hs with deleter := fun _ => by simp }
  | delete a i => obtain ⟨-, ⟨⟩⟩ := of_guard hn; exact { hs with deleter := fun _ => by simp }
  | _ => obtain ⟨-, ⟨⟩⟩ := of_guard hn; exact { hs with }

/-! ### The signals that reach `accept` -/

/-- The accepting threads that a signal has found in `accept` and that have not left it since. -/
def wake (s : State) : Action → (Server → Bool) → Server → Bool
  | .cancelIo c, woken =>
    if s.accept c.server = .accept true then Function.update woken c.server true else woken
  | .accepted k _ _, woken => Function.update woken k false
  | .acceptFailed k, woken => Function.update woken k false
  | _, woken => woken

/-- `mbserver` beside the threads that are woken. -/
def signalled : TransitionSystem (State × (Server → Bool)) Action :=
  mbserver.observe (fun _ => false) wake

/-- A `stop` that has cleared the flag and is yet to send its signal. -/
def StopPc.ToSignal : StopPc → Prop
  | .closeListener | .cancelIo => True
  | _ => False

theorem StopPc.ToSignal.inProgress {pc : StopPc} (h : pc.ToSignal) : pc.InProgress := by
  cases pc <;> first | exact h.elim | trivial

/-- A server that is told to end is in no `accept` that nothing ends: it has been woken, or a
signal is to come. -/
def WokenInv (s : State) (woken : Server → Bool) : Prop :=
  ∀ k, (s.worker (.server k)).bRunning = false → s.accept k = .accept true →
    woken k = true ∨ ∃ n, (s.stop ⟨n, k⟩).ToSignal

theorem wokenInv_initial : WokenInv initial fun _ => false := fun _ _ h => by cases h

section Woken
variable {woken : Server → Bool}

theorem setWorker_flag_down {u w : WorkerId} {x : Worker}
    (hx : u = w → x.bRunning = false → (s.worker w).bRunning = false)
    (hw : ((s.setWorker u x).worker w).bRunning = false) : (s.worker w).bRunning = false := by
  by_cases hwu : u = w
  · subst hwu; exact hx rfl (by simpa [State.setWorker] using hw)
  · simpa [State.setWorker, Function.update_of_ne (Ne.symm hwu)] using hw

theorem setWorker_same_flag {u w : WorkerId} {x : Worker} (hx : x.bRunning = (s.worker u).bRunning)
    (hw : ((s.setWorker u x).worker w).bRunning = false) : (s.worker w).bRunning = false :=
  setWorker_flag_down (fun hu hdown => hu ▸ hx.symm.trans hdown) hw

theorem wait_flag_down {u w : WorkerId} (hn : s.wait u = some s')
    (hw : (s'.worker w).bRunning = false) : (s.worker w).bRunning = false := by
  unfold State.wait at hn
  split_ifs at hn <;> cases Option.some.inj hn
  · exact setWorker_same_flag (by rfl) hw
  · exact hw

theorem exec_flag_down {stmt : Stmt} {w : WorkerId} (hstmt : stmt ≠ .clearRunning w)
    (hn : exec s stmt = some s') (hw : (s'.worker w).bRunning = false) :
    (s.worker w).bRunning = false := by
  cases stmt with
  | setRunning u =>
    cases Option.some.inj hn
    exact setWorker_flag_down (fun _ hdown => by cases hdown) hw
  | clearRunning u =>
    cases Option.some.inj hn
    exact setWorker_flag_down (fun hu => absurd (hu ▸ rfl) hstmt) hw
  | storeHandle u => cases Option.some.inj hn; exact setWorker_same_flag (by rfl) hw
  | wait u => exact wait_flag_down hn hw
  | startThread u => cases Option.some.inj hn; cases u <;> exact hw
  | sigaction => cases Option.some.inj hn; exact hw
  | completeAdding => cases Option.some.inj hn; exact hw

theorem WokenInv.of_same (hs : WokenInv s woken)
    (hflag : ∀ k, (s'.worker (.server k)).bRunning = false →
      (s.worker (.server k)).bRunning = false)
    (haccept : ∀ k, s'.accept k = .accept true → s.accept k = .accept true)
    (hstop : ∀ c, (s.stop c).ToSignal → (s'.stop c).ToSignal) : WokenInv s' woken :=
  fun k hdown hpending => (hs k (hflag k hdown) (haccept k hpending)).imp_right
    fun ⟨n, hn⟩ => ⟨n, hstop _ hn⟩

theorem WokenInv.setStop (hs : WokenInv s woken) (c : Call) (pc : StopPc)
    (hpc : (s.stop c).ToSignal → pc.ToSignal) :
    WokenInv { s with stop := Function.update s.stop c pc } woken := by
  refine hs.of_same (fun _ => id) (fun _ => id) fun d hd => ?_
  by_cases hdc : d = c
  · subst hdc; simpa using hpc hd
  · simpa [Function.update_of_ne hdc] using hd

theorem WokenInv.setAccept (hs : WokenInv s woken) (k : Server) {pc : AcceptPc}
    (hpc : pc ≠ .accept true) :
    WokenInv { s with accept := Function.update s.accept k pc } woken := by
  refine hs.of_same (fun _ => id) (fun j hj => ?_) fun _ => id
  by_cases hjk : j = k
  · subst hjk; exact absurd (by simpa using hj) hpc
  · simpa [Function.update_of_ne hjk] using hj

/-- A thread that leaves `accept` need not be woken any more. -/
theorem WokenInv.leaveAccept (hs : WokenInv s woken) (k : Server) {pc : AcceptPc}
    (hpc : pc ≠ .accept true) :
    WokenInv { s with accept := Function.update s.accept k pc }
      (Function.update woken k false) := by
  intro j hdown hpending
  by_cases hjk : j = k
  · subst hjk; exact absurd (by simpa using hpending) hpc
  · rw [Function.update_of_ne hjk]
    exact hs j hdown (by simpa [Function.update_of_ne hjk] using hpending)

theorem WokenInv.cancelIo (hs : WokenInv s woken) (c : Call) :
    WokenInv { s with stop := Function.update s.stop c .first } (wake s (.cancelIo c) woken) := by
  intro j hdown hpending
  simp only [wake]
  by_cases hjc : j = c.server
  · subst hjc
    rw [if_pos hpending]
    exact .inl (Function.update_self _ _ _)
  · refine (hs j hdown hpending).imp (fun hwoken => ?_) fun ⟨n, hn⟩ => ⟨n, ?_⟩
    · split_ifs
      · rwa [Function.update_of_ne hjc]
      · exact hwoken
    · have hne : (⟨n, j⟩ : Call) ≠ c := by rintro rfl; exact hjc rfl
      simpa [Function.update_of_ne hne] using hn

/-- The signal of a `stop` that clears the flag is to come. -/
theorem WokenInv.clearRunning (hs : WokenInv s woken) (c : Call) :
    WokenInv { s.clearRunning (.server c.server) with
      stop := Function.update s.stop c .closeListener } woken := by
  intro j hdown hpending
  by_cases hjc : j = c.server
  · subst hjc
    exact .inr ⟨c.number, by simp [StopPc.ToSignal]⟩
  · have hflag : (s.worker (.server j)).bRunning = false :=
      setWorker_flag_down (fun hu => absurd (WorkerId.server.inj hu).symm hjc) hdown
    refine (hs j hflag hpending).imp_right fun ⟨n, hn⟩ => ⟨n, ?_⟩
    have hne : (⟨n, j⟩ : Call) ≠ c := by rintro rfl; exact hjc rfl
    simpa [Function.update_of_ne hne] using hn

theorem wokenInv_main (hs : WokenInv s woken) (howned : Owned s) (hmain : MainInv s)
    (hn : mainNext s = some s') : WokenInv s' woken := by
  obtain ⟨stmt, rest, hstmt, hexec⟩ := mainNext_cases hn
  have hnot : ∀ k, stmt ≠ .clearRunning (.server k) := by
    rintro k rfl
    have hmem : .clearRunning (.server k) ∈ mainProgram :=
      hmain.suffix.subset (hstmt ▸ List.mem_cons_self)
    simp [mainProgram, run] at hmem
  refine hs.of_same (fun k hk => ?_) (fun k hk => ?_) fun c hc => ?_
  · exact exec_flag_down (s := { s with main := rest }) (hnot k) hexec hk
  · rcases mainNext_accept hn k with hsame | hstartup
    · exact hsame ▸ hk
    · rw [show s'.accept k = _ from hstartup] at hk; cases hk
  · rw [mainNext_frame howned hn]
    exact hc

theorem wokenInv_step (hs : WokenInv s woken) (howned : Owned s) (hmain : MainInv s) {act : Action}
    (hn : step s act = some s') : WokenInv s' (wake s act woken) := by
  cases act with
  | main => exact wokenInv_main hs howned hmain hn
  | clearRunning c => obtain ⟨-, ⟨⟩⟩ := of_guard hn; exact hs.clearRunning c
  | closeListener c =>
    obtain ⟨-, ⟨⟩⟩ := of_guard hn
    exact hs.setStop c .cancelIo fun _ => trivial
  | cancelIo c => obtain ⟨-, ⟨⟩⟩ := of_guard hn; exact hs.cancelIo c
  | first c =>
    obtain ⟨hc, ⟨⟩⟩ := of_guard hn
    exact hs.setStop c _ (by rw [hc]; exact False.elim)
  | callStop c a i =>
    obtain ⟨⟨hc, -⟩, ⟨⟩⟩ := of_guard hn
    exact hs.setStop c (.closeSocket ⟨a, some i⟩) (by rw [hc]; exact False.elim)
  | closeSocket c a i =>
    obtain ⟨⟨hc, -⟩, ⟨⟩⟩ := of_guard hn
    exact hs.setStop c (.cancelConn ⟨a, some i⟩) (by rw [hc]; exact False.elim)
  | cancelConn c a i =>
    obtain ⟨⟨hc, -⟩, ⟨⟩⟩ := of_guard hn
    exact hs.setStop c (.advance ⟨a, some i⟩) (by rw [hc]; exact False.elim)
  | advance c a i =>
    obtain ⟨⟨hc, -⟩, ⟨⟩⟩ := of_guard hn
    exact hs.setStop c _ (by rw [hc]; exact False.elim)
  | clear c =>
    obtain ⟨hc, ⟨⟩⟩ := of_guard hn
    exact hs.setStop c .returned (by rw [hc]; exact False.elim)
  | startup k ok =>
    obtain ⟨-, ⟨⟩⟩ := of_guard hn
    exact hs.setAccept k (by cases ok <;> simp)
  | test k =>
    obtain ⟨-, ⟨⟩⟩ := of_guard hn
    intro j hdown hpending
    by_cases hjk : j = k
    · subst hjk
      -- a thread that is told to end does not enter `accept`
      have hflag : (s.worker (.server j)).bRunning = false := hdown
      simp [hflag] at hpending
    · exact hs j hdown (by simpa [Function.update_of_ne hjk] using hpending)
  | accepted k i a => obtain ⟨-, ⟨⟩⟩ := of_guard hn; exact hs.leaveAccept k nofun
  | acceptFailed k => obtain ⟨-, ⟨⟩⟩ := of_guard hn; exact hs.leaveAccept k nofun
  | lockToInsert k i | insert k i a | unlockInserted k i | setRunning k i | startThread k i
  | storeHandle k i => obtain ⟨-, ⟨⟩⟩ := of_guard hn; exact hs.setAccept k nofun
  | join a i =>
    obtain ⟨-, hwait⟩ := of_guard hn
    have hframe := wait_frame hwait
    refine hs.of_same (fun k hk => ?_) (by rw [hframe]; exact fun _ => id)
      (by rw [hframe]; exact fun _ => id)
    exact wait_flag_down (s := { s with deleter := .delete a }) hwait hk
  | _ => obtain ⟨-, ⟨⟩⟩ := of_guard hn; exact hs

end Woken

end Mbtest.Lifecycle
