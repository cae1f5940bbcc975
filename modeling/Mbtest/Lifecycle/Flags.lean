import Mbtest.Lifecycle.Shutdown

/-! The flag `bRunning`, which `run` sets without looking and `stop` clears. -/
namespace Mbtest.Lifecycle
open Lib

def AcceptPc.toRun : AcceptPc → Option ℕ
  | .lock i | .insert i | .unlock i | .setRunning i => some i
  | _ => none

def AcceptPc.InBody : AcceptPc → Prop
  | .accept _ | .lock _ | .insert _ | .unlock _ | .setRunning _ | .startThread _
  | .storeHandle _ => True
  | _ => False

namespace State
variable (s : State)

/-- `run` of a worker has yet to set its flag. -/
def RunAhead : WorkerId → Prop
  | .conn i => ∃ k, (s.accept k).toRun = some i
  | .server k => .setRunning (.server k) ∈ s.main
  | .deleter => .setRunning .deleter ∈ s.main

def StopCalled : WorkerId → Prop
  | .conn i => 0 < s.stops i
  | .server k => ∃ n, s.stop ⟨n, k⟩ ≠ .notCalled
  | .deleter => .clearRunning .deleter ∉ s.main

/-- The thread of a worker is in the body of its `while(bRunning)`. The loop of the deleter
does not look at the flag. -/
def InLoop : WorkerId → Prop
  | .conn i => s.thread i = .loop
  | .server k => (s.accept k).InBody
  | .deleter => False

end State

instance (pc : AcceptPc) : Decidable pc.InBody :=
  match pc with
  | .accept _ | .lock _ | .insert _ | .unlock _ | .setRunning _ | .startThread _
  | .storeHandle _ => .isTrue trivial
  | .notStarted | .startup | .test | .finished => .isFalse id

instance (s : State) (w : WorkerId) : Decidable (s.InLoop w) :=
  match w with
  | .conn i => inferInstanceAs (Decidable (s.thread i = .loop))
  | .server k => inferInstanceAs (Decidable (s.accept k).InBody)
  | .deleter => .isFalse id

instance (s : State) (w : WorkerId) : Decidable (s.RunAhead w) :=
  match w with
  | .conn i => decidable_of_iff
      ((s.accept .modbus).toRun = some i ∨ (s.accept .tcp).toRun = some i)
      ⟨fun h => h.elim (fun h => ⟨.modbus, h⟩) fun h => ⟨.tcp, h⟩,
        fun ⟨k, h⟩ => match k with
          | .modbus => .inl h
          | .tcp => .inr h⟩
  | .server k => inferInstanceAs (Decidable (.setRunning (.server k) ∈ s.main))
  | .deleter => inferInstanceAs (Decidable (.setRunning .deleter ∈ s.main))

/-- The worker whose `stop` the handler or `stopConnections` calls. -/
def Action.stops : Action → Option WorkerId
  | .clearRunning c => some (.server c.server)
  | .callStop _ _ i => some (.conn i)
  | _ => none

/-- `stop` comes after `run` has set the flag. -/
def RunsFirst (s : State) (a : Action) : Prop := ∀ w ∈ a.stops, ¬ s.RunAhead w

instance (s : State) (a : Action) : Decidable (RunsFirst s a) :=
  inferInstanceAs (Decidable (∀ w ∈ a.stops, ¬ s.RunAhead w))

/-- A worker whose `stop` was called is not running, and will not be set running. -/
structure FlagInv (s : State) : Prop where
  stopped : ∀ w, s.StopCalled w → (s.worker w).bRunning = false ∧ ¬ s.RunAhead w
  fresh : ∀ i, s.conn i = none → s.stops i = 0

variable {s s' : State}

theorem flagInv_initial : FlagInv initial where
  stopped w h := by
    cases w with
    | conn i => exact absurd h (Nat.lt_irrefl 0)
    | server k => obtain ⟨n, hn⟩ := h; exact absurd rfl hn
    | deleter => exact absurd (by simp [initial, mainProgram, run]) h
  fresh i _ := rfl

theorem setWorker_bRunning {u w : WorkerId} {x : Worker}
    (hw : ((s.setWorker u x).worker w).bRunning = true) :
    (s.worker w).bRunning = true ∨ w = u ∧ x.bRunning = true := by
  by_cases hwu : w = u
  · subst hwu; exact .inr ⟨rfl, by simpa [State.setWorker] using hw⟩
  · exact .inl (by simpa [State.setWorker, Function.update_of_ne hwu] using hw)

theorem wait_bRunning {u w : WorkerId} (hn : s.wait u = some s')
    (hw : (s'.worker w).bRunning = true) : (s.worker w).bRunning = true := by
  unfold State.wait at hn
  split_ifs at hn <;> cases Option.some.inj hn
  · rcases setWorker_bRunning hw with h | ⟨rfl, h⟩
    · exact h
    · exact h
  · exact hw

theorem FlagInv.of_same (hs : FlagInv s) (hstop : ∀ w, s'.StopCalled w → s.StopCalled w)
    (hflag : ∀ w, s.StopCalled w → (s'.worker w).bRunning = true → (s.worker w).bRunning = true)
    (hahead : ∀ w, s'.StopCalled w → s'.RunAhead w → s.RunAhead w)
    (hfresh : ∀ i, s'.conn i = none → s'.stops i = 0) : FlagInv s' where
  stopped w hw := by
    obtain ⟨hrunning, hnot⟩ := hs.stopped w (hstop w hw)
    refine ⟨?_, fun h => hnot (hahead w hw h)⟩
    cases hflag' : (s'.worker w).bRunning with
    | false => rfl
    | true => rw [hflag w (hstop w hw) hflag'] at hrunning; cases hrunning
  fresh := hfresh

theorem FlagInv.frame (hs : FlagInv s) (hmain : s'.main = s.main) (haccept : s'.accept = s.accept)
    (hstop : s'.stop = s.stop) (hstops : s'.stops = s.stops) (hconn : s'.conn = s.conn)
    (hflag : ∀ w, (s'.worker w).bRunning = true → (s.worker w).bRunning = true) : FlagInv s' := by
  refine hs.of_same (fun w hw => ?_) (fun w _ => hflag w) (fun w _ hw => ?_) fun i hi => ?_
  · cases w <;> simpa only [State.StopCalled, hmain, hstop, hstops] using hw
  · cases w <;> simpa only [State.RunAhead, hmain, haccept] using hw
  · rw [hstops]
    exact hs.fresh i (hconn ▸ hi)

/-- `stop` is called on a worker that has been run. -/
theorem FlagInv.stopping (hs : FlagInv s) {u : WorkerId} (hu : ¬ s.RunAhead u)
    (hstop : ∀ w, w ≠ u → s'.StopCalled w → s.StopCalled w)
    (hworker : s'.worker = (s.clearRunning u).worker)
    (hahead : ∀ w, s'.RunAhead w → s.RunAhead w)
    (hfresh : ∀ i, s'.conn i = none → s'.stops i = 0) : FlagInv s' where
  stopped w hw := by
    rw [hworker]
    by_cases hwu : w = u
    · subst hwu
      exact ⟨by simp [State.clearRunning, State.setWorker], fun h => hu (hahead w h)⟩
    · obtain ⟨hrunning, hnot⟩ := hs.stopped w (hstop w hwu hw)
      refine ⟨?_, fun h => hnot (hahead w h)⟩
      simpa [State.clearRunning, State.setWorker, Function.update_of_ne hwu] using hrunning
  fresh := hfresh

theorem FlagInv.setStop (hs : FlagInv s) (c : Call) (pc : StopPc) (hc : s.stop c ≠ .notCalled) :
    FlagInv { s with stop := Function.update s.stop c pc } := by
  refine hs.of_same (fun w hw => ?_) (fun _ _ => id) (fun w _ hw => ?_) hs.fresh
  · cases w with
    | conn i => exact hw
    | deleter => exact hw
    | server j =>
      obtain ⟨n, hn⟩ := hw
      by_cases hnc : (⟨n, j⟩ : Call) = c
      · subst hnc; exact ⟨n, hc⟩
      · exact ⟨n, by simpa [Function.update_of_ne hnc] using hn⟩
  · cases w <;> exact hw

theorem FlagInv.setAccept (hs : FlagInv s) (k : Server) (pc : AcceptPc)
    (hpc : ∀ i, pc.toRun = some i → (s.accept k).toRun = some i) :
    FlagInv { s with accept := Function.update s.accept k pc } := by
  refine hs.of_same (fun w hw => ?_) (fun _ _ => id) (fun w _ hw => ?_) hs.fresh
  · cases w <;> exact hw
  · cases w with
    | server j => exact hw
    | deleter => exact hw
    | conn i =>
      obtain ⟨j, hj⟩ := hw
      by_cases hjk : j = k
      · subst hjk; exact ⟨j, hpc i (by simpa using hj)⟩
      · exact ⟨j, by simpa [Function.update_of_ne hjk] using hj⟩

theorem exec_bRunning {stmt : Stmt} {w : WorkerId} (hn : exec s stmt = some s')
    (hw : (s'.worker w).bRunning = true) :
    (s.worker w).bRunning = true ∨ stmt = .setRunning w := by
  cases stmt with
  | setRunning u =>
    cases Option.some.inj hn
    rcases setWorker_bRunning hw with h | ⟨rfl, -⟩
    · exact .inl h
    · exact .inr rfl
  | clearRunning u =>
    cases Option.some.inj hn
    rcases setWorker_bRunning hw with h | ⟨-, h⟩
    · exact .inl h
    · cases h
  | storeHandle u =>
    cases Option.some.inj hn
    rcases setWorker_bRunning hw with h | ⟨rfl, h⟩
    · exact .inl h
    · exact .inl h
  | wait u => exact .inl (wait_bRunning hn hw)
  | startThread u => cases Option.some.inj hn; cases u <;> exact .inl hw
  | sigaction => cases Option.some.inj hn; exact .inl hw
  | completeAdding => cases Option.some.inj hn; exact .inl hw

theorem ran_of_stopping {l : List Stmt} (h : l <:+ mainProgram)
    (hl : l.head? = some (.clearRunning .deleter)) : .setRunning .deleter ∉ l := by
  have hall : ∀ l ∈ mainProgram.tails, l.head? = some (.clearRunning .deleter) →
      .setRunning .deleter ∉ l := by decide
  exact hall l ((List.mem_tails l mainProgram).mpr h) hl

theorem flagInv_main (hs : FlagInv s) (howned : Owned s) (hmain : MainInv s)
    (hn : mainNext s = some s') : FlagInv s' := by
  obtain ⟨stmt, rest, hstmt, hexec⟩ := mainNext_cases hn
  have hleft : s'.main = rest := exec_main hexec
  have hframe := mainNext_frame howned hn
  have hstop : s'.stop = s.stop := by rw [hframe]
  have hstops : s'.stops = s.stops := by rw [hframe]
  have hmem : stmt ∈ mainProgram := hmain.suffix.subset (hstmt ▸ List.mem_cons_self)
  have hrest : s'.main ⊆ s.main := by rw [hleft, hstmt]; exact List.subset_cons_self stmt rest
  have hahead : ∀ w, s'.RunAhead w → s.RunAhead w := by
    intro w hw
    cases w with
    | server k => exact hrest hw
    | deleter => exact hrest hw
    | conn i =>
      obtain ⟨k, hk⟩ := hw
      rcases mainNext_accept hn k with hsame | hstartup
      · exact ⟨k, hsame ▸ hk⟩
      · rw [hstartup] at hk; cases hk
  have hfresh : ∀ i, s'.conn i = none → s'.stops i = 0 := by
    rw [hframe]
    exact hs.fresh
  by_cases hdeleter : stmt = .clearRunning .deleter
  · subst hdeleter
    have hran : ¬ s.RunAhead .deleter := ran_of_stopping hmain.suffix (by rw [hstmt]; rfl)
    cases Option.some.inj hexec
    refine hs.stopping hran (fun w hw hcalled => ?_) rfl hahead hfresh
    cases w with
    | conn i => exact hcalled
    | server k => exact hcalled
    | deleter => exact absurd rfl hw
  · refine hs.of_same (fun w hw => ?_) (fun w hw hrunning => ?_) (fun w _ => hahead w) hfresh
    · cases w with
      | conn i => rwa [State.StopCalled, ← hstops]
      | server k => rwa [State.StopCalled, ← hstop]
      | deleter =>
        rw [State.StopCalled, hstmt, ← hleft]
        exact List.not_mem_cons_of_ne_of_not_mem (Ne.symm hdeleter) hw
    · rcases exec_bRunning hexec hrunning with hsame | rfl
      · exact hsame
      · -- a flag is set only once, and before `stop`
        refine absurd ?_ (hs.stopped w hw).2
        cases w with
        | conn i => simp [mainProgram, run] at hmem
        | server k => rw [State.RunAhead, hstmt]; exact List.mem_cons_self
        | deleter => rw [State.RunAhead, hstmt]; exact List.mem_cons_self

theorem flagInv_step (hs : FlagInv s) (howned : Owned s) (hmain : MainInv s) {act : Action}
    (hguard : RunsFirst s act) (hn : step s act = some s') : FlagInv s' := by
  cases act with
  | main => exact flagInv_main hs howned hmain hn
  | clearRunning c =>
    obtain ⟨-, ⟨⟩⟩ := of_guard hn
    refine hs.stopping (hguard _ rfl) (fun w hw hcalled => ?_) rfl (fun w hw => ?_) hs.fresh
    · cases w with
      | conn i => exact hcalled
      | deleter => exact hcalled
      | server j =>
        obtain ⟨n, hn⟩ := hcalled
        have hnc : (⟨n, j⟩ : Call) ≠ c := by rintro rfl; exact hw rfl
        exact ⟨n, by simpa [Function.update_of_ne hnc] using hn⟩
    · cases w <;> exact hw
  | closeListener c =>
    obtain ⟨hc, ⟨⟩⟩ := of_guard hn
    have hmoved := hs.setStop c .cancelIo (by rw [hc]; nofun)
    exact hmoved.frame rfl rfl rfl rfl rfl fun _ => id
  | cancelIo c =>
    obtain ⟨⟨hc, -⟩, ⟨⟩⟩ := of_guard hn
    exact hs.setStop c .first (by rw [hc]; nofun)
  | first c =>
    obtain ⟨hc, ⟨⟩⟩ := of_guard hn
    exact hs.setStop c _ (by rw [hc]; nofun)
  | callStop c a i =>
    obtain ⟨⟨hc, hheap⟩, ⟨⟩⟩ := of_guard hn
    have hmoved := hs.setStop c (.closeSocket ⟨a, some i⟩) (by rw [hc]; nofun)
    refine hmoved.stopping (u := .conn i) (fun hahead => hguard _ rfl hahead)
      (fun w hw hcalled => ?_) rfl (fun w hw => by cases w <;> exact hw) fun j hj => ?_
    · cases w with
      | deleter => exact hcalled
      | server j => exact hcalled
      | conn j =>
        have hji : j ≠ i := by rintro rfl; exact hw rfl
        simpa [State.StopCalled, Function.update_of_ne hji] using hcalled
    · -- a connection that lives at an address has been accepted
      obtain ⟨l, hl⟩ := howned.heap a i hheap
      have hji : j ≠ i := by rintro rfl; cases hl.symm.trans hj
      exact (Function.update_of_ne hji _ _).trans (hs.fresh j hj)
  | closeSocket c a i =>
    obtain ⟨⟨hc, -⟩, ⟨⟩⟩ := of_guard hn
    exact hs.setStop c (.cancelConn ⟨a, some i⟩) (by rw [hc]; nofun)
  | cancelConn c a i =>
    obtain ⟨⟨hc, -⟩, ⟨⟩⟩ := of_guard hn
    exact hs.setStop c (.advance ⟨a, some i⟩) (by rw [hc]; nofun)
  | advance c a i =>
    obtain ⟨⟨hc, -⟩, ⟨⟩⟩ := of_guard hn
    exact hs.setStop c _ (by rw [hc]; nofun)
  | clear c =>
    obtain ⟨hc, ⟨⟩⟩ := of_guard hn
    have hmoved := hs.setStop c .returned (by rw [hc]; nofun)
    exact hmoved.frame rfl rfl rfl rfl rfl fun _ => id
  | startup k ok =>
    obtain ⟨-, ⟨⟩⟩ := of_guard hn
    have hmoved := hs.setAccept k (if ok then .test else .finished)
      (by cases ok <;> simp [AcceptPc.toRun])
    exact hmoved.frame rfl rfl rfl rfl rfl fun _ => id
  | test k =>
    obtain ⟨-, ⟨⟩⟩ := of_guard hn
    exact hs.setAccept k _ (by split_ifs <;> simp [AcceptPc.toRun])
  | accepted k i a =>
    obtain ⟨⟨-, hi, -⟩, ⟨⟩⟩ := of_guard hn
    refine hs.of_same (fun w hw => by cases w <;> exact hw) (fun _ _ => id) (fun w hcalled hw => ?_)
      fun j hj => ?_
    · cases w with
      | server j => exact hw
      | deleter => exact hw
      | conn j =>
        -- nobody has stopped the connection that is new
        have hji : j ≠ i := by
          rintro rfl
          exact absurd (hs.fresh j hi) (Nat.pos_iff_ne_zero.mp hcalled)
        obtain ⟨l, hl⟩ := hw
        by_cases hlk : l = k
        · subst hlk
          exact absurd (by simpa [AcceptPc.toRun] using hl) hji.symm
        · exact ⟨l, by simpa [Function.update_of_ne hlk] using hl⟩
    · have hji : j ≠ i := by rintro rfl; simp at hj
      exact hs.fresh j (by simpa [Function.update_of_ne hji] using hj)
  | acceptFailed k =>
    obtain ⟨-, ⟨⟩⟩ := of_guard hn
    exact hs.setAccept k .test (by simp [AcceptPc.toRun])
  | lockToInsert k i =>
    obtain ⟨⟨hk, -⟩, ⟨⟩⟩ := of_guard hn
    have hmoved := hs.setAccept k (.insert i) (by rw [hk]; exact fun _ => id)
    exact hmoved.frame rfl rfl rfl rfl rfl fun _ => id
  | insert k i a =>
    obtain ⟨⟨hk, -⟩, ⟨⟩⟩ := of_guard hn
    have hmoved := hs.setAccept k (.unlock i) (by rw [hk]; exact fun _ => id)
    exact hmoved.frame rfl rfl rfl rfl rfl fun _ => id
  | unlockInserted k i =>
    obtain ⟨hk, ⟨⟩⟩ := of_guard hn
    have hmoved := hs.setAccept k (.setRunning i) (by rw [hk]; exact fun _ => id)
    exact hmoved.frame rfl rfl rfl rfl rfl fun _ => id
  | setRunning k i =>
    obtain ⟨hk, ⟨⟩⟩ := of_guard hn
    have hmoved := hs.setAccept k (.startThread i) (by simp [AcceptPc.toRun])
    refine hmoved.of_same (fun w hw => by cases w <;> exact hw) (fun w hcalled hrunning => ?_)
      (fun w _ hw => by cases w <;> exact hw) hs.fresh
    rcases setWorker_bRunning hrunning with hsame | ⟨rfl, -⟩
    · exact hsame
    · exact absurd ⟨k, by rw [hk]; rfl⟩ (hs.stopped (.conn i) hcalled).2
  | startThread k i =>
    obtain ⟨-, ⟨⟩⟩ := of_guard hn
    have hmoved := hs.setAccept k (.storeHandle i) (by simp [AcceptPc.toRun])
    exact hmoved.frame rfl rfl rfl rfl rfl fun _ => id
  | storeHandle k i =>
    obtain ⟨-, ⟨⟩⟩ := of_guard hn
    have hmoved := hs.setAccept k .test (by simp [AcceptPc.toRun])
    refine hmoved.frame rfl rfl rfl rfl rfl fun w hrunning => ?_
    rcases setWorker_bRunning hrunning with hsame | ⟨rfl, hsame⟩
    · exact hsame
    · exact hsame
  | join a i =>
    obtain ⟨-, hwait⟩ := of_guard hn
    have hframe := wait_frame hwait
    exact hs.frame (by rw [hframe]) (by rw [hframe]) (by rw [hframe]) (by rw [hframe])
      (by rw [hframe]) fun w hw => wait_bRunning (s := { s with deleter := .delete a }) hwait hw
  | _ =>
    obtain ⟨-, ⟨⟩⟩ := of_guard hn
    exact hs.frame rfl rfl rfl rfl rfl fun _ => id

theorem State.StopCalled.setStop {w : WorkerId} (hw : s.StopCalled w) (c : Call) (pc : StopPc)
    (hpc : pc ≠ .notCalled) :
    State.StopCalled { s with stop := Function.update s.stop c pc } w := by
  cases w with
  | conn i => exact hw
  | deleter => exact hw
  | server j =>
    obtain ⟨n, hn⟩ := hw
    refine ⟨n, ?_⟩
    by_cases hnc : (⟨n, j⟩ : Call) = c
    · subst hnc; simpa using hpc
    · simpa [Function.update_of_ne hnc] using hn

theorem stopCalled_step (howned : Owned s) {act : Action} (hn : step s act = some s')
    {w : WorkerId} (hw : s.StopCalled w) : s'.StopCalled w := by
  cases act with
  | main =>
    obtain ⟨stmt, rest, hstmt, hexec⟩ := mainNext_cases hn
    have hframe := mainNext_frame howned hn
    cases w with
    | conn i => rw [hframe]; exact hw
    | server k => rw [hframe]; exact hw
    | deleter =>
      intro hmem
      rw [show s'.main = rest from exec_main hexec] at hmem
      exact hw (hstmt ▸ List.mem_cons_of_mem stmt hmem)
  | clearRunning c =>
    obtain ⟨-, ⟨⟩⟩ := of_guard hn
    have h := hw.setStop c .closeListener nofun
    cases w <;> exact h
  | closeListener c =>
    obtain ⟨-, ⟨⟩⟩ := of_guard hn
    have h := hw.setStop c .cancelIo nofun
    cases w <;> exact h
  | cancelIo c => obtain ⟨-, ⟨⟩⟩ := of_guard hn; exact hw.setStop c .first nofun
  | first c =>
    obtain ⟨-, ⟨⟩⟩ := of_guard hn
    exact hw.setStop c _ (stopAt_inProgress _ _).ne_notCalled
  | callStop c a i =>
    obtain ⟨-, ⟨⟩⟩ := of_guard hn
    have h := hw.setStop c (.closeSocket ⟨a, some i⟩) nofun
    cases w with
    | server j => exact h
    | deleter => exact h
    | conn j =>
      refine Nat.lt_of_lt_of_le hw ?_
      by_cases hji : j = i
      · subst hji; simp
      · simp [Function.update_of_ne hji]
  | closeSocket c a i =>
    obtain ⟨-, ⟨⟩⟩ := of_guard hn
    exact hw.setStop c (.cancelConn ⟨a, some i⟩) nofun
  | cancelConn c a i =>
    obtain ⟨-, ⟨⟩⟩ := of_guard hn
    exact hw.setStop c (.advance ⟨a, some i⟩) nofun
  | advance c a i =>
    obtain ⟨-, ⟨⟩⟩ := of_guard hn
    exact hw.setStop c _ (stopAt_inProgress _ _).ne_notCalled
  | clear c =>
    obtain ⟨-, ⟨⟩⟩ := of_guard hn
    have h := hw.setStop c .returned nofun
    cases w <;> exact h
  | join a i =>
    obtain ⟨-, hwait⟩ := of_guard hn
    rw [wait_frame hwait]
    cases w <;> exact hw
  | _ => obtain ⟨-, ⟨⟩⟩ := of_guard hn; cases w <;> exact hw

theorem flagInv_of_reachable (hs : mbserver.ReachableVia RunsFirst s) :
    Owned s ∧ MainInv s ∧ FlagInv s := by
  refine hs.invariant (I := fun s => Owned s ∧ MainInv s ∧ FlagInv s)
    ⟨owned_initial, mainInv_initial, flagInv_initial⟩ ?_
  intro s act s' hguard hinv hn
  obtain ⟨howned, hmain, hflag⟩ := hinv
  obtain ⟨-, hstep⟩ := of_guard hn
  exact ⟨owned_step howned hstep, mainInv_step hmain howned hstep,
    flagInv_step hflag howned hmain hguard hstep⟩

theorem setAccept_inBody {k j : Server} {pc : AcceptPc}
    (hpc : pc.InBody → (s.accept k).InBody ∨ (s.worker (.server k)).bRunning = true)
    (hin : (Function.update s.accept k pc j).InBody) :
    (s.accept j).InBody ∨ (s.worker (.server j)).bRunning = true := by
  by_cases hjk : j = k
  · subst hjk; exact hpc (by simpa using hin)
  · exact .inl (by simpa [Function.update_of_ne hjk] using hin)

/-- An accepting thread enters the body of its loop with the flag set only. -/
theorem accept_enters {act : Action} (hn : step s act = some s') {k : Server}
    (hin : (s'.accept k).InBody) :
    (s.accept k).InBody ∨ (s.worker (.server k)).bRunning = true := by
  cases act with
  | main =>
    rcases mainNext_accept hn k with hsame | hstartup
    · exact .inl (hsame ▸ hin)
    · rw [hstartup] at hin; exact hin.elim
  | startup j ok =>
    obtain ⟨-, ⟨⟩⟩ := of_guard hn
    exact setAccept_inBody (by cases ok <;> exact False.elim) hin
  | test j =>
    obtain ⟨-, ⟨⟩⟩ := of_guard hn
    refine setAccept_inBody (fun hbody => .inr ?_) hin
    split_ifs at hbody with hrunning
    · exact hrunning
    · exact hbody.elim
  | accepted j i a =>
    obtain ⟨⟨hj, -⟩, ⟨⟩⟩ := of_guard hn
    exact setAccept_inBody (fun _ => .inl (by rw [hj]; trivial)) hin
  | acceptFailed j => obtain ⟨-, ⟨⟩⟩ := of_guard hn; exact setAccept_inBody False.elim hin
  | lockToInsert j i =>
    obtain ⟨⟨hj, -⟩, ⟨⟩⟩ := of_guard hn
    exact setAccept_inBody (fun _ => .inl (by rw [hj]; trivial)) hin
  | insert j i a =>
    obtain ⟨⟨hj, -⟩, ⟨⟩⟩ := of_guard hn
    exact setAccept_inBody (fun _ => .inl (by rw [hj]; trivial)) hin
  | unlockInserted j i =>
    obtain ⟨hj, ⟨⟩⟩ := of_guard hn
    exact setAccept_inBody (fun _ => .inl (by rw [hj]; trivial)) hin
  | setRunning j i =>
    obtain ⟨hj, ⟨⟩⟩ := of_guard hn
    exact setAccept_inBody (fun _ => .inl (by rw [hj]; trivial)) hin
  | startThread j i =>
    obtain ⟨hj, ⟨⟩⟩ := of_guard hn
    exact setAccept_inBody (fun _ => .inl (by rw [hj]; trivial)) hin
  | storeHandle j i => obtain ⟨-, ⟨⟩⟩ := of_guard hn; exact setAccept_inBody False.elim hin
  | join a i =>
    obtain ⟨-, hwait⟩ := of_guard hn
    rw [wait_frame hwait] at hin
    exact .inl hin
  | _ => obtain ⟨-, ⟨⟩⟩ := of_guard hn; exact .inl hin

theorem setThread_loop (i : ℕ) (pc : ConnPc) {j : ℕ}
    (hpc : pc = .loop → (s.worker (.conn i)).bRunning = true)
    (hin : Function.update s.thread i pc j = .loop) :
    s.thread j = .loop ∨ (s.worker (.conn j)).bRunning = true := by
  by_cases hji : j = i
  · subst hji; exact .inr (hpc (by simpa using hin))
  · exact .inl (by simpa [Function.update_of_ne hji] using hin)

theorem thread_enters (howned : Owned s) {act : Action} (hn : step s act = some s') {i : ℕ}
    (hin : s'.thread i = .loop) : s.thread i = .loop ∨ (s.worker (.conn i)).bRunning = true := by
  cases act with
  | main => rw [mainNext_frame howned hn] at hin; exact .inl hin
  | startThread k j => obtain ⟨-, ⟨⟩⟩ := of_guard hn; exact setThread_loop j .test nofun hin
  | testRunning j =>
    obtain ⟨-, ⟨⟩⟩ := of_guard hn
    refine setThread_loop j _ (fun hloop => ?_) hin
    split_ifs at hloop with hrunning
    exact hrunning
  | again j => obtain ⟨-, ⟨⟩⟩ := of_guard hn; exact setThread_loop j .test nofun hin
  | leave j => obtain ⟨-, ⟨⟩⟩ := of_guard hn; exact setThread_loop j .lock nofun hin
  | lockToErase j c => obtain ⟨-, ⟨⟩⟩ := of_guard hn; exact setThread_loop j .erase nofun hin
  | erase j c => obtain ⟨-, ⟨⟩⟩ := of_guard hn; exact setThread_loop j .deleteWorker nofun hin
  | deleteWorker j c => obtain ⟨-, ⟨⟩⟩ := of_guard hn; exact setThread_loop j .unlock nofun hin
  | unlockErased j c => obtain ⟨-, ⟨⟩⟩ := of_guard hn; exact setThread_loop j .finished nofun hin
  | join a j =>
    obtain ⟨-, hwait⟩ := of_guard hn
    rw [wait_frame hwait] at hin
    exact .inl hin
  | _ => obtain ⟨-, ⟨⟩⟩ := of_guard hn; exact .inl hin

theorem loop_entered (howned : Owned s) {act : Action} (hn : step s act = some s') {w : WorkerId}
    (hin : s'.InLoop w) : s.InLoop w ∨ (s.worker w).bRunning = true := by
  cases w with
  | server k => exact accept_enters hn hin
  | conn i => exact thread_enters howned hn hin
  | deleter => exact hin.elim

/-- In a run in which `stop` is called on a worker only after its `run` has set the flag, the
flag of a worker that was stopped is never set again, and nothing enters the loop of that
worker any more. -/
theorem stop_not_lost (hs : mbserver.ReachableVia RunsFirst s) {w : WorkerId}
    (hw : s.StopCalled w) {as : List Action} (hr : mbserver.runVia RunsFirst s as = some s') :
    (s'.worker w).bRunning = false ∧
      ∀ act t, step s' act = some t → t.InLoop w → s'.InLoop w := by
  have hrun : mbserver.ReachableVia RunsFirst s' ∧ s'.StopCalled w := by
    refine TransitionSystem.runVia_invariant
      (I := fun s => mbserver.ReachableVia RunsFirst s ∧ s.StopCalled w) ?_ ⟨hs, hw⟩ as hr
    intro s act s' hguard hinv hn
    obtain ⟨-, hstep⟩ := of_guard hn
    exact ⟨hinv.1.step hguard hn,
      stopCalled_step (flagInv_of_reachable hinv.1).1 hstep hinv.2⟩
  obtain ⟨howned, -, hinv⟩ := flagInv_of_reachable hrun.1
  have hflag := (hinv.stopped w hrun.2).1
  refine ⟨hflag, fun act t hstep hin => ?_⟩
  refine (loop_entered howned hstep hin).resolve_right ?_
  rw [hflag]
  nofun

/-- The handler has stopped the connection 0, whose thread has been started and has not come to
its loop yet. -/
private def stopsFirst : List Action :=
  serversRunning ++ (connect .tcp 0 100).take 6 ++ [.storeHandle .tcp 0, .interrupt .main] ++
    stopIdle 0 .modbus ++ beginStop 0 .tcp ++ [.callStop ⟨0, .tcp⟩ 100 0]

theorem stop_not_lost_connection : ∃ s s', mbserver.ReachableVia RunsFirst s ∧
    (s.StopCalled (.conn 0) ∧ s.thread 0 = .test) ∧
    mbserver.runVia RunsFirst s [.closeSocket ⟨0, .tcp⟩ 100 0] = some s' ∧
    ((s'.worker (.conn 0)).bRunning = false ∧
      ∀ act t, step s' act = some t → t.InLoop (.conn 0) → s'.InLoop (.conn 0)) := by
  let rest : List Action := [.closeSocket ⟨0, .tcp⟩ 100 0]
  obtain ⟨s, hs, htest⟩ := TransitionSystem.exists_reachableVia_of_runVia mbserver RunsFirst
    stopsFirst
    (fun s => decide (0 < s.stops 0 ∧ s.thread 0 = .test ∧
      (mbserver.runVia RunsFirst s rest).isSome)) (by decide)
  obtain ⟨hcalled, hthread, hrest⟩ := of_decide_eq_true htest
  obtain ⟨s', hs'⟩ := Option.isSome_iff_exists.mp hrest
  exact ⟨s, s', hs, ⟨hcalled, hthread⟩, hs', stop_not_lost hs hcalled hs'⟩

/-- The rest of a `stop` that stands in the call of the connection 0. -/
private def restOfStop : List Action :=
  [.testRunning 0, .storeHandle .tcp 0, .closeSocket ⟨0, .tcp⟩ 100 0, .cancelConn ⟨0, .tcp⟩ 100 0,
    .advance ⟨0, .tcp⟩ 100 0, .clear ⟨0, .tcp⟩]

/-- The second server enters its loop after its `stop` has returned: the handler runs on the
thread of the first, and `main` runs the second between the flag and `cancelIO`. A connection
enters its loop inside its `stop`: its `run` comes between the flag and the close. -/
theorem stop_lost :
    (∃ s t, mbserver.Reachable s ∧ s.stop ⟨0, .tcp⟩ = .returned ∧ ¬ s.InLoop (.server .tcp) ∧
      mbserver.next s (.test .tcp) = some t ∧ t.InLoop (.server .tcp) ∧
      (t.worker (.server .tcp)).bRunning = true) ∧
    (∃ s t, mbserver.Reachable s ∧ s.stops 0 = 1 ∧ ¬ s.InLoop (.conn 0) ∧
      mbserver.run s restOfStop = some t ∧ t.stop ⟨0, .tcp⟩ = .returned ∧ t.InLoop (.conn 0) ∧
      (t.worker (.conn 0)).bRunning = true) := by
  constructor
  · obtain ⟨s, hs, htest⟩ := TransitionSystem.exists_reachable_of_run mbserver
      (.replicate 4 .main ++ [.startup .modbus true, .test .modbus,
        .interrupt (.worker (.server .modbus))] ++ stopIdle 0 .modbus ++
        [.clearRunning ⟨0, .tcp⟩] ++ .replicate 3 .main ++ [.startup .tcp true] ++
        (stopIdle 0 .tcp).tail)
      (fun s => decide (s.stop ⟨0, .tcp⟩ = .returned ∧ ¬ s.InLoop (.server .tcp) ∧
        ∃ t ∈ mbserver.next s (.test .tcp), t.InLoop (.server .tcp) ∧
          (t.worker (.server .tcp)).bRunning = true)) (by decide)
    obtain ⟨hreturned, hout, t, ht, hin⟩ := of_decide_eq_true htest
    exact ⟨s, t, hs, hreturned, hout, ht, hin⟩
  · obtain ⟨s, hs, htest⟩ := TransitionSystem.exists_reachable_of_run mbserver
      (serversRunning ++ (connect .tcp 0 100).take 4 ++ [.interrupt .main] ++ stopIdle 0 .modbus ++
        beginStop 0 .tcp ++ [.callStop ⟨0, .tcp⟩ 100 0, .setRunning .tcp 0, .startThread .tcp 0])
      (fun s => decide (s.stops 0 = 1 ∧ ¬ s.InLoop (.conn 0) ∧
        ∃ t ∈ mbserver.run s restOfStop, t.stop ⟨0, .tcp⟩ = .returned ∧ t.InLoop (.conn 0) ∧
          (t.worker (.conn 0)).bRunning = true)) (by decide)
    obtain ⟨hstops, hout, t, ht, hin⟩ := of_decide_eq_true htest
    exact ⟨s, t, hs, hstops, hout, ht, hin⟩

end Mbtest.Lifecycle
