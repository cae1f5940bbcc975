import Mbtest.Lifecycle.Shutdown

/-! The handle of a connection's thread: the accepting thread stores it after the thread
has been started, and the deleter joins through it. -/
namespace Mbtest.Lifecycle
open Lib

def AcceptPc.holding : AcceptPc → Option ℕ
  | .lock i | .insert i | .unlock i | .setRunning i | .startThread i | .storeHandle i => some i
  | _ => none

/-- The connection that a step waits for in `join`. -/
def Action.joins : Action → Option ℕ
  | .join _ i => some i
  | _ => none

/-- The deleter waits for a connection only when its handle has been stored. -/
def JoinsStored (s : State) (a : Action) : Prop := ∀ i ∈ a.joins, (s.worker (.conn i)).joinable

instance (s : State) (a : Action) : Decidable (JoinsStored s a) :=
  inferInstanceAs (Decidable (∀ i ∈ a.joins, (s.worker (.conn i)).joinable = true))

def Worker.Unstored (w : Worker) : Prop := w.joinable = false ∧ w.joined = false

/-- The handle of a connection is stored once, by the accepting thread that holds it. -/
structure HandleInv (s : State) : Prop where
  holding : ∀ k i, (s.accept k).holding = some i →
    (∃ a, s.conn i = some ⟨k, a⟩) ∧ (s.worker (.conn i)).Unstored
  fresh : ∀ i, s.conn i = none → (s.worker (.conn i)).Unstored
  joined : ∀ i, (s.worker (.conn i)).joined = true → (s.worker (.conn i)).joinable = false

variable {s s' : State}

theorem handleInv_initial : HandleInv initial where
  holding k i h := by cases h
  fresh i _ := ⟨rfl, rfl⟩
  joined i h := by cases h

theorem HandleInv.setAccept (hs : HandleInv s) (k : Server) (pc : AcceptPc)
    (hpc : ∀ i, pc.holding = some i → (s.accept k).holding = some i) :
    HandleInv { s with accept := Function.update s.accept k pc } := by
  refine { hs with holding := fun j i hi => ?_ }
  by_cases hjk : j = k
  · subst hjk; exact hs.holding j i (hpc i (by simpa using hi))
  · exact hs.holding j i (by simpa [Function.update_of_ne hjk] using hi)

theorem HandleInv.setWorker (hs : HandleInv s) (w : WorkerId) (x : Worker)
    (hx : ∀ i, w = .conn i →
      x.joinable = (s.worker w).joinable ∧ x.joined = (s.worker w).joined) :
    HandleInv (s.setWorker w x) := by
  have hsame : ∀ i, ((s.setWorker w x).worker (.conn i)).joinable = (s.worker (.conn i)).joinable ∧
      ((s.setWorker w x).worker (.conn i)).joined = (s.worker (.conn i)).joined := by
    intro i
    by_cases hw : .conn i = w
    · subst hw; simpa [State.setWorker] using hx i rfl
    · simp [State.setWorker, Function.update_of_ne hw]
  constructor
  · intro k i hi
    obtain ⟨hconn, hjoinable, hjoined⟩ := hs.holding k i hi
    exact ⟨hconn, (hsame i).1.trans hjoinable, (hsame i).2.trans hjoined⟩
  · intro i hi
    obtain ⟨hjoinable, hjoined⟩ := hs.fresh i hi
    exact ⟨(hsame i).1.trans hjoinable, (hsame i).2.trans hjoined⟩
  · intro i hi
    rw [(hsame i).2] at hi
    rw [(hsame i).1]
    exact hs.joined i hi

/-- The handle of a connection that no accepting thread holds any more. -/
theorem HandleInv.setHandle (hs : HandleInv s) {i : ℕ} (x : Worker)
    (hheld : ∀ k, (s.accept k).holding ≠ some i) (hconn : s.conn i ≠ none)
    (hx : x.joined = true → x.joinable = false) : HandleInv (s.setWorker (.conn i) x) := by
  have hothers : ∀ j, j ≠ i → (s.setWorker (.conn i) x).worker (.conn j) = s.worker (.conn j) :=
    fun j hj => Function.update_of_ne (by simpa using hj) _ _
  constructor
  · intro k j hj
    have hji : j ≠ i := by rintro rfl; exact hheld k hj
    rw [hothers j hji]
    exact hs.holding k j hj
  · intro j hj
    have hji : j ≠ i := by rintro rfl; exact hconn hj
    rw [hothers j hji]
    exact hs.fresh j hj
  · intro j hj
    by_cases hji : j = i
    · subst hji
      have hsame : (s.setWorker (.conn j) x).worker (.conn j) = x := Function.update_self _ _ _
      rw [hsame] at hj ⊢
      exact hx hj
    · rw [hothers j hji] at hj ⊢
      exact hs.joined j hj

theorem HandleInv.wait (hs : HandleInv s) {w : WorkerId} (hn : s.wait w = some s') :
    HandleInv s' := by
  unfold State.wait at hn
  split_ifs at hn with hjoinable hfinished
  · cases Option.some.inj hn
    cases w with
    | server k => exact hs.setWorker _ _ (by simp)
    | deleter => exact hs.setWorker _ _ (by simp)
    | conn i =>
      -- a handle that is joinable has left the hands of the accepting thread
      have hstored : ¬ (s.worker (.conn i)).Unstored := fun h => by
        rw [h.1] at hjoinable
        cases hjoinable
      exact hs.setHandle _ (fun k hk => hstored (hs.holding k i hk).2)
        (fun hi => hstored (hs.fresh i hi)) fun _ => rfl
  · cases Option.some.inj hn
    exact hs

theorem handleInv_exec (hs : HandleInv s) {stmt : Stmt} (hstmt : stmt ∈ mainProgram)
    (hn : exec s stmt = some s') : HandleInv s' := by
  have hconn : ∀ i, stmt ≠ .storeHandle (.conn i) := by
    rintro i rfl
    simp [mainProgram, run] at hstmt
  cases stmt with
  | sigaction => cases Option.some.inj hn; exact hs
  | setRunning w => cases Option.some.inj hn; exact hs.setWorker w _ fun _ _ => ⟨rfl, rfl⟩
  | clearRunning w => cases Option.some.inj hn; exact hs.setWorker w _ fun _ _ => ⟨rfl, rfl⟩
  | completeAdding => cases Option.some.inj hn; exact { hs with }
  | wait w => exact hs.wait hn
  | storeHandle w =>
    cases Option.some.inj hn
    refine hs.setWorker w _ fun i hi => ?_
    subst hi
    exact absurd rfl (hconn i)
  | startThread w =>
    cases Option.some.inj hn
    cases w with
    | server k => exact hs.setAccept k .startup (by simp [AcceptPc.holding])
    | deleter => exact { hs with }
    | conn i => exact { hs with }

theorem handleInv_main (hs : HandleInv s) (hmain : MainInv s) (hn : mainNext s = some s') :
    HandleInv s' := by
  obtain ⟨stmt, rest, hstmt, hexec⟩ := mainNext_cases hn
  have hpopped : HandleInv { s with main := rest } := { hs with }
  exact handleInv_exec hpopped (hmain.suffix.subset (hstmt ▸ List.mem_cons_self)) hexec

theorem HandleInv.accepted (hs : HandleInv s) {k : Server} {i a : ℕ} (hi : s.conn i = none) :
    HandleInv { s with
      conn := Function.update s.conn i (some ⟨k, a⟩)
      accept := Function.update s.accept k (.lock i) } := by
  have hother : ∀ j, j ≠ i → Function.update s.conn i (some ⟨k, a⟩) j = s.conn j :=
    fun j hj => Function.update_of_ne hj _ _
  refine { hs with holding := fun l j hj => ?_, fresh := fun j hj => ?_ }
  · by_cases hlk : l = k
    · subst hlk
      obtain rfl : i = j := by simpa [AcceptPc.holding] using hj
      exact ⟨⟨a, by simp⟩, hs.fresh i hi⟩
    · obtain ⟨⟨b, hb⟩, hunstored⟩ := hs.holding l j (by simpa [Function.update_of_ne hlk] using hj)
      have hji : j ≠ i := by rintro rfl; cases hi.symm.trans hb
      exact ⟨⟨b, (hother j hji).trans hb⟩, hunstored⟩
  · have hji : j ≠ i := by rintro rfl; simp at hj
    exact hs.fresh j ((hother j hji).symm.trans hj)

theorem handleInv_step (hs : HandleInv s) (hmain : MainInv s) {act : Action}
    (hn : step s act = some s') : HandleInv s' := by
  cases act with
  | main => exact handleInv_main hs hmain hn
  | clearRunning c =>
    obtain ⟨-, ⟨⟩⟩ := of_guard hn
    exact { hs.setWorker (.server c.server) { s.worker (.server c.server) with bRunning := false }
      (by simp) with }
  | callStop c a i =>
    obtain ⟨-, ⟨⟩⟩ := of_guard hn
    exact { hs.setWorker (.conn i) { s.worker (.conn i) with bRunning := false } (by simp) with }
  | startup k ok =>
    obtain ⟨-, ⟨⟩⟩ := of_guard hn
    exact { hs.setAccept k (if ok then .test else .finished)
      (by cases ok <;> simp [AcceptPc.holding]) with }
  | test k =>
    obtain ⟨-, ⟨⟩⟩ := of_guard hn
    exact hs.setAccept k _ (by split_ifs <;> simp [AcceptPc.holding])
  | accepted k i a =>
    obtain ⟨⟨-, hi, -⟩, ⟨⟩⟩ := of_guard hn
    exact { hs.accepted hi with }
  | acceptFailed k =>
    obtain ⟨-, ⟨⟩⟩ := of_guard hn
    exact hs.setAccept k .test (by simp [AcceptPc.holding])
  | lockToInsert k i =>
    obtain ⟨⟨hk, -⟩, ⟨⟩⟩ := of_guard hn
    exact { hs.setAccept k (.insert i) (by rw [hk]; exact fun _ => id) with }
  | insert k i a =>
    obtain ⟨⟨hk, -⟩, ⟨⟩⟩ := of_guard hn
    exact { hs.setAccept k (.unlock i) (by rw [hk]; exact fun _ => id) with }
  | unlockInserted k i =>
    obtain ⟨hk, ⟨⟩⟩ := of_guard hn
    exact { hs.setAccept k (.setRunning i) (by rw [hk]; exact fun _ => id) with }
  | setRunning k i =>
    obtain ⟨hk, ⟨⟩⟩ := of_guard hn
    have hset := hs.setWorker (.conn i) { s.worker (.conn i) with bRunning := true } (by simp)
    exact hset.setAccept k (.startThread i) (by
      rw [show (State.setWorker s _ _).accept k = _ from hk]
      exact fun _ => id)
  | startThread k i =>
    obtain ⟨hk, ⟨⟩⟩ := of_guard hn
    exact { hs.setAccept k (.storeHandle i) (by rw [hk]; exact fun _ => id) with }
  | storeHandle k i =>
    obtain ⟨⟨hk, -⟩, ⟨⟩⟩ := of_guard hn
    obtain ⟨⟨a, hconn⟩, hunstored⟩ := hs.holding k i (by rw [hk]; rfl)
    have hmoved := hs.setAccept k .test (by simp [AcceptPc.holding])
    refine hmoved.setHandle { s.worker (.conn i) with joinable := true } (fun j hj => ?_)
      (by rw [show State.conn _ i = _ from hconn]; simp) (by simp [hunstored.2])
    -- a connection is started by its own server
    by_cases hjk : j = k
    · subst hjk; simp [AcceptPc.holding] at hj
    · obtain ⟨⟨b, hb⟩, -⟩ := hs.holding j i (by simpa [Function.update_of_ne hjk] using hj)
      cases Option.some.inj (hconn.symm.trans hb)
      exact hjk rfl
  | join a i =>
    obtain ⟨-, hwait⟩ := of_guard hn
    have hmoved : HandleInv { s with deleter := .delete a } := { hs with }
    exact hmoved.wait hwait
  | _ => obtain ⟨-, ⟨⟩⟩ := of_guard hn; exact { hs with }

/-- What the deleter has in its hands, or has deleted, is over. -/
structure JoinInv (s : State) : Prop where
  joined : ∀ a i, s.deleter = .delete a → s.heap a = some i → s.Over i
  deleted : ∀ i, s.deletes i ≠ 0 → s.Over i

theorem joinInv_initial : JoinInv initial where
  joined a i h := by cases h
  deleted i h := absurd rfl h

theorem JoinInv.of_same (hs : JoinInv s) (hover : ∀ i, s.Over i → s'.Over i)
    (hdeleter : ∀ a, s'.deleter = .delete a → s.deleter = .delete a) (hheap : s'.heap = s.heap)
    (hdeletes : s'.deletes = s.deletes) : JoinInv s' where
  joined a i hd ha := hover i (hs.joined a i (hdeleter a hd) (hheap ▸ ha))
  deleted i hi := hover i (hs.deleted i (hdeletes ▸ hi))

theorem mainNext_deleter (hn : mainNext s = some s') :
    s'.deleter = s.deleter ∨ s'.deleter = .test := by
  obtain ⟨stmt, rest, -, hexec⟩ := mainNext_cases hn
  cases stmt with
  | wait w => rw [wait_frame hexec]; exact .inl rfl
  | startThread w =>
    cases Option.some.inj hexec
    cases w with
    | deleter => exact .inr rfl
    | _ => exact .inl rfl
  | _ => cases Option.some.inj hexec; exact .inl rfl

theorem joinInv_step (hs : JoinInv s) (howned : Owned s) {act : Action}
    (hguard : JoinsStored s act) (hn : step s act = some s') : JoinInv s' := by
  have hover : ∀ i, s.Over i → s'.Over i := fun i => over_step howned hn
  cases act with
  | main =>
    have hframe := mainNext_frame howned hn
    refine hs.of_same hover (fun a hd => ?_) (by rw [hframe]) (by rw [hframe])
    rcases mainNext_deleter hn with hsame | htest
    · rwa [← hsame]
    · cases htest.symm.trans hd
  | accepted k i a =>
    obtain ⟨⟨-, -, ha⟩, ⟨⟩⟩ := of_guard hn
    refine ⟨fun b j hd hb => hs.joined b j hd ?_, hs.deleted⟩
    have hba : b ≠ a := howned.deleting_ne hd ha
    simpa [Function.update_of_ne hba] using hb
  | testCompleted =>
    obtain ⟨-, ⟨⟩⟩ := of_guard hn
    exact hs.of_same hover (fun a hd => by split_ifs at hd) rfl rfl
  | take a => obtain ⟨-, ⟨⟩⟩ := of_guard hn; exact hs.of_same hover (by simp) rfl rfl
  | takeCompleted => obtain ⟨-, ⟨⟩⟩ := of_guard hn; exact hs.of_same hover (by simp) rfl rfl
  | join a i =>
    obtain ⟨⟨-, hi⟩, hwait⟩ := of_guard hn
    obtain ⟨hfinished, ⟨⟩⟩ :=
      wait_of_joinable (s := { s with deleter := .delete a }) (hguard i rfl) hwait
    refine ⟨fun b j hd hj => ?_, fun j hj => hover j (hs.deleted j hj)⟩
    cases hd
    cases hi.symm.trans hj
    exact ⟨hfinished, by simp [State.setWorker]⟩
  | delete a i =>
    obtain ⟨⟨hd, ha, -⟩, ⟨⟩⟩ := of_guard hn
    refine ⟨by simp, fun j hj => ?_⟩
    by_cases hji : j = i
    · subst hji; exact hs.joined a j hd ha
    · exact hs.deleted j (by simpa [Function.update_of_ne hji] using hj)
  | _ =>
    obtain ⟨-, ⟨⟩⟩ := of_guard hn
    exact hs.of_same hover (fun _ => id) rfl rfl

/-- The thread of a connection has been joined, and the `run` that started it is done. -/
def State.Released (s : State) (i : ℕ) : Prop :=
  s.Over i ∧ ∀ k, (s.accept k).holding ≠ some i

theorem HandleInv.released (hs : HandleInv s) {i : ℕ} (hi : s.Over i) : s.Released i := by
  refine ⟨hi, fun k hk => ?_⟩
  have hjoined := (hs.holding k i hk).2.2
  rw [hi.2] at hjoined
  cases hjoined

/-- No connection is deleted before its thread is joined and its `run` has returned. -/
structure DeletesReleased (s : State) : Prop where
  joined : ∀ a i, s.deleter = .delete a → s.heap a = some i → s.Released i
  deleted : ∀ i, s.deletes i ≠ 0 → s.Released i
  fault : s.fault ≠ some .storeDeleted ∧ s.fault ≠ some .terminate

theorem deletesReleased_of_inv (hhandle : HandleInv s) (hjoin : JoinInv s)
    (hfault : s.fault ≠ some .storeDeleted ∧ s.fault ≠ some .terminate) : DeletesReleased s where
  joined a i hd ha := hhandle.released (hjoin.joined a i hd ha)
  deleted i hi := hhandle.released (hjoin.deleted i hi)
  fault := hfault

theorem deletesReleased_fault (hs : DeletesReleased s) (howned : Owned s) (hhandle : HandleInv s)
    {act : Action} (hn : step s act = some s') :
    s'.fault ≠ some .storeDeleted ∧ s'.fault ≠ some .terminate := by
  rcases step_fault howned hn with hsame | ⟨f, c, a, i, hfaulty, hf⟩
  · rw [hsame]; exact hs.fault
  · rw [hf]
    constructor
    · rintro ⟨⟩
      exact (hs.deleted i hfaulty.2).2 c.server (by rw [hfaulty.1]; rfl)
    · rintro ⟨⟩
      obtain ⟨hd, ha, hjoinable⟩ := hfaulty
      have hjoined := hhandle.joined i (hs.joined a i hd ha).1.2
      rw [hjoinable] at hjoined
      cases hjoined

/-- In a run in which the deleter waits for a connection only when its handle is stored,
every connection is released before it is deleted. -/
theorem deletes_released (hs : mbserver.ReachableVia JoinsStored s) : DeletesReleased s := by
  have hinv : Owned s ∧ MainInv s ∧ HandleInv s ∧ JoinInv s ∧ DeletesReleased s := by
    refine hs.invariant
      (I := fun s => Owned s ∧ MainInv s ∧ HandleInv s ∧ JoinInv s ∧ DeletesReleased s) ?_ ?_
    · exact ⟨owned_initial, mainInv_initial, handleInv_initial, joinInv_initial,
        deletesReleased_of_inv handleInv_initial joinInv_initial (by simp [mbserver, initial])⟩
    · intro s act s' hguard hinv hn
      obtain ⟨howned, hmain, hhandle, hjoin, hreleased⟩ := hinv
      obtain ⟨-, hstep⟩ := of_guard hn
      have hhandle' := handleInv_step hhandle hmain hstep
      have hjoin' := joinInv_step hjoin howned hguard hstep
      have hfault := deletesReleased_fault hreleased howned hhandle hstep
      exact ⟨owned_step howned hstep, mainInv_step hmain howned hstep, hhandle', hjoin',
        deletesReleased_of_inv hhandle' hjoin' hfault⟩
  exact hinv.2.2.2.2

theorem deletes_released_once : ∃ s, mbserver.ReachableVia JoinsStored s ∧
    s.deletes 0 = 1 ∧ DeletesReleased s := by
  obtain ⟨s, hs, htest⟩ := TransitionSystem.exists_reachableVia_of_runVia mbserver JoinsStored
    (serversRunning ++ connect .tcp 0 100 ++ deregister .tcp 0 100 ++ deleteConnection 0 100)
    (fun s => decide (s.deletes 0 = 1)) (by decide)
  exact ⟨s, hs, of_decide_eq_true htest, deletes_released hs⟩

/-- A connection lives and dies before its handle is stored: the deleter does not wait for
it, and the accepting thread is left with a store into a deleted object. -/
theorem deleted_before_store : ∃ s, mbserver.Reachable s ∧ s.deletes 0 = 1 ∧
    (s.worker (.conn 0)).joined = false ∧ s.accept .tcp = .storeHandle 0 := by
  obtain ⟨s, hs, htest⟩ := TransitionSystem.exists_reachable_of_run mbserver
    (serversRunning ++ (connect .tcp 0 100).take 7 ++ deregister .tcp 0 100 ++
      deleteConnection 0 100)
    (fun s => decide (s.deletes 0 = 1 ∧ (s.worker (.conn 0)).joined = false ∧
      s.accept .tcp = .storeHandle 0)) (by decide)
  exact ⟨s, hs, of_decide_eq_true htest⟩

end Mbtest.Lifecycle
