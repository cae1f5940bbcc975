import Mbtest.Lifecycle.StopConnections

/-! What `main` leaves behind when it returns: it waits for the two accepting threads and
for the deleter, and for connections only through the deleter. -/
namespace Mbtest.Lifecycle
open Lib

/-- Every connection is handed over before `complete_adding`, and the deleter waits for a
connection only after its handle was stored. -/
def HandsOver (s : State) : Action → Prop
  | .main => s.main.head? = some .completeAdding → ∀ i ∈ s.registered, s.added i
  | .join _ i => (s.worker (.conn i)).joinable
  | _ => True

instance (s : State) (a : Action) : Decidable (HandsOver s a) :=
  match a with
  | .main => inferInstanceAs (Decidable
      (s.main.head? = some .completeAdding → ∀ i ∈ s.registered, s.added i = true))
  | .join _ i => inferInstanceAs (Decidable ((s.worker (.conn i)).joinable = true))
  | .interrupt _ | .clearRunning _ | .closeListener _ | .cancelIo _ | .first _ | .callStop _ _ _
  | .closeSocket _ _ _ | .cancelConn _ _ _ | .advance _ _ _ | .clear _ | .startup _ _ | .test _
  | .accepted _ _ _ | .acceptFailed _ | .lockToInsert _ _ | .insert _ _ _ | .unlockInserted _ _
  | .setRunning _ _ | .startThread _ _ | .storeHandle _ _ | .testRunning _ | .again _ | .leave _
  | .lockToErase _ _ | .erase _ _ | .deleteWorker _ _ | .unlockErased _ _ | .testCompleted
  | .take _ | .takeCompleted | .delete _ _ | .fault _ _ _ _ => .isTrue trivial

/-- How the statements of `main` follow on each other. -/
def wellOrdered : List Stmt → Bool
  | .startThread w :: rest => .wait w ∈ rest ∧ .startThread w ∉ rest
  | .wait w :: rest => .storeHandle w ∉ rest ∧ .wait w ∉ rest
  | .completeAdding :: rest => .completeAdding ∉ rest
  | _ => true

theorem wellOrdered_of_suffix {l : List Stmt} (h : l <:+ mainProgram) : wellOrdered l = true :=
  List.all_eq_true.mp (by decide : mainProgram.tails.all wellOrdered = true) l
    ((List.mem_tails l mainProgram).mpr h)

/-- `complete_adding` comes after both servers have been waited for. -/
theorem waited_of_completed {l : List Stmt} (h : l <:+ mainProgram) (hl : .completeAdding ∉ l)
    (k : Server) : .wait (.server k) ∉ l := by
  have hall : ∀ l ∈ mainProgram.tails, .completeAdding ∉ l → ∀ k ∈ [Server.modbus, .tcp],
      .wait (.server k) ∉ l := by decide
  exact hall l ((List.mem_tails l mainProgram).mpr h) hl k (by cases k <;> decide)

variable {s s' : State}

theorem finished_step (howned : Owned s) {act : Action} (hact : act ≠ .main)
    (hn : step s act = some s') {w : WorkerId} (hw : s.finished w) : s'.finished w := by
  cases act with
  | main => exact absurd rfl hact
  | startThread k i =>
    obtain ⟨hk, ⟨⟩⟩ := of_guard hn
    have hthread := (howned.starting k i (by rw [hk]; rfl)).1
    cases w <;> simp only [State.finished, State.startThread] at * <;> grind [Function.update_apply]
  | join a i =>
    obtain ⟨⟨hd, -⟩, hwait⟩ := of_guard hn
    rw [wait_frame hwait]
    cases w <;> simp only [State.finished] at * <;> grind
  | _ =>
    -- the thread that moves is at another point than its end
    obtain ⟨hg, ⟨⟩⟩ := of_guard hn
    cases w <;> simp only [State.finished, State.setRunning, State.clearRunning, State.storeHandle,
      State.setWorker] at * <;> grind [Function.update_apply]

theorem setWorker_joined {w u : WorkerId} {x : Worker} (hx : (s.worker w).joined → x.joined)
    (hu : (s.worker u).joined) : ((s.setWorker w x).worker u).joined := by
  by_cases huw : u = w
  · subst huw; simpa [State.setWorker] using hx hu
  · simpa [State.setWorker, Function.update_of_ne huw] using hu

theorem wait_of_joinable {w : WorkerId} (hw : (s.worker w).joinable) (hn : s.wait w = some s') :
    s.finished w ∧
      some (s.setWorker w { s.worker w with joinable := false, joined := true }) = some s' := by
  unfold State.wait at hn
  rw [if_pos hw] at hn
  exact of_guard hn

theorem wait_joined {w u : WorkerId} (hn : s.wait w = some s') (hu : (s.worker u).joined) :
    (s'.worker u).joined := by
  unfold State.wait at hn
  split_ifs at hn <;> cases Option.some.inj hn
  · exact setWorker_joined (fun _ => rfl) hu
  · exact hu

theorem exec_joined {stmt : Stmt} {u : WorkerId} (hn : exec s stmt = some s')
    (hu : (s.worker u).joined) : (s'.worker u).joined := by
  cases stmt with
  | setRunning w => cases Option.some.inj hn; exact setWorker_joined id hu
  | storeHandle w => cases Option.some.inj hn; exact setWorker_joined id hu
  | clearRunning w => cases Option.some.inj hn; exact setWorker_joined id hu
  | startThread w => cases Option.some.inj hn; cases w <;> exact hu
  | wait w => exact wait_joined hn hu
  | sigaction => cases Option.some.inj hn; exact hu
  | completeAdding => cases Option.some.inj hn; exact hu

theorem joined_step {act : Action} (hn : step s act = some s') {u : WorkerId}
    (hu : (s.worker u).joined) : (s'.worker u).joined := by
  cases act with
  | main =>
    obtain ⟨stmt, rest, -, hexec⟩ := mainNext_cases hn
    exact exec_joined hexec hu
  | clearRunning c => obtain ⟨-, ⟨⟩⟩ := of_guard hn; exact setWorker_joined id hu
  | callStop c a i => obtain ⟨-, ⟨⟩⟩ := of_guard hn; exact setWorker_joined id hu
  | setRunning k i => obtain ⟨-, ⟨⟩⟩ := of_guard hn; exact setWorker_joined id hu
  | storeHandle k i => obtain ⟨-, ⟨⟩⟩ := of_guard hn; exact setWorker_joined id hu
  | join a i => obtain ⟨-, hwait⟩ := of_guard hn; exact wait_joined hwait hu
  | _ => obtain ⟨-, ⟨⟩⟩ := of_guard hn; exact hu

def WorkerId.OfMain : WorkerId → Prop
  | .conn _ => False
  | _ => True

/-- Beside `main` nobody touches what `main` has left to do or the handles it has stored. -/
theorem step_ofMain {act : Action} (hact : act ≠ .main) (hn : step s act = some s') :
    s'.main = s.main ∧ ∀ w : WorkerId, w.OfMain → (s'.worker w).joinable = (s.worker w).joinable := by
  cases act with
  | main => exact absurd rfl hact
  | join a i =>
    obtain ⟨-, hwait⟩ := of_guard hn
    refine ⟨by rw [wait_frame hwait], fun w hw => ?_⟩
    unfold State.wait at hwait
    split_ifs at hwait <;> cases Option.some.inj hwait <;>
      cases w <;> simp [State.setWorker, WorkerId.OfMain] at *
  | _ =>
    obtain ⟨-, ⟨⟩⟩ := of_guard hn
    refine ⟨rfl, fun w hw => ?_⟩
    cases w <;> simp only [WorkerId.OfMain, State.setRunning, State.clearRunning, State.storeHandle,
      State.startThread, State.setWorker] at * <;> grind [Function.update_apply]

/-- Where `main` stands: the handles it has stored and not joined yet, the threads it
has waited for. -/
structure MainInv (s : State) : Prop where
  suffix : s.main <:+ mainProgram
  stored : ∀ w, .storeHandle w ∉ s.main → .wait w ∈ s.main → (s.worker w).joinable
  waited : ∀ w, .wait w ∈ mainProgram → .wait w ∉ s.main → s.finished w
  deleter : .startThread .deleter ∈ s.main → s.deleter = .notStarted

theorem ofMain_of_mem {w : WorkerId} (h : .wait w ∈ mainProgram) : w.OfMain := by
  cases w with
  | conn i => simp [mainProgram, run] at h
  | _ => trivial

theorem mainInv_initial : MainInv initial where
  suffix := List.suffix_rfl
  stored w h hw := by
    cases w with
    | server k => cases k <;> simp [initial, mainProgram, run] at h
    | deleter => simp [initial, mainProgram, run] at h
    | conn i => simp [initial, mainProgram, run] at hw
  waited w h h' := absurd h h'
  deleter _ := rfl

theorem mainInv_other (hs : MainInv s) (howned : Owned s) {act : Action} (hact : act ≠ .main)
    (hn : step s act = some s') : MainInv s' := by
  obtain ⟨hmain, hjoinable⟩ := step_ofMain hact hn
  refine ⟨by rw [hmain]; exact hs.suffix, fun w hw hwait => ?_, fun w hw hwait => ?_, fun h => ?_⟩
  · rw [hmain] at hw hwait
    rw [hjoinable w (ofMain_of_mem (hs.suffix.subset hwait))]
    exact hs.stored w hw hwait
  · rw [hmain] at hwait
    exact finished_step howned hact hn (hs.waited w hw hwait)
  · rw [hmain] at h
    have hd := hs.deleter h
    cases act with
    | main => exact absurd rfl hact
    | join a i => obtain ⟨⟨hk, -⟩, -⟩ := of_guard hn; rw [hd] at hk; cases hk
    | _ =>
      obtain ⟨hg, ⟨⟩⟩ := of_guard hn
      grind [State.setRunning, State.clearRunning, State.storeHandle, State.startThread,
        State.setWorker]

theorem MainInv.setWorker (hs : MainInv s) (w : WorkerId) {x : Worker}
    (hx : .wait w ∈ s.main → (s.worker w).joinable → x.joinable) : MainInv (s.setWorker w x) where
  suffix := hs.suffix
  stored u hu hwait := by
    by_cases huw : u = w
    · subst huw; simpa [State.setWorker] using hx hwait (hs.stored u hu hwait)
    · simpa [State.setWorker, Function.update_of_ne huw] using hs.stored u hu hwait
  waited u hu hwait := by cases u <;> exact hs.waited _ hu hwait
  deleter := hs.deleter

theorem MainInv.pop (hs : MainInv s) {stmt : Stmt} {rest : List Stmt}
    (hmain : s.main = stmt :: rest) (hstore : ∀ w, stmt = .storeHandle w → (s.worker w).joinable)
    (hwait : ∀ w, stmt = .wait w → s.finished w) : MainInv { s with main := rest } where
  suffix := (List.suffix_cons stmt rest).trans (hmain ▸ hs.suffix)
  stored w hw hmem := by
    by_cases hstmt : stmt = .storeHandle w
    · exact hstore w hstmt
    · refine hs.stored w ?_ (hmain ▸ List.mem_cons_of_mem stmt hmem)
      rw [hmain]
      exact List.not_mem_cons_of_ne_of_not_mem (Ne.symm hstmt) hw
  waited w hw hmem := by
    have hfinished : s.finished w := by
      by_cases hstmt : stmt = .wait w
      · exact hwait w hstmt
      · refine hs.waited w hw ?_
        rw [hmain]
        exact List.not_mem_cons_of_ne_of_not_mem (Ne.symm hstmt) hmem
    cases w <;> exact hfinished
  deleter h := hs.deleter (hmain ▸ List.mem_cons_of_mem stmt h)

theorem MainInv.startThread (hs : MainInv s) {w : WorkerId} (hwait : .wait w ∈ s.main)
    (hnot : .startThread w ∉ s.main) : MainInv (s.startThread w) := by
  have hothers : ∀ u, u ≠ w → s.finished u → (s.startThread w).finished u := by
    intro u hu h
    cases u <;> cases w <;> simp only [State.finished, State.startThread] at * <;>
      grind [Function.update_apply]
  refine ⟨by cases w <;> exact hs.suffix, by cases w <;> exact hs.stored, fun u hu hmem => ?_, ?_⟩
  · have hmem' : .wait u ∉ s.main := by cases w <;> exact hmem
    exact hothers u (by rintro rfl; exact hmem' hwait) (hs.waited u hu hmem')
  · cases w with
    | deleter => exact fun h => absurd h hnot
    | server k => exact hs.deleter
    | conn i => exact hs.deleter

theorem mainInv_main (hs : MainInv s) (hn : mainNext s = some s') : MainInv s' := by
  obtain ⟨stmt, rest, hmain, hexec⟩ := mainNext_cases hn
  have hordered := wellOrdered_of_suffix (hmain ▸ hs.suffix)
  cases stmt with
  | sigaction => cases Option.some.inj hexec; exact hs.pop hmain nofun nofun
  | completeAdding =>
    cases Option.some.inj hexec
    have h := hs.pop hmain nofun nofun
    exact { h with }
  | setRunning w =>
    cases Option.some.inj hexec
    exact (hs.pop hmain nofun nofun).setWorker w fun _ => id
  | clearRunning w =>
    cases Option.some.inj hexec
    exact (hs.pop hmain nofun nofun).setWorker w fun _ => id
  | storeHandle w =>
    cases Option.some.inj hexec
    have h := hs.setWorker w (x := { s.worker w with joinable := true }) fun _ _ => rfl
    refine h.pop hmain (fun u hu => ?_) nofun
    cases hu
    simp [State.setWorker]
  | startThread w =>
    cases Option.some.inj hexec
    simp only [wellOrdered, decide_eq_true_eq] at hordered
    exact (hs.pop hmain nofun nofun).startThread hordered.1 hordered.2
  | wait w =>
    simp only [wellOrdered, decide_eq_true_eq] at hordered
    -- `main` has stored the handle, so it has been blocked until the thread was finished
    have hjoinable : (s.worker w).joinable := by
      refine hs.stored w ?_ (hmain ▸ List.mem_cons_self)
      rw [hmain]
      exact List.not_mem_cons_of_ne_of_not_mem nofun hordered.1
    obtain ⟨hfinished, ⟨⟩⟩ := wait_of_joinable (s := { s with main := rest }) hjoinable hexec
    have h := hs.pop hmain nofun fun u hu => by
      cases hu
      cases w <;> exact hfinished
    exact h.setWorker w fun hmem => absurd hmem hordered.2

theorem mainInv_step (hs : MainInv s) (howned : Owned s) {act : Action}
    (hn : step s act = some s') : MainInv s' := by
  by_cases hact : act = .main
  · subst hact; exact mainInv_main hs hn
  · exact mainInv_other hs howned hact hn

def State.Over (s : State) (i : ℕ) : Prop :=
  s.thread i = .finished ∧ (s.worker (.conn i)).joined

/-- Where the connections are that the deletion queue has accepted. -/
structure HandOverInv (s : State) : Prop where
  added : ∀ i, s.added i → s.deletes i = 1 ∨ ∃ a ∈ s.pending, s.heap a = some i
  deleted : ∀ i, s.deletes i ≠ 0 → s.Over i
  joined : ∀ a i, s.deleter = .delete a → s.heap a = some i → s.Over i
  completed : s.addingCompleted → .completeAdding ∉ s.main ∧ ∀ i ∈ s.registered, s.added i
  drained : s.deleter = .finished → s.addingCompleted ∧ s.threads = []

theorem handOverInv_initial : HandOverInv initial where
  added i h := by cases h
  deleted i h := absurd rfl h
  joined a i h := by cases h
  completed h := by cases h
  drained h := by cases h

theorem over_step (howned : Owned s) {act : Action} (hn : step s act = some s') {i : ℕ}
    (hi : s.Over i) : s'.Over i := by
  refine ⟨?_, joined_step hn hi.2⟩
  by_cases hact : act = .main
  · subst hact
    rw [mainNext_frame howned hn]
    exact hi.1
  · exact finished_step howned hact hn (w := .conn i) hi.1

/-- The deletion queue, its deleter, the heap and the history beside them stay as they are. -/
structure SameQueue (s s' : State) : Prop where
  heap : s'.heap = s.heap
  deleter : s'.deleter = s.deleter
  threads : s'.threads = s.threads
  addingCompleted : s'.addingCompleted = s.addingCompleted
  registered : s'.registered = s.registered
  added : s'.added = s.added
  deletes : s'.deletes = s.deletes

/-- A step that leaves the queue alone keeps the invariant, since threads that are over
stay over. -/
theorem HandOverInv.of_sameQueue (hs : HandOverInv s) (hqueue : SameQueue s s')
    (hover : ∀ i, s.Over i → s'.Over i) (hmain : s'.main ⊆ s.main) : HandOverInv s' := by
  have hpending : s'.pending = s.pending := by
    unfold State.pending
    rw [hqueue.deleter, hqueue.threads]
  constructor
  case added =>
    rw [hqueue.added, hqueue.deletes, hqueue.heap, hpending]
    exact hs.added
  case deleted =>
    rw [hqueue.deletes]
    exact fun i h => hover i (hs.deleted i h)
  case joined =>
    rw [hqueue.deleter, hqueue.heap]
    exact fun a i hd ha => hover i (hs.joined a i hd ha)
  case completed =>
    rw [hqueue.addingCompleted, hqueue.registered, hqueue.added]
    intro h
    obtain ⟨hnot, hall⟩ := hs.completed h
    exact ⟨fun hmem => hnot (hmain hmem), hall⟩
  case drained =>
    rw [hqueue.deleter, hqueue.addingCompleted, hqueue.threads]
    exact hs.drained

theorem HandOverInv.setDeleter (hs : HandOverInv s) (pc : DeleterPc) (threads : List ℕ)
    (hpending : State.pending { s with deleter := pc, threads := threads } = s.pending)
    (hjoined : ∀ a i, pc = .delete a → s.heap a = some i → s.Over i)
    (hdrained : pc = .finished → s.addingCompleted ∧ threads = []) :
    HandOverInv { s with deleter := pc, threads := threads } :=
  { hs with
    added := fun i h => by rw [hpending]; exact hs.added i h
    joined := hjoined
    drained := hdrained }

theorem HandOverInv.main (hs : HandOverInv s) (hmain : MainInv s) (howned : Owned s)
    (hover : ∀ i, s.Over i → s'.Over i)
    (hall : s.main.head? = some .completeAdding → ∀ i ∈ s.registered, s.added i)
    (hn : mainNext s = some s') : HandOverInv s' := by
  obtain ⟨stmt, rest, hstmt, hexec⟩ := mainNext_cases hn
  have hordered := wellOrdered_of_suffix (hstmt ▸ hmain.suffix)
  have hrest : rest ⊆ s.main := hstmt ▸ List.subset_cons_self stmt rest
  cases stmt with
  | completeAdding =>
    cases Option.some.inj hexec
    exact { hs with
      deleted := fun i h => hover i (hs.deleted i h)
      joined := fun a i hd ha => hover i (hs.joined a i hd ha)
      completed := fun _ => ⟨by simpa [wellOrdered] using hordered, hall (by rw [hstmt]; rfl)⟩
      drained := fun h => ⟨rfl, (hs.drained h).2⟩ }
  | startThread w =>
    cases Option.some.inj hexec
    cases w with
    | conn i => exact absurd (hstmt ▸ List.mem_cons_self) (howned.main i)
    | server k => exact hs.of_sameQueue ⟨rfl, rfl, rfl, rfl, rfl, rfl, rfl⟩ hover hrest
    | deleter =>
      have hd := hmain.deleter (hstmt ▸ List.mem_cons_self)
      have hpopped : HandOverInv { s with main := rest } :=
        hs.of_sameQueue ⟨rfl, rfl, rfl, rfl, rfl, rfl, rfl⟩ (fun _ => id) hrest
      exact hpopped.setDeleter .test s.threads (by simp [State.pending, hd]) nofun nofun
  | wait w =>
    rw [wait_frame hexec] at hover ⊢
    exact hs.of_sameQueue ⟨rfl, rfl, rfl, rfl, rfl, rfl, rfl⟩ hover hrest
  | _ =>
    cases Option.some.inj hexec
    exact hs.of_sameQueue ⟨rfl, rfl, rfl, rfl, rfl, rfl, rfl⟩ hover hrest

/-- A deletion is of a connection that is over, and leaves the rest of the queue alone. -/
theorem HandOverInv.delete (hs : HandOverInv s) (howned : Owned s) {a i : ℕ}
    (hd : s.deleter = .delete a) (ha : s.heap a = some i) :
    HandOverInv { s with
      heap := Function.update s.heap a none
      deletes := Function.update s.deletes i (s.deletes i + 1)
      deleter := .test } := by
  have hpending : s.pending = a :: s.threads := by simp [State.pending, hd]
  refine { hs with
    added := fun j hj => ?_
    deleted := fun j hj => ?_
    joined := fun b j hb => by cases hb
    drained := fun h => by cases h }
  · by_cases hji : j = i
    · subst hji
      exact .inl (by simp [howned.undeleted a j ha])
    · refine (hs.added j hj).imp (fun h => by simpa [Function.update_of_ne hji] using h) ?_
      rintro ⟨b, hb, hheap⟩
      have hba : b ≠ a := by
        rintro rfl
        exact hji (Option.some.inj (hheap.symm.trans ha))
      rw [hpending] at hb
      exact ⟨b, (List.mem_cons.mp hb).resolve_left hba, (Function.update_of_ne hba _ _).trans hheap⟩
  · by_cases hji : j = i
    · subst hji
      exact hs.joined a j hd ha
    · exact hs.deleted j (by simpa [Function.update_of_ne hji] using hj)

theorem HandOverInv.deleteWorker (hs : HandOverInv s) (howned : Owned s) {i : ℕ} {c : Connection}
    (hover : ∀ j, s.Over j → State.Over { s with thread := Function.update s.thread i .unlock } j)
    (hthread : s.thread i = .deleteWorker) (hc : s.conn i = some c) :
    HandOverInv { s with
      threads := if s.addingCompleted then s.threads else s.threads ++ [c.addr]
      added := if s.addingCompleted then s.added else Function.update s.added i true
      thread := Function.update s.thread i .unlock } := by
  cases hcompleted : s.addingCompleted with
  | true =>
    exact hs.of_sameQueue ⟨rfl, rfl, rfl, hcompleted.symm, rfl, rfl, rfl⟩ hover (List.Subset.refl _)
  | false =>
    refine { hs with
      added := fun j hj => ?_
      deleted := fun j h => hover j (hs.deleted j h)
      joined := fun a j hd ha => hover j (hs.joined a j hd ha)
      completed := nofun
      drained := fun h => by cases hcompleted.symm.trans (hs.drained h).1 }
    have hpending : ∀ a ∈ s.pending ++ [c.addr],
        a ∈ State.pending { s with threads := s.threads ++ [c.addr] } :=
      fun a ha => by rw [pending_append]; exact ha
    by_cases hji : j = i
    · subst hji
      exact .inr ⟨c.addr, hpending _ (by simp), howned.alive j c hc (by rw [hthread]; exact id)⟩
    · exact (hs.added j (by simpa [Function.update_of_ne hji] using hj)).imp_right
        fun ⟨a, ha, hheap⟩ => ⟨a, hpending a (List.mem_append_left _ ha), hheap⟩

theorem HandOverInv.accepted (hs : HandOverInv s) (howned : Owned s) {a i : ℕ}
    (ha : s.heap a = none) : HandOverInv { s with heap := Function.update s.heap a (some i) } := by
  refine { hs with added := fun j hj => ?_, joined := fun b j hd hb => ?_ }
  · refine (hs.added j hj).imp_right fun ⟨b, hb, hheap⟩ => ⟨b, hb, ?_⟩
    have hba : b ≠ a := by rintro rfl; cases ha.symm.trans hheap
    exact (Function.update_of_ne hba _ _).trans hheap
  · have hba : b ≠ a := howned.deleting_ne hd ha
    exact hs.joined b j hd (by simpa [Function.update_of_ne hba] using hb)

theorem handOver_step (hs : HandOverInv s) (hmain : MainInv s) (howned : Owned s) {act : Action}
    (hguard : HandsOver s act) (hn : step s act = some s') : HandOverInv s' := by
  have hover : ∀ i, s.Over i → s'.Over i := fun i => over_step howned hn
  cases act with
  | main => exact hs.main hmain howned hover hguard hn
  | accepted k i a => obtain ⟨⟨-, -, ha⟩, ⟨⟩⟩ := of_guard hn; exact { hs.accepted howned ha with }
  | insert k i a =>
    obtain ⟨⟨hk, -⟩, ⟨⟩⟩ := of_guard hn
    -- `complete_adding` comes after the accepting threads are over
    refine { hs with completed := fun h => absurd ?_ (?_ : s.accept k ≠ .finished) }
    · exact hmain.waited (.server k) (by cases k <;> decide)
        (waited_of_completed hmain.suffix (hs.completed h).1 k)
    · simp [hk]
  | deleteWorker i c =>
    obtain ⟨⟨hthread, hc⟩, ⟨⟩⟩ := of_guard hn
    exact hs.deleteWorker howned hover hthread hc
  | testCompleted =>
    obtain ⟨hd, ⟨⟩⟩ := of_guard hn
    refine hs.setDeleter _ _ ?_ (fun a i h => ?_) fun h => ?_
    · unfold State.pending
      split_ifs <;> simp [hd]
    · split_ifs at h
    · split_ifs at h with hdone
      exact hdone
  | take a =>
    obtain ⟨⟨hd, hhead⟩, ⟨⟩⟩ := of_guard hn
    obtain ⟨rest, hthreads⟩ := List.head?_eq_some_iff.mp hhead
    exact hs.setDeleter _ _ (by simp [State.pending, hd, hthreads]) (by simp) (by simp)
  | takeCompleted =>
    obtain ⟨⟨hd, -⟩, ⟨⟩⟩ := of_guard hn
    exact hs.setDeleter _ _ (by simp [State.pending, hd]) (by simp) (by simp)
  | join a i =>
    obtain ⟨⟨hd, hi⟩, hwait⟩ := of_guard hn
    obtain ⟨hfinished, ⟨⟩⟩ := wait_of_joinable (s := { s with deleter := .delete a }) hguard hwait
    let joined := s.setWorker (.conn i)
      { s.worker (.conn i) with joinable := false, joined := true }
    have hs' : HandOverInv joined := { hs with
      deleted := fun j h => hover j (hs.deleted j h)
      joined := fun b j hb => by cases hd.symm.trans hb }
    refine hs'.setDeleter (.delete a) s.threads ?_ (fun b j hb hj => ?_) (by simp)
    · simp [joined, State.pending, State.setWorker, hd]
    · cases hb
      cases hi.symm.trans hj
      exact ⟨hfinished, by simp [joined, State.setWorker]⟩
  | delete a i => obtain ⟨⟨hd, ha, -⟩, ⟨⟩⟩ := of_guard hn; exact hs.delete howned hd ha
  | _ =>
    obtain ⟨-, ⟨⟩⟩ := of_guard hn
    exact hs.of_sameQueue ⟨rfl, rfl, rfl, rfl, rfl, rfl, rfl⟩ hover (List.Subset.refl _)

/-- In a run in which every connection is handed over before `complete_adding`, and
waited for with its handle in place, `main` returns after all of them: each one that was
registered has left `run__`, has been joined and has been deleted once. -/
theorem connections_over_of_returned (hs : mbserver.ReachableVia HandsOver s) (hmain : s.main = [])
    (i : ℕ) (hi : i ∈ s.registered) :
    s.thread i = .finished ∧ (s.worker (.conn i)).joined ∧ s.deletes i = 1 := by
  have hinv : HandOverInv s ∧ MainInv s ∧ Owned s := by
    refine hs.invariant (I := fun s => HandOverInv s ∧ MainInv s ∧ Owned s)
      ⟨handOverInv_initial, mainInv_initial, owned_initial⟩ ?_
    intro s a s' hguard hinv hn
    obtain ⟨hhand, hmain, howned⟩ := hinv
    obtain ⟨-, hstep⟩ := of_guard hn
    exact ⟨handOver_step hhand hmain howned hguard hstep, mainInv_step hmain howned hstep,
      owned_step howned hstep⟩
  obtain ⟨hhand, hmainInv, -⟩ := hinv
  have hdeleter : s.deleter = .finished :=
    hmainInv.waited .deleter (by decide) (by rw [hmain]; exact List.not_mem_nil)
  obtain ⟨hcompleted, hthreads⟩ := hhand.drained hdeleter
  have hdeletes : s.deletes i = 1 := by
    refine (hhand.added i ((hhand.completed hcompleted).2 i hi)).resolve_right ?_
    rintro ⟨a, ha, -⟩
    simp [State.pending, hdeleter, hthreads] at ha
  obtain ⟨hthread, hjoined⟩ := hhand.deleted i (by rw [hdeletes]; exact one_ne_zero)
  exact ⟨hthread, hjoined, hdeletes⟩

private def stopServers : List Action :=
  .interrupt .main :: stopIdle 0 .modbus ++ beginStop 0 .tcp ++ stopConn 0 .tcp 0 100 ++
    [.advance ⟨0, .tcp⟩ 100 0, .clear ⟨0, .tcp⟩,
      .acceptFailed .modbus, .test .modbus, .acceptFailed .tcp, .test .tcp]

private def returnFromMain : List Action :=
  .replicate 4 .main ++ [.takeCompleted, .testCompleted, .main]

/-- The connection leaves its loop, and gets no further before `main` returns. -/
private def returnEarly : List Action := stopServers ++ [.leave 0] ++ returnFromMain

theorem connections_over_of_returned_stopped : ∃ s, mbserver.ReachableVia HandsOver s ∧
    (s.main = [] ∧ 0 ∈ s.registered) ∧
    s.thread 0 = .finished ∧ (s.worker (.conn 0)).joined ∧ s.deletes 0 = 1 := by
  obtain ⟨s, hs, htest⟩ := TransitionSystem.exists_reachableVia_of_runVia
    mbserver HandsOver
    (serversRunning ++ connect .tcp 0 100 ++ stopServers ++ deregister .tcp 0 100 ++
      deleteConnection 0 100 ++ returnFromMain)
    (fun s => decide (s.main = [] ∧ 0 ∈ s.registered)) (by decide)
  have h := of_decide_eq_true htest
  exact ⟨s, hs, h, connections_over_of_returned hs h.1 0 h.2⟩

/-- SIGINT comes once, with both servers in `accept`. When `main` has returned, a
connection is still about to lock the mutex of its server. -/
theorem connection_left_behind : ∃ s₀ s,
    mbserver.run initial (serversRunning ++ connect .tcp 0 100) = some s₀ ∧
    (s₀.interrupts = 0 ∧ ∀ k, s₀.accept k = .accept true) ∧
    mbserver.run s₀ returnEarly = some s ∧ s.interrupts = 1 ∧
    s.main = [] ∧ 0 ∈ s.registered ∧ s.thread 0 = .lock ∧ s.deletes 0 = 0 := by
  let s₀ := (mbserver.run initial (serversRunning ++ connect .tcp 0 100)).get (by decide)
  refine ⟨s₀, (mbserver.run s₀ returnEarly).get (by decide), (Option.some_get _).symm,
    ⟨by decide, fun k => ?_⟩, (Option.some_get _).symm, by decide, by decide, by decide,
    by decide, by decide⟩
  cases k <;> decide

end Mbtest.Lifecycle
