import Mbtest.Lifecycle.Handles

/-! Whose thread may be signalled: that of a server between the store of its handle and the join
by `main`, that of a connection between its `run` and its erasure. -/
namespace Mbtest.Lifecycle
open Lib

/-- A worker whose thread has been started and not yet been joined. -/
def State.Signallable (s : State) (w : WorkerId) : Prop :=
  s.started w ∧ (s.worker w).joinable = true

/-- The thread of a server is started by `main`, and only there. -/
def StartInv (s : State) : Prop :=
  ∀ k, .startThread (.server k) ∈ s.main ↔ s.accept k = .notStarted

variable {s s' : State}

theorem startInv_initial : StartInv initial := by
  intro k
  cases k <;> simp [initial, mainProgram, run]

theorem StartInv.setAccept (hs : StartInv s) (k : Server) (pc : AcceptPc)
    (hk : s.accept k ≠ .notStarted) (hpc : pc ≠ .notStarted) :
    StartInv { s with accept := Function.update s.accept k pc } := by
  intro j
  by_cases hjk : j = k
  · subst hjk; simpa [hpc] using (not_congr (hs j)).mpr hk
  · simpa [Function.update_of_ne hjk] using hs j

theorem startInv_main (hs : StartInv s) (hmain : MainInv s) (hn : mainNext s = some s') :
    StartInv s' := by
  obtain ⟨stmt, rest, hstmt, hexec⟩ := mainNext_cases hn
  have hordered := wellOrdered_of_suffix (hstmt ▸ hmain.suffix)
  have hleft : s'.main = rest := exec_main hexec
  intro k
  by_cases hk : stmt = .startThread (.server k)
  · subst hk
    simp only [wellOrdered, decide_eq_true_eq] at hordered
    cases Option.some.inj hexec
    simpa [State.startThread] using hordered.2
  · have haccept : s'.accept k = s.accept k := exec_accept hexec hk
    rw [haccept, hleft, ← hs k, hstmt, List.mem_cons]
    exact (or_iff_right (Ne.symm hk)).symm

theorem startInv_step (hs : StartInv s) (hmain : MainInv s) {act : Action}
    (hn : step s act = some s') : StartInv s' := by
  cases act with
  | main => exact startInv_main hs hmain hn
  | startup k ok =>
    obtain ⟨hk, ⟨⟩⟩ := of_guard hn
    exact hs.setAccept k _ (by rw [hk]; simp) (by cases ok <;> simp)
  | test k =>
    obtain ⟨hk, ⟨⟩⟩ := of_guard hn
    exact hs.setAccept k _ (by rw [hk]; simp) (by split_ifs <;> simp)
  | accepted k i a =>
    obtain ⟨⟨hk, -⟩, ⟨⟩⟩ := of_guard hn
    exact hs.setAccept k (.lock i) (by rw [hk]; simp) (by simp)
  | acceptFailed k =>
    obtain ⟨hk, ⟨⟩⟩ := of_guard hn
    exact hs.setAccept k .test (by rcases hk with hk | hk <;> simp [hk]) (by simp)
  | lockToInsert k i =>
    obtain ⟨⟨hk, -⟩, ⟨⟩⟩ := of_guard hn
    exact hs.setAccept k (.insert i) (by rw [hk]; simp) (by simp)
  | insert k i a =>
    obtain ⟨⟨hk, -⟩, ⟨⟩⟩ := of_guard hn
    exact hs.setAccept k (.unlock i) (by rw [hk]; simp) (by simp)
  | unlockInserted k i =>
    obtain ⟨hk, ⟨⟩⟩ := of_guard hn
    exact hs.setAccept k (.setRunning i) (by rw [hk]; simp) (by simp)
  | setRunning k i =>
    obtain ⟨hk, ⟨⟩⟩ := of_guard hn
    exact hs.setAccept k (.startThread i) (by rw [hk]; simp) (by simp)
  | startThread k i =>
    obtain ⟨hk, ⟨⟩⟩ := of_guard hn
    exact hs.setAccept k (.storeHandle i) (by rw [hk]; simp) (by simp)
  | storeHandle k i =>
    obtain ⟨⟨hk, -⟩, ⟨⟩⟩ := of_guard hn
    exact hs.setAccept k .test (by rw [hk]; simp) (by simp)
  | join a i =>
    obtain ⟨-, hwait⟩ := of_guard hn
    rw [wait_frame hwait]
    exact hs
  | _ => obtain ⟨-, ⟨⟩⟩ := of_guard hn; exact hs

/-- A connection that is in no hands any more has been started and its handle stored. -/
structure StoredInv (s : State) : Prop where
  started : ∀ i, s.conn i ≠ none → (∀ k, (s.accept k).starting ≠ some i) →
    s.thread i ≠ .notStarted
  stored : ∀ i, s.conn i ≠ none → (∀ k, (s.accept k).holding ≠ some i) →
    (s.worker (.conn i)).joinable = true ∨ (s.worker (.conn i)).joined = true
  joined : ∀ i, (s.worker (.conn i)).joined = true → s.thread i = .finished

theorem storedInv_initial : StoredInv initial where
  started i h := absurd rfl h
  stored i h := absurd rfl h
  joined i h := by cases h

theorem StoredInv.setAccept (hs : StoredInv s) (k : Server) (pc : AcceptPc)
    (hstarting : ∀ i, (s.accept k).starting = some i →
      pc.starting = some i ∨ s.thread i ≠ .notStarted)
    (hholding : ∀ i, (s.accept k).holding = some i →
      pc.holding = some i ∨ (s.worker (.conn i)).joinable = true) :
    StoredInv { s with accept := Function.update s.accept k pc } := by
  refine { hs with started := fun i hi hnot => ?_, stored := fun i hi hnot => ?_ }
  · by_cases hk : (s.accept k).starting = some i
    · refine (hstarting i hk).resolve_left fun hpc => hnot k ?_
      simpa using hpc
    · refine hs.started i hi fun j hj => ?_
      have hjk : j ≠ k := by rintro rfl; exact hk hj
      exact hnot j (by simpa [Function.update_of_ne hjk] using hj)
  · by_cases hk : (s.accept k).holding = some i
    · refine .inl ((hholding i hk).resolve_left fun hpc => hnot k ?_)
      simpa using hpc
    · refine hs.stored i hi fun j hj => ?_
      have hjk : j ≠ k := by rintro rfl; exact hk hj
      exact hnot j (by simpa [Function.update_of_ne hjk] using hj)

theorem StoredInv.setThread (hs : StoredInv s) (i : ℕ) (pc : ConnPc) (hpc : pc ≠ .notStarted)
    (hi : s.thread i ≠ .finished) :
    StoredInv { s with thread := Function.update s.thread i pc } := by
  refine { hs with started := fun j hj hnot => ?_, joined := fun j hj => ?_ }
  · by_cases hji : j = i
    · subst hji; simpa using hpc
    · simpa [Function.update_of_ne hji] using hs.started j hj hnot
  · have hji : j ≠ i := by rintro rfl; exact hi (hs.joined j hj)
    exact (Function.update_of_ne hji _ _).trans (hs.joined j hj)

theorem StoredInv.setWorker (hs : StoredInv s) (w : WorkerId) (x : Worker)
    (hstored : (s.worker w).joinable = true ∨ (s.worker w).joined = true →
      x.joinable = true ∨ x.joined = true)
    (hjoined : x.joined = true → (s.worker w).joined = true ∨ s.finished w) :
    StoredInv (s.setWorker w x) := by
  refine ⟨hs.started, fun i hi hnot => ?_, fun i hi => ?_⟩
  · by_cases hw : .conn i = w
    · subst hw; simpa [State.setWorker] using hstored (hs.stored i hi hnot)
    · simpa [State.setWorker, Function.update_of_ne hw] using hs.stored i hi hnot
  · by_cases hw : .conn i = w
    · subst hw
      rcases hjoined (by simpa [State.setWorker] using hi) with hold | hfinished
      · exact hs.joined i hold
      · exact hfinished
    · exact hs.joined i (by simpa [State.setWorker, Function.update_of_ne hw] using hi)

theorem StoredInv.wait (hs : StoredInv s) {w : WorkerId} (hn : s.wait w = some s') :
    StoredInv s' := by
  unfold State.wait at hn
  split_ifs at hn with hjoinable hfinished
  · cases Option.some.inj hn
    exact hs.setWorker w _ (fun _ => .inr rfl) fun _ => .inr hfinished
  · cases Option.some.inj hn
    exact hs

theorem StoredInv.accepted (hs : StoredInv s) {k : Server} {i a : ℕ}
    (hk : s.accept k = .accept true) :
    StoredInv { s with
      conn := Function.update s.conn i (some ⟨k, a⟩)
      accept := Function.update s.accept k (.lock i) } := by
  have hmoved := hs.setAccept k (.lock i) (by rw [hk]; nofun) (by rw [hk]; nofun)
  refine { hmoved with started := fun j hj hnot => ?_, stored := fun j hj hnot => ?_ }
  · have hji : j ≠ i := by rintro rfl; exact hnot k (by simp [AcceptPc.starting])
    exact hmoved.started j (by simpa [Function.update_of_ne hji] using hj) hnot
  · have hji : j ≠ i := by rintro rfl; exact hnot k (by simp [AcceptPc.holding])
    exact hmoved.stored j (by simpa [Function.update_of_ne hji] using hj) hnot

theorem storedInv_exec (hs : StoredInv s) {stmt : Stmt}
    (hserver : ∀ k, stmt = .startThread (.server k) → s.accept k = .notStarted)
    (hconn : ∀ i, stmt ≠ .startThread (.conn i)) (hn : exec s stmt = some s') : StoredInv s' := by
  cases stmt with
  | sigaction => cases Option.some.inj hn; exact hs
  | setRunning w => cases Option.some.inj hn; exact hs.setWorker w _ id .inl
  | clearRunning w => cases Option.some.inj hn; exact hs.setWorker w _ id .inl
  | storeHandle w => cases Option.some.inj hn; exact hs.setWorker w _ (fun _ => .inl rfl) .inl
  | completeAdding => cases Option.some.inj hn; exact { hs with }
  | wait w => exact hs.wait hn
  | startThread w =>
    cases Option.some.inj hn
    cases w with
    | server k =>
      have hk := hserver k rfl
      exact hs.setAccept k .startup (by rw [hk]; nofun) (by rw [hk]; nofun)
    | deleter => exact { hs with }
    | conn i => exact absurd rfl (hconn i)

theorem storedInv_step (hs : StoredInv s) (howned : Owned s) (hstart : StartInv s) {act : Action}
    (hn : step s act = some s') : StoredInv s' := by
  cases act with
  | main =>
    obtain ⟨stmt, rest, hstmt, hexec⟩ := mainNext_cases hn
    have hpopped : StoredInv { s with main := rest } := { hs with }
    refine storedInv_exec hpopped (fun k hk => (hstart k).mp ?_) (fun i hi => howned.main i ?_) hexec
    · rw [hstmt, hk]; exact List.mem_cons_self
    · rw [hstmt, hi]; exact List.mem_cons_self
  | clearRunning c =>
    obtain ⟨-, ⟨⟩⟩ := of_guard hn
    exact { hs.setWorker (.server c.server)
      { s.worker (.server c.server) with bRunning := false } id .inl with }
  | callStop c a i =>
    obtain ⟨-, ⟨⟩⟩ := of_guard hn
    exact { hs.setWorker (.conn i) { s.worker (.conn i) with bRunning := false } id .inl with }
  | startup k ok =>
    obtain ⟨hk, ⟨⟩⟩ := of_guard hn
    exact { hs.setAccept k (if ok then .test else .finished) (by rw [hk]; rintro _ ⟨⟩)
      (by rw [hk]; rintro _ ⟨⟩) with }
  | test k =>
    obtain ⟨hk, ⟨⟩⟩ := of_guard hn
    exact hs.setAccept k _ (by rw [hk]; rintro _ ⟨⟩) (by rw [hk]; rintro _ ⟨⟩)
  | accepted k i a => obtain ⟨⟨hk, -⟩, ⟨⟩⟩ := of_guard hn; exact { hs.accepted hk with }
  | acceptFailed k =>
    obtain ⟨hk, ⟨⟩⟩ := of_guard hn
    exact hs.setAccept k .test (by rcases hk with hk | hk <;> rw [hk] <;> rintro _ ⟨⟩)
      (by rcases hk with hk | hk <;> rw [hk] <;> rintro _ ⟨⟩)
  | lockToInsert k i =>
    obtain ⟨⟨hk, -⟩, ⟨⟩⟩ := of_guard hn
    exact { hs.setAccept k (.insert i) (by rw [hk]; exact fun _ => .inl)
      (by rw [hk]; exact fun _ => .inl) with }
  | insert k i a =>
    obtain ⟨⟨hk, -⟩, ⟨⟩⟩ := of_guard hn
    exact { hs.setAccept k (.unlock i) (by rw [hk]; exact fun _ => .inl)
      (by rw [hk]; exact fun _ => .inl) with }
  | unlockInserted k i =>
    obtain ⟨hk, ⟨⟩⟩ := of_guard hn
    exact { hs.setAccept k (.setRunning i) (by rw [hk]; exact fun _ => .inl)
      (by rw [hk]; exact fun _ => .inl) with }
  | setRunning k i =>
    obtain ⟨hk, ⟨⟩⟩ := of_guard hn
    have hmoved := hs.setAccept k (.startThread i) (by rw [hk]; exact fun _ => .inl)
      (by rw [hk]; exact fun _ => .inl)
    exact hmoved.setWorker (.conn i) { s.worker (.conn i) with bRunning := true } id .inl
  | startThread k i =>
    obtain ⟨hk, ⟨⟩⟩ := of_guard hn
    have hthread := (howned.starting k i (by rw [hk]; rfl)).1
    have hstarted := hs.setThread i .test (by simp) (by simp [hthread])
    refine hstarted.setAccept k (.storeHandle i) (fun j hj => .inr ?_) fun j hj => .inl ?_
    · replace hj : (s.accept k).starting = some j := hj
      rw [hk] at hj
      cases hj
      simp
    · replace hj : (s.accept k).holding = some j := hj
      rwa [hk] at hj
  | storeHandle k i =>
    obtain ⟨⟨hk, -⟩, ⟨⟩⟩ := of_guard hn
    have hset := hs.setWorker (.conn i) { s.worker (.conn i) with joinable := true }
      (fun _ => .inl rfl) .inl
    refine hset.setAccept k .test (fun j hj => ?_) fun j hj => .inr ?_
    · replace hj : (s.accept k).starting = some j := hj
      rw [hk] at hj
      cases hj
    · replace hj : (s.accept k).holding = some j := hj
      rw [hk] at hj
      cases hj
      simp [State.setWorker]
  | testRunning i =>
    obtain ⟨hi, ⟨⟩⟩ := of_guard hn
    exact hs.setThread i _ (by split_ifs <;> simp) (by simp [hi])
  | again i => obtain ⟨hi, ⟨⟩⟩ := of_guard hn; exact hs.setThread i .test (by simp) (by simp [hi])
  | leave i => obtain ⟨hi, ⟨⟩⟩ := of_guard hn; exact hs.setThread i .lock (by simp) (by simp [hi])
  | lockToErase i c =>
    obtain ⟨⟨hi, -⟩, ⟨⟩⟩ := of_guard hn
    exact { hs.setThread i .erase (by simp) (by simp [hi]) with }
  | erase i c =>
    obtain ⟨⟨hi, -⟩, ⟨⟩⟩ := of_guard hn
    exact { hs.setThread i .deleteWorker (by simp) (by simp [hi]) with }
  | deleteWorker i c =>
    obtain ⟨⟨hi, -⟩, ⟨⟩⟩ := of_guard hn
    exact { hs.setThread i .unlock (by simp) (by simp [hi]) with }
  | unlockErased i c =>
    obtain ⟨⟨hi, -⟩, ⟨⟩⟩ := of_guard hn
    exact { hs.setThread i .finished (by simp) (by simp [hi]) with }
  | join a i =>
    obtain ⟨-, hwait⟩ := of_guard hn
    have hmoved : StoredInv { s with deleter := .delete a } := { hs with }
    exact hmoved.wait hwait
  | _ => obtain ⟨-, ⟨⟩⟩ := of_guard hn; exact { hs with }

/-- Only a connection that is new comes into the hands of an accepting thread. -/
theorem holding_step {act : Action} (hn : step s act = some s') {k : Server} {i : ℕ}
    (hk : (s'.accept k).holding = some i) : (s.accept k).holding = some i ∨ s.conn i = none := by
  have hmoved : ∀ {j : Server} {pc : AcceptPc}, (Function.update s.accept j pc k).holding = some i →
      (∀ i, pc.holding = some i → (s.accept j).holding = some i ∨ s.conn i = none) →
      (s.accept k).holding = some i ∨ s.conn i = none := by
    intro j pc h hpc
    by_cases hkj : k = j
    · subst hkj; exact hpc i (by simpa using h)
    · exact .inl (by simpa [Function.update_of_ne hkj] using h)
  cases act with
  | main =>
    rcases mainNext_accept hn k with hsame | hstartup
    · exact .inl (hsame ▸ hk)
    · rw [hstartup] at hk; cases hk
  | startup j ok => obtain ⟨-, ⟨⟩⟩ := of_guard hn; exact hmoved hk (by cases ok <;> exact nofun)
  | test j => obtain ⟨-, ⟨⟩⟩ := of_guard hn; exact hmoved hk (by split_ifs <;> exact nofun)
  | accepted j l a =>
    obtain ⟨⟨-, hl, -⟩, ⟨⟩⟩ := of_guard hn
    exact hmoved hk fun m hm => by cases hm; exact .inr hl
  | acceptFailed j => obtain ⟨-, ⟨⟩⟩ := of_guard hn; exact hmoved hk nofun
  | lockToInsert j l =>
    obtain ⟨⟨hj, -⟩, ⟨⟩⟩ := of_guard hn
    exact hmoved hk (by rw [hj]; exact fun _ => .inl)
  | insert j l a =>
    obtain ⟨⟨hj, -⟩, ⟨⟩⟩ := of_guard hn
    exact hmoved hk (by rw [hj]; exact fun _ => .inl)
  | unlockInserted j l =>
    obtain ⟨hj, ⟨⟩⟩ := of_guard hn
    exact hmoved hk (by rw [hj]; exact fun _ => .inl)
  | setRunning j l =>
    obtain ⟨hj, ⟨⟩⟩ := of_guard hn
    exact hmoved hk (by rw [hj]; exact fun _ => .inl)
  | startThread j l =>
    obtain ⟨hj, ⟨⟩⟩ := of_guard hn
    exact hmoved hk (by rw [hj]; exact fun _ => .inl)
  | storeHandle j l => obtain ⟨-, ⟨⟩⟩ := of_guard hn; exact hmoved hk nofun
  | join a l =>
    obtain ⟨-, hwait⟩ := of_guard hn
    rw [wait_frame hwait] at hk
    exact .inl hk
  | _ => obtain ⟨-, ⟨⟩⟩ := of_guard hn; exact .inl hk

/-- The element whose connection is about to be signalled. -/
def StopPc.cancels : StopPc → Option Element
  | .cancelConn e => some e
  | _ => none

theorem StopPc.current_of_cancels {pc : StopPc} {e : Element} (h : pc.cancels = some e) :
    pc.current = some e := by
  cases pc <;> first | exact h | cases h

theorem stopAt_cancels (heap : ℕ → Option ℕ) (ahead : Finset ℕ) :
    (stopAt heap ahead).cancels = none := by
  rcases stopAt_cases heap ahead with ⟨hclear, -⟩ | ⟨a, -, hcall, -⟩
  · rw [hclear]; rfl
  · rw [hcall]; rfl

theorem cancels_step (howned : Owned s) {act : Action} (hn : step s act = some s') {c : Call}
    {e : Element} (he : (s'.stop c).cancels = some e) :
    (s.stop c).cancels = some e ∨ ∃ a i, act = .closeSocket c a i ∧ e = ⟨a, some i⟩ := by
  by_cases hc : act.call = some c
  · cases act with
    | clearRunning d | closeListener d | cancelIo d | clear d =>
      cases hc
      obtain ⟨-, ⟨⟩⟩ := of_guard hn
      simp [StopPc.cancels] at he
    | first d =>
      cases hc
      obtain ⟨-, ⟨⟩⟩ := of_guard hn
      simp [stopAt_cancels] at he
    | advance d a i =>
      cases hc
      obtain ⟨-, ⟨⟩⟩ := of_guard hn
      simp [stopAt_cancels] at he
    | closeSocket d a i =>
      cases hc
      obtain ⟨-, ⟨⟩⟩ := of_guard hn
      exact .inr ⟨a, i, rfl, by simpa [StopPc.cancels] using he.symm⟩
    | callStop d a i | cancelConn d a i =>
      cases hc
      obtain ⟨-, ⟨⟩⟩ := of_guard hn
      simp [StopPc.cancels] at he
    | _ => cases hc
  · exact .inl (stop_frame howned hn hc ▸ he)

/-- A connection that is about to be signalled is in no hands. -/
def CancelInv (s : State) : Prop :=
  ∀ c e i, (s.stop c).cancels = some e → e.conn = some i → ∀ k, (s.accept k).holding ≠ some i

theorem cancelInv_step (hs : CancelInv s) (howned : Owned s) (hiter : IterationInv s)
    {act : Action} (hrun : ∀ c a i, act = .closeSocket c a i → ∀ k, (s.accept k).holding ≠ some i)
    (hn : step s act = some s') : CancelInv s' := by
  intro c e i he hi k hk
  rcases cancels_step howned hn he with hcancels | ⟨a, j, hact, rfl⟩
  · rcases holding_step hn hk with hheld | hnew
    · exact hs c e i hcancels hi k hheld
    · obtain ⟨-, -, hheap⟩ := hiter c e (StopPc.current_of_cancels hcancels)
      obtain ⟨l, hl⟩ := howned.heap e.addr i (hheap.trans hi)
      cases hnew.symm.trans hl
  · cases hi
    subst hact
    obtain ⟨-, ⟨⟩⟩ := of_guard hn
    exact hrun c a i rfl k hk

theorem stored_of_started {l : List Stmt} (h : l <:+ mainProgram) (k : Server)
    (hl : .startThread (.server k) ∈ l) : .storeHandle (.server k) ∈ l := by
  have hall : ∀ l ∈ mainProgram.tails, ∀ k, .startThread (.server k) ∈ l →
      .storeHandle (.server k) ∈ l := by decide
  exact hall l ((List.mem_tails l mainProgram).mpr h) k hl

/-- Between the store of its handle and the join a server may be signalled. -/
theorem server_signallable (hmain : MainInv s) (hstart : StartInv s) {k : Server}
    (hstored : .storeHandle (.server k) ∉ s.main) (hwait : .wait (.server k) ∈ s.main) :
    s.Signallable (.server k) := by
  refine ⟨fun hnot => ?_, hmain.stored (.server k) hstored hwait⟩
  have hthread := (hstart k).mpr hnot
  exact hstored (stored_of_started hmain.suffix k hthread)

/-- Between its `run` and its erasure a connection may be signalled. -/
theorem conn_signallable (hs : StoredInv s) {i : ℕ} (hi : s.conn i ≠ none)
    (hbefore : (s.thread i).BeforeErase) (hheld : ∀ k, (s.accept k).holding ≠ some i) :
    s.Signallable (.conn i) := by
  refine ⟨hs.started i hi fun k hk => ?_, (hs.stored i hi hheld).resolve_right fun hjoined => ?_⟩
  · -- what is being started is in somebody's hands
    refine hheld k ?_
    cases hpc : s.accept k <;> rw [hpc] at hk <;> first | exact hk | cases hk
  · rw [hs.joined i hjoined] at hbefore
    exact hbefore

end Mbtest.Lifecycle
