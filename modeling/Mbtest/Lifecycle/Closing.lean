import Mbtest.Lifecycle.Places
import Mathlib.Algebra.BigOperators.Group.Finset.Piecewise
import Mathlib.Algebra.Order.BigOperators.Group.Finset

/-! The way from the end of the handlers to the return of `main`: how many steps are left, and
that none of the threads on the way is stuck. -/
namespace Mbtest.Lifecycle
open Lib

/-- The steps that an accepting thread and the connection in its hands have still to do when its
server is not running. -/
def AcceptPc.work : AcceptPc → ℕ
  | .notStarted => 0
  | .startup => 2
  | .test => 1
  | .accept _ => 28
  | .lock _ => 27
  | .insert _ => 26
  | .unlock _ => 15
  | .setRunning _ => 14
  | .startThread _ => 13
  | .storeHandle _ => 2
  | .finished => 0

/-- The hand-over counts for the steps that it gives to the deleter; another pass of the loop
does not count. -/
def ConnPc.work : ConnPc → ℕ
  | .notStarted => 10
  | .test => 10
  | .loop => 9
  | .lock => 8
  | .erase => 7
  | .deleteWorker => 6
  | .unlock => 1
  | .finished => 0

def DeleterPc.work (completed : Bool) : DeleterPc → ℕ
  | .notStarted => 0
  | .test => if completed then 1 else 3
  | .take => 2
  | .wait _ => 5
  | .delete _ => 4
  | .finished => 0

theorem ConnPc.work_le (pc : ConnPc) : pc.work ≤ 10 := by
  cases pc <;> simp [ConnPc.work]

theorem DeleterPc.work_test_le (completed : Bool) : DeleterPc.test.work completed ≤ 3 := by
  cases completed <;> simp [DeleterPc.work]

theorem DeleterPc.work_le_add (pc : DeleterPc) (completed completed' : Bool) :
    pc.work completed ≤ pc.work completed' + 2 := by
  cases pc <;> cases completed <;> cases completed' <;> simp [DeleterPc.work]

def acceptWork (accept : Server → AcceptPc) : ℕ := (accept .modbus).work + (accept .tcp).work

def threadWork (registered : Finset ℕ) (thread : ℕ → ConnPc) : ℕ :=
  ∑ i ∈ registered, (ConnPc.work ∘ thread) i

def State.work (s : State) : ℕ :=
  4 * s.main.length + acceptWork s.accept + threadWork s.registered s.thread +
    s.deleter.work (s.addingCompleted && s.threads.isEmpty) + 4 * s.threads.length +
    s.fault.isNone.toNat

theorem acceptWork_update (accept : Server → AcceptPc) (k : Server) (pc : AcceptPc) :
    acceptWork (Function.update accept k pc) + (accept k).work = acceptWork accept + pc.work := by
  cases k <;> simp [acceptWork, Function.update] <;> omega

theorem threadWork_update {registered : Finset ℕ} (thread : ℕ → ConnPc) {i : ℕ}
    (hi : i ∈ registered) (pc : ConnPc) :
    threadWork registered (Function.update thread i pc) + (thread i).work =
      threadWork registered thread + pc.work := by
  have hbefore := Finset.sum_eq_add_sum_sdiff_singleton_of_mem hi (ConnPc.work ∘ thread)
  rw [threadWork, threadWork, Function.comp_update, Finset.sum_update_of_mem hi, hbefore]
  simp only [Function.comp_apply]
  omega

theorem threadWork_insert (registered : Finset ℕ) (thread : ℕ → ConnPc) (i : ℕ) :
    threadWork (insert i registered) thread ≤ threadWork registered thread + 10 := by
  unfold threadWork
  by_cases hi : i ∈ registered
  · rw [Finset.insert_eq_of_mem hi]
    exact Nat.le_add_right _ _
  · rw [Finset.sum_insert hi, Nat.add_comm]
    exact Nat.add_le_add_left (ConnPc.work_le _) _

variable {s s' : State}

/-! ### The steps that are left -/

/-- The handlers are at their end, and both servers are told to end. -/
structure Closing (s : State) : Prop where
  handler : ∀ n, s.handler n = []
  flag : ∀ k, (s.worker (.server k)).bRunning = false
  started : ∀ k, .setRunning (.server k) ∉ s.main ∧ .startThread (.server k) ∉ s.main

theorem Closing.not_inProgress (hs : Closing s) (hhandler : HandlerInv s) (c : Call) :
    ¬ (s.stop c).InProgress := by
  intro hc
  have hhead := hhandler.current c hc
  rw [hs.handler] at hhead
  cases hhead

theorem Closing.call_none (hs : Closing s) (hhandler : HandlerInv s) {act : Action}
    (hn : step s act = some s') : act.call = none := by
  have hidle : ∀ {c}, ¬ (s.stop c).InProgress := hs.not_inProgress hhandler _
  cases act with
  | clearRunning c => obtain ⟨⟨hc, -⟩, -⟩ := of_guard hn; simp [hs.handler] at hc
  | closeListener c | first c | clear c =>
    obtain ⟨hc, -⟩ := of_guard hn
    exact absurd (by rw [hc]; trivial) hidle
  | cancelIo c | callStop c a i | closeSocket c a i | cancelConn c a i | advance c a i =>
    obtain ⟨⟨hc, -⟩, -⟩ := of_guard hn
    exact absurd (by rw [hc]; trivial) hidle
  | _ => rfl

theorem Closing.not_handling (hs : Closing s) (t : Thread) : ¬ s.handling t := by
  rintro ⟨n, -, -, hn⟩
  exact hn (hs.handler n)

theorem closing_main (hs : Closing s) (howned : Owned s) (hn : mainNext s = some s') :
    Closing s' := by
  obtain ⟨stmt, rest, hmain, hexec⟩ := mainNext_cases hn
  have hleft : s'.main = rest := exec_main hexec
  refine ⟨by rw [mainNext_frame howned hn]; exact hs.handler, fun k => ?_, fun k => ?_⟩
  · rw [Bool.eq_false_iff]
    intro hflag
    obtain hbefore | rfl := exec_bRunning hexec hflag
    · exact Bool.eq_false_iff.mp (hs.flag k) hbefore
    · exact (hs.started k).1 (hmain ▸ List.mem_cons_self)
  · obtain ⟨hset, hstart⟩ := hs.started k
    rw [hmain] at hset hstart
    exact ⟨hleft ▸ fun h => hset (List.mem_cons_of_mem _ h),
      hleft ▸ fun h => hstart (List.mem_cons_of_mem _ h)⟩

theorem closing_step (hs : Closing s) (howned : Owned s) (hhandler : HandlerInv s) {act : Action}
    (hact : ∀ t, act ≠ .interrupt t) (hn : step s act = some s') : Closing s' := by
  have hcall := hs.call_none hhandler hn
  cases act with
  | main => exact closing_main hs howned hn
  | interrupt t => exact absurd rfl (hact t)
  | clearRunning c | closeListener c | cancelIo c | first c | clear c => cases hcall
  | callStop c a i | closeSocket c a i | cancelConn c a i | advance c a i => cases hcall
  | join a i =>
    obtain ⟨-, hwait⟩ := of_guard hn
    have hframe := wait_frame hwait
    refine ⟨by rw [hframe]; exact hs.handler, fun k => ?_, by rw [hframe]; exact hs.started⟩
    rw [Bool.eq_false_iff]
    exact fun hflag => Bool.eq_false_iff.mp (hs.flag k)
      (wait_bRunning (s := { s with deleter := .delete a }) hwait hflag)
  | _ => obtain ⟨-, ⟨⟩⟩ := of_guard hn; exact { hs with }

theorem work_lt_of_accept {k : Server} {pc : AcceptPc}
    (hframe : s' = { s with
      worker := s'.worker, listening := s'.listening, connsetMutex := s'.connsetMutex
      conn := s'.conn, heap := s'.heap, accept := Function.update s.accept k pc })
    (hpc : pc.work < (s.accept k).work) : s'.work < s.work := by
  have hupdate := acceptWork_update s.accept k pc
  rw [hframe]
  simp only [State.work]
  omega

theorem work_lt_of_thread (hplace : PlaceInv s) {i : ℕ} {pc : ConnPc}
    (hframe : s' = { s with
      connections := s'.connections, connsetMutex := s'.connsetMutex
      thread := Function.update s.thread i pc })
    (hi : s.thread i ≠ .notStarted) (hpc : pc.work < (s.thread i).work) : s'.work < s.work := by
  have hupdate := threadWork_update s.thread (hplace.thread i hi) pc
  rw [hframe]
  simp only [State.work]
  omega

theorem work_main (howned : Owned s) (hs : Closing s) (hn : mainNext s = some s') :
    s'.work < s.work := by
  obtain ⟨stmt, rest, hmain, hexec⟩ := mainNext_cases hn
  have hlength : s.main.length = rest.length + 1 := by rw [hmain, List.length_cons]
  cases stmt with
  | startThread w =>
    cases Option.some.inj hexec
    cases w with
    | server k => exact absurd (hmain ▸ List.mem_cons_self) (hs.started k).2
    | deleter =>
      have htest := DeleterPc.work_test_le (s.addingCompleted && s.threads.isEmpty)
      simp only [State.work, State.startThread]
      omega
    | conn i => exact absurd (hmain ▸ List.mem_cons_self) (howned.main i)
  | completeAdding =>
    cases Option.some.inj hexec
    have hless := s.deleter.work_le_add s.threads.isEmpty (s.addingCompleted && s.threads.isEmpty)
    simp only [State.work, Bool.true_and]
    omega
  | wait w =>
    rw [wait_frame hexec]
    simp only [State.work]
    omega
  | _ =>
    cases Option.some.inj hexec
    simp only [State.work, State.setRunning, State.clearRunning, State.storeHandle, State.setWorker]
    omega

theorem work_step (howned : Owned s) (hhandler : HandlerInv s) (hs : Closing s)
    (hplace : PlaceInv s) {act : Action} (hact : ∀ t, act ≠ .interrupt t)
    (hpass : ∀ i, act ≠ .again i) (hfault : s.fault = none) (hn : step s act = some s') :
    s'.work < s.work := by
  have hcall := hs.call_none hhandler hn
  cases act with
  | main => exact work_main howned hs hn
  | interrupt t => exact absurd rfl (hact t)
  | clearRunning c | closeListener c | cancelIo c | first c | clear c => cases hcall
  | callStop c a i | closeSocket c a i | cancelConn c a i | advance c a i => cases hcall
  | startup k ok =>
    obtain ⟨hk, ⟨⟩⟩ := of_guard hn
    exact work_lt_of_accept rfl (by rw [hk]; cases ok <;> decide)
  | test k =>
    obtain ⟨hk, ⟨⟩⟩ := of_guard hn
    refine work_lt_of_accept rfl ?_
    rw [hk, hs.flag k, if_neg Bool.false_ne_true]
    decide
  | accepted k i a =>
    obtain ⟨⟨hk, -⟩, ⟨⟩⟩ := of_guard hn
    exact work_lt_of_accept rfl (by rw [hk]; simp [AcceptPc.work])
  | acceptFailed k =>
    obtain ⟨hk, ⟨⟩⟩ := of_guard hn
    exact work_lt_of_accept rfl (by rcases hk with hk | hk <;> rw [hk] <;> decide)
  | lockToInsert k i =>
    obtain ⟨⟨hk, -⟩, ⟨⟩⟩ := of_guard hn
    exact work_lt_of_accept rfl (by rw [hk]; simp [AcceptPc.work])
  | insert k i a =>
    obtain ⟨⟨hk, -⟩, ⟨⟩⟩ := of_guard hn
    have hupdate := acceptWork_update s.accept k (.unlock i)
    have hinsert := threadWork_insert s.registered s.thread i
    simp only [hk, AcceptPc.work, State.work] at hupdate ⊢
    omega
  | unlockInserted k i =>
    obtain ⟨hk, ⟨⟩⟩ := of_guard hn
    exact work_lt_of_accept rfl (by rw [hk]; simp [AcceptPc.work])
  | setRunning k i =>
    obtain ⟨hk, ⟨⟩⟩ := of_guard hn
    exact work_lt_of_accept rfl (by rw [hk]; simp [AcceptPc.work])
  | startThread k i =>
    obtain ⟨hk, ⟨⟩⟩ := of_guard hn
    have hupdate := acceptWork_update s.accept k (.storeHandle i)
    have hstart := threadWork_update s.thread (hplace.accept k i (by rw [hk]; rfl)) .test
    simp only [hk, AcceptPc.work, ConnPc.work, State.work, State.startThread] at hupdate hstart ⊢
    omega
  | storeHandle k i =>
    obtain ⟨⟨hk, -⟩, ⟨⟩⟩ := of_guard hn
    exact work_lt_of_accept rfl (by rw [hk]; simp [AcceptPc.work])
  | testRunning i =>
    obtain ⟨hi, ⟨⟩⟩ := of_guard hn
    exact work_lt_of_thread hplace rfl (by rw [hi]; simp) (by rw [hi]; split_ifs <;> decide)
  | again i => exact absurd rfl (hpass i)
  | leave i =>
    obtain ⟨hi, ⟨⟩⟩ := of_guard hn
    exact work_lt_of_thread hplace rfl (by rw [hi]; simp) (by rw [hi]; decide)
  | lockToErase i c =>
    obtain ⟨⟨hi, -⟩, ⟨⟩⟩ := of_guard hn
    exact work_lt_of_thread hplace rfl (by rw [hi]; simp) (by rw [hi]; decide)
  | erase i c =>
    obtain ⟨⟨hi, -⟩, ⟨⟩⟩ := of_guard hn
    exact work_lt_of_thread hplace rfl (by rw [hi]; simp) (by rw [hi]; decide)
  | deleteWorker i c =>
    obtain ⟨⟨hi, -⟩, ⟨⟩⟩ := of_guard hn
    have hupdate := threadWork_update s.thread (hplace.thread i (by rw [hi]; simp)) .unlock
    simp only [hi, ConnPc.work, State.work] at hupdate ⊢
    split_ifs with hcompleted
    · omega
    · have hdeleter : s.deleter.work (s.addingCompleted && (s.threads ++ [c.addr]).isEmpty) =
          s.deleter.work (s.addingCompleted && s.threads.isEmpty) := by simp [hcompleted]
      rw [List.length_append, List.length_singleton]
      omega
  | unlockErased i c =>
    obtain ⟨⟨hi, -⟩, ⟨⟩⟩ := of_guard hn
    exact work_lt_of_thread hplace rfl (by rw [hi]; simp) (by rw [hi]; decide)
  | testCompleted =>
    obtain ⟨hd, ⟨⟩⟩ := of_guard hn
    simp only [State.work, hd, ← List.isEmpty_iff, ← Bool.and_eq_true]
    cases s.addingCompleted && s.threads.isEmpty <;> simp [DeleterPc.work]
  | take a =>
    obtain ⟨⟨hd, ha⟩, ⟨⟩⟩ := of_guard hn
    have hlength : 0 < s.threads.length := List.length_pos_iff.mpr fun hnil => by simp [hnil] at ha
    simp only [State.work, hd, DeleterPc.work, List.length_tail]
    omega
  | takeCompleted =>
    obtain ⟨⟨hd, hnil, hcompleted⟩, ⟨⟩⟩ := of_guard hn
    simp [State.work, hd, hnil, hcompleted, DeleterPc.work]
  | join a i =>
    obtain ⟨⟨hd, -⟩, hwait⟩ := of_guard hn
    rw [wait_frame hwait]
    simp only [State.work, hd, DeleterPc.work]
    omega
  | delete a i =>
    obtain ⟨⟨hd, -⟩, ⟨⟩⟩ := of_guard hn
    have htest := DeleterPc.work_test_le (s.addingCompleted && s.threads.isEmpty)
    simp only [State.work, hd, DeleterPc.work] at htest ⊢
    omega
  | fault f c a i =>
    obtain ⟨-, ⟨⟩⟩ := of_guard hn
    simp [State.work, hfault]

def Action.passes : Action → Bool
  | .again _ => true
  | _ => false

theorem work_again (hplace : PlaceInv s) {i : ℕ} (hn : step s (.again i) = some s') :
    s'.work ≤ s.work + 1 := by
  obtain ⟨hi, ⟨⟩⟩ := of_guard hn
  have hupdate := threadWork_update s.thread (hplace.thread i (by rw [hi]; simp)) .test
  simp only [hi, ConnPc.work, State.work] at hupdate ⊢
  omega

/-! ### No thread is stuck -/

/-- Steps that wait for somebody outside the program: a signal, a new connection, a peer. An
`accept` that was pending when its descriptor was closed returns after a signal. -/
def Outside (p : State × (Server → Bool)) : Action → Bool
  | .interrupt _ => true
  | .accepted _ _ _ => true
  | .acceptFailed k => p.1.accept k = .accept true && !p.2 k
  | .again _ => true
  | .leave _ => true
  | _ => false

/-- Some thread can go on, or comes to one of the faults. -/
def Goes (s : State) (woken : Server → Bool) : Prop :=
  ∃ a : Action, Outside (s, woken) a = false ∧ (next s a).isSome = true

def State.Free (s : State) : Prop := s.fault = none ∧ ∀ t, ¬ s.handling t

section Goes
variable {woken : Server → Bool}

theorem Goes.of_step (hfree : s.Free) {a : Action} (ha : Outside (s, woken) a = false)
    (hn : (step s a).isSome = true) : Goes s woken :=
  ⟨a, ha, by rw [next, if_pos ⟨hfree.1, fun t _ => hfree.2 t⟩]; exact hn⟩

theorem goes_of_held (howned : Owned s) (hheld : HeldInv s) (hfree : s.Free) {k : Server}
    (hk : s.connsetMutex k ≠ none) : Goes s woken := by
  obtain ⟨w, hw⟩ := Option.ne_none_iff_exists'.mp hk
  have hholds := hheld k w hw
  cases w with
  | server j =>
    cases haccept : s.accept k with
    | insert i =>
      obtain ⟨-, a, ha⟩ := howned.starting k i (by rw [haccept]; rfl)
      exact .of_step hfree (a := .insert k i a) rfl (by simp [step, haccept, ha])
    | unlock i => exact .of_step hfree (a := .unlockInserted k i) rfl (by simp [step, haccept])
    | _ => have hin := hholds.2; rw [haccept] at hin; exact hin.elim
  | conn i =>
    obtain ⟨⟨a, ha⟩, hin⟩ := hholds
    cases hthread : s.thread i with
    | erase => exact .of_step hfree (a := .erase i ⟨k, a⟩) rfl (by simp [step, hthread, ha])
    | deleteWorker =>
      exact .of_step hfree (a := .deleteWorker i ⟨k, a⟩) rfl (by simp [step, hthread, ha])
    | unlock => exact .of_step hfree (a := .unlockErased i ⟨k, a⟩) rfl (by simp [step, hthread, ha])
    | _ => rw [hthread] at hin; exact hin.elim
  | deleter => exact hholds.elim

theorem goes_of_accepting (howned : Owned s) (hheld : HeldInv s) (hfree : s.Free)
    {k : Server} (hwoken : s.accept k = .accept true → woken k = true)
    (hnot : s.accept k ≠ .notStarted) (hfinished : s.accept k ≠ .finished) : Goes s woken := by
  cases hk : s.accept k with
  | notStarted => exact absurd hk hnot
  | startup => exact .of_step hfree (a := .startup k false) rfl (by simp [step, hk])
  | test => exact .of_step hfree (a := .test k) rfl (by simp [step, hk])
  | accept valid =>
    refine .of_step hfree (a := .acceptFailed k) ?_ (by cases valid <;> simp [step, hk])
    cases valid with
    | true => simp [Outside, hk, hwoken hk]
    | false => simp [Outside, hk]
  | lock i =>
    by_cases hmutex : s.connsetMutex k = none
    · exact .of_step hfree (a := .lockToInsert k i) rfl (by simp [step, hk, hmutex])
    · exact goes_of_held howned hheld hfree hmutex
  | insert i =>
    obtain ⟨-, a, ha⟩ := howned.starting k i (by rw [hk]; rfl)
    exact .of_step hfree (a := .insert k i a) rfl (by simp [step, hk, ha])
  | unlock i => exact .of_step hfree (a := .unlockInserted k i) rfl (by simp [step, hk])
  | setRunning i => exact .of_step hfree (a := .setRunning k i) rfl (by simp [step, hk])
  | startThread i => exact .of_step hfree (a := .startThread k i) rfl (by simp [step, hk])
  | storeHandle i =>
    by_cases hdeletes : s.deletes i = 0
    · exact .of_step hfree (a := .storeHandle k i) rfl (by simp [step, hk, hdeletes])
    · exact .of_step hfree (a := .fault .storeDeleted ⟨0, k⟩ 0 i) rfl
        (by simp [step, State.Faulty, hk, hdeletes])
  | finished => exact absurd hk hfinished

theorem goes_of_deleting (howned : Owned s) (hfree : s.Free)
    (hcompleted : s.addingCompleted = true) (hnot : s.deleter ≠ .notStarted)
    (hfinished : s.deleter ≠ .finished) : Goes s woken := by
  have hpending : ∀ a, a ∈ s.pending → ∃ i k, s.heap a = some i ∧ s.conn i = some ⟨k, a⟩ ∧
      (s.thread i).HandedOver := fun a ha => by
    obtain ⟨i, hi, hover⟩ := howned.pending a ha
    obtain ⟨k, hk⟩ := howned.heap a i hi
    exact ⟨i, k, hi, hk, hover⟩
  cases hd : s.deleter with
  | notStarted => exact absurd hd hnot
  | test => exact .of_step hfree (a := .testCompleted) rfl (by simp [step, hd])
  | take =>
    cases hthreads : s.threads with
    | nil => exact .of_step hfree (a := .takeCompleted) rfl (by simp [step, hd, hthreads, hcompleted])
    | cons a rest => exact .of_step hfree (a := .take a) rfl (by simp [step, hd, hthreads])
  | wait a =>
    obtain ⟨i, k, hi, hconn, hover⟩ := hpending a (by simp [State.pending, hd])
    cases hthread : s.thread i with
    | unlock =>
      exact .of_step hfree (a := .unlockErased i ⟨k, a⟩) rfl (by simp [step, hthread, hconn])
    | finished =>
      refine .of_step hfree (a := .join a i) rfl ?_
      simp only [step, hd, hi, and_self, if_true, State.wait, State.finished, hthread]
      split_ifs <;> rfl
    | _ => rw [hthread] at hover; exact hover.elim
  | delete a =>
    obtain ⟨i, k, hi, -, -⟩ := hpending a (by simp [State.pending, hd])
    by_cases hjoinable : (s.worker (.conn i)).joinable = true
    · exact .of_step hfree (a := .fault .terminate ⟨0, .tcp⟩ a i) rfl
        (by simp [step, State.Faulty, hd, hi, hjoinable])
    · exact .of_step hfree (a := .delete a i) rfl (by simp [step, hd, hi, hjoinable])
  | finished => exact absurd hd hfinished

/-- `main` waits for threads that it has started, for the deleter last. -/
def waitsLate : List Stmt → Bool
  | .wait (.server k) :: rest => .startThread (.server k) ∉ rest
  | .wait .deleter :: rest => .startThread .deleter ∉ rest ∧ .completeAdding ∉ rest
  | .wait (.conn _) :: _ => false
  | _ => true

theorem waitsLate_of_suffix {l : List Stmt} (h : l <:+ mainProgram) : waitsLate l = true :=
  List.all_eq_true.mp (by decide : mainProgram.tails.all waitsLate = true) l
    ((List.mem_tails l mainProgram).mpr h)

/-- Until `main` has returned some thread can go on. -/
theorem goes_of_main (howned : Owned s) (hmain : MainInv s) (hstart : StartInv s)
    (hheld : HeldInv s) (hprogress : ProgressInv s)
    (hwoken : ∀ k, s.accept k = .accept true → woken k = true) (hfree : s.Free)
    (hleft : s.main ≠ []) : Goes s woken := by
  obtain ⟨stmt, rest, hs⟩ := List.exists_cons_of_ne_nil hleft
  have hnext : (exec { s with main := rest } stmt).isSome = true → Goes s woken := fun h =>
    .of_step hfree (a := .main) rfl (by simpa [step, mainNext, hs] using h)
  cases stmt with
  | wait w =>
    by_cases hfinished : s.finished w
    · refine hnext ?_
      simp only [exec, State.wait]
      split_ifs <;> first | rfl | (cases w <;> exact absurd hfinished ‹_›)
    · have hlate := waitsLate_of_suffix (hs ▸ hmain.suffix)
      cases w with
      | server k =>
        refine goes_of_accepting howned hheld hfree (hwoken k) (fun hnot => ?_) hfinished
        have hmem := hs ▸ (hstart k).mpr hnot
        exact of_decide_eq_true hlate ((List.mem_cons.mp hmem).resolve_left nofun)
      | deleter =>
        obtain ⟨hrun, hcomplete⟩ := of_decide_eq_true hlate
        refine goes_of_deleting howned hfree (hprogress.completed ?_) (hprogress.deleter ?_) hfinished
        · rw [hs]
          exact List.not_mem_cons_of_ne_of_not_mem (by simp) hcomplete
        · rw [hs]
          exact List.not_mem_cons_of_ne_of_not_mem (by simp) hrun
      | conn i => cases hlate
  | _ => exact hnext rfl

end Goes

/-- What holds in every state and is used on the way to the end. -/
structure Sound (p : State × (Server → Bool)) : Prop where
  owned : Owned p.1
  handler : HandlerInv p.1
  main : MainInv p.1
  start : StartInv p.1
  place : PlaceInv p.1
  held : HeldInv p.1
  progress : ProgressInv p.1
  woken : WokenInv p.1 p.2

section Sound
variable {p p' : State × (Server → Bool)} {act : Action}

theorem sound_step (hs : Sound p) (hn : signalled.next p act = some p') : Sound p' := by
  obtain ⟨hnext, hwake⟩ := TransitionSystem.observe_next hn
  obtain ⟨-, hstep⟩ := of_guard hnext
  exact ⟨owned_step hs.owned hstep, handlerInv_step hs.handler hs.owned hstep,
    mainInv_step hs.main hs.owned hstep, startInv_step hs.start hs.main hstep,
    placeInv_step hs.place hs.owned hstep, heldInv_step hs.held hs.owned hs.start hstep,
    progressInv_step hs.progress hstep, hwake ▸ wokenInv_step hs.woken hs.owned hs.main hstep⟩

theorem sound_of_reachable (hp : signalled.Reachable p) : Sound p :=
  hp.invariant (I := Sound) ⟨owned_initial, handlerInv_initial, mainInv_initial, startInv_initial,
    placeInv_initial, heldInv_initial, progressInv_initial, wokenInv_initial⟩
    fun _ _ _ _ h hn => sound_step h hn

theorem closing_next (hs : Sound p ∧ Closing p.1) (hact : ∀ t, act ≠ .interrupt t)
    (hn : signalled.next p act = some p') :
    (Sound p' ∧ Closing p'.1) ∧ p'.1.work + 1 ≤ p.1.work + if act.passes then 2 else 0 := by
  obtain ⟨hsound, hclosing⟩ := hs
  obtain ⟨hnext, -⟩ := TransitionSystem.observe_next hn
  obtain ⟨⟨hfault, -⟩, hstep⟩ := of_guard hnext
  refine ⟨⟨sound_step hsound hn,
    closing_step hclosing hsound.owned hsound.handler hact hstep⟩, ?_⟩
  cases hpasses : act.passes with
  | true =>
    obtain ⟨i, rfl⟩ : ∃ i, act = .again i := by
      cases act with
      | again i => exact ⟨i, rfl⟩
      | _ => cases hpasses
    have hle := work_again hsound.place hstep
    simpa using hle
  | false =>
    refine work_step hsound.owned hsound.handler hclosing hsound.place hact ?_ hfault hstep
    rintro i rfl
    cases hpasses

/-- Once the handlers are at their end and both servers are told to end, a run without another
SIGINT has at most `work` steps, and two more for each further pass of a connection's loop. It
can go on until `main` has returned or a fault has occurred, whatever the connections do: the end
does not wait for any of them. -/
theorem main_returns (hp : signalled.Reachable p) (hclosing : Closing p.1) (as : List Action)
    (has : ∀ a ∈ as, ∀ t, a ≠ .interrupt t) (hr : signalled.run p as = some p') :
    as.length ≤ p.1.work + 2 * as.countP (·.passes) ∧ (p'.1.main = [] ∨ p'.1.fault ≠ none ∨
      ∃ a : Action, Outside p' a = false ∧ (signalled.next p' a).isSome = true) := by
  obtain ⟨⟨hsound, hclosing'⟩, hlength⟩ := TransitionSystem.run_length_le (S := signalled)
    (I := fun p => Sound p ∧ Closing p.1) (·.passes) 2 (fun p => p.1.work)
    (fun _ _ _ ha hs hn => closing_next hs ha hn) ⟨sound_of_reachable hp, hclosing⟩ as has hr
  refine ⟨by omega, ?_⟩
  by_cases hmain : p'.1.main = []
  · exact .inl hmain
  by_cases hfault : p'.1.fault = none
  · have hwoken : ∀ k, p'.1.accept k = .accept true → p'.2 k = true := fun k hpending => by
      refine (hsound.woken k (hclosing'.flag k) hpending).resolve_right ?_
      rintro ⟨n, hn⟩
      exact hclosing'.not_inProgress hsound.handler _ hn.inProgress
    obtain ⟨a, ha, hn⟩ := goes_of_main hsound.owned hsound.main hsound.start hsound.held
      hsound.progress hwoken ⟨hfault, hclosing'.not_handling⟩ hmain
    refine .inr (.inr ⟨a, ha, ?_⟩)
    simp only [signalled, TransitionSystem.observe, Option.isSome_map]
    exact hn
  · exact .inr (.inl hfault)

end Sound

private def interruptServers : List Action :=
  serversRunning ++ connect .tcp 0 100 ++ [.interrupt .main] ++ stopIdle 0 .modbus ++
    beginStop 0 .tcp ++ stopConn 0 .tcp 0 100 ++ [.advance ⟨0, .tcp⟩ 100 0, .clear ⟨0, .tcp⟩]

private def afterStop : List Action :=
  [.acceptFailed .modbus, .test .modbus, .acceptFailed .tcp, .test .tcp, .main, .main, .main,
    .main, .takeCompleted, .testCompleted]

/-- The connection stays in its loop while `main` comes to its last statement. -/
theorem main_returns_connected : ∃ p p', (p'.1.thread 0 = .loop ∧ p'.1.main = [.wait .deleter]) ∧
    signalled.run p afterStop = some p' ∧
    afterStop.length ≤ p.1.work + 2 * afterStop.countP (·.passes) ∧
    (p'.1.main = [] ∨ p'.1.fault ≠ none ∨
      ∃ a : Action, Outside p' a = false ∧ (signalled.next p' a).isSome = true) := by
  obtain ⟨p, hp, htest⟩ := TransitionSystem.exists_reachable_of_run signalled interruptServers
    (fun p => decide (p.1.interrupts = 1 ∧ p.1.handler 0 = [] ∧
      (∀ k, (p.1.worker (.server k)).bRunning = false) ∧ p.1.main = mainProgram.drop 10) &&
      (signalled.run p afterStop).any fun (q : State × (Server → Bool)) =>
        decide (q.1.thread 0 = .loop ∧ q.1.main = [.wait .deleter]))
    (by decide)
  obtain ⟨hstate, hrun⟩ := (Bool.and_eq_true ..).mp htest
  obtain ⟨honce, hhandler, hflag, hmain⟩ := of_decide_eq_true hstate
  obtain ⟨p', hr, hend⟩ := (Option.any_eq_true ..).mp hrun
  have hidle : ∀ n, p.1.handler n = [] := fun n => by
    by_contra hn
    have hlt := (sound_of_reachable hp).handler.number_lt hn
    obtain rfl : n = 0 := by omega
    exact hn hhandler
  have hclosing : Closing p.1 := ⟨hidle, hflag, fun k => by rw [hmain]; cases k <;> decide⟩
  have has : ∀ a ∈ afterStop, ∀ t, a ≠ .interrupt t := by
    intro a ha t
    simp only [afterStop, List.mem_cons, List.not_mem_nil, or_false] at ha
    rcases ha with rfl | rfl | rfl | rfl | rfl | rfl | rfl | rfl | rfl | rfl <;> simp
  exact ⟨p, p', of_decide_eq_true hend, hr, main_returns hp hclosing afterStop has hr⟩

end Mbtest.Lifecycle
