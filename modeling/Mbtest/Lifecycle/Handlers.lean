import Mbtest.Lifecycle.Ownership

/-! The runs of the handler of SIGINT: each stops the servers one after the other, and several
may be under way on different threads. -/
namespace Mbtest.Lifecycle
open Lib

/-- A call of `stop` that has not returned. -/
def StopPc.InProgress : StopPc → Prop
  | .notCalled | .returned => False
  | _ => True

theorem stopAt_cases (heap : ℕ → Option ℕ) (ahead : Finset ℕ) :
    stopAt heap ahead = .clear ∧ ahead = ∅ ∨
      ∃ a ∈ ahead, stopAt heap ahead = .callStop ⟨a, heap a⟩ ∧ ∀ b ∈ ahead, a ≤ b := by
  unfold stopAt
  cases hmin : ahead.min with
  | top => exact .inl ⟨rfl, Finset.min_eq_top.mp hmin⟩
  | coe a => exact .inr ⟨a, Finset.mem_of_min hmin, rfl, fun b hb => Finset.min_le_of_eq hb hmin⟩

theorem stopAt_inProgress (heap : ℕ → Option ℕ) (ahead : Finset ℕ) :
    (stopAt heap ahead).InProgress := by
  rcases stopAt_cases heap ahead with ⟨hclear, -⟩ | ⟨a, -, hcall, -⟩
  · rw [hclear]; trivial
  · rw [hcall]; trivial

theorem StopPc.InProgress.ne_notCalled {pc : StopPc} (h : pc.InProgress) : pc ≠ .notCalled := by
  rintro rfl
  exact h

/-- No handler has called `stop` of a server. -/
def State.unstopped (s : State) (k : Server) : Prop :=
  ∀ n < s.interrupts, s.stop ⟨n, k⟩ = .notCalled

instance (s : State) (k : Server) : Decidable (s.unstopped k) :=
  inferInstanceAs (Decidable (∀ n < s.interrupts, s.stop ⟨n, k⟩ = .notCalled))

structure HandlerInv (s : State) : Prop where
  fresh : ∀ n, s.interrupts ≤ n → s.handler n = [] ∧ ∀ k, s.stop ⟨n, k⟩ = .notCalled
  order : ∀ n, s.handler n <:+ [.modbus, .tcp]
  current : ∀ c, (s.stop c).InProgress → (s.handler c.number).head? = some c.server

variable {s s' : State}

theorem handlerInv_initial : HandlerInv initial where
  fresh _ _ := ⟨rfl, fun _ => rfl⟩
  order _ := List.nil_suffix
  current _ h := h.elim

/-- What holds of the calls so far holds of those to come. -/
theorem HandlerInv.forall_calls (hs : HandlerInv s) {k : Server} {p : StopPc → Prop}
    (hp : p .notCalled) (h : ∀ n < s.interrupts, p (s.stop ⟨n, k⟩)) (n : ℕ) :
    p (s.stop ⟨n, k⟩) := by
  by_cases hn : n < s.interrupts
  · exact h n hn
  · rw [(hs.fresh n (Nat.le_of_not_lt hn)).2 k]
    exact hp

theorem HandlerInv.notCalled_of_unstopped (hs : HandlerInv s) {k : Server} (hk : s.unstopped k)
    (n : ℕ) : s.stop ⟨n, k⟩ = .notCalled :=
  hs.forall_calls (p := fun pc => pc = .notCalled) rfl hk n

theorem HandlerInv.number_lt (hs : HandlerInv s) {n : ℕ} (hn : s.handler n ≠ []) :
    n < s.interrupts := by
  by_contra hle
  exact hn (hs.fresh n (Nat.le_of_not_lt hle)).1

theorem HandlerInv.server_unique (hs : HandlerInv s) {c d : Call}
    (hc : (s.stop c).InProgress) (hd : (s.stop d).InProgress) (hnumber : c.number = d.number) :
    c = d := by
  have hhead := hs.current c hc
  rw [hnumber, hs.current d hd] at hhead
  cases c
  cases d
  cases hnumber
  cases hhead
  rfl

theorem HandlerInv.setStop (hs : HandlerInv s) (c : Call) (pc : StopPc)
    (hc : (s.handler c.number).head? = some c.server) :
    HandlerInv { s with stop := Function.update s.stop c pc } where
  fresh n hn := by
    refine ⟨(hs.fresh n hn).1, fun k => ?_⟩
    have hne : (⟨n, k⟩ : Call) ≠ c := by
      rintro rfl
      rw [(hs.fresh n hn).1] at hc
      cases hc
    exact (Function.update_of_ne hne _ _).trans ((hs.fresh n hn).2 k)
  order := hs.order
  current d hd := by
    by_cases hdc : d = c
    · subst hdc; exact hc
    · exact hs.current d (by simpa [Function.update_of_ne hdc] using hd)

theorem HandlerInv.moveStop (hs : HandlerInv s) (c : Call) (pc : StopPc)
    (hc : (s.stop c).InProgress) :
    HandlerInv { s with stop := Function.update s.stop c pc } :=
  hs.setStop c pc (hs.current c hc)

theorem HandlerInv.interrupt (hs : HandlerInv s) (t : Thread) :
    HandlerInv { s with
      interrupts := s.interrupts + 1
      on := Function.update s.on s.interrupts t
      handler := Function.update s.handler s.interrupts [.modbus, .tcp] } where
  fresh n hn := by
    have hlt : s.interrupts < n := hn
    obtain ⟨hnil, hstop⟩ := hs.fresh n (Nat.le_of_lt hlt)
    exact ⟨(Function.update_of_ne (Nat.ne_of_gt hlt) _ _).trans hnil, hstop⟩
  order n := by
    by_cases hn : n = s.interrupts
    · subst hn; simp
    · simpa [Function.update_of_ne hn] using hs.order n
  current c hc := by
    have hprogress : (s.stop c).InProgress := hc
    have hne : c.number ≠ s.interrupts := fun hnumber =>
      hprogress.ne_notCalled ((hs.fresh c.number (Nat.le_of_eq hnumber.symm)).2 c.server)
    simpa [Function.update_of_ne hne] using hs.current c hprogress

theorem HandlerInv.clear (hs : HandlerInv s) {c : Call} (hc : s.stop c = .clear) :
    HandlerInv { s with
      stop := Function.update s.stop c .returned
      handler := Function.update s.handler c.number (s.handler c.number).tail } where
  fresh n hn := by
    have hmoved := hs.moveStop c .returned (by rw [hc]; trivial)
    obtain ⟨hnil, hstop⟩ := hmoved.fresh n hn
    refine ⟨?_, hstop⟩
    by_cases hnumber : n = c.number
    · subst hnumber
      rw [show s.handler c.number = [] from hnil]
      simp
    · exact (Function.update_of_ne hnumber _ _).trans hnil
  order n := by
    by_cases hnumber : n = c.number
    · subst hnumber; simpa using (List.tail_suffix _).trans (hs.order c.number)
    · simpa [Function.update_of_ne hnumber] using hs.order n
  current d hd := by
    have hdc : d ≠ c := by rintro rfl; simp [StopPc.InProgress] at hd
    replace hd : (s.stop d).InProgress := by simpa [Function.update_of_ne hdc] using hd
    have hnumber : d.number ≠ c.number := fun h =>
      hdc (hs.server_unique hd (by rw [hc]; trivial) h)
    simpa [Function.update_of_ne hnumber] using hs.current d hd

theorem handlerInv_step (hs : HandlerInv s) (howned : Owned s) {act : Action}
    (hn : step s act = some s') : HandlerInv s' := by
  cases act with
  | main => rw [mainNext_frame howned hn]; exact { hs with }
  | interrupt t => obtain ⟨-, ⟨⟩⟩ := of_guard hn; exact hs.interrupt t
  | clearRunning c =>
    obtain ⟨⟨hhead, -⟩, ⟨⟩⟩ := of_guard hn
    exact { hs.setStop c .closeListener hhead with }
  | closeListener c =>
    obtain ⟨hc, ⟨⟩⟩ := of_guard hn
    exact { hs.moveStop c .cancelIo (by rw [hc]; trivial) with }
  | cancelIo c =>
    obtain ⟨⟨hc, -⟩, ⟨⟩⟩ := of_guard hn
    exact hs.moveStop c .first (by rw [hc]; trivial)
  | first c =>
    obtain ⟨hc, ⟨⟩⟩ := of_guard hn
    exact hs.moveStop c _ (by rw [hc]; trivial)
  | callStop c a i =>
    obtain ⟨⟨hc, -⟩, ⟨⟩⟩ := of_guard hn
    exact { hs.moveStop c (.closeSocket ⟨a, some i⟩) (by rw [hc]; trivial) with }
  | closeSocket c a i =>
    obtain ⟨⟨hc, -⟩, ⟨⟩⟩ := of_guard hn
    exact hs.moveStop c (.cancelConn ⟨a, some i⟩) (by rw [hc]; trivial)
  | cancelConn c a i =>
    obtain ⟨⟨hc, -⟩, ⟨⟩⟩ := of_guard hn
    exact hs.moveStop c (.advance ⟨a, some i⟩) (by rw [hc]; trivial)
  | advance c a i =>
    obtain ⟨⟨hc, -⟩, ⟨⟩⟩ := of_guard hn
    exact hs.moveStop c _ (by rw [hc]; trivial)
  | clear c => obtain ⟨hc, ⟨⟩⟩ := of_guard hn; exact { hs.clear hc with }
  | join a i =>
    obtain ⟨-, hwait⟩ := of_guard hn
    rw [wait_frame hwait]
    exact { hs with }
  | _ => obtain ⟨-, ⟨⟩⟩ := of_guard hn; exact { hs with }

/-- The call of `stop` that a step of the handler belongs to. -/
def Action.call : Action → Option Call
  | .clearRunning c | .closeListener c | .cancelIo c | .first c | .clear c => some c
  | .callStop c _ _ | .closeSocket c _ _ | .cancelConn c _ _ | .advance c _ _ => some c
  | _ => none

theorem stop_frame (howned : Owned s) {act : Action} (hn : step s act = some s') {c : Call}
    (hc : act.call ≠ some c) : s'.stop c = s.stop c := by
  cases act with
  | main => rw [mainNext_frame howned hn]
  | clearRunning d | closeListener d | cancelIo d | first d | clear d =>
    obtain ⟨-, ⟨⟩⟩ := of_guard hn
    exact Function.update_of_ne (by rintro rfl; exact hc rfl) _ _
  | callStop d a i | closeSocket d a i | cancelConn d a i | advance d a i =>
    obtain ⟨-, ⟨⟩⟩ := of_guard hn
    exact Function.update_of_ne (by rintro rfl; exact hc rfl) _ _
  | join a i =>
    obtain ⟨-, hwait⟩ := of_guard hn
    rw [wait_frame hwait]
  | _ => obtain ⟨-, ⟨⟩⟩ := of_guard hn; rfl

/-- Between one SIGINT and the next the handlers have less and less to do. -/
theorem handler_suffix (howned : Owned s) {act : Action} (hact : ∀ t, act ≠ .interrupt t)
    (hn : step s act = some s') (n : ℕ) : s'.handler n <:+ s.handler n := by
  cases act with
  | main => rw [mainNext_frame howned hn]
  | interrupt t => exact absurd rfl (hact t)
  | clear c =>
    obtain ⟨-, ⟨⟩⟩ := of_guard hn
    by_cases hnumber : n = c.number
    · subst hnumber; simpa using List.tail_suffix _
    · simp [Function.update_of_ne hnumber]
  | join a i =>
    obtain ⟨-, hwait⟩ := of_guard hn
    rw [wait_frame hwait]
  | _ => obtain ⟨-, ⟨⟩⟩ := of_guard hn; exact List.suffix_rfl

/-- How far a call of `stop` has come: to the flag, the listening descriptor, the signal to the
accepting thread, or past them. -/
def StopPc.stage : StopPc → ℕ
  | .notCalled => 0
  | .closeListener => 1
  | .cancelIo => 2
  | _ => 3

theorem StopPc.stage_le (pc : StopPc) : pc.stage ≤ 3 := by
  cases pc <;> simp [StopPc.stage]

theorem stage_stopAt (heap : ℕ → Option ℕ) (ahead : Finset ℕ) : (stopAt heap ahead).stage = 3 := by
  rcases stopAt_cases heap ahead with ⟨hclear, -⟩ | ⟨a, -, hcall, -⟩
  · rw [hclear]; rfl
  · rw [hcall]; rfl

theorem stage_step (howned : Owned s) {act : Action} (hn : step s act = some s') (c : Call) :
    (s.stop c).stage ≤ (s'.stop c).stage := by
  by_cases hc : act.call = some c
  · cases act with
    | clearRunning d =>
      cases hc
      obtain ⟨⟨-, hd⟩, ⟨⟩⟩ := of_guard hn
      simp [hd, StopPc.stage]
    | closeListener d =>
      cases hc
      obtain ⟨hd, ⟨⟩⟩ := of_guard hn
      simp [hd, StopPc.stage]
    | first d =>
      cases hc
      obtain ⟨-, ⟨⟩⟩ := of_guard hn
      simpa [stage_stopAt] using (s.stop c).stage_le
    | advance d a i =>
      cases hc
      obtain ⟨-, ⟨⟩⟩ := of_guard hn
      simpa [stage_stopAt] using (s.stop c).stage_le
    | cancelIo d | clear d | callStop d a i | closeSocket d a i | cancelConn d a i =>
      cases hc
      obtain ⟨-, ⟨⟩⟩ := of_guard hn
      simpa [StopPc.stage] using (s.stop c).stage_le
    | _ => cases hc
  · exact Nat.le_of_eq (congrArg _ (stop_frame howned hn hc).symm)

/-- The handler has yet to bring the call of `stop` past a stage. -/
def State.Ahead (s : State) (c : Call) (stage : ℕ) : Prop :=
  c.server ∈ s.handler c.number ∧ (s.stop c).stage ≤ stage

instance (s : State) (c : Call) (stage : ℕ) : Decidable (s.Ahead c stage) :=
  inferInstanceAs (Decidable (_ ∧ _))

/-- What is ahead of a handler was ahead of it before, unless the handler has just begun. -/
theorem ahead_step (howned : Owned s) {act : Action} (hact : ∀ t, act ≠ .interrupt t)
    (hn : step s act = some s') {c : Call} {stage : ℕ} (hc : s'.Ahead c stage) :
    s.Ahead c stage :=
  ⟨(handler_suffix howned hact hn c.number).subset hc.1,
    (stage_step howned hn c).trans hc.2⟩

theorem ahead_interrupt {t : Thread} (hn : step s (.interrupt t) = some s') {c : Call} {stage : ℕ}
    (hc : s'.Ahead c stage) : s.Ahead c stage ∨ c.number = s.interrupts := by
  obtain ⟨-, ⟨⟩⟩ := of_guard hn
  by_cases hnumber : c.number = s.interrupts
  · exact .inr hnumber
  · exact .inl ⟨by simpa [Function.update_of_ne hnumber] using hc.1, hc.2⟩

end Mbtest.Lifecycle
