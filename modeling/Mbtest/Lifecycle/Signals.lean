import Mbtest.Lifecycle.Targets
import Mbtest.Lifecycle.History

/-! What the handlers of SIGINT do to the servers and their connections: they signal their
threads and close the listening descriptors, at whatever point `main` stands. -/
namespace Mbtest.Lifecycle
open Lib

/-- The start-up of the Modbus server has failed, and there is no listening descriptor. -/
def NeverListens (p : State × History) : Prop :=
  p.1.accept .modbus = .finished ∧ p.2.opened .modbus = false

/-- The handlers so far are past their close of the Modbus server's listening descriptor,
and it is open or not there yet. -/
def ListenerKept (p : State × History) : Prop :=
  (∀ n < p.1.interrupts, ¬ p.1.Ahead ⟨n, .modbus⟩ 1) ∧
    (p.2.opened .modbus = true → p.1.listening .modbus = true)

/-- SIGINT comes after `main` has stored the handles of both servers and before it has joined
either, and again only while the listening descriptor stays; `main` joins a server when all
handlers have signalled it; `stop` of a connection comes to `cancelIO` when its `run` has
returned. -/
def ComesInTime (p : State × History) : Action → Prop
  | .interrupt _ =>
    (∀ k, .storeHandle (.server k) ∉ p.1.main ∧ .wait (.server k) ∈ p.1.main) ∧
      (NeverListens p ∨ ListenerKept p)
  | .main => ∀ k, p.1.main.head? = some (.wait (.server k)) →
      ∀ n < p.1.interrupts, ¬ p.1.Ahead ⟨n, k⟩ 2
  | .closeSocket _ _ i => ∀ k, (p.1.accept k).holding ≠ some i
  | _ => True

instance (p : State × History) (a : Action) : Decidable (ComesInTime p a) :=
  match a with
  | .interrupt _ => inferInstanceAs (Decidable
      ((∀ k, Stmt.storeHandle (.server k) ∉ p.1.main ∧ Stmt.wait (.server k) ∈ p.1.main) ∧
        ((p.1.accept .modbus = .finished ∧ p.2.opened .modbus = false) ∨
          (∀ n < p.1.interrupts, ¬ p.1.Ahead ⟨n, .modbus⟩ 1) ∧
            (p.2.opened .modbus = true → p.1.listening .modbus = true))))
  | .main => inferInstanceAs (Decidable (∀ k, p.1.main.head? = some (.wait (.server k)) →
      ∀ n < p.1.interrupts, ¬ p.1.Ahead ⟨n, k⟩ 2))
  | .closeSocket _ _ i => inferInstanceAs (Decidable (∀ k, (p.1.accept k).holding ≠ some i))
  | .clearRunning _ | .closeListener _ | .cancelIo _ | .first _ | .callStop _ _ _
  | .cancelConn _ _ _ | .advance _ _ _ | .clear _ | .startup _ _ | .test _ | .accepted _ _ _
  | .acceptFailed _ | .lockToInsert _ _ | .insert _ _ _ | .unlockInserted _ _ | .setRunning _ _
  | .startThread _ _ | .storeHandle _ _ | .testRunning _ | .again _ | .leave _ | .lockToErase _ _
  | .erase _ _ | .deleteWorker _ _ | .unlockErased _ _ | .testCompleted | .take _
  | .takeCompleted | .join _ _ | .delete _ _ | .fault _ _ _ _ => .isTrue trivial

def InTime (p : State × History) (a : Action) : Prop := ErasesAside p.1 a ∧ ComesInTime p a

instance (p : State × History) (a : Action) : Decidable (InTime p a) :=
  inferInstanceAs (Decidable (ErasesAside p.1 a ∧ ComesInTime p a))

variable {s s' : State} {h h' : History}

/-- A handler that has yet to signal a server finds its handle stored and not joined. -/
def TargetInv (s : State) : Prop :=
  ∀ c, s.Ahead c 2 →
    .storeHandle (.server c.server) ∉ s.main ∧ .wait (.server c.server) ∈ s.main

theorem HandlerInv.number_lt_of_ahead (hs : HandlerInv s) {c : Call} {stage : ℕ}
    (hc : s.Ahead c stage) : c.number < s.interrupts :=
  hs.number_lt (List.ne_nil_of_mem hc.1)

theorem targetInv_step (hs : TargetInv s) (howned : Owned s) (hhandler : HandlerInv s)
    {act : Action} (hguard : ComesInTime (s, h) act) (hn : step s act = some s') :
    TargetInv s' := by
  intro c hc
  by_cases hmain : act = .main
  · subst hmain
    have hold := ahead_step howned (by simp) hn hc
    obtain ⟨stmt, rest, hstmt, hexec⟩ := mainNext_cases hn
    obtain ⟨hstored, hwait⟩ := hs c hold
    rw [show s'.main = rest from exec_main hexec]
    rw [hstmt] at hstored hwait
    refine ⟨fun hmem => hstored (List.mem_cons_of_mem stmt hmem), ?_⟩
    refine (List.mem_cons.mp hwait).resolve_left fun hw => ?_
    have hhead : s.main.head? = some (.wait (.server c.server)) := by rw [hstmt, hw]; rfl
    exact hguard c.server hhead c.number (hhandler.number_lt_of_ahead hold) hold
  · rw [(step_ofMain hmain hn).1]
    by_cases hact : ∃ t, act = .interrupt t
    · obtain ⟨t, rfl⟩ := hact
      rcases ahead_interrupt hn hc with hold | -
      · exact hs c hold
      · exact hguard.1 c.server
    · exact hs c (ahead_step howned (fun t ht => hact ⟨t, ht⟩) hn hc)

def AcceptPc.Unopened : AcceptPc → Prop
  | .notStarted | .startup => True
  | _ => False

/-- Which listening descriptors are open, and how often they have been closed. -/
structure ListenerInv (s : State) (h : History) : Prop where
  unopened : ∀ k, (s.accept k).Unopened → h.opened k = false
  unclosed : ∀ k, h.opened k = false → s.listening k = false ∧ h.listenerCloses k = 0
  listening : ∀ k, s.listening k = true → h.listenerCloses k = 0
  ahead : ∀ n, s.Ahead ⟨n, .modbus⟩ 1 → h.listenerCloses .modbus = 0
  unique : ∀ m n, s.Ahead ⟨m, .modbus⟩ 1 → s.Ahead ⟨n, .modbus⟩ 1 → m = n ∨ NeverListens (s, h)
  once : ∀ k, h.listenerCloses k ≤ 1

theorem not_ahead_initial (c : Call) (stage : ℕ) : ¬ initial.Ahead c stage :=
  fun h => List.not_mem_nil h.1

theorem listenerInv_initial : ListenerInv initial .empty where
  unopened _ _ := rfl
  unclosed _ _ := ⟨rfl, rfl⟩
  listening _ _ := rfl
  ahead _ _ := rfl
  unique _ _ hm := absurd hm (not_ahead_initial _ _)
  once _ := Nat.zero_le 1

theorem ListenerInv.of_same (hs : ListenerInv s h)
    (haccept : ∀ k, (s'.accept k).Unopened → (s.accept k).Unopened)
    (hahead : ∀ n, s'.Ahead ⟨n, .modbus⟩ 1 → s.Ahead ⟨n, .modbus⟩ 1)
    (hnever : NeverListens (s, h) → NeverListens (s', h'))
    (hlistening : s'.listening = s.listening) (hopened : h'.opened = h.opened)
    (hcloses : h'.listenerCloses = h.listenerCloses) : ListenerInv s' h' := by
  constructor
  case unopened => rw [hopened]; exact fun k hk => hs.unopened k (haccept k hk)
  case unclosed => rw [hopened, hlistening, hcloses]; exact hs.unclosed
  case listening => rw [hlistening, hcloses]; exact hs.listening
  case ahead => rw [hcloses]; exact fun n hn => hs.ahead n (hahead n hn)
  case unique => exact fun m n hm hn => (hs.unique m n (hahead m hm) (hahead n hn)).imp_right hnever
  case once => rw [hcloses]; exact hs.once

theorem server_finished_step (howned : Owned s) (hstart : StartInv s) {act : Action}
    (hn : step s act = some s') {k : Server} (hk : s.accept k = .finished) :
    s'.accept k = .finished := by
  by_cases hact : act = .main
  · subst hact
    obtain ⟨stmt, rest, hstmt, hexec⟩ := mainNext_cases hn
    have hne : stmt ≠ .startThread (.server k) := by
      rintro rfl
      cases hk.symm.trans ((hstart k).mp (hstmt ▸ List.mem_cons_self))
    exact (exec_accept hexec hne).trans hk
  · exact finished_step howned hact hn (w := .server k) hk

theorem neverListens_step (howned : Owned s) (hstart : StartInv s) {act : Action}
    (hn : step s act = some s') (hs : NeverListens (s, h)) :
    NeverListens (s', record s act h) := by
  refine ⟨server_finished_step howned hstart hn hs.1, ?_⟩
  cases act with
  | startup k ok =>
    obtain ⟨hk, -⟩ := of_guard hn
    cases k with
    | modbus => cases hk.symm.trans hs.1
    | tcp =>
      have hne : Server.modbus ≠ .tcp := by simp
      exact (Function.update_of_ne hne ok h.opened).trans hs.2
  | accepted k i a => rw [record_accepted]; exact hs.2
  | closeSocket c a i => rw [record_closeSocket]; exact hs.2
  | closeListener c => rw [record_closeListener]; exact hs.2
  | _ => exact hs.2

/-- A listening descriptor is closed that has not been closed before, or none. -/
theorem ListenerInv.closeListener (hs : ListenerInv s h) (hhandler : HandlerInv s) {c : Call}
    (hc : s.stop c = .closeListener) :
    ListenerInv
      { s with
        listening := Function.update s.listening c.server false
        stop := Function.update s.stop c .cancelIo }
      (record s (.closeListener c) h) := by
  have hmem : c.server ∈ s.handler c.number :=
    List.mem_of_mem_head? (hhandler.current c (by rw [hc]; trivial))
  have hfirst : ClosesListener s h c.server = true → h.listenerCloses c.server = 0 := by
    obtain ⟨n, k⟩ := c
    cases k with
    | modbus => exact fun _ => hs.ahead n ⟨hmem, by rw [hc]; exact le_rfl⟩
    | tcp => exact hs.listening .tcp
  have hidle : h.opened c.server = false → ClosesListener s h c.server = false := by
    cases c.server with
    | modbus => exact id
    | tcp => exact fun hclosed => (hs.unclosed .tcp hclosed).1
  -- what is still ahead of a handler is the business of another call
  have hahead : ∀ n, State.Ahead
      { s with
        listening := Function.update s.listening c.server false
        stop := Function.update s.stop c .cancelIo } ⟨n, .modbus⟩ 1 →
      s.Ahead ⟨n, .modbus⟩ 1 ∧ (⟨n, .modbus⟩ : Call) ≠ c := by
    rintro n ⟨hhead, hstage⟩
    have hne : (⟨n, .modbus⟩ : Call) ≠ c := by
      rintro rfl
      simp [StopPc.stage] at hstage
    exact ⟨⟨hhead, by simpa [Function.update_of_ne hne] using hstage⟩, hne⟩
  rw [record_closeListener]
  constructor
  case unopened => exact hs.unopened
  case unclosed =>
    intro j hj
    obtain ⟨hlistening, hcloses⟩ := hs.unclosed j hj
    by_cases hjc : j = c.server
    · subst hjc; simp [hidle hj, hcloses]
    · simp [Function.update_of_ne hjc, hlistening, hcloses]
  case listening =>
    intro j hj
    have hjc : j ≠ c.server := by rintro rfl; simp at hj
    simp only [Function.update_of_ne hjc] at hj ⊢
    exact hs.listening j hj
  case ahead =>
    intro n hn
    obtain ⟨hold, hne⟩ := hahead n hn
    by_cases hserver : .modbus = c.server
    · -- two handlers are before their close only if there is nothing to close
      have hself : s.Ahead ⟨c.number, .modbus⟩ 1 := by
        rw [hserver]
        exact ⟨hmem, by rw [hc]; exact le_rfl⟩
      have hnever := (hs.unique n c.number hold hself).resolve_left fun h => hne (by
        rw [h, hserver])
      have hnot : ClosesListener s h .modbus = false := hnever.2
      simp [← hserver, hnot, hs.ahead n hold]
    · simpa [Function.update_of_ne hserver] using hs.ahead n hold
  case unique =>
    intro m n hm hn
    exact hs.unique m n (hahead m hm).1 (hahead n hn).1
  case once =>
    intro j
    by_cases hjc : j = c.server
    · subst hjc
      simp only [Function.update_self]
      split_ifs with hcloses
      · rw [hfirst hcloses]
      · exact hs.once _
    · simpa only [Function.update_of_ne hjc] using hs.once j

theorem ListenerInv.startup (hs : ListenerInv s h) {k : Server} (ok : Bool)
    (hk : s.accept k = .startup)
    (hnever : NeverListens (s, h) → NeverListens
      ({ s with
        listening := Function.update s.listening k ok
        accept := Function.update s.accept k (if ok then .test else .finished) },
      { h with opened := Function.update h.opened k ok })) :
    ListenerInv
      { s with
        listening := Function.update s.listening k ok
        accept := Function.update s.accept k (if ok then .test else .finished) }
      { h with opened := Function.update h.opened k ok } := by
  have hcloses := (hs.unclosed k (hs.unopened k (by rw [hk]; trivial))).2
  refine { hs with
    unopened := fun j hj => ?_, unclosed := fun j hj => ?_, listening := fun j hj => ?_,
    unique := fun m n hm hn => (hs.unique m n hm hn).imp_right hnever }
  · have hjk : j ≠ k := by
      rintro rfl
      cases ok <;> simp [AcceptPc.Unopened] at hj
    exact (Function.update_of_ne hjk _ _).trans
      (hs.unopened j (by simpa [Function.update_of_ne hjk] using hj))
  · by_cases hjk : j = k
    · subst hjk; exact ⟨by simpa using hj, hcloses⟩
    · obtain ⟨hlistening, hzero⟩ := hs.unclosed j (by simpa [Function.update_of_ne hjk] using hj)
      exact ⟨(Function.update_of_ne hjk _ _).trans hlistening, hzero⟩
  · by_cases hjk : j = k
    · subst hjk; exact hcloses
    · exact hs.listening j (by simpa [Function.update_of_ne hjk] using hj)

/-- The close of a new handler comes first, or there is nothing to close. -/
theorem ListenerInv.interrupt (hs : ListenerInv s h) (hhandler : HandlerInv s) {t : Thread}
    (hlistener : NeverListens (s, h) ∨ ListenerKept (s, h))
    (hn : step s (.interrupt t) = some s') : ListenerInv s' h := by
  have hahead : ∀ n, s'.Ahead ⟨n, .modbus⟩ 1 → s.Ahead ⟨n, .modbus⟩ 1 ∨ n = s.interrupts :=
    fun n => ahead_interrupt hn
  have hnone : h.listenerCloses .modbus = 0 := by
    rcases hlistener with hnever | ⟨-, hopen⟩
    · exact (hs.unclosed .modbus hnever.2).2
    · cases hopened : h.opened .modbus with
      | false => exact (hs.unclosed .modbus hopened).2
      | true => exact hs.listening .modbus (hopen hopened)
  have hunique : ∀ m n, s'.Ahead ⟨m, .modbus⟩ 1 → s'.Ahead ⟨n, .modbus⟩ 1 →
      m = n ∨ NeverListens (s, h) := by
    intro m n hm hn
    rcases hlistener with hnever | ⟨hpast, -⟩
    · exact .inr hnever
    · have hnew : ∀ n, s'.Ahead ⟨n, .modbus⟩ 1 → n = s.interrupts := fun n hn =>
        (hahead n hn).resolve_left fun hold => hpast n (hhandler.number_lt_of_ahead hold) hold
      exact .inl ((hnew m hm).trans (hnew n hn).symm)
  obtain ⟨-, ⟨⟩⟩ := of_guard hn
  exact { hs with ahead := fun _ _ => hnone, unique := hunique }

theorem unopened_setAccept {k j : Server} {pc : AcceptPc} (hpc : ¬ pc.Unopened)
    (hj : (Function.update s.accept k pc j).Unopened) : (s.accept j).Unopened := by
  by_cases hjk : j = k
  · subst hjk; exact absurd (by simpa using hj) hpc
  · simpa [Function.update_of_ne hjk] using hj

theorem unopened_main (hstart : StartInv s) (hn : mainNext s = some s') {k : Server}
    (hk : (s'.accept k).Unopened) : (s.accept k).Unopened := by
  obtain ⟨stmt, rest, hstmt, hexec⟩ := mainNext_cases hn
  by_cases hthread : stmt = .startThread (.server k)
  · have hnot : s.accept k = .notStarted := (hstart k).mp (by simp [hstmt, hthread])
    rw [hnot]
    trivial
  · have haccept : s'.accept k = s.accept k := exec_accept hexec hthread
    rwa [← haccept]

theorem listenerInv_step (hs : ListenerInv s h) (hhandler : HandlerInv s) (hstart : StartInv s)
    (howned : Owned s) {act : Action} (hguard : ComesInTime (s, h) act)
    (hn : step s act = some s') : ListenerInv s' (record s act h) := by
  have hnever : NeverListens (s, h) → NeverListens (s', record s act h) :=
    neverListens_step howned hstart hn
  have hahead : (∀ t, act ≠ .interrupt t) →
      ∀ n, s'.Ahead ⟨n, .modbus⟩ 1 → s.Ahead ⟨n, .modbus⟩ 1 :=
    fun hact n => ahead_step howned hact hn
  cases act with
  | interrupt t => exact hs.interrupt hhandler hguard.2 hn
  | startup k ok => obtain ⟨hk, ⟨⟩⟩ := of_guard hn; exact hs.startup ok hk hnever
  | closeListener c => obtain ⟨hc, ⟨⟩⟩ := of_guard hn; exact hs.closeListener hhandler hc
  | main =>
    exact hs.of_same (fun _ => unopened_main hstart hn) (hahead (by simp)) hnever
      (by rw [mainNext_frame howned hn]) rfl rfl
  | test k =>
    obtain ⟨-, ⟨⟩⟩ := of_guard hn
    exact hs.of_same (fun _ => unopened_setAccept (by split_ifs <;> exact id)) (hahead (by simp))
      hnever rfl rfl rfl
  | accepted k i a =>
    obtain ⟨-, ⟨⟩⟩ := of_guard hn
    rw [record_accepted] at hnever ⊢
    exact hs.of_same (fun _ => unopened_setAccept id) (hahead (by simp)) hnever rfl rfl rfl
  | acceptFailed k | lockToInsert k i | insert k i a | unlockInserted k i | setRunning k i
  | startThread k i | storeHandle k i =>
    obtain ⟨-, ⟨⟩⟩ := of_guard hn
    exact hs.of_same (fun _ => unopened_setAccept id) (hahead (by simp)) hnever rfl rfl rfl
  | closeSocket c a i =>
    obtain ⟨-, ⟨⟩⟩ := of_guard hn
    rw [record_closeSocket] at hnever ⊢
    exact hs.of_same (fun _ => id) (hahead (by simp)) hnever rfl rfl rfl
  | join a i =>
    obtain ⟨-, hwait⟩ := of_guard hn
    have hframe := wait_frame hwait
    exact hs.of_same (by rw [hframe]; exact fun _ => id) (hahead (by simp)) hnever (by rw [hframe])
      rfl rfl
  | _ =>
    obtain ⟨-, ⟨⟩⟩ := of_guard hn
    exact hs.of_same (fun _ => id) (hahead (by simp)) hnever rfl rfl rfl

/-- Where `main` and the handlers stand, and what the handlers have done. -/
structure SignalInv (s : State) (h : History) : Prop where
  owned : Owned s
  main : MainInv s
  start : StartInv s
  handler : HandlerInv s
  iteration : IterationInv s
  stored : StoredInv s
  cancel : CancelInv s
  target : TargetInv s
  listener : ListenerInv s h

theorem signalInv_initial : SignalInv initial .empty :=
  ⟨owned_initial, mainInv_initial, startInv_initial, handlerInv_initial, nofun,
    storedInv_initial, nofun, fun c hc => absurd hc (not_ahead_initial c 2), listenerInv_initial⟩

theorem signalInv_step (hs : SignalInv s h) {act : Action} (hguard : InTime (s, h) act)
    (hn : step s act = some s') : SignalInv s' (record s act h) where
  owned := owned_step hs.owned hn
  main := mainInv_step hs.main hs.owned hn
  start := startInv_step hs.start hs.main hn
  handler := handlerInv_step hs.handler hs.owned hn
  iteration := iteration_step hs.iteration hs.owned hs.handler hguard.1 hn
  stored := storedInv_step hs.stored hs.owned hs.start hn
  cancel := by
    refine cancelInv_step hs.cancel hs.owned hs.iteration ?_ hn
    rintro c a i rfl
    exact hguard.2
  target := targetInv_step hs.target hs.owned hs.handler hguard.2 hn
  listener := listenerInv_step hs.listener hs.handler hs.start hs.owned hguard.2 hn

theorem SignalInv.signallable (hs : SignalInv s h) {c : Call} {w : WorkerId}
    (hw : s.signals c = some w) : s.Signallable w := by
  unfold State.signals at hw
  split at hw
  · rename_i hc
    cases hw
    have hahead : s.Ahead c 2 :=
      ⟨List.mem_of_mem_head? (hs.handler.current c (by rw [hc]; trivial)), by rw [hc]; exact le_rfl⟩
    obtain ⟨hstored, hwait⟩ := hs.target c hahead
    exact server_signallable hs.main hs.start hstored hwait
  · rename_i e hc
    obtain ⟨i, hi, rfl⟩ := Option.map_eq_some_iff.mp hw
    obtain ⟨hconn, hbefore⟩ := hs.iteration.conn hs.owned (c := c) (by rw [hc]; rfl) hi
    exact conn_signallable hs.stored (by rw [hconn]; nofun) hbefore
      (hs.cancel c e i (by rw [hc]; rfl) hi)
  · cases hw

/-- In a run in which every SIGINT comes in time, each signal of a handler, to a server or to a
connection, is for a thread that was started and not yet joined, and no listening descriptor is
closed twice. -/
theorem handler_safe {p : State × History} (hp : observed.ReachableVia InTime p) :
    (∀ c, ∀ w ∈ p.1.signals c, p.1.Signallable w) ∧ p.1.fault ≠ some .signalNobody ∧
      ∀ k, p.2.listenerCloses k ≤ 1 := by
  have hinv : SignalInv p.1 p.2 ∧ p.1.fault ≠ some .signalNobody := by
    refine hp.invariant (I := fun p => SignalInv p.1 p.2 ∧ p.1.fault ≠ some .signalNobody)
      ⟨signalInv_initial, by simp [observed, TransitionSystem.observe, mbserver, initial]⟩ ?_
    intro p act p' hguard hinv hn
    obtain ⟨hstep, hrecord⟩ := observed_step hn
    rw [hrecord]
    refine ⟨signalInv_step hinv.1 hguard hstep, ?_⟩
    rcases step_fault hinv.1.owned hstep with hsame | ⟨f, c, a, i, hfaulty, hf⟩
    · rw [hsame]; exact hinv.2
    · rw [hf]
      rintro ⟨⟩
      obtain ⟨-, w, hw, hjoinable⟩ := hfaulty
      rw [(hinv.1.signallable hw).2] at hjoinable
      cases hjoinable
  exact ⟨fun c w hw => hinv.1.signallable hw, hinv.2, hinv.1.listener.once⟩

private def interruptTwice : List Action :=
  .replicate 10 .main ++ [.startup .tcp true, .test .tcp] ++ connect .tcp 0 100 ++
    [.interrupt .main, .clearRunning ⟨0, .modbus⟩, .closeListener ⟨0, .modbus⟩,
      .startup .modbus true, .interrupt (.worker (.server .tcp))] ++
    stopIdle 1 .modbus ++ [.test .modbus, .cancelIo ⟨0, .modbus⟩, .first ⟨0, .modbus⟩,
      .clear ⟨0, .modbus⟩] ++
    beginStop 0 .tcp ++ stopConn 0 .tcp 0 100 ++ beginStop 1 .tcp ++ stopConn 1 .tcp 0 100

/-- Two handlers are under way. The first has come to the Modbus server before it listened; both
have gone through the connections of the second server. -/
theorem handler_safe_overlapping : ∃ p, observed.ReachableVia InTime p ∧
    (p.2.listenerCloses .modbus = 1 ∧ p.1.stop ⟨0, .tcp⟩ = .advance ⟨100, some 0⟩ ∧
      p.1.stop ⟨1, .tcp⟩ = .advance ⟨100, some 0⟩) ∧
    ((∀ c, ∀ w ∈ p.1.signals c, p.1.Signallable w) ∧ p.1.fault ≠ some .signalNobody ∧
      ∀ k, p.2.listenerCloses k ≤ 1) := by
  obtain ⟨p, hp, htest⟩ := TransitionSystem.exists_reachableVia_of_runVia observed InTime
    interruptTwice
    (fun p => decide (p.2.listenerCloses .modbus = 1 ∧
      p.1.stop ⟨0, .tcp⟩ = .advance ⟨100, some 0⟩ ∧
      p.1.stop ⟨1, .tcp⟩ = .advance ⟨100, some 0⟩)) (by decide)
  exact ⟨p, hp, of_decide_eq_true htest, handler_safe hp⟩

/-- SIGINT comes before the first server is run, or after its start-up has failed and `main` has
joined it; it comes a second time, while the first handler runs or afterwards; a connection is
stopped that is registered and not yet run. -/
theorem handler_unsafe :
    (∃ p, observed.Reachable p ∧ p.1.accept .modbus = .notStarted ∧
      p.1.fault = some .signalNobody) ∧
    (∃ p, observed.Reachable p ∧ (p.1.worker (.server .modbus)).joined = true ∧
      p.1.fault = some .signalNobody) ∧
    (∃ p, observed.Reachable p ∧ p.1.fault = none ∧ p.1.stop ⟨0, .tcp⟩ = .returned ∧
      p.2.listenerCloses .modbus = 2) ∧
    (∃ p, observed.Reachable p ∧ p.1.fault = none ∧ p.1.stop ⟨0, .modbus⟩ = .cancelIo ∧
      p.1.stop ⟨1, .modbus⟩ = .cancelIo ∧ p.2.listenerCloses .modbus = 2) ∧
    (∃ p, observed.Reachable p ∧ p.1.interrupts = 1 ∧ p.1.accept .tcp = .setRunning 0 ∧
      p.1.fault = some .signalNobody) := by
  refine ⟨?_, ?_, ?_, ?_, ?_⟩
  · obtain ⟨p, hp, htest⟩ := TransitionSystem.exists_reachable_of_run observed
      [.main, .interrupt .main, .clearRunning ⟨0, .modbus⟩, .closeListener ⟨0, .modbus⟩,
        .fault .signalNobody ⟨0, .modbus⟩ 0 0]
      (fun p => decide (p.1.accept .modbus = .notStarted ∧ p.1.fault = some .signalNobody))
      (by decide)
    exact ⟨p, hp, of_decide_eq_true htest⟩
  · obtain ⟨p, hp, htest⟩ := TransitionSystem.exists_reachable_of_run observed
      (.replicate 10 .main ++ [.startup .modbus false, .main, .interrupt .main,
        .clearRunning ⟨0, .modbus⟩, .closeListener ⟨0, .modbus⟩,
        .fault .signalNobody ⟨0, .modbus⟩ 0 0])
      (fun p => decide ((p.1.worker (.server .modbus)).joined = true ∧
        p.1.fault = some .signalNobody)) (by decide)
    exact ⟨p, hp, of_decide_eq_true htest⟩
  · obtain ⟨p, hp, htest⟩ := TransitionSystem.exists_reachable_of_run observed
      (serversRunning ++ [.interrupt .main] ++ stopIdle 0 .modbus ++ stopIdle 0 .tcp ++
        [.interrupt .main] ++ beginStop 1 .modbus)
      (fun p => decide (p.1.fault = none ∧ p.1.stop ⟨0, .tcp⟩ = .returned ∧
        p.2.listenerCloses .modbus = 2)) (by decide)
    exact ⟨p, hp, of_decide_eq_true htest⟩
  · obtain ⟨p, hp, htest⟩ := TransitionSystem.exists_reachable_of_run observed
      (serversRunning ++ [.interrupt .main, .interrupt (.worker (.server .tcp)),
        .clearRunning ⟨0, .modbus⟩, .clearRunning ⟨1, .modbus⟩, .closeListener ⟨0, .modbus⟩,
        .closeListener ⟨1, .modbus⟩])
      (fun p => decide (p.1.fault = none ∧ p.1.stop ⟨0, .modbus⟩ = .cancelIo ∧
        p.1.stop ⟨1, .modbus⟩ = .cancelIo ∧ p.2.listenerCloses .modbus = 2)) (by decide)
    exact ⟨p, hp, of_decide_eq_true htest⟩
  · obtain ⟨p, hp, htest⟩ := TransitionSystem.exists_reachable_of_run observed
      (serversRunning ++ (connect .tcp 0 100).take 4 ++ [.interrupt .main] ++ stopIdle 0 .modbus ++
        beginStop 0 .tcp ++ [.callStop ⟨0, .tcp⟩ 100 0, .closeSocket ⟨0, .tcp⟩ 100 0,
        .fault .signalNobody ⟨0, .tcp⟩ 100 0])
      (fun p => decide (p.1.interrupts = 1 ∧ p.1.accept .tcp = .setRunning 0 ∧
        p.1.fault = some .signalNobody)) (by decide)
    exact ⟨p, hp, of_decide_eq_true htest⟩

end Mbtest.Lifecycle
