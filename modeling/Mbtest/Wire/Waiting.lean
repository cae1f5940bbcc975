import Mbtest.Wire.Clients

/-! A client that has sent a command is answered, however many others there are. -/
namespace Mbtest.Wire.Clients
open Lib TcpConnection Client

/-- The steps that a connection still has to take before its client has the response. -/
def Side.left (d : Side) : ℕ :=
  if d.asked = none then 0
  else if d.handling then sectionsLeft d.reader + 2
  else if d.toServer = [] then 1
  else 7

structure Waits (client : ByteOrder) (t : ℕ) (a : Asked) (s : State) : Prop where
  inv : Inv client s
  filled : s.server.startup.discreteFilled = true
  asked : s.asked t = some a

section Waiting
variable {server client : ByteOrder} {s s₁ : State} {t : ℕ} {a : Asked}

theorem filled_next {m next : ModbusServer.State} {b : ModbusServer.Action}
    (hfilled : m.startup.discreteFilled = true)
    (hn : ModbusServer.serving.next m b = some next) : next.startup.discreteFilled = true := by
  change ModbusServer.next m b = some next at hn
  unfold ModbusServer.next at hn
  split_ifs at hn
  cases b with
  | startup ok => exact (ModbusServer.startupNext_of_filled hfilled hn).1
  | request coils holding => rw [(ModbusServer.requestNext_frame hn).2.2]; exact hfilled
  | call t op => rw [ModbusServer.callNext_eq hn]; exact hfilled
  | callAll t => rw [ModbusServer.callNext_eq hn]; exact hfilled
  | readSection t => rw [(ModbusServer.sectionNext_frame hn).1]; exact hfilled

theorem filled_onServer {b : ModbusServer.Action} (hfilled : s.server.startup.discreteFilled = true)
    (hn : s.onServer b = some s₁) : s₁.server.startup.discreteFilled = true := by
  obtain ⟨next, hnext, rfl⟩ := Option.map_eq_some_iff.mp hn
  exact filled_next hfilled hnext

theorem filled_move {b : Action} (hfilled : s.server.startup.discreteFilled = true)
    (hmove : move server client s b = some s₁) : s₁.server.startup.discreteFilled = true := by
  cases b with
  | startup ok => exact filled_onServer hfilled hmove
  | lockRequest =>
    cases Option.some.inj (of_guard hmove).2
    exact hfilled
  | request coils holding =>
    obtain ⟨s₂, hs₂, rfl⟩ := Option.map_eq_some_iff.mp (of_guard hmove).2
    obtain ⟨next, hnext, rfl⟩ := Option.map_eq_some_iff.mp hs₂
    exact filled_next hfilled hnext
  | endRequest =>
    cases Option.some.inj (of_guard hmove).2
    exact hfilled
  | readSection t => exact filled_onServer hfilled (of_guard hmove).2
  | ask t code arg =>
    cases Option.some.inj (of_guard hmove).2
    exact hfilled
  | receive t =>
    have hreceive := (of_guard hmove).2
    simp only [State.receive] at hreceive
    split at hreceive
    · obtain ⟨s₂, hs₂, rfl⟩ := Option.map_eq_some_iff.mp hreceive
      obtain ⟨next, hnext, rfl⟩ := Option.map_eq_some_iff.mp hs₂
      exact filled_next hfilled hnext
    · cases Option.some.inj hreceive
      exact hfilled
  | answer t =>
    have hwrites := (of_guard hmove).2
    split at hwrites
    · cases Option.some.inj hwrites
      exact hfilled
    · cases hwrites
  | response t =>
    simp only [move] at hmove
    split at hmove
    · cases Option.some.inj (of_guard hmove).2
      exact hfilled
    · cases hmove

theorem sectionsLeft_le (r : ModbusServer.Reader) : sectionsLeft r ≤ 4 := by
  cases r <;> simp [sectionsLeft]

theorem Goes.left {tables : List (Option ModbusServer.Mapping)} {b : Action} {d d' : Side}
    (h : Goes client tables t b d d') (hb : b ≠ .response t) (hasked : d.asked = some a) :
    d'.asked = some a ∧ b.own t = true ∧ d'.left < d.left := by
  cases h with
  | ask => cases hasked
  | @receive a r r' =>
    have hle := sectionsLeft_le r'
    refine ⟨hasked, by simp [Action.own], ?_⟩
    simp [Side.left, sendCommand]
    omega
  | readSection hread hsince hleft =>
    refine ⟨hasked, by simp [Action.own], ?_⟩
    simp [Side.left]
    exact hleft
  | answer =>
    refine ⟨hasked, by simp [Action.own], ?_⟩
    simp [Side.left]
  | response => exact absurd rfl hb

theorem Goes.own_other {tables : List (Option ModbusServer.Mapping)} {b : Action} {d d' : Side}
    {u : ℕ} (h : Goes client tables u b d d') (hu : u ≠ t) : b.own t = false := by
  cases h with
  | ask => rfl
  | receive => exact beq_false_of_ne hu
  | readSection => exact beq_false_of_ne hu
  | answer => exact beq_false_of_ne hu
  | response => exact beq_false_of_ne hu

/-- While a client waits, the steps of its connection bring the response closer and no other step
takes it away. -/
theorem Waits.next (h : Waits client t a s) {b : Action} (hb : b ≠ .response t)
    (hn : (clients server client).next s b = some s₁) :
    Waits client t a s₁ ∧ (s₁.side t).left + (if b.own t then 1 else 0) ≤ (s.side t).left := by
  obtain ⟨s₂, hmove, rfl⟩ := Option.map_eq_some_iff.mp hn
  have hready : AfterStartup s b := by cases b <;> first | exact h.filled | exact trivial
  have hmoved := h.inv.moved hready hmove
  have hinv := hmoved.inv h.inv
  have hfilled := filled_move h.filled hmove
  change _ ∧ (s₂.side t).left + _ ≤ _
  obtain ⟨hside, hown⟩ | ⟨u, d, hside, hgoes⟩ := hmoved.side
  · rw [hside, hown t]
    exact ⟨⟨hinv, hfilled, (congrArg (fun f => (f t).asked) hside).trans h.asked⟩, Nat.le_refl _⟩
  · by_cases hu : u = t
    · subst hu
      obtain ⟨hasked, hown, hlt⟩ := hgoes.left hb h.asked
      have hd : s₂.side u = d := by rw [hside, Function.update_self]
      rw [hd, hown]
      exact ⟨⟨hinv, hfilled, (congrArg Side.asked hd).trans hasked⟩, hlt⟩
    · have hd : s₂.side t = s.side t := by rw [hside, Function.update_of_ne (Ne.symm hu)]
      rw [hd, hgoes.own_other hu]
      exact ⟨⟨hinv, hfilled, (congrArg Side.asked hd).trans h.asked⟩, Nat.le_refl _⟩

theorem Waits.left_le (h : Waits client t a s) : 1 ≤ (s.side t).left ∧ (s.side t).left ≤ 7 := by
  have hle := sectionsLeft_le (s.side t).reader
  have hasked : (s.side t).asked ≠ none := by
    change s.asked t ≠ none
    rw [h.asked]
    simp
  unfold Side.left
  split_ifs <;> first | omega | contradiction

theorem arrived_frame (client : ByteOrder) {p : List UInt8} (hp : p.length < 2 ^ 32) :
    Arrived client (frame 4 p) := by
  have htake : (frame 4 p).take 4 = toBytes 4 p.length := by simp [frame]
  refine ⟨by simp, ?_⟩
  rw [htake, ntohl_header client hp, length_frame]

theorem call_isSome {m : ModbusServer.State} (hcrashed : m.crashed = none)
    (hready : (m.reader t).Ready = true) (arg : UInt16) (code : Code) :
    (ModbusServer.serving.next m (call t arg code)).isSome = true := by
  change (ModbusServer.next m (call t arg code)).isSome = true
  unfold ModbusServer.next call
  rw [if_neg (by simp [hcrashed])]
  cases readOp arg code with
  | some op => simp [ModbusServer.callNext, hready]
  | none => simp [ModbusServer.callNext, hready]

/-- The connection of a client that waits can take its next step, unless that is a section and a
Modbus request holds the mutex. -/
theorem Waits.enabled (h : Waits client t a s)
    (hfree : ¬ (s.inRequest = true ∧ (s.server.reader t).Ready = false)) :
    ∃ b : Action, b.own t = true ∧ (move server client s b).isSome = true := by
  have hcrashed := h.inv.safe.crashed
  have hphase := h.inv.phase t
  generalize hside : s.side t = d at hphase
  cases hphase with
  | free =>
    have hnone : s.asked t = none := congrArg Side.asked hside
    exact absurd (hnone.symm.trans h.asked) nofun
  | @sent a' r hr =>
    refine ⟨.receive t, by simp [Action.own], ?_⟩
    have hto : s.toServer t = _ := congrArg Side.toServer hside
    have hhandling : s.handling t = false := congrArg Side.handling hside
    have hreader : s.server.reader t = r := congrArg Side.reader hside
    have hreq : readRequest server streamRead (s.toServer t) =
        (⟨false, a'.code.toByte, a'.arg⟩, []) := by
      rw [hto]
      simpa using readRequest_sendCommand server client [] a'.code.toByte a'.arg
    have hlen : 3 ≤ (s.toServer t).length := by
      rw [hto]
      simp [sendCommand, mem16_htons]
    have hcall := call_isSome hcrashed (t := t) (by rw [hreader]; exact hr) a'.arg a'.code
    simp only [move, hhandling, hlen, and_self, if_true, State.receive, hreq,
      Code.ofByte?_toByte, State.onServer, Option.isSome_map]
    exact hcall
  | @handled a' r hread =>
    have hhandling : s.handling t = true := congrArg Side.handling hside
    have hreader : s.server.reader t = r := congrArg Side.reader hside
    cases hr : r.Ready with
    | true =>
      obtain ⟨ws, p, hws, -⟩ := hread.writes hr server
      refine ⟨.answer t, by simp [Action.own], ?_⟩
      simp only [move, hhandling, if_true, hreader, hws, Option.isSome_some]
    | false =>
      refine ⟨.readSection t, by simp [Action.own], ?_⟩
      rw [← hreader] at hr
      have hmutex : s.inRequest = false := by
        rw [Bool.eq_false_iff]
        exact fun hlocked => hfree ⟨hlocked, hr⟩
      simp only [move, hmutex, if_true, State.onServer, Option.isSome_map]
      change (ModbusServer.next s.server (.readSection t)).isSome = true
      unfold ModbusServer.next
      rw [if_neg (by simp [hcrashed])]
      rw [isSome_sectionNext, hr]
      rfl
  | @answered a' r p hr hp =>
    have hfrom : s.toClient t = frame 4 p := congrArg Side.toClient hside
    have harrived := arrived_frame client (length_lt_of_answers hp)
    refine ⟨.response t, by simp [Action.own], ?_⟩
    simp only [move, h.asked, hfrom, harrived, if_true, Option.isSome_some]

end Waiting

/-- A client that has sent a command waits for at most six steps of its own connection. One of them
is possible at any time, except that a Modbus request may hold `ctxMutex` when the thread of the
connection comes to a section. -/
theorem answer_within (server client : ByteOrder) {s s' : State}
    (hs : (clients server client).ReachableVia AfterStartup s)
    (hfilled : s.server.startup.discreteFilled = true) {t : ℕ} {a : Asked}
    (hasked : s.asked t = some a) {as : List Action}
    (hrun : (clients server client).run s as = some s') (hno : ∀ b ∈ as, b ≠ .response t) :
    s'.asked t = some a ∧ as.countP (Action.own t) ≤ 6 ∧
      ((s'.inRequest = true ∧ (s'.server.reader t).Ready = false) ∨
        ∃ b : Action, b.own t = true ∧ ((clients server client).next s' b).isSome = true) := by
  have hwaits : Waits client t a s := ⟨inv_of_reachable hs, hfilled, hasked⟩
  obtain ⟨hwaits', hcount⟩ := TransitionSystem.run_countP_le (I := Waits client t a)
    (Action.own t) (fun s => (s.side t).left) (fun _ _ _ hb h hn => h.next hb hn) hwaits as hno hrun
  have hle := hwaits.left_le.2
  have hpos := hwaits'.left_le.1
  refine ⟨hwaits'.asked, by omega, or_iff_not_imp_left.mpr fun hfree => ?_⟩
  obtain ⟨b, hown, hmove⟩ : ∃ b : Action, b.own t = true ∧
      (move server client s' b).isSome = true := hwaits'.enabled hfree
  refine ⟨b, hown, ?_⟩
  simp only [clients, Option.isSome_map]
  exact hmove

private def sentAll : List Action := .replicate 5 (.startup true) ++ [.ask 0 .readAll 0]

private def delayed : List Action :=
  [.ask 1 .readCoil 3, .receive 1, .readSection 1, .answer 1, .response 1, .receive 0,
    .readSection 0, .lockRequest, .request (.replicate 10 1) (.replicate 10 0), .readSection 0,
    .ask 1 .readAll 0, .readSection 0, .lockRequest, .endRequest, .readSection 0, .answer 0]

theorem answer_within_delayed : ∃ s s', (clients .big .little).ReachableVia AfterStartup s ∧
    s.asked 0 = some ⟨.readAll, 0, 6⟩ ∧ (clients .big .little).run s delayed = some s' ∧
    s'.asked 0 = some ⟨.readAll, 0, 6⟩ ∧ delayed.countP (Action.own 0) ≤ 6 ∧
    ((s'.inRequest = true ∧ (s'.server.reader 0).Ready = false) ∨
      ∃ b : Action, b.own 0 = true ∧ ((clients .big .little).next s' b).isSome = true) := by
  let sys := clients .big .little
  let s := (sys.runVia AfterStartup sys.init sentAll).get (by decide +kernel)
  have hs : sys.ReachableVia AfterStartup s :=
    TransitionSystem.ReachableVia.of_runVia .init sentAll (Option.some_get _).symm
  have hrun := (Option.some_get (x := sys.run s delayed) (by decide +kernel)).symm
  have hasked : s.asked 0 = some ⟨.readAll, 0, 6⟩ := by decide +kernel
  exact ⟨s, _, hs, hasked, hrun, answer_within .big .little hs (by decide +kernel) hasked hrun
    (by decide)⟩

end Mbtest.Wire.Clients
