import Mbtest.Lib.TransitionSystem
import Mbtest.Wire.RoundTrip
import Mathlib.Logic.Function.Basic

/-! The main thread and the loop thread of the client on their one socket. A call of
`sendCommand` is four socket calls, and nothing keeps those of the two threads apart. -/
namespace Mbtest.Wire
open Lib TcpConnection Client

inductive Thread
  | main
  | loop
  deriving DecidableEq, Repr

def Thread.other : Thread → Thread
  | .main => .loop
  | .loop => .main

abbrev CallId := Thread × ℕ

/-- The next socket call of a thread inside `sendCommand`; the write of the code begins one. -/
inductive Stage
  | idle
  | writeArg
  | readLength
  | readPayload (n : ℕ)
  deriving DecidableEq, Repr

/-- Three bytes that the server took for a command: the calls that wrote them, what
they mean and the bytes sent in answer. -/
structure Served where
  writers : List CallId
  unit : UInt8 × UInt16
  answer : List UInt8
  deriving DecidableEq, Repr

/-- A finished call of `sendCommand`. -/
structure Result where
  call : CallId
  cmd : Code
  arg : UInt16
  response : List UInt8
  deriving DecidableEq, Repr

/-- `unanswered` is history: the threads whose command is written and whose response has
not been touched, in the order of writing. -/
structure State where
  stage : Thread → Stage
  calls : Thread → ℕ
  cmd : Thread → Code
  arg : Thread → UInt16
  toServer : List (CallId × UInt8)
  toClient : List UInt8
  served : List Served
  unanswered : List Thread
  results : List Result

inductive Action
  | writeCode (t : Thread) (cmd : Code) (arg : UInt16)
  | writeArg (t : Thread)
  | serve
  | readLength (t : Thread)
  | readPayload (t : Thread)
  deriving DecidableEq, Repr

def State.call (s : State) (t : Thread) : CallId := (t, s.calls t)

def sent (call : CallId) (buffer : List UInt8) : List (CallId × UInt8) := buffer.map (call, ·)

section Model
variable (server client : ByteOrder) (views : ℕ → ServedView)

/-- One pass of the server's command loop, on three bytes that have arrived. -/
def serve (s : State) : Option State :=
  match s.toServer with
  | b₁ :: b₂ :: b₃ :: rest =>
    let req := (readRequest server streamRead [b₁.2, b₂.2, b₃.2]).1
    match dispatch server (ModbusServer.service (views s.served.length).view) req.cmd req.arg with
    | .ok writes => some { s with
        toServer := rest
        toClient := s.toClient ++ writes.flatten
        served := s.served ++ [⟨[b₁.1, b₂.1, b₃.1], (req.cmd, req.arg), writes.flatten⟩] }
    | .error _ => none
  | _ => none

namespace State
variable (s : State) (t : Thread)

def writeCode (cmd : Code) (arg : UInt16) : State :=
  { s with
    stage := Function.update s.stage t .writeArg
    calls := Function.update s.calls t (s.calls t + 1)
    cmd := Function.update s.cmd t cmd
    arg := Function.update s.arg t arg
    toServer := s.toServer ++ sent (t, s.calls t + 1) [cmd.toByte] }

def writeArg : State :=
  { s with
    stage := Function.update s.stage t .readLength
    toServer := s.toServer ++ sent (s.call t) (mem16 client (htons client (s.arg t)))
    unanswered := s.unanswered ++ [t] }

def readLength : State :=
  let (r, toClient) := streamRead 4 s.toClient
  { s with
    stage := Function.update s.stage t (.readPayload (ntohl client (load32 client r.bytes)).toNat)
    toClient := toClient
    unanswered := s.unanswered.erase t }

def readPayload (n : ℕ) : State :=
  let (r, toClient) := streamRead n s.toClient
  { s with
    stage := Function.update s.stage t .idle
    toClient := toClient
    results := s.results ++ [⟨s.call t, s.cmd t, s.arg t, r.bytes⟩] }

end State

/-- A read blocks until all its bytes are there. -/
def exchangeNext (s : State) : Action → Option State
  | .writeCode t cmd arg => if s.stage t = .idle then some (s.writeCode t cmd arg) else none
  | .writeArg t => if s.stage t = .writeArg then some (s.writeArg client t) else none
  | .serve => serve server views s
  | .readLength t =>
    if s.stage t = .readLength ∧ 4 ≤ s.toClient.length then some (s.readLength client t) else none
  | .readPayload t =>
    match s.stage t with
    | .readPayload n => if n ≤ s.toClient.length then some (s.readPayload t n) else none
    | _ => none

def exchange : TransitionSystem State Action where
  init := ⟨fun _ => .idle, fun _ => 0, fun _ => .readAll, fun _ => 0, [], [], [], [], []⟩
  next := exchangeNext server client views

end Model

def Stage.payloadLeft : Stage → ℕ
  | .readPayload n => n
  | _ => 0

/-- The threads take turns where it matters: no code is written between the code and the
argument of another command, and a thread reads a length only when the first response of
the stream is its own and no payload is left before it. -/
def InTurn (s : State) : Action → Prop
  | .writeCode t _ _ => s.stage t.other ≠ .writeArg
  | .readLength t => s.unanswered.head? = some t ∧ (s.stage t.other).payloadLeft = 0
  | _ => True

instance (s : State) (a : Action) : Decidable (InTurn s a) :=
  match a with
  | .writeCode t _ _ => inferInstanceAs (Decidable (s.stage t.other ≠ .writeArg))
  | .readLength t => inferInstanceAs
      (Decidable (s.unanswered.head? = some t ∧ (s.stage t.other).payloadLeft = 0))
  | .writeArg _ | .serve | .readPayload _ => .isTrue trivial

/-- The server's answer to the command of a call: it took the three bytes that this call
wrote for a command, and sent `response` in a frame. -/
def Answered (served : List Served) (call : CallId) (cmd : Code) (arg : UInt16)
    (response : List UInt8) : Prop :=
  ⟨[call, call, call], (cmd.toByte, arg), frame 4 response⟩ ∈ served

theorem Answered.mono {served : List Served} {call : CallId} {cmd : Code} {arg : UInt16}
    {response : List UInt8} (h : Answered served call cmd arg response) (later : List Served) :
    Answered (served ++ later) call cmd arg response :=
  List.mem_append_left later h

theorem Thread.forall_iff (t : Thread) {P : Thread → Prop} : (∀ u, P u) ↔ P t ∧ P t.other := by
  refine ⟨fun h => ⟨h t, h t.other⟩, fun ⟨ht, hother⟩ u => ?_⟩
  cases t <;> cases u <;> assumption

@[simp] theorem Thread.other_ne (t : Thread) : t.other ≠ t := by cases t <;> simp [Thread.other]

@[simp] theorem Thread.other_other (t : Thread) : t.other.other = t := by cases t <;> rfl

def both {α : Type} (f : Thread → List α) : List α := f .main ++ f .loop

theorem both_eq {α : Type} {f : Thread → List α} (t : Thread) (h : f t = [] ∨ f t.other = []) :
    both f = f t ++ f t.other := by
  cases t <;> rcases h with h | h <;> simp_all [both, Thread.other]

/-- The bytes of a whole command. -/
def State.command (client : ByteOrder) (s : State) (t : Thread) : List (CallId × UInt8) :=
  sent (s.call t) (sendCommand client (s.cmd t).toByte (s.arg t)).flatten

/-- The code of a command whose argument is still to be written. -/
def State.begun (s : State) (t : Thread) : List (CallId × UInt8) :=
  if s.stage t = .writeArg then sent (s.call t) [(s.cmd t).toByte] else []

/-- The payload `p t` of a thread that has read the length before it. -/
def State.left (s : State) (p : Thread → List UInt8) (t : Thread) : List UInt8 :=
  match s.stage t with
  | .readPayload _ => p t
  | _ => []

/-- The two streams cut into commands and responses: `waiting` are the threads whose
commands the server has not taken yet, `answered` those whose responses are on their way
with the payloads `p`. -/
structure InOrder (client : ByteOrder) (s : State) (answered waiting : List Thread)
    (p : Thread → List UInt8) : Prop where
  unanswered : s.unanswered = answered ++ waiting
  nodup : s.unanswered.Nodup
  stage : ∀ t, t ∈ s.unanswered ↔ s.stage t = .readLength
  begun : ∀ t, s.stage t = .writeArg → s.stage t.other ≠ .writeArg
  left : ∀ t, (s.stage t).payloadLeft = 0 ∨ (s.stage t.other).payloadLeft = 0
  toServer : s.toServer = waiting.flatMap (s.command client) ++ both s.begun
  toClient : s.toClient = both (s.left p) ++ answered.flatMap fun t => frame 4 (p t)
  answered : ∀ t ∈ answered, (p t).length ≤ 76 ∧
    Answered s.served (s.call t) (s.cmd t) (s.arg t) (p t)
  reading : ∀ t n, s.stage t = .readPayload n → (p t).length = n ∧
    Answered s.served (s.call t) (s.cmd t) (s.arg t) (p t)
  results : ∀ r ∈ s.results, Answered s.served r.call r.cmd r.arg r.response

section Steps
variable {server client : ByteOrder} {views : ℕ → ServedView} {s s' : State}
  {answered waiting : List Thread} {p : Thread → List UInt8}

theorem InOrder.left_empty (hs : InOrder client s answered waiting p) {t : Thread}
    (ht : (s.stage t).payloadLeft = 0) : s.left p t = [] := by
  unfold State.left
  split
  case h_1 n hn =>
    rw [hn] at ht
    have hlen : (p t).length = 0 := (hs.reading t n hn).1.trans ht
    exact List.length_eq_zero_iff.mp hlen
  case h_2 => rfl

theorem InOrder.left_eq (hs : InOrder client s answered waiting p) (t : Thread) :
    both (s.left p) = s.left p t ++ s.left p t.other :=
  both_eq t ((hs.left t).imp hs.left_empty hs.left_empty)

theorem InOrder.not_mem (hs : InOrder client s answered waiting p) {t : Thread}
    (ht : s.stage t ≠ .readLength) : t ∉ answered ∧ t ∉ waiting := by
  have hnot : t ∉ s.unanswered := fun h => ht ((hs.stage t).mp h)
  rwa [hs.unanswered, List.mem_append, not_or] at hnot

theorem command_congr {t : Thread} (hcalls : s'.calls t = s.calls t) (hcmd : s'.cmd t = s.cmd t)
    (harg : s'.arg t = s.arg t) : s'.command client t = s.command client t := by
  simp only [State.command, State.call, hcalls, hcmd, harg]

theorem begun_frame {t : Thread} (hbefore : s.stage t ≠ .writeArg) (hafter : s'.stage t ≠ .writeArg)
    (hother : s'.stage t.other = s.stage t.other) (hcalls : s'.calls = s.calls)
    (hcmd : s'.cmd = s.cmd) : s'.begun = s.begun := by
  refine funext ((Thread.forall_iff t).mpr ⟨?_, ?_⟩)
  · simp only [State.begun, if_neg hbefore, if_neg hafter]
  · simp only [State.begun, State.call, hother, hcalls, hcmd]

theorem left_eq_nil {t : Thread} (hstage : ∀ n, s.stage t ≠ .readPayload n) : s.left p t = [] := by
  unfold State.left
  split
  case h_1 n hn => exact absurd hn (hstage n)
  case h_2 => rfl

theorem left_frame {t : Thread} (hbefore : ∀ n, s.stage t ≠ .readPayload n)
    (hafter : ∀ n, s'.stage t ≠ .readPayload n) (hother : s'.stage t.other = s.stage t.other) :
    s'.left p = s.left p := by
  refine funext ((Thread.forall_iff t).mpr ⟨?_, ?_⟩)
  · rw [left_eq_nil hbefore, left_eq_nil hafter]
  · simp only [State.left, hother]

theorem InOrder.writeCode (hs : InOrder client s answered waiting p) {t : Thread} (cmd : Code)
    (arg : UInt16) (hturn : s.stage t.other ≠ .writeArg) (hidle : s.stage t = .idle) :
    InOrder client (s.writeCode t cmd arg) answered waiting p := by
  obtain ⟨hanswered, hwaiting⟩ := hs.not_mem (t := t) (by rw [hidle]; nofun)
  have hne : ∀ {u : Thread} {l : List Thread}, u ∈ l → t ∉ l → u ≠ t := by
    rintro u l hu ht rfl; exact ht hu
  constructor
  case unanswered => exact hs.unanswered
  case nodup => exact hs.nodup
  case results => exact hs.results
  case stage =>
    refine (Thread.forall_iff t).mpr ⟨?_, by simpa [State.writeCode] using hs.stage t.other⟩
    simpa [State.writeCode, hidle] using hs.stage t
  case begun =>
    exact (Thread.forall_iff t).mpr
      ⟨by simpa [State.writeCode] using hturn, by simpa [State.writeCode] using hturn⟩
  case left =>
    exact (Thread.forall_iff t).mpr ⟨.inl (by simp [State.writeCode, Stage.payloadLeft]),
      .inr (by simp [State.writeCode, Stage.payloadLeft])⟩
  case toServer =>
    have hcommands : waiting.flatMap ((s.writeCode t cmd arg).command client) =
        waiting.flatMap (s.command client) := by
      refine List.flatMap_congr fun u hu => command_congr ?_ ?_ ?_ <;>
        exact Function.update_of_ne (hne hu hwaiting) _ _
    have hbefore : both s.begun = [] := by
      have hself : s.begun t = [] := if_neg (by rw [hidle]; nofun)
      rw [both_eq t (.inl hself), hself, List.nil_append]
      exact if_neg hturn
    have hother : (s.writeCode t cmd arg).begun t.other = [] :=
      if_neg (by simpa [State.writeCode] using hturn)
    have hself : (s.writeCode t cmd arg).begun t = sent (t, s.calls t + 1) [cmd.toByte] := by
      simp [State.writeCode, State.begun, State.call]
    rw [hcommands, both_eq t (.inr hother), hother, hself, List.append_nil]
    change s.toServer ++ _ = _
    rw [hs.toServer, hbefore, List.append_nil]
  case toClient =>
    have hleft : (s.writeCode t cmd arg).left p = s.left p :=
      left_frame (t := t) (by simp [hidle]) (by simp [State.writeCode]) (by simp [State.writeCode])
    rw [hleft]
    exact hs.toClient
  case answered =>
    intro u hu
    have hut := hne hu hanswered
    simpa [State.writeCode, State.call, hut] using hs.answered u hu
  case reading =>
    refine (Thread.forall_iff t).mpr ⟨by simp [State.writeCode], fun n hn => ?_⟩
    have hn : s.stage t.other = .readPayload n := by simpa [State.writeCode] using hn
    simpa [State.writeCode, State.call] using hs.reading t.other n hn

theorem InOrder.writeArg (hs : InOrder client s answered waiting p) {t : Thread}
    (hstage : s.stage t = .writeArg) :
    InOrder client (s.writeArg client t) answered (waiting ++ [t]) p := by
  have hnot : t ∉ s.unanswered := fun h => by cases hstage.symm.trans ((hs.stage t).mp h)
  constructor
  case unanswered =>
    change s.unanswered ++ [t] = _
    rw [hs.unanswered, List.append_assoc]
  case nodup => exact hs.nodup.append (List.nodup_singleton t) (by simpa using hnot)
  case results => exact hs.results
  case answered => exact hs.answered
  case stage =>
    refine (Thread.forall_iff t).mpr ⟨by simp [State.writeArg], ?_⟩
    simpa [State.writeArg] using hs.stage t.other
  case begun =>
    exact (Thread.forall_iff t).mpr ⟨by simp [State.writeArg], by simp [State.writeArg]⟩
  case left =>
    exact (Thread.forall_iff t).mpr ⟨.inl (by simp [State.writeArg, Stage.payloadLeft]),
      .inr (by simp [State.writeArg, Stage.payloadLeft])⟩
  case toServer =>
    have hbefore : both s.begun = sent (s.call t) [(s.cmd t).toByte] := by
      have hother : s.begun t.other = [] := if_neg (hs.begun t hstage)
      rw [both_eq t (.inr hother), hother, List.append_nil]
      exact if_pos hstage
    have hafter : both (s.writeArg client t).begun = [] := by
      have hself : (s.writeArg client t).begun t = [] := if_neg (by simp [State.writeArg])
      rw [both_eq t (.inl hself), hself, List.nil_append]
      exact if_neg (by simpa [State.writeArg] using hs.begun t hstage)
    have hcommand : (s.writeArg client t).command client = s.command client := rfl
    rw [hafter, hcommand]
    change s.toServer ++ _ = _
    rw [hs.toServer, hbefore]
    simp [State.command, sendCommand, sent]
  case toClient =>
    have hleft : (s.writeArg client t).left p = s.left p :=
      left_frame (t := t) (by simp [hstage]) (by simp [State.writeArg]) (by simp [State.writeArg])
    rw [hleft]
    exact hs.toClient
  case reading =>
    refine (Thread.forall_iff t).mpr ⟨by simp [State.writeArg], fun n hn => ?_⟩
    exact hs.reading t.other n (by simpa [State.writeArg] using hn)

theorem length_begun_le (hs : InOrder client s answered waiting p) : (both s.begun).length ≤ 1 := by
  by_cases hmain : s.stage .main = .writeArg
  · have hloop : s.begun .loop = [] := if_neg (hs.begun .main hmain)
    rw [both, hloop, State.begun, if_pos hmain]
    rfl
  · rw [both, show s.begun .main = [] from if_neg hmain, List.nil_append, State.begun]
    split_ifs <;> simp [sent]

/-- The three bytes that the server takes are those of the command written first. -/
theorem InOrder.serve (hs : InOrder client s answered waiting p)
    (hn : serve server views s = some s') :
    ∃ t rest payload, waiting = t :: rest ∧
      InOrder client s' (answered ++ [t]) rest (Function.update p t payload) := by
  cases hwaiting : waiting with
  | nil =>
    have hlen := length_begun_le hs
    have hserver := hs.toServer
    rw [hwaiting, List.flatMap_nil, List.nil_append] at hserver
    unfold Wire.serve at hn
    split at hn
    case h_1 hbytes => rw [← hserver, hbytes] at hlen; simp at hlen
    case h_2 => cases hn
  | cons t rest =>
    obtain ⟨hi, lo, harg⟩ : ∃ hi lo, toBytes 2 (s.arg t).toNat = [hi, lo] := ⟨_, _, rfl⟩
    have hsent : (sendCommand client (s.cmd t).toByte (s.arg t)).flatten =
        [(s.cmd t).toByte, hi, lo] := by
      simp [sendCommand, mem16_htons, harg]
    have hreq := readRequest_sendCommand server client [] (s.cmd t).toByte (s.arg t)
    rw [hsent, List.append_nil] at hreq
    have hserver : s.toServer = (s.call t, (s.cmd t).toByte) :: (s.call t, hi) :: (s.call t, lo) ::
        (rest.flatMap (s.command client) ++ both s.begun) := by
      rw [hs.toServer, hwaiting, List.flatMap_cons, State.command, hsent]
      rfl
    obtain ⟨ws, hws, hflat⟩ :=
      dispatch_code server (views s.served.length) (s.cmd t) (s.arg t)
    set payload := TcpConnection.payload (views s.served.length) (s.arg t).toNat (s.cmd t)
    refine ⟨t, rest, payload, rfl, ?_⟩
    unfold Wire.serve at hn
    rw [hserver] at hn
    simp only [hreq, hws, hflat] at hn
    cases Option.some.inj hn
    have hmem : t ∈ s.unanswered := by rw [hs.unanswered, hwaiting]; simp
    have hstage : s.stage t = .readLength := (hs.stage t).mp hmem
    have hnot : t ∉ answered := by
      have h := hs.nodup
      rw [hs.unanswered, hwaiting] at h
      exact fun ht => (List.nodup_append.mp h).2.2 t ht t List.mem_cons_self rfl
    have hp : ∀ u, u ≠ t → Function.update p t payload u = p u :=
      fun u hu => Function.update_of_ne hu _ _
    refine { hs with
      unanswered := by rw [hs.unanswered, hwaiting, List.append_assoc]; rfl
      toServer := rfl
      toClient := ?_
      answered := fun u hu => ?_
      reading := fun u n hu => ?_
      results := fun r hr => (hs.results r hr).mono _ }
    · have hleft : s.left (Function.update p t payload) = s.left p := by
        refine funext ((Thread.forall_iff t).mpr ⟨?_, ?_⟩)
        · rw [left_eq_nil (by simp [hstage]), left_eq_nil (by simp [hstage])]
        · simp only [State.left, hp _ t.other_ne]
      have hframes : answered.flatMap (fun u => frame 4 (Function.update p t payload u)) =
          answered.flatMap fun u => frame 4 (p u) :=
        List.flatMap_congr fun u hu => by rw [hp u (by rintro rfl; exact hnot hu)]
      change s.toClient ++ frame 4 payload = both (s.left _) ++ _
      rw [hs.toClient, hleft, List.flatMap_append, hframes]
      simp
    · rcases List.mem_append.mp hu with hold | hnew
      · rw [hp u (by rintro rfl; exact hnot hold)]
        exact (hs.answered u hold).imp_right (·.mono _)
      · rw [List.mem_singleton.mp hnew, Function.update_self]
        exact ⟨length_payload_le _ _ _, List.mem_append_right _ (List.mem_singleton.mpr rfl)⟩
    · rw [hp u (by rintro rfl; rw [hstage] at hu; cases hu)]
      exact (hs.reading u n hu).imp_right (·.mono _)

/-- The length that a thread reads in turn announces the response to its own command. -/
theorem InOrder.readLength (hs : InOrder client s answered waiting p) {t : Thread}
    (hhead : s.unanswered.head? = some t) (hleft : (s.stage t.other).payloadLeft = 0)
    (hstage : s.stage t = .readLength) (hlen : 4 ≤ s.toClient.length) :
    ∃ rest, answered = t :: rest ∧ InOrder client (s.readLength client t) rest waiting p := by
  have hother : s.left p t.other = [] := hs.left_empty hleft
  have hself : s.left p t = [] := left_eq_nil (by simp [hstage])
  have hbefore : both (s.left p) = [] := by rw [both_eq t (.inl hself), hself, hother]; rfl
  have hclient := hs.toClient
  rw [hbefore, List.nil_append] at hclient
  cases hanswered : answered with
  | nil => rw [hclient, hanswered] at hlen; simp at hlen
  | cons u rest =>
    have hunanswered := hs.unanswered
    rw [hanswered] at hunanswered
    obtain rfl : u = t := by
      rw [hunanswered] at hhead
      exact Option.some.inj hhead
    refine ⟨rest, rfl, ?_⟩
    obtain ⟨hsize, hanswer⟩ := hs.answered u (by rw [hanswered]; exact List.mem_cons_self)
    have hread : streamRead 4 s.toClient =
        (⟨toBytes 4 (p u).length, false⟩, p u ++ rest.flatMap fun v => frame 4 (p v)) := by
      rw [hclient, hanswered, List.flatMap_cons, streamRead_frame]
    have hlength := ntohl_header client (n := (p u).length) (by omega)
    have hnodup := hs.nodup
    rw [hunanswered, List.cons_append] at hnodup
    have herase : s.unanswered.erase u = rest ++ waiting := by
      rw [hunanswered, List.cons_append, List.erase_cons_head]
    have hs' : s.readLength client u = { s with
        stage := Function.update s.stage u (.readPayload (p u).length)
        toClient := p u ++ rest.flatMap fun v => frame 4 (p v)
        unanswered := rest ++ waiting } := by
      simp only [State.readLength, hread, hlength, herase]
    have hbegun : (s.readLength client u).begun = s.begun :=
      begun_frame (t := u) (by simp [hstage]) (by simp [State.readLength])
        (by simp [State.readLength]) rfl rfl
    rw [hs'] at hbegun ⊢
    constructor
    case unanswered => rfl
    case nodup => exact (List.nodup_cons.mp hnodup).2
    case results => exact hs.results
    case answered =>
      exact fun v hv => hs.answered v (hanswered ▸ List.mem_cons_of_mem u hv)
    case stage =>
      refine (Thread.forall_iff u).mpr ⟨?_, ?_⟩
      · simpa using (List.nodup_cons.mp hnodup).1
      · have h := hs.stage u.other
        rw [hunanswered] at h
        simpa using h
    case begun =>
      refine (Thread.forall_iff u).mpr ⟨by simp, ?_⟩
      simp
    case left =>
      exact (Thread.forall_iff u).mpr ⟨.inr (by simpa using hleft), .inl (by simpa using hleft)⟩
    case toServer =>
      rw [hbegun]
      exact hs.toServer
    case toClient =>
      rw [both_eq u (.inr (by simpa [State.left] using hother))]
      refine congrArg (· ++ _) ?_
      simpa [State.left] using hother
    case reading =>
      refine (Thread.forall_iff u).mpr ⟨fun n hn => ?_, fun n hn => ?_⟩
      · exact ⟨by simpa using hn, hanswer⟩
      · exact hs.reading u.other n (by simpa using hn)

theorem InOrder.readPayload (hs : InOrder client s answered waiting p) {t : Thread} {n : ℕ}
    (hstage : s.stage t = .readPayload n) :
    InOrder client (s.readPayload t n) answered waiting p := by
  obtain ⟨hlen, hanswer⟩ := hs.reading t n hstage
  have hself : s.left p t = p t := by simp only [State.left, hstage]
  have hread : streamRead n s.toClient =
      (⟨p t, false⟩, s.left p t.other ++ answered.flatMap fun u => frame 4 (p u)) := by
    rw [hs.toClient, hs.left_eq t, hself, ← hlen, List.append_assoc]
    exact streamRead_append _ _
  have hs' : s.readPayload t n = { s with
      stage := Function.update s.stage t .idle
      toClient := s.left p t.other ++ answered.flatMap fun u => frame 4 (p u)
      results := s.results ++ [⟨s.call t, s.cmd t, s.arg t, p t⟩] } := by
    simp only [State.readPayload, hread]
  have hbegun : (s.readPayload t n).begun = s.begun :=
    begun_frame (t := t) (by simp [hstage]) (by simp [State.readPayload])
      (by simp [State.readPayload]) rfl rfl
  rw [hs'] at hbegun ⊢
  constructor
  case unanswered => exact hs.unanswered
  case nodup => exact hs.nodup
  case answered => exact hs.answered
  case stage =>
    refine (Thread.forall_iff t).mpr ⟨?_, by simpa using hs.stage t.other⟩
    simpa [hstage] using hs.stage t
  case begun => exact (Thread.forall_iff t).mpr ⟨by simp, by simp⟩
  case left =>
    exact (Thread.forall_iff t).mpr
      ⟨.inl (by simp [Stage.payloadLeft]), .inr (by simp [Stage.payloadLeft])⟩
  case toServer =>
    rw [hbegun]
    exact hs.toServer
  case toClient =>
    rw [both_eq t (.inl (by simp [State.left]))]
    refine congrArg (· ++ _) ?_
    simp [State.left]
  case reading =>
    exact (Thread.forall_iff t).mpr
      ⟨by simp, fun m hm => hs.reading t.other m (by simpa using hm)⟩
  case results =>
    intro r hr
    rcases List.mem_append.mp hr with hold | hnew
    · exact hs.results r hold
    · rw [List.mem_singleton.mp hnew]
      exact hanswer

theorem InOrder.next (hs : InOrder client s answered waiting p) {a : Action} (hturn : InTurn s a)
    (hn : exchangeNext server client views s a = some s') :
    ∃ answered' waiting' p', InOrder client s' answered' waiting' p' := by
  cases a with
  | writeCode t cmd arg =>
    obtain ⟨hidle, ⟨⟩⟩ := of_guard hn
    exact ⟨_, _, _, hs.writeCode cmd arg hturn hidle⟩
  | writeArg t =>
    obtain ⟨hstage, ⟨⟩⟩ := of_guard hn
    exact ⟨_, _, _, hs.writeArg hstage⟩
  | serve =>
    obtain ⟨t, rest, payload, -, hs'⟩ := hs.serve hn
    exact ⟨_, _, _, hs'⟩
  | readLength t =>
    obtain ⟨⟨hstage, hlen⟩, ⟨⟩⟩ := of_guard hn
    obtain ⟨rest, -, hs'⟩ := hs.readLength hturn.1 hturn.2 hstage hlen
    exact ⟨_, _, _, hs'⟩
  | readPayload t =>
    simp only [exchangeNext] at hn
    split at hn
    case h_1 n hstage =>
      obtain ⟨-, ⟨⟩⟩ := of_guard hn
      exact ⟨_, _, _, hs.readPayload hstage⟩
    case h_2 => cases hn

end Steps

theorem inOrder_init (server client : ByteOrder) (views : ℕ → ServedView) :
    InOrder client (exchange server client views).init [] [] fun _ => [] where
  unanswered := rfl
  nodup := List.nodup_nil
  stage t := by simp [exchange]
  begun t := nofun
  left t := .inl rfl
  toServer := rfl
  toClient := rfl
  answered t h := by simp at h
  reading t n := nofun
  results r h := by simp [exchange] at h

/-- As long as the two threads take turns, every response is the server's answer to the
command of the call that returns it. -/
theorem response_answers (server client : ByteOrder) (views : ℕ → ServedView) {s : State}
    (hs : (exchange server client views).ReachableVia InTurn s) :
    ∀ r ∈ s.results, Answered s.served r.call r.cmd r.arg r.response := by
  have hinv : ∃ answered waiting p, InOrder client s answered waiting p := by
    refine hs.invariant (I := fun s => ∃ answered waiting p, InOrder client s answered waiting p)
      ⟨[], [], fun _ => [], inOrder_init server client views⟩ ?_
    rintro s a s' hturn ⟨answered, waiting, p, hinv⟩ hn
    exact hinv.next hturn hn
  obtain ⟨answered, waiting, p, hinv⟩ := hinv
  exact hinv.results

instance (served : List Served) (call : CallId) (cmd : Code) (arg : UInt16) (response : List UInt8) :
    Decidable (Answered served call cmd arg response) :=
  inferInstanceAs (Decidable (_ ∈ _))

private def zeroTables : ServedView :=
  let m : ModbusServer.AllocatedMapping := ⟨ModbusServer.mappingNew 10 10 10 10, rfl, rfl, rfl, rfl⟩
  ⟨m, m, m, m⟩

private def bothSent : List Action :=
  [.writeCode .main .readCoil 3, .writeArg .main, .writeCode .loop .readAll 0, .writeArg .loop,
    .serve, .serve]

theorem response_answers_bothSent : ∃ s,
    (exchange .big .little fun _ => zeroTables).ReachableVia InTurn s ∧ s.results.length = 2 ∧
    ∀ r ∈ s.results, Answered s.served r.call r.cmd r.arg r.response := by
  obtain ⟨s, hs, htest⟩ := TransitionSystem.exists_reachableVia_of_runVia
    (exchange .big .little fun _ => zeroTables) InTurn
    (bothSent ++ [.readLength .main, .readPayload .main, .readLength .loop, .readPayload .loop])
    (fun s => decide (s.results.length = 2)) (by decide)
  exact ⟨s, hs, of_decide_eq_true htest, response_answers _ _ _ hs⟩

/-- The thread that reads first gets the response to the command written first. -/
theorem response_swapped : ∃ s, (exchange .big .little fun _ => zeroTables).Reachable s ∧
    s.results = [⟨(.loop, 1), .readAll, 0, [0]⟩] ∧
    ¬ Answered s.served (.loop, 1) .readAll 0 [0] := by
  obtain ⟨s, hs, htest⟩ := TransitionSystem.exists_reachable_of_run
    (exchange .big .little fun _ => zeroTables)
    (bothSent ++ [.readLength .loop, .readPayload .loop])
    (fun s => decide (s.results = [⟨(.loop, 1), .readAll, 0, [0]⟩] ∧
      ¬ Answered s.served (.loop, 1) .readAll 0 [0])) (by decide)
  exact ⟨s, hs, of_decide_eq_true htest⟩

end Mbtest.Wire
