import Mbtest.TcpConnection.Thread
import Mathlib.Tactic.IntervalCases

/-! What reaches the peer when writes fail. -/
namespace Mbtest.TcpConnection
open Lib

/-- The peer of a connection: the writes made to it, and the bytes that reached it. -/
structure Peer where
  calls : ℕ
  received : List UInt8
  deriving DecidableEq, Repr

/-- A write with the outcome of its number: `none` is success, `some k` an error after `k`
bytes. A failed write leaves at least one of its bytes. -/
def Peer.write (outcome : ℕ → Option ℕ) (buffer : List UInt8) (p : Peer) : Bool × Peer :=
  match outcome p.calls with
  | none => (true, ⟨p.calls + 1, p.received ++ buffer⟩)
  | some k => (false, ⟨p.calls + 1, p.received ++ buffer.take (min k (buffer.length - 1))⟩)

def lossy {R : Type} (outcome : ℕ → Option ℕ) (read : Source R) : Socket (R × Peer) where
  remoteEndpoint s := (true, s)
  read n s := ((read n s.1).1, ((read n s.1).2, s.2))
  write buffer s := ((s.2.write outcome buffer).1, (s.1, (s.2.write outcome buffer).2))

def Peer.deliver (outcome : ℕ → Option ℕ) (writes : Writes) (p : Peer) : Peer :=
  writes.foldl (fun p buffer => (p.write outcome buffer).2) p

section Deliver
variable {outcome : ℕ → Option ℕ} {p : Peer}

theorem Peer.write_success (h : outcome p.calls = none) (buffer : List UInt8) :
    (p.write outcome buffer).2 = ⟨p.calls + 1, p.received ++ buffer⟩ := by
  simp only [Peer.write, h]

theorem Peer.write_failure {k : ℕ} (h : outcome p.calls = some k) (buffer : List UInt8) :
    (p.write outcome buffer).2 =
      ⟨p.calls + 1, p.received ++ buffer.take (min k (buffer.length - 1))⟩ := by
  simp only [Peer.write, h]

theorem Peer.deliver_cons (buffer : List UInt8) (writes : Writes) :
    p.deliver outcome (buffer :: writes) = (p.write outcome buffer).2.deliver outcome writes := rfl

theorem Peer.deliver_append (writes more : Writes) :
    p.deliver outcome (writes ++ more) = (p.deliver outcome writes).deliver outcome more :=
  List.foldl_append

theorem Peer.deliver_none (writes : Writes) (p : Peer) :
    p.deliver (fun _ => none) writes =
      ⟨p.calls + writes.length, p.received ++ writes.flatten⟩ := by
  induction writes generalizing p with
  | nil => simp [Peer.deliver]
  | cons buffer writes ih =>
    rw [Peer.deliver_cons, Peer.write_success rfl, ih]
    simp only [List.length_cons, List.flatten_cons, List.append_assoc, Peer.mk.injEq, and_true]
    omega

end Deliver

theorem send_lossy {R : Type} (outcome : ℕ → Option ℕ) (read : Source R) (writes : Writes) (r : R)
    (p : Peer) : send (lossy outcome read) writes (r, p) = (r, p.deliver outcome writes) := by
  induction writes generalizing p with
  | nil => rfl
  | cons buffer writes ih => exact ih (p.write outcome buffer).2

theorem readRequest_lossy {R : Type} (o : ByteOrder) (outcome : ℕ → Option ℕ) (read : Source R)
    (r : R) (p : Peer) :
    readRequest o (lossy outcome read).read (r, p) =
      ((readRequest o read r).1, ((readRequest o read r).2, p)) := rfl

/-- The outcomes of the writes change nothing in the course of a connection: the loop makes
the writes of a session, and the next request is read in any case. -/
theorem loop_lossy {R : Type} (o : ByteOrder) (read : Source R) (running : ℕ → Bool)
    (views : ℕ → ServedView) (fuel i : ℕ) (r : R) :
    ∃ (ended : Bool) (t : Session R),
      (∀ outcome p, loop o (lossy outcome read) running (served views) fuel i (r, p) =
        .ok (ended, t.rest, p.deliver outcome t.written)) ∧
      run o read running (served views) fuel i r = .ok (if ended then some t else none) := by
  induction fuel generalizing i r with
  | zero => exact ⟨false, ⟨r, [], []⟩, fun _ _ => rfl, rfl⟩
  | succ fuel ih =>
    by_cases hrunning : running i = true
    · rcases hread : readRequest o read r with ⟨⟨ec, cmd, arg⟩, r'⟩
      cases ec with
      | true =>
        refine ⟨true, ⟨r', [], []⟩, fun outcome p => ?_, ?_⟩
        · rw [loop, pass]
          simp only [hrunning, if_true, readRequest_lossy, hread]
          rfl
        · rw [run]
          simp only [hrunning, if_true, hread]
      | false =>
        obtain ⟨ws, hws, -⟩ := dispatch_response o (views i) (cmd, arg)
        obtain ⟨ended, t, hloop, hrun⟩ := ih (i + 1) r'
        refine ⟨ended, ⟨t.rest, (cmd, arg) :: t.dispatched, ws ++ t.written⟩, fun outcome p => ?_, ?_⟩
        · have hpass : pass o (lossy outcome read) running (served views) i (r, p) =
              .ok (true, r', p.deliver outcome ws) := by
            rw [pass]
            simp only [hrunning, if_true, readRequest_lossy, hread, Bool.false_eq_true, if_false,
              hws]
            rw [← send_lossy outcome read ws r' p]
            rfl
          rw [loop, hpass]
          change loop o (lossy outcome read) running (served views) fuel (i + 1)
            (r', p.deliver outcome ws) = _
          rw [hloop, Peer.deliver_append]
        · rw [run]
          simp only [hrunning, if_true, hread, Bool.false_eq_true, if_false, hws]
          change (run o read running (served views) fuel (i + 1) r' >>= fun later =>
            return later.map _) = _
          rw [hrun]
          cases ended <;> rfl
    · refine ⟨true, ⟨r, [], []⟩, fun outcome p => ?_, ?_⟩
      · rw [loop, pass, if_neg hrunning]
        rfl
      · rw [run, if_neg hrunning]
        rfl

/-- The bytes that have reached the peer of a connection after `fuel` passes, or at its end. -/
def received {R : Type} (o : ByteOrder) (outcome : ℕ → Option ℕ) (read : Source R)
    (running : ℕ → Bool) (server2 : ℕ → IModbusService) (fuel : ℕ) (r : R) :
    Access (List UInt8) := do
  let (_, _, p) ← loop o (lossy outcome read) running server2 fuel 0 (r, ⟨0, []⟩)
  return p.received

/-- Whatever is asked for, the peer gets a prefix of what it gets when no write fails. -/
def PrefixLaw (o : ByteOrder) (outcome : ℕ → Option ℕ) : Prop :=
  ∀ (R : Type) (read : Source R) (running : ℕ → Bool) (views : ℕ → ServedView) (fuel : ℕ) (r : R),
    ∃ got sent, received o outcome read running (served views) fuel r = .ok got ∧
      received o (fun _ => none) read running (served views) fuel r = .ok sent ∧ got <+: sent

/-- After a write that fails every write fails, without a byte. -/
def DeadAfterFailure (outcome : ℕ → Option ℕ) : Prop :=
  ∀ f g, f < g → (outcome f).isSome → outcome g = some 0

section Prefix
variable {outcome : ℕ → Option ℕ}

theorem deadAfterFailure_of_next
    (hnext : ∀ f, (outcome f).isSome → outcome (f + 1) = some 0) : DeadAfterFailure outcome := by
  intro f g hfg hf
  induction g, hfg using Nat.le_induction with
  | base => exact hnext f hf
  | succ g _ ih => exact hnext g (by rw [ih]; rfl)

theorem received_deliver_dead (hdead : DeadAfterFailure outcome) (writes : Writes) {p : Peer}
    {f : ℕ} (hf : f < p.calls) (hsome : (outcome f).isSome) :
    (p.deliver outcome writes).received = p.received := by
  induction writes generalizing p with
  | nil => rfl
  | cons buffer writes ih =>
    have hwrite := Peer.write_failure (hdead f p.calls hf hsome) buffer
    rw [Nat.zero_min, List.take_zero, List.append_nil] at hwrite
    rw [Peer.deliver_cons, hwrite]
    exact ih (Nat.lt_succ_of_lt hf)

theorem received_deliver_prefix (hdead : DeadAfterFailure outcome) (writes : Writes) (p : Peer) :
    (p.deliver outcome writes).received <+: p.received ++ writes.flatten := by
  induction writes generalizing p with
  | nil => exact List.prefix_append p.received []
  | cons buffer writes ih =>
    rw [Peer.deliver_cons, List.flatten_cons]
    cases hout : outcome p.calls with
    | none =>
      have h := ih ⟨p.calls + 1, p.received ++ buffer⟩
      rwa [List.append_assoc, ← Peer.write_success hout] at h
    | some k =>
      rw [Peer.write_failure hout]
      have hsome : (outcome p.calls).isSome := by rw [hout]; rfl
      rw [received_deliver_dead hdead writes (Nat.lt_succ_self p.calls) hsome]
      have htake := List.take_prefix (min k (buffer.length - 1)) buffer
      exact List.prefix_append_right_inj p.received |>.mpr
        (htake.trans (List.prefix_append buffer writes.flatten))

theorem received_eq {R : Type} (o : ByteOrder) (read : Source R) (running : ℕ → Bool)
    (views : ℕ → ServedView) (fuel : ℕ) (r : R) :
    ∃ writes, ∀ outcome, received o outcome read running (served views) fuel r =
      .ok ((⟨0, []⟩ : Peer).deliver outcome writes).received := by
  obtain ⟨ended, t, hloop, -⟩ := loop_lossy o read running views fuel 0 r
  refine ⟨t.written, fun outcome => ?_⟩
  rw [received, hloop]
  rfl

theorem prefixLaw_of_dead (o : ByteOrder) (hdead : DeadAfterFailure outcome) :
    PrefixLaw o outcome := by
  intro R read running views fuel r
  obtain ⟨writes, hreceived⟩ := received_eq o read running views fuel r
  refine ⟨_, _, hreceived outcome, hreceived fun _ => none, ?_⟩
  have h := received_deliver_prefix hdead writes ⟨0, []⟩
  rwa [Peer.deliver_none]

end Prefix

section Violation
variable (o : ByteOrder)

def coilsSet : ServedView :=
  .same { ModbusServer.AllocatedMapping.new with
    tabBits := .replicate 10 1
    length_tabBits := rfl }

def askCoils : ℕ → List UInt8
  | 0 => [Code.readCoilAll.toByte, 0, 0]
  | n + 1 => Code.readCoil.toByte :: 255 :: 255 :: askCoils n

def coilWrites : ℕ → Writes
  | 0 => [[0, 0, 0, 10], .replicate 10 1]
  | n + 1 => [0, 0, 0, 0] :: coilWrites n

theorem dispatch_noCoil : dispatch o (ModbusServer.service coilsSet.view) Code.readCoil.toByte
    (UInt16.ofNat (ofBytes [255, 255])) = .ok [[0, 0, 0, 0]] := by
  have harg : ¬ ModbusServer.InRange ModbusServer.nbBits 65535 := by decide
  have hcoil : ModbusServer.readCoil coilsSet.view.coils 65535 = .ok none :=
    ModbusServer.readEntry_of_not_inRange harg coilsSet.view.coils
  unfold dispatch
  rw [Code.ofByte?_toByte]
  change respond o (writeResponseByte o) (ModbusServer.readCoil coilsSet.view.coils 65535) = _
  rw [hcoil]
  change Except.ok [mem32 o (ntohl o 0)] = _
  rw [mem32_ntohl]
  rfl

theorem dispatch_coilsSet (arg : UInt16) :
    dispatch o (ModbusServer.service coilsSet.view) Code.readCoilAll.toByte arg =
      .ok [[0, 0, 0, 10], .replicate 10 1] := by
  change Except.ok [mem32 o (ntohl o (UInt32.ofNat 10)), List.replicate 10 1] = _
  rw [mem32_ntohl]
  rfl

theorem loop_askCoils (outcome : ℕ → Option ℕ) (n i : ℕ) (p : Peer) :
    loop o (lossy outcome streamRead) (fun _ => true) (served fun _ => coilsSet) (n + 1) i
      (askCoils n, p) = .ok (false, [], p.deliver outcome (coilWrites n)) := by
  induction n generalizing i p with
  | zero =>
    have hpass : pass o (lossy outcome streamRead) (fun _ => true) (served fun _ => coilsSet) i
        (askCoils 0, p) = .ok (true, [], p.deliver outcome (coilWrites 0)) := by
      rw [pass, askCoils]
      simp only [if_true, readRequest_lossy, readRequest_unit, Bool.false_eq_true, if_false,
        dispatch_coilsSet]
      rfl
    rw [loop, hpass]
    rfl
  | succ n ih =>
    have hpass : pass o (lossy outcome streamRead) (fun _ => true) (served fun _ => coilsSet) i
        (askCoils (n + 1), p) = .ok (true, askCoils n, (p.write outcome [0, 0, 0, 0]).2) := by
      rw [pass, askCoils]
      simp only [if_true, readRequest_lossy, readRequest_unit, Bool.false_eq_true, if_false,
        dispatch_noCoil]
      rfl
    rw [loop, hpass]
    exact ih (i + 1) _

theorem flatten_coilWrites (n : ℕ) :
    (coilWrites n).flatten = List.replicate (4 * n + 3) 0 ++ 10 :: List.replicate 10 1 := by
  induction n with
  | zero => rfl
  | succ n ih =>
    have hzeros : [0, 0, 0, 0] ++ List.replicate (4 * n + 3) (0 : UInt8) =
        List.replicate (4 * (n + 1) + 3) 0 := by
      change List.replicate 4 0 ++ List.replicate (4 * n + 3) 0 = _
      rw [← List.replicate_add]
      congr 1
      omega
    rw [coilWrites, List.flatten_cons, ih, ← List.append_assoc, hzeros]

theorem write_zeros (outcome : ℕ → Option ℕ) (p : Peer) :
    ∃ y ≤ 4, (p.write outcome [0, 0, 0, 0]).2 =
      ⟨p.calls + 1, p.received ++ List.replicate y 0⟩ := by
  cases hout : outcome p.calls with
  | none => exact ⟨4, le_rfl, Peer.write_success hout _⟩
  | some k =>
    refine ⟨min k 3, by omega, ?_⟩
    rw [Peer.write_failure hout]
    change Peer.mk _ (_ ++ (List.replicate 4 0).take (min k 3)) = _
    rw [List.take_replicate, Nat.min_eq_left (by omega)]

/-- A header that is cut off, and then a byte of the payload. -/
theorem deliver_coilWrites {outcome : ℕ → Option ℕ} (n : ℕ) {p : Peer}
    (hheader : (outcome (p.calls + n)).isSome) (hpayload : outcome (p.calls + n + 1) ≠ some 0) :
    ∃ x ≤ 4 * n + 3, ∃ rest, (p.deliver outcome (coilWrites n)).received =
      p.received ++ List.replicate x 0 ++ 1 :: rest := by
  induction n generalizing p with
  | zero =>
    obtain ⟨k, hk⟩ := Option.isSome_iff_exists.mp hheader
    have hzeros : [0, 0, 0, 10].take (min k 3) = List.replicate (min k 3) (0 : UInt8) := by
      have hle : min k 3 ≤ 3 := by omega
      interval_cases min k 3 <;> rfl
    refine ⟨min k 3, by omega, ?_⟩
    rw [coilWrites, Peer.deliver_cons, Peer.write_failure hk, Peer.deliver_cons]
    change ∃ rest, (Peer.deliver outcome [] (Peer.write outcome _
      ⟨_, p.received ++ [0, 0, 0, 10].take (min k 3)⟩).2).received = _
    rw [hzeros]
    cases hout : outcome (p.calls + 1) with
    | none =>
      refine ⟨List.replicate 9 1, ?_⟩
      rw [Peer.write_success hout]
      rfl
    | some m =>
      obtain ⟨j, rfl⟩ : ∃ j, m = j + 1 := by
        refine ⟨m - 1, ?_⟩
        have hm : m ≠ 0 := by
          rintro rfl
          exact hpayload hout
        omega
      refine ⟨List.replicate (min j 8) 1, ?_⟩
      have hones : (List.replicate 10 (1 : UInt8)).take (min (j + 1) 9) =
          1 :: List.replicate (min j 8) 1 := by
        rw [List.take_replicate, ← List.replicate_succ]
        congr 1
        omega
      rw [Peer.write_failure hout, List.length_replicate, hones]
      rfl
  | succ n ih =>
    obtain ⟨y, hy, hwrite⟩ := write_zeros outcome p
    have hcalls : p.calls + 1 + n = p.calls + (n + 1) := by omega
    obtain ⟨x, hx, rest, hrest⟩ := ih (p := ⟨p.calls + 1, p.received ++ List.replicate y 0⟩)
      (by rw [hcalls]; exact hheader) (by rw [hcalls]; exact hpayload)
    refine ⟨y + x, by omega, rest, ?_⟩
    rw [coilWrites, Peer.deliver_cons, hwrite, hrest, List.replicate_add]
    simp only [List.append_assoc]

theorem not_prefix_zeros {x m : ℕ} (hx : x ≤ m) (rest sent : List UInt8) :
    ¬ List.replicate x 0 ++ 1 :: rest <+: List.replicate m 0 ++ 10 :: sent := by
  intro h
  have hlen : x < (List.replicate x (0 : UInt8) ++ 1 :: rest).length := by simp
  have hsame := h.getElem hlen
  rw [List.getElem_append_right (by simp)] at hsame
  rcases Nat.lt_or_eq_of_le hx with hlt | rfl
  · rw [List.getElem_append_left (by simpa using hlt)] at hsame
    simp at hsame
  · rw [List.getElem_append_right (by simp)] at hsame
    simp at hsame

end Violation

/-- The law holds of a pattern of outcomes, for all commands, exactly if no write comes
through after a failed one. -/
theorem prefixLaw_iff (o : ByteOrder) (outcome : ℕ → Option ℕ) :
    PrefixLaw o outcome ↔ DeadAfterFailure outcome := by
  constructor
  · intro hlaw
    refine deadAfterFailure_of_next fun f hheader => ?_
    by_contra hpayload
    obtain ⟨got, sent, hgot, hsent, hprefix⟩ :=
      hlaw _ streamRead (fun _ => true) (fun _ => coilsSet) (f + 1) (askCoils f)
    simp only [received, loop_askCoils] at hgot hsent
    cases hgot
    cases hsent
    obtain ⟨x, hx, rest, hdelivered⟩ := deliver_coilWrites (p := ⟨0, []⟩) f
      (by simpa using hheader) (by simpa using hpayload)
    change (Peer.deliver outcome (coilWrites f) ⟨0, []⟩).received <+:
      (Peer.deliver (fun _ => none) (coilWrites f) ⟨0, []⟩).received at hprefix
    rw [hdelivered, Peer.deliver_none, flatten_coilWrites] at hprefix
    exact not_prefix_zeros hx rest _ hprefix
  · exact prefixLaw_of_dead o

/-- The header of a READ_COIL_ALL response is lost, and its payload arrives. -/
theorem payload_without_header :
    let outcome : ℕ → Option ℕ := fun c => if c = 0 then some 0 else none
    received .little outcome streamRead (fun _ => true) (served fun _ => coilsSet) 2
        [Code.readCoilAll.toByte, 0, 0] = .ok (.replicate 10 1) ∧
    received .little (fun _ => none) streamRead (fun _ => true) (served fun _ => coilsSet) 2
        [Code.readCoilAll.toByte, 0, 0] = .ok ([0, 0, 0, 10] ++ .replicate 10 1) ∧
    ¬ PrefixLaw .little outcome := by
  intro outcome
  refine ⟨rfl, rfl, fun hlaw => ?_⟩
  obtain ⟨got, sent, hgot, hsent, hprefix⟩ := hlaw _ streamRead (fun _ => true)
    (fun _ => coilsSet) 2 [Code.readCoilAll.toByte, 0, 0]
  cases hgot
  cases hsent
  revert hprefix
  decide

end Mbtest.TcpConnection
