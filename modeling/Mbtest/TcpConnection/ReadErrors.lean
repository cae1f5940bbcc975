import Mbtest.Network.Outcomes
import Mbtest.TcpConnection.Session

/-! What the command loop does when a read fails. -/
namespace Mbtest.TcpConnection
open Lib

/-- The number of bytes that the loop asks for in its read number `n`. -/
def asked (n : ℕ) : ℕ := if n % 2 = 0 then 1 else 2

def progress (sc : Script) : ℕ → Progress
  | 0 => ⟨0, 0⟩
  | n + 1 => (sc.read (asked n) (progress sc n)).2

def Session.after {S : Type} (dispatched : List (UInt8 × UInt16)) (written : Writes)
    (t : Session S) : Session S :=
  ⟨t.rest, dispatched ++ t.dispatched, written ++ t.written⟩

abbrev runScript (o : ByteOrder) (sc : Script) (running : ℕ → Bool) (views : ℕ → ServedView) :
    ℕ → ℕ → Progress → Access (Option (Session Progress)) :=
  run o sc.read running fun i => ModbusServer.service (views i).view

section Loop
variable {o : ByteOrder} {sc : Script} {running : ℕ → Bool} {views : ℕ → ServedView}

theorem progress_success {n : ℕ} (h : ∀ j < 2 * n, sc.outcome j = none) :
    progress sc (2 * n) = ⟨2 * n, 3 * n⟩ := by
  induction n with
  | zero => rfl
  | succ n ih =>
    have hprev := ih fun j hj => h j (by omega)
    have heven : asked (2 * n) = 1 := if_pos (by omega)
    have hodd : asked (2 * n + 1) = 2 := if_neg (by omega)
    have hcmd := Script.read_success (p := ⟨2 * n, 3 * n⟩) (h (2 * n) (by omega)) 1
    have harg := Script.read_success (p := ⟨2 * n + 1, 3 * n + 1⟩) (h (2 * n + 1) (by omega)) 2
    have hnext : progress sc (2 * n + 1) = ⟨2 * n + 1, 3 * n + 1⟩ := by
      rw [progress, hprev, heven, hcmd]
    rw [show 2 * (n + 1) = 2 * n + 1 + 1 by omega, progress, hnext, hodd, harg]
    rfl

theorem readRequest_success {i x : ℕ} (hcmd : sc.outcome (2 * i) = none)
    (harg : sc.outcome (2 * i + 1) = none) :
    ∃ cmd arg, readRequest o sc.read ⟨2 * i, x⟩ = (⟨false, cmd, arg⟩, ⟨2 * (i + 1), x + 3⟩) := by
  have h1 := Script.read_success (p := ⟨2 * i, x⟩) hcmd 1
  have h2 := Script.read_success (p := ⟨2 * i + 1, x + 1⟩) harg 2
  simp only [readRequest, h1, h2]
  exact ⟨_, _, rfl⟩

theorem runScript_break {fuel i : ℕ} {p : Progress} (hrunning : running i = true)
    (hec : (readRequest o sc.read p).1.ec = true) :
    runScript o sc running views (fuel + 1) i p =
      .ok (some ⟨(readRequest o sc.read p).2, [], []⟩) := by
  rw [runScript, run]
  simp only [hrunning, if_true, hec]

variable (views) in
theorem runScript_pass {i : ℕ} {p p' : Progress} {cmd : UInt8} {arg : UInt16}
    (hrunning : running i = true) (hreq : readRequest o sc.read p = (⟨false, cmd, arg⟩, p')) :
    ∃ ws, ∀ fuel, runScript o sc running views (fuel + 1) i p =
      (runScript o sc running views fuel (i + 1) p').map
        (Option.map (Session.after [(cmd, arg)] ws)) := by
  obtain ⟨ws, hws, -⟩ := dispatch_response o (views i) (cmd, arg)
  refine ⟨ws, fun fuel => ?_⟩
  rw [runScript, run]
  simp only [hrunning, if_true, hreq, Bool.false_eq_true, if_false, hws]
  generalize run o sc.read running _ fuel (i + 1) p' = later
  cases later with
  | error e => rfl
  | ok t => cases t <;> rfl

variable (o sc running views) in
theorem runScript_passes (m i x : ℕ) (hrunning : ∀ j < m, running (i + j) = true)
    (hok : ∀ j < 2 * m, sc.outcome (2 * i + j) = none) :
    ∃ dispatched written, dispatched.length = m ∧ ∀ fuel,
      runScript o sc running views (fuel + m) i ⟨2 * i, x⟩ =
        (runScript o sc running views fuel (i + m) ⟨2 * (i + m), x + 3 * m⟩).map
          (Option.map (Session.after dispatched written)) := by
  induction m generalizing i x with
  | zero =>
    refine ⟨[], [], rfl, fun fuel => ?_⟩
    change runScript o sc running views fuel i ⟨2 * i, x⟩ =
      (runScript o sc running views fuel i ⟨2 * i, x⟩).map _
    cases runScript o sc running views fuel i ⟨2 * i, x⟩ with
    | error e => rfl
    | ok t => cases t <;> rfl
  | succ m ih =>
    have hcmd : sc.outcome (2 * i) = none := hok 0 (by omega)
    have harg : sc.outcome (2 * i + 1) = none := hok 1 (by omega)
    obtain ⟨cmd, arg, hreq⟩ := readRequest_success (o := o) (x := x) hcmd harg
    have hfirst : running i = true := hrunning 0 (by omega)
    obtain ⟨ws, hpass⟩ := runScript_pass views hfirst hreq
    have hrunningRest : ∀ j < m, running (i + 1 + j) = true := by
      intro j hj
      rw [show i + 1 + j = i + (j + 1) by omega]
      exact hrunning (j + 1) (by omega)
    have hokRest : ∀ j < 2 * m, sc.outcome (2 * (i + 1) + j) = none := by
      intro j hj
      rw [show 2 * (i + 1) + j = 2 * i + (j + 2) by omega]
      exact hok (j + 2) (by omega)
    obtain ⟨dispatched, written, hlen, hrest⟩ := ih (i + 1) (x + 3) hrunningRest hokRest
    refine ⟨(cmd, arg) :: dispatched, ws ++ written, by rw [List.length_cons, hlen], fun fuel => ?_⟩
    have hpos : i + 1 + m = i + (m + 1) := by omega
    have htaken : x + 3 + 3 * m = x + 3 * (m + 1) := by omega
    rw [show fuel + (m + 1) = fuel + m + 1 by omega, hpass, hrest, hpos, htaken]
    cases runScript o sc running views fuel (i + (m + 1))
        ⟨2 * (i + (m + 1)), x + 3 * (m + 1)⟩ with
    | error e => rfl
    | ok t =>
      cases t with
      | none => rfl
      | some t => simp [Except.map, Session.after]

variable (o views) in
theorem runScript_failure {f : ℕ} (hf : sc.FirstFailure f)
    (hrunning : ∀ i ≤ f / 2, running i = true) :
    ∃ dispatched written, dispatched.length = f / 2 ∧
      (∀ fuel ≤ f / 2, runScript o sc running views fuel 0 ⟨0, 0⟩ = .ok none) ∧
      ∀ fuel, runScript o sc running views (fuel + f / 2) 0 ⟨0, 0⟩ =
        (runScript o sc running views fuel (f / 2) ⟨2 * (f / 2), 3 * (f / 2)⟩).map
          (Option.map (Session.after dispatched written)) := by
  have hpasses : ∀ m ≤ f / 2, _ := fun m hm =>
    runScript_passes o sc running views m 0 0
      (fun j hj => hrunning (0 + j) (by omega)) (fun j hj => hf.2 (2 * 0 + j) (by omega))
  obtain ⟨dispatched, written, hlen, hrun⟩ := hpasses (f / 2) le_rfl
  refine ⟨dispatched, written, hlen, fun fuel hfuel => ?_, fun fuel => ?_⟩
  · obtain ⟨d, w, -, hshort⟩ := hpasses fuel hfuel
    have h := hshort 0
    rwa [Nat.zero_add] at h
  · have h := hrun fuel
    rwa [Nat.zero_add, Nat.zero_add] at h

end Loop

@[simp] theorem calls_progress (sc : Script) (n : ℕ) : (progress sc n).calls = n := by
  induction n with
  | zero => rfl
  | succ n ih =>
    rw [progress, Script.read]
    split <;> exact congrArg (· + 1) ih

/-- A pass makes the next two reads of the connection, and looks at the error of the second. -/
theorem readRequest_progress (o : ByteOrder) (sc : Script) (m : ℕ) :
    (readRequest o sc.read (progress sc (2 * m))).2 = progress sc (2 * m + 2) ∧
      (readRequest o sc.read (progress sc (2 * m))).1.ec = (sc.outcome (2 * m + 1)).isSome := by
  have heven : asked (2 * m) = 1 := if_pos (by omega)
  have hodd : asked (2 * m + 1) = 2 := if_neg (by omega)
  have hnext : progress sc (2 * m + 1) = (sc.read 1 (progress sc (2 * m))).2 := by
    rw [progress, heven]
  have hlast : progress sc (2 * m + 2) = (sc.read 2 (progress sc (2 * m + 1))).2 := by
    rw [progress, hodd]
  constructor
  · rw [hlast, hnext]
    rfl
  · change (sc.read 2 (sc.read 1 (progress sc (2 * m))).2).1.ec = _
    rw [← hnext]
    cases hout : sc.outcome (2 * m + 1) with
    | none =>
      rw [Script.read_success (by rw [calls_progress, hout])]
      rfl
    | some k =>
      rw [Script.read_failure (by rw [calls_progress, hout])]
      rfl

theorem taken_progress_failure {sc : Script} {m k : ℕ} (hout : sc.outcome (2 * m + 1) = some k) :
    (progress sc (2 * m + 2)).taken = (progress sc (2 * m + 1)).taken + min k 1 := by
  have hodd : asked (2 * m + 1) = 2 := if_neg (by omega)
  rw [progress, hodd, Script.read_failure (by rw [calls_progress, hout])]

section FirstFailure
variable {o : ByteOrder} {sc : Script} {running : ℕ → Bool} {views : ℕ → ServedView} {f : ℕ}

theorem runScript_fuel (hf : sc.FirstFailure f) (hrunning : ∀ i ≤ f / 2, running i = true)
    {fuel : ℕ} {t : Session Progress}
    (ht : runScript o sc running views fuel 0 ⟨0, 0⟩ = .ok (some t)) :
    ∃ more, fuel = more + 1 + f / 2 := by
  obtain ⟨-, -, -, hshort, -⟩ := runScript_failure o views hf hrunning
  have hfuel : f / 2 < fuel := by
    by_contra hle
    rw [hshort fuel (by omega)] at ht
    cases ht
  exact ⟨fuel - f / 2 - 1, by omega⟩

variable (o views) in
theorem runScript_last (hf : sc.FirstFailure f) (hrunning : ∀ i ≤ f / 2, running i = true)
    (hsome : (sc.outcome (2 * (f / 2) + 1)).isSome) :
    ∃ dispatched written, dispatched.length = f / 2 ∧ ∀ more,
      runScript o sc running views (more + 1 + f / 2) 0 ⟨0, 0⟩ =
        .ok (some ⟨progress sc (2 * (f / 2) + 2), dispatched, written⟩) := by
  obtain ⟨dispatched, written, hlen, -, hrun⟩ := runScript_failure o views hf hrunning
  have hbefore : progress sc (2 * (f / 2)) = ⟨2 * (f / 2), 3 * (f / 2)⟩ :=
    progress_success fun j hj => hf.2 j (by omega)
  obtain ⟨hreq, hec⟩ := readRequest_progress o sc (f / 2)
  rw [hbefore] at hreq hec
  refine ⟨dispatched, written, hlen, fun more => ?_⟩
  rw [hrun, runScript_break (hrunning _ le_rfl) (hec.trans hsome), hreq]
  simp [Except.map, Session.after]

theorem runScript_masked (hf : sc.FirstFailure f) (hrunning : ∀ i ≤ f / 2, running i = true)
    (hout : sc.outcome (2 * (f / 2) + 1) = none) {fuel : ℕ} {t : Session Progress}
    (ht : runScript o sc running views fuel 0 ⟨0, 0⟩ = .ok (some t)) :
    f / 2 < t.dispatched.length := by
  obtain ⟨more, rfl⟩ := runScript_fuel hf hrunning ht
  obtain ⟨dispatched, written, hlen, -, hrun⟩ := runScript_failure o views hf hrunning
  have hbefore : progress sc (2 * (f / 2)) = ⟨2 * (f / 2), 3 * (f / 2)⟩ :=
    progress_success fun j hj => hf.2 j (by omega)
  have hec := (readRequest_progress o sc (f / 2)).2
  rw [hbefore, hout] at hec
  rcases hread : readRequest o sc.read ⟨2 * (f / 2), 3 * (f / 2)⟩ with ⟨⟨ec, cmd, arg⟩, p⟩
  obtain rfl : ec = false := by
    rw [hread] at hec
    exact hec
  obtain ⟨ws, hpass⟩ := runScript_pass views (hrunning (f / 2) le_rfl) hread
  rw [hrun, hpass] at ht
  generalize runScript o sc running views more (f / 2 + 1) p = later at ht
  obtain _ | _ | t' := later
  · cases ht
  · cases ht
  · cases Option.some.inj (Except.ok.inj ht)
    simp only [Session.after, List.length_append, List.length_cons, List.length_nil]
    omega

end FirstFailure

/-- The loop returns; after its read number `f` it has taken no byte and dispatched no
command, the passes before that read having dispatched `f / 2` of them. -/
def EndsAtFailure (o : ByteOrder) (sc : Script) (running : ℕ → Bool) (views : ℕ → ServedView)
    (f : ℕ) : Prop :=
  ∃ fuel t, runScript o sc running views fuel 0 ⟨0, 0⟩ = .ok (some t) ∧
    t.rest.taken = (progress sc (f + 1)).taken ∧ t.dispatched.length = f / 2

/-- The first failure of a read ends the loop exactly if it is one of the argument's reads,
or the read of the argument after it fails too and takes no byte. -/
theorem endsAtFailure_iff (o : ByteOrder) (sc : Script) (running : ℕ → Bool)
    (views : ℕ → ServedView) {f : ℕ} (hf : sc.FirstFailure f)
    (hrunning : ∀ i ≤ f / 2, running i = true) :
    EndsAtFailure o sc running views f ↔ f % 2 = 1 ∨ sc.outcome (f + 1) = some 0 := by
  constructor
  · rintro ⟨fuel, t, ht, htaken, hdispatched⟩
    by_cases hodd : f % 2 = 1
    · exact .inl hodd
    right
    have hf1 : f + 1 = 2 * (f / 2) + 1 := by omega
    rw [hf1] at htaken ⊢
    cases hout : sc.outcome (2 * (f / 2) + 1) with
    | none =>
      have hmore := runScript_masked hf hrunning hout ht
      omega
    | some k =>
      obtain ⟨more, rfl⟩ := runScript_fuel hf hrunning ht
      obtain ⟨dispatched, written, -, hlast⟩ := runScript_last o views hf hrunning (by rw [hout]; rfl)
      rw [hlast] at ht
      cases Option.some.inj (Except.ok.inj ht)
      change (progress sc (2 * (f / 2) + 2)).taken = _ at htaken
      have hmore := taken_progress_failure hout
      have hmin : min k 1 = 0 := by omega
      have hk : k = 0 := by omega
      rw [hk]
  · intro hcond
    by_cases hodd : f % 2 = 1
    · have hf1 : f = 2 * (f / 2) + 1 := by omega
      have hsome : (sc.outcome (2 * (f / 2) + 1)).isSome := by
        rw [← hf1]
        exact hf.1
      obtain ⟨dispatched, written, hlen, hlast⟩ := runScript_last o views hf hrunning hsome
      refine ⟨0 + 1 + f / 2, _, hlast 0, ?_, hlen⟩
      rw [show f + 1 = 2 * (f / 2) + 2 by omega]
    · have hf1 : f + 1 = 2 * (f / 2) + 1 := by omega
      have hzero : sc.outcome (2 * (f / 2) + 1) = some 0 := by
        rw [← hf1]
        exact hcond.resolve_left hodd
      obtain ⟨dispatched, written, hlen, hlast⟩ :=
        runScript_last o views hf hrunning (by rw [hzero]; rfl)
      refine ⟨0 + 1 + f / 2, _, hlast 0, ?_, hlen⟩
      have hmore := taken_progress_failure hzero
      change (progress sc (2 * (f / 2) + 2)).taken = _
      rw [hf1]
      omega

private def newTables : ServedView := .same .new

private def lost : Script where
  outcome j := if j < 3 then none else some 1
  stream _ := 1

theorem endsAtFailure_lost :
    EndsAtFailure .little lost (fun _ => true) (fun _ => newTables) 3 ↔
      3 % 2 = 1 ∨ lost.outcome (3 + 1) = some 0 :=
  endsAtFailure_iff .little lost (fun _ => true) (fun _ => newTables)
    ⟨rfl, by decide⟩ (by decide)

/-- The first read is interrupted, the next four succeed. -/
private def interrupted : Script where
  outcome j := if j = 0 then some 0 else if j < 4 then none else some 0
  stream j := [1, 0, 3, 0, 3].getD j 0

/-- READ_COIL 3 arrives after the interrupted read. Its first two bytes are taken for an
argument, and with the third begins a command that the peer has not sent. -/
theorem masked_failure : interrupted.FirstFailure 0 ∧
    ∃ t, runScript .little interrupted (fun _ => true) (fun _ => newTables) 3 0 ⟨0, 0⟩ =
        .ok (some t) ∧
      (progress interrupted 1).taken = 0 ∧ t.rest.taken = 5 ∧
      t.dispatched = [(0, 256), (Code.readInput.toByte, 3)] :=
  ⟨⟨rfl, by omega⟩, _, rfl, rfl, rfl, rfl⟩

end Mbtest.TcpConnection
