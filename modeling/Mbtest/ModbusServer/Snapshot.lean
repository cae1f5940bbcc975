import Mbtest.ModbusServer.Serving
import Mathlib.Data.List.Induction

/-! How consistent the tables are that one `readAll` returns. -/
namespace Mbtest.ModbusServer
open Lib

def Mapping.regs (m : Mapping) : AllRegs :=
  ⟨m.tabBits, m.tabInputBits, m.tabInputRegisters, m.tabRegisters⟩

/-- The tables after the first `k` steps of a run. -/
def mappingAt (s : State) (as : List Action) (k : ℕ) : Option Mapping :=
  (serving.run s (as.take k)).bind State.mapping

theorem mappingAt_snoc (s : State) {as : List Action} {k : ℕ} (hk : k ≤ as.length) (a : Action) :
    mappingAt s (as ++ [a]) k = mappingAt s as k := by
  rw [mappingAt, List.take_append_of_le_length hk, mappingAt]

theorem mappingAt_length {s s' : State} {as : List Action} (hrun : serving.run s as = some s')
    (bs : List Action) : mappingAt s (as ++ bs) as.length = s'.mapping := by
  rw [mappingAt, List.take_left, hrun]
  rfl

/-- The result of a first section that found the coils at an instant of the run. -/
def CoilsRead (s : State) (as : List Action) (n1 : Option (List UInt8)) : Prop :=
  ∃ k mk, k ≤ as.length ∧ mappingAt s as k = some mk ∧ n1 = some mk.tabBits

theorem CoilsRead.snoc {s : State} {as : List Action} {n1 : Option (List UInt8)}
    (h : CoilsRead s as n1) (a : Action) : CoilsRead s (as ++ [a]) n1 := by
  obtain ⟨k, mk, hk, hmk, hn1⟩ := h
  exact ⟨k, mk, by rw [List.length_append]; omega, (mappingAt_snoc s hk a).trans hmk, hn1⟩

/-- The coils as they stood at one instant of the run, and the three other tables as
they stood together at an instant not before it. -/
def TwoInstants (s : State) (as : List Action) (regs : AllRegs) : Prop :=
  ∃ k n mk mn, k ≤ n ∧ n ≤ as.length ∧ mappingAt s as k = some mk ∧ mappingAt s as n = some mn ∧
    regs = { mn.regs with coils := mk.tabBits }

theorem TwoInstants.snoc {s : State} {as : List Action} {regs : AllRegs}
    (h : TwoInstants s as regs) (a : Action) : TwoInstants s (as ++ [a]) regs := by
  obtain ⟨k, n, mk, mn, hkn, hn, hmk, hmn, hregs⟩ := h
  exact ⟨k, n, mk, mn, hkn, by rw [List.length_append]; omega,
    (mappingAt_snoc s (Nat.le_trans hkn hn) a).trans hmk, (mappingAt_snoc s hn a).trans hmn, hregs⟩

/-- What a `readAll` that began at `s` has read so far; `m` are the tables now. -/
def ReadSoFar (s : State) (as : List Action) (m : Mapping) : Reader → Prop
  | .inputs n1 => CoilsRead s as n1
  | .discrete n1 n2 => CoilsRead s as n1 ∧ n2 = some m.tabInputRegisters
  | .holding n1 n2 n3 =>
    CoilsRead s as n1 ∧ n2 = some m.tabInputRegisters ∧ n3 = some m.tabInputBits
  | .regs val => ∀ regs ∈ val, TwoInstants s as regs
  | _ => True

theorem ReadSoFar.snoc {s : State} {as : List Action} {m m' : Mapping} {r : Reader}
    (h : ReadSoFar s as m r) (hregisters : m'.tabInputRegisters = m.tabInputRegisters)
    (hbits : m'.tabInputBits = m.tabInputBits) (a : Action) :
    ReadSoFar s (as ++ [a]) m' r := by
  cases r with
  | idle => trivial
  | single op => trivial
  | coils => trivial
  | value op val => trivial
  | inputs n1 => exact CoilsRead.snoc h a
  | discrete n1 n2 => exact ⟨h.1.snoc a, by rw [hregisters]; exact h.2⟩
  | holding n1 n2 n3 =>
    exact ⟨h.1.snoc a, by rw [hregisters]; exact h.2.1, by rw [hbits]; exact h.2.2⟩
  | regs val => exact fun regs hregs => (h regs hregs).snoc a

theorem readSoFar_section {s s' s'' : State} {as : List Action} {m : Mapping} {t : ℕ}
    (hrun : serving.run s as = some s') (hm : s'.mapping = some m)
    (h : ReadSoFar s as m (s'.reader t)) (hn : sectionNext s' t = some s'') (a : Action) :
    ReadSoFar s (as ++ [a]) m (s''.reader t) := by
  have hnow : mappingAt s (as ++ [a]) as.length = some m := (mappingAt_length hrun [a]).trans hm
  have hlen : as.length ≤ (as ++ [a]).length := by simp
  unfold sectionNext at hn
  rw [hm] at hn
  cases hr : s'.reader t with
  | idle => rw [hr] at hn; cases hn
  | value op val => rw [hr] at hn; cases hn
  | regs val => rw [hr] at hn; cases hn
  | single op =>
    rw [hr] at hn
    cases Option.some.inj hn
    cases op.call (some m) with
    | ok v => simp [resume, ReadSoFar]
    | error f => simp [resume, hr, ReadSoFar]
  | coils =>
    rw [hr] at hn
    cases Option.some.inj hn
    simp only [resume, readCoilAll, readTable, nbBits]
    change ReadSoFar s _ m (Function.update s'.reader t (.inputs (some m.tabBits)) t)
    rw [Function.update_self]
    exact ⟨as.length, m, hlen, hnow, rfl⟩
  | inputs n1 =>
    rw [hr] at hn h
    cases Option.some.inj hn
    change ReadSoFar s _ m (Function.update s'.reader t (.discrete n1 (some m.tabInputRegisters)) t)
    rw [Function.update_self]
    exact ⟨CoilsRead.snoc h a, rfl⟩
  | discrete n1 n2 =>
    rw [hr] at hn h
    cases Option.some.inj hn
    change ReadSoFar s _ m (Function.update s'.reader t (.holding n1 n2 (some m.tabInputBits)) t)
    rw [Function.update_self]
    exact ⟨h.1.snoc a, h.2, rfl⟩
  | holding n1 n2 n3 =>
    rw [hr] at hn h
    cases Option.some.inj hn
    change ReadSoFar s _ m
      (Function.update s'.reader t (.regs (collect n1 n2 n3 (some m.tabRegisters))) t)
    rw [Function.update_self]
    obtain ⟨⟨k, mk, hk, hmk, rfl⟩, rfl, rfl⟩ := h
    intro regs hregs
    cases Option.some.inj hregs
    exact ⟨k, as.length, mk, m, hk, hlen, (mappingAt_snoc s hk a).trans hmk, hnow, rfl⟩

theorem sectionNext_other {s s' : State} {t u : ℕ} (hut : u ≠ t)
    (hn : sectionNext s t = some s') : s'.reader u = s.reader u := by
  have hresume : ∀ {α : Type} (result : Access α) (go : α → Reader),
      (resume s t result go).reader u = s.reader u := by
    intro α result go
    cases result with
    | ok v => exact Function.update_of_ne hut _ _
    | error f => rfl
  unfold sectionNext at hn
  split at hn <;> first | (cases Option.some.inj hn; exact hresume _ _) | cases hn

theorem startupNext_of_filled {s s' : State} {ok : Bool} (hs : s.startup.discreteFilled = true)
    (hn : startupNext s ok = some s') :
    s'.startup.discreteFilled = true ∧ s'.mapping = s.mapping := by
  unfold startupNext at hn
  split at hn
  case h_1 hp => rw [hp] at hs; cases hs
  case h_2 hp => rw [hp] at hs; cases hs
  case h_3 hp => rw [hp] at hs; cases hs
  case h_4 hp => rw [hp] at hs; cases hs
  case h_5 => cases Option.some.inj hn; cases ok <;> exact ⟨rfl, rfl⟩
  case h_6 => cases hn

theorem requestNext_inputs {s s' : State} {coils : List UInt8} {holding : List UInt16}
    {m : Mapping} (hm : s.mapping = some m) (hn : requestNext s coils holding = some s') :
    ∃ m', s'.mapping = some m' ∧ m'.tabInputRegisters = m.tabInputRegisters ∧
      m'.tabInputBits = m.tabInputBits := by
  unfold requestNext at hn
  rw [hm] at hn
  split at hn
  case h_1 m₀ hp hm₀ =>
    cases Option.some.inj hm₀
    split_ifs at hn
    cases Option.some.inj hn
    exact ⟨_, rfl, rfl, rfl⟩
  case h_2 => cases hn

structure Reading (s : State) (as : List Action) (s' : State) (t : ℕ) (m : Mapping) : Prop where
  filled : s'.startup.discreteFilled = true
  mapping : s'.mapping = some m
  soFar : ReadSoFar s as m (s'.reader t)

theorem Reading.step {s s' s'' : State} {as : List Action} {t : ℕ} {m : Mapping} {a : Action}
    (hrun : serving.run s as = some s') (h : Reading s as s' t m) (hn : next s' a = some s'') :
    ∃ m', Reading s (as ++ [a]) s'' t m' := by
  have hcall : ∀ u r, ReadSoFar s (as ++ [a]) m r → Reading s (as ++ [a])
      { s' with reader := Function.update s'.reader u r } t m := by
    intro u r hr
    refine ⟨h.filled, h.mapping, ?_⟩
    by_cases hu : t = u
    · subst hu; simpa using hr
    · simpa [Function.update_of_ne hu] using h.soFar.snoc rfl rfl a
  unfold next at hn
  split_ifs at hn
  cases a with
  | startup ok =>
    obtain ⟨hfilled, hm⟩ := startupNext_of_filled h.filled hn
    refine ⟨m, hfilled, hm.trans h.mapping, ?_⟩
    rw [(startupNext_frame hn).1]
    exact h.soFar.snoc rfl rfl _
  | request coils holding =>
    obtain ⟨hreader, -, hstartup⟩ := requestNext_frame hn
    obtain ⟨m', hm', hregisters, hbits⟩ := requestNext_inputs h.mapping hn
    refine ⟨m', by rw [hstartup]; exact h.filled, hm', ?_⟩
    rw [hreader]
    exact h.soFar.snoc hregisters hbits _
  | call u op => exact ⟨m, by rw [callNext_eq hn]; exact hcall u _ trivial⟩
  | callAll u => exact ⟨m, by rw [callNext_eq hn]; exact hcall u _ trivial⟩
  | readSection u =>
    obtain ⟨hp, hm⟩ := sectionNext_frame hn
    refine ⟨m, by rw [hp]; exact h.filled, hm.trans h.mapping, ?_⟩
    by_cases hu : t = u
    · subst hu; exact readSoFar_section hrun h.mapping h.soFar hn _
    · rw [sectionNext_other hu hn]
      exact h.soFar.snoc rfl rfl _

theorem reading_of_run {s s' : State} {t : ℕ} {m : Mapping} (h : Reading s [] s t m)
    {as : List Action} (hrun : serving.run s as = some s') : ∃ m', Reading s as s' t m' := by
  induction as using List.reverseRecOn generalizing s' with
  | nil => cases Option.some.inj hrun; exact ⟨m, h⟩
  | append_singleton as a ih =>
    rw [serving.run_append] at hrun
    obtain ⟨s₁, hs₁, ha⟩ := Option.bind_eq_some_iff.mp hrun
    obtain ⟨m₁, h₁⟩ := ih hs₁
    obtain ⟨s₂, hs₂, heq⟩ := Option.bind_eq_some_iff.mp ha
    cases Option.some.inj heq
    exact h₁.step hs₁ hs₂

/-- The tables that one `readAll` returns are those of two instants between its call and
its return: the coils of the first, the three other tables of the second. -/
theorem readAll_two_instants {s s' : State} {as : List Action} {t : ℕ} {regs : AllRegs}
    (hs : serving.Reachable s) (hfilled : s.startup.discreteFilled = true) (hcall : s.reader t = .coils)
    (hrun : serving.run s as = some s') (hret : s'.reader t = .regs (some regs)) :
    ∃ k n mk mn, k ≤ n ∧ n ≤ as.length ∧ mappingAt s as k = some mk ∧
      mappingAt s as n = some mn ∧ regs = { mn.regs with coils := mk.tabBits } ∧
      (mk.tabBits = mn.tabBits → regs = mn.regs) := by
  obtain ⟨m, hm, -⟩ := (mappingInv_of_reachable hs).discreteFilled hfilled
  obtain ⟨m', h⟩ := reading_of_run ⟨hfilled, hm, by rw [hcall]; trivial⟩ hrun
  have hsoFar := h.soFar
  rw [hret] at hsoFar
  obtain ⟨k, n, mk, mn, hkn, hn, hmk, hmn, hregs⟩ := hsoFar regs rfl
  exact ⟨k, n, mk, mn, hkn, hn, hmk, hmn, hregs, fun heq => by rw [hregs, heq]; rfl⟩

private def coilsTo (v : UInt8) : List UInt8 := .replicate 10 v
private def holdingTo (v : UInt16) : List UInt16 := .replicate 10 v

private def startRead : List Action := .replicate 5 (.startup true) ++ [.callAll 0]

private def tornRead : List Action :=
  [.readSection 0, .request (coilsTo 1) (holdingTo 0), .request (coilsTo 1) (holdingTo 7),
    .readSection 0, .readSection 0, .readSection 0]

private def tornRegs : AllRegs :=
  ⟨coilsTo 0, filledMapping.tabInputBits, filledMapping.tabInputRegisters, holdingTo 7⟩

theorem readAll_two_instants_torn : ∃ s, serving.Reachable s ∧ s.reader 0 = .coils ∧
    ∃ k n mk mn, k ≤ n ∧ n ≤ tornRead.length ∧ mappingAt s tornRead k = some mk ∧
      mappingAt s tornRead n = some mn ∧ tornRegs = { mn.regs with coils := mk.tabBits } ∧
      (mk.tabBits = mn.tabBits → tornRegs = mn.regs) := by
  let s := (serving.run serving.init startRead).get (by decide)
  have hs : serving.Reachable s :=
    TransitionSystem.Reachable.of_run .init startRead (Option.some_get _).symm
  have hrun := (Option.some_get (x := serving.run s tornRead) (by decide)).symm
  exact ⟨s, hs, rfl, readAll_two_instants (t := 0) hs rfl rfl hrun rfl⟩

/-- The four tables returned never stood together. -/
theorem readAll_torn : ∃ s s', serving.run serving.init startRead = some s ∧
    s.reader 0 = .coils ∧ serving.run s tornRead = some s' ∧
    s'.reader 0 = .regs (some tornRegs) ∧
    ∀ k ≤ tornRead.length, (mappingAt s tornRead k).map Mapping.regs ≠ some tornRegs := by
  let s := (serving.run serving.init startRead).get (by decide)
  refine ⟨s, (serving.run s tornRead).get (by decide), (Option.some_get _).symm, rfl,
    (Option.some_get _).symm, by decide, by decide⟩

end Mbtest.ModbusServer
