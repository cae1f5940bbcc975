import Mathlib.Data.Option.Basic
import Mathlib.Data.List.Induction

/-! Transition systems whose step is a partial function of the state and of an
action; the action resolves every choice of the scheduler and of the environment. -/
namespace Mbtest.Lib

structure TransitionSystem (σ α : Type) where
  init : σ
  next : σ → α → Option σ

/-- A step that is taken under a condition. -/
theorem of_guard {σ : Type} {p : Prop} [Decidable p] {o : Option σ} {s : σ}
    (h : (if p then o else none) = some s) : p ∧ o = some s := by
  split_ifs at h with hp
  exact ⟨hp, h⟩

namespace TransitionSystem
variable {σ α : Type} (S : TransitionSystem σ α)

/-- States reached from `init` by steps that each meet `guard`, which sees the
state before the step and the action. -/
inductive ReachableVia (guard : σ → α → Prop) : σ → Prop
  | init : ReachableVia guard S.init
  | step {s s' : σ} {a : α} : ReachableVia guard s → guard s a → S.next s a = some s' →
      ReachableVia guard s'

def Reachable : σ → Prop := S.ReachableVia fun _ _ => True

variable {S}

/-- The invariant rule: `guard` may be used at every step. -/
theorem ReachableVia.invariant {guard : σ → α → Prop} {I : σ → Prop} (hinit : I S.init)
    (hstep : ∀ s a s', guard s a → I s → S.next s a = some s' → I s')
    {s : σ} (hs : S.ReachableVia guard s) : I s := by
  induction hs with
  | init => exact hinit
  | step _ hg hn ih => exact hstep _ _ _ hg ih hn

theorem ReachableVia.mono {guard guard' : σ → α → Prop} (hle : ∀ s a, guard s a → guard' s a)
    {s : σ} (hs : S.ReachableVia guard s) : S.ReachableVia guard' s := by
  induction hs with
  | init => exact .init
  | step _ hg hn ih => exact .step ih (hle _ _ hg) hn

theorem ReachableVia.reachable {guard : σ → α → Prop} {s : σ} (hs : S.ReachableVia guard s) :
    S.Reachable s :=
  hs.mono fun _ _ _ => trivial

theorem Reachable.next {s s' : σ} {a : α} (hs : S.Reachable s) (hn : S.next s a = some s') :
    S.Reachable s' :=
  .step hs trivial hn

/-- A simulation: what a step of `S` does is done by a step of `T` or is not seen there. `T` may
have a bound that `S` has not: `fits` says that it is kept, now and therefore before. -/
theorem Reachable.simulated {τ β : Type} {T : TransitionSystem τ β} (fits : σ → Prop)
    (rel : σ → τ → Prop) (hinit : rel S.init T.init)
    (hfits : ∀ s a s', S.Reachable s → S.next s a = some s' → fits s' → fits s)
    (hstep : ∀ s a s' t, S.Reachable s → T.Reachable t → rel s t → S.next s a = some s' →
      fits s' → rel s' t ∨ ∃ b t', T.next t b = some t' ∧ rel s' t')
    {s : σ} (hs : S.Reachable s) (hfit : fits s) : ∃ t, T.Reachable t ∧ rel s t := by
  induction hs with
  | init => exact ⟨T.init, .init, hinit⟩
  | @step s s' a hs _ hn ih =>
    obtain ⟨t, ht, hrel⟩ := ih (hfits s a s' hs hn hfit)
    obtain hstutter | ⟨b, t', hnext, hrel'⟩ := hstep s a s' t hs ht hrel hn hfit
    · exact ⟨t, ht, hstutter⟩
    · exact ⟨t', ht.next hnext, hrel'⟩

variable (S)

def run : σ → List α → Option σ
  | s, [] => some s
  | s, a :: as => (S.next s a).bind fun s' => run s' as

@[simp] theorem run_cons (s : σ) (a : α) (as : List α) :
    S.run s (a :: as) = (S.next s a).bind fun s' => S.run s' as := rfl

theorem run_append (s : σ) (as bs : List α) :
    S.run s (as ++ bs) = (S.run s as).bind fun s' => S.run s' bs := by
  induction as generalizing s with
  | nil => rfl
  | cons a as ih =>
    simp only [List.cons_append, run_cons]
    cases S.next s a with
    | none => rfl
    | some s' => exact ih s'

variable {S} in
/-- The invariant rule for what a run has done. -/
theorem run_invariant {I : σ → List α → Prop} (hinit : I S.init [])
    (hstep : ∀ s as a s', I s as → S.next s a = some s' → I s' (as ++ [a])) {as : List α} {s : σ}
    (hr : S.run S.init as = some s) : I s as := by
  induction as using List.reverseRecOn generalizing s with
  | nil => cases Option.some.inj hr; exact hinit
  | append_singleton as a ih =>
    rw [run_append] at hr
    obtain ⟨t, ht, hlast⟩ := Option.bind_eq_some_iff.mp hr
    obtain ⟨s', hn, hs'⟩ := Option.bind_eq_some_iff.mp hlast
    cases Option.some.inj hs'
    exact hstep t as a s (ih ht) hn

def runVia (guard : σ → α → Prop) [∀ s a, Decidable (guard s a)] : σ → List α → Option σ
  | s, [] => some s
  | s, a :: as => if guard s a then (S.next s a).bind fun s' => runVia guard s' as else none

variable {S}

/-- The invariant rule for a run from any state. -/
theorem runVia_invariant {guard : σ → α → Prop} [∀ s a, Decidable (guard s a)] {I : σ → Prop}
    (hstep : ∀ s a s', guard s a → I s → S.next s a = some s' → I s') {s s' : σ} (hs : I s)
    (as : List α) (hr : S.runVia guard s as = some s') : I s' := by
  induction as generalizing s with
  | nil => cases Option.some.inj hr; exact hs
  | cons a as ih =>
    simp only [runVia] at hr
    split_ifs at hr with hg
    obtain ⟨t, hn, ht⟩ := Option.bind_eq_some_iff.mp hr
    exact ih (hstep s a t hg hs hn) ht

theorem ReachableVia.of_runVia {guard : σ → α → Prop} [∀ s a, Decidable (guard s a)]
    {s s' : σ} (hs : S.ReachableVia guard s) (as : List α)
    (hr : S.runVia guard s as = some s') : S.ReachableVia guard s' :=
  runVia_invariant (fun _ _ _ hg hs hn => hs.step hg hn) hs as hr

theorem Reachable.of_run {s s' : σ} (hs : S.Reachable s) (as : List α)
    (hr : S.run s as = some s') : S.Reachable s' := by
  induction as generalizing s with
  | nil => cases Option.some.inj hr; exact hs
  | cons a as ih =>
    obtain ⟨t, hn, ht⟩ := Option.bind_eq_some_iff.mp hr
    exact ih (hs.next hn) ht

/-- A run has no more steps of a kind than a measure can fall by that each of them lowers and no
step raises. -/
theorem run_countP_le {I : σ → Prop} {allowed : α → Prop} (kind : α → Bool) (measure : σ → ℕ)
    (hstep : ∀ s a s', allowed a → I s → S.next s a = some s' →
      I s' ∧ measure s' + (if kind a then 1 else 0) ≤ measure s)
    {s s' : σ} (hs : I s) (as : List α) (has : ∀ a ∈ as, allowed a) (hr : S.run s as = some s') :
    I s' ∧ as.countP kind + measure s' ≤ measure s := by
  induction as generalizing s with
  | nil =>
    cases Option.some.inj hr
    exact ⟨hs, Nat.le_of_eq (Nat.zero_add _)⟩
  | cons a as ih =>
    obtain ⟨t, hn, ht⟩ := Option.bind_eq_some_iff.mp hr
    obtain ⟨hI, hlt⟩ := hstep s a t (has a List.mem_cons_self) hs hn
    obtain ⟨hI', hle⟩ := ih hI (fun b hb => has b (List.mem_cons_of_mem a hb)) ht
    refine ⟨hI', ?_⟩
    rw [List.countP_cons]
    omega

/-- A run is not longer than what a measure can still fall by and, for each step of a kind that
may raise it, `c` steps more. -/
theorem run_length_le {I : σ → Prop} {allowed : α → Prop} (kind : α → Bool) (c : ℕ)
    (measure : σ → ℕ)
    (hstep : ∀ s a s', allowed a → I s → S.next s a = some s' →
      I s' ∧ measure s' + 1 ≤ measure s + if kind a then c else 0)
    {s s' : σ} (hs : I s) (as : List α) (has : ∀ a ∈ as, allowed a) (hr : S.run s as = some s') :
    I s' ∧ as.length + measure s' ≤ measure s + c * as.countP kind := by
  induction as generalizing s with
  | nil =>
    cases Option.some.inj hr
    exact ⟨hs, by simp⟩
  | cons a as ih =>
    obtain ⟨t, hn, ht⟩ := Option.bind_eq_some_iff.mp hr
    obtain ⟨hI, hlt⟩ := hstep s a t (has a List.mem_cons_self) hs hn
    obtain ⟨hI', hle⟩ := ih hI (fun b hb => has b (List.mem_cons_of_mem a hb)) ht
    refine ⟨hI', ?_⟩
    rw [List.countP_cons, List.length_cons, Nat.mul_add]
    split_ifs at hlt ⊢ <;> omega

variable (S)

/-- A run replayed by evaluation: its last state is reachable and passes the test. -/
theorem exists_reachable_of_run (as : List α) (test : σ → Bool)
    (h : (S.run S.init as).any test = true) : ∃ s, S.Reachable s ∧ test s = true := by
  cases hr : S.run S.init as with
  | none => simp [hr] at h
  | some s => exact ⟨s, Reachable.of_run .init as hr, by simpa [hr] using h⟩

theorem exists_reachableVia_of_runVia (guard : σ → α → Prop) [∀ s a, Decidable (guard s a)]
    (as : List α) (test : σ → Bool) (h : (S.runVia guard S.init as).any test = true) :
    ∃ s, S.ReachableVia guard s ∧ test s = true := by
  cases hr : S.runVia guard S.init as with
  | none => simp [hr] at h
  | some s => exact ⟨s, ReachableVia.of_runVia .init as hr, by simpa [hr] using h⟩

section Observe
variable {η : Type}

/-- The system beside a history of its run; `record` sees the state before the step. -/
def observe (h₀ : η) (record : σ → α → η → η) : TransitionSystem (σ × η) α where
  init := (S.init, h₀)
  next p a := (S.next p.1 a).map fun s' => (s', record p.1 a p.2)

variable {S} {h₀ : η} {record : σ → α → η → η}

theorem observe_next {p p' : σ × η} {a : α} (hn : (S.observe h₀ record).next p a = some p') :
    S.next p.1 a = some p'.1 ∧ p'.2 = record p.1 a p.2 := by
  obtain ⟨s', hs', rfl⟩ := Option.map_eq_some_iff.mp hn
  exact ⟨hs', rfl⟩

end Observe

end TransitionSystem
end Mbtest.Lib
