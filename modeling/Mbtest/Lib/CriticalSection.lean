import Mbtest.Lib.TransitionSystem
import Mathlib.Logic.Function.Basic
import Mathlib.Data.List.Infix

/-! Threads that touch shared data only between locking and unlocking one mutex.
Their sections are executed in micro-steps, interleaved with the micro-steps of all
other threads; the results are those of whole sections, one after the other. -/
namespace Mbtest.Lib

/-- The micro-steps of a section on the shared data and the thread's own variables. -/
structure Section (σ ℓ : Type) where
  start : ℓ
  body : List (σ × ℓ → σ × ℓ)

def exec {σ ℓ : Type} (fs : List (σ × ℓ → σ × ℓ)) (p : σ × ℓ) : σ × ℓ :=
  fs.foldl (fun p f => f p) p

namespace Mutex
variable {ι σ ℓ Op : Type}

/-- Whole sections, one after the other, with the variables each leaves behind. -/
def serial (prog : Op → Section σ ℓ) : σ → List (ι × Op) → σ × List (ι × ℓ)
  | s, [] => (s, [])
  | s, (t, op) :: ops =>
    let p := exec (prog op).body (s, (prog op).start)
    let rest := serial prog p.1 ops
    (rest.1, (t, p.2) :: rest.2)

theorem serial_snoc (prog : Op → Section σ ℓ) (s : σ) (ops : List (ι × Op)) (t : ι) (op : Op) :
    serial prog s (ops ++ [(t, op)]) =
      let before := serial prog s ops
      let p := exec (prog op).body (before.1, (prog op).start)
      (p.1, before.2 ++ [(t, p.2)]) := by
  induction ops generalizing s with
  | nil => rfl
  | cons o ops ih =>
    simp only [List.cons_append, serial, ih]

/-- Who holds the mutex, what each thread inside a section still has to do, and the
sections in the order in which they were entered and left. -/
structure State (ι σ ℓ Op : Type) where
  shared : σ
  owner : Option ι
  thread : ι → Option (List (σ × ℓ → σ × ℓ) × ℓ)
  entered : List (ι × Op)
  left : List (ι × ℓ)

inductive Action (ι Op : Type)
  | lock (t : ι) (op : Op)
  | step (t : ι)
  | unlock (t : ι)

variable [DecidableEq ι]

def next (prog : Op → Section σ ℓ) (s : State ι σ ℓ Op) : Action ι Op → Option (State ι σ ℓ Op)
  | .lock t op =>
    if s.owner = none ∧ (s.thread t).isNone then
      some { s with
        owner := some t
        thread := Function.update s.thread t (some ((prog op).body, (prog op).start))
        entered := s.entered ++ [(t, op)] }
    else none
  | .step t =>
    match s.thread t with
    | some (f :: fs, l) =>
      let p := f (s.shared, l)
      some { s with shared := p.1, thread := Function.update s.thread t (some (fs, p.2)) }
    | _ => none
  | .unlock t =>
    match s.thread t with
    | some ([], l) =>
      some { s with
        owner := none
        thread := Function.update s.thread t none
        left := s.left ++ [(t, l)] }
    | _ => none

def system (prog : Op → Section σ ℓ) (s₀ : σ) :
    TransitionSystem (State ι σ ℓ Op) (Action ι Op) where
  init := ⟨s₀, none, fun _ => none, [], []⟩
  next := next prog

/-- The section in progress: `gone` is what its owner `t` has executed of it, starting
from the shared data that the sections before it have left. -/
structure InProgress (prog : Op → Section σ ℓ) (s₀ : σ) (s : State ι σ ℓ Op) (t : ι) (op : Op)
    (before : List (ι × Op)) (gone rest : List (σ × ℓ → σ × ℓ)) (l : ℓ) : Prop where
  thread : s.thread t = some (rest, l)
  others : ∀ u, u ≠ t → s.thread u = none
  entered : s.entered = before ++ [(t, op)]
  body : (prog op).body = gone ++ rest
  left : (serial prog s₀ before).2 = s.left
  shared : exec gone ((serial prog s₀ before).1, (prog op).start) = (s.shared, l)

structure Inv (prog : Op → Section σ ℓ) (s₀ : σ) (s : State ι σ ℓ Op) : Prop where
  free : s.owner = none → (∀ t, s.thread t = none) ∧
    serial prog s₀ s.entered = (s.shared, s.left)
  held : ∀ t, s.owner = some t → ∃ op before gone rest l,
    InProgress prog s₀ s t op before gone rest l

variable {prog : Op → Section σ ℓ} {s₀ : σ}

theorem Inv.owner_of_thread {s : State ι σ ℓ Op} (hs : Inv prog s₀ s) {t : ι}
    (ht : s.thread t ≠ none) : s.owner = some t := by
  cases ho : s.owner with
  | none => exact absurd ((hs.free ho).1 t) ht
  | some u =>
    obtain ⟨op, before, gone, rest, l, hp⟩ := hs.held u ho
    by_contra hne
    exact ht (hp.others t fun h => hne (by rw [h]))

theorem Inv.inProgress {s : State ι σ ℓ Op} (hs : Inv prog s₀ s) {t : ι}
    {rest : List (σ × ℓ → σ × ℓ)} {l : ℓ} (ht : s.thread t = some (rest, l)) :
    s.owner = some t ∧ ∃ op before gone, InProgress prog s₀ s t op before gone rest l := by
  have ho := hs.owner_of_thread (t := t) (by simp [ht])
  obtain ⟨op, before, gone, rest', l', hp⟩ := hs.held t ho
  obtain ⟨rfl, rfl⟩ : rest' = rest ∧ l' = l := by
    have h := hp.thread.symm.trans ht
    simpa using h
  exact ⟨ho, op, before, gone, hp⟩

private theorem inv_lock {s s' : State ι σ ℓ Op} {t : ι} {op : Op} (hs : Inv prog s₀ s)
    (hn : next prog s (.lock t op) = some s') : Inv prog s₀ s' := by
  simp only [next] at hn
  split_ifs at hn with hfree
  obtain ⟨hthreads, hserial⟩ := hs.free hfree.1
  cases Option.some.inj hn
  refine ⟨fun h => by simp at h, fun u hu => ?_⟩
  obtain rfl : t = u := by simpa using hu
  exact ⟨op, s.entered, [], (prog op).body, (prog op).start,
    { thread := by simp
      others := fun u hu => by simpa [Function.update_of_ne hu] using hthreads u
      entered := rfl
      body := rfl
      left := by rw [hserial]
      shared := by rw [hserial]; rfl }⟩

private theorem inv_step {s s' : State ι σ ℓ Op} {t : ι} (hs : Inv prog s₀ s)
    (hn : next prog s (.step t) = some s') : Inv prog s₀ s' := by
  simp only [next] at hn
  split at hn
  case h_2 => cases hn
  case h_1 f fs l ht =>
    obtain ⟨ho, op, before, gone, hp⟩ := hs.inProgress ht
    cases Option.some.inj hn
    refine ⟨fun h => by simp [ho] at h, fun u hu => ?_⟩
    obtain rfl : t = u := by simpa [ho] using hu
    exact ⟨op, before, gone ++ [f], fs, (f (s.shared, l)).2,
      { thread := by simp
        others := fun u hu => by simpa [Function.update_of_ne hu] using hp.others u hu
        entered := hp.entered
        body := by rw [hp.body, List.append_assoc]; rfl
        left := hp.left
        shared := by
          have h := hp.shared
          simp only [exec] at h ⊢
          rw [List.foldl_append, h]
          rfl }⟩

private theorem inv_unlock {s s' : State ι σ ℓ Op} {t : ι} (hs : Inv prog s₀ s)
    (hn : next prog s (.unlock t) = some s') : Inv prog s₀ s' := by
  simp only [next] at hn
  split at hn
  case h_2 => cases hn
  case h_1 l ht =>
    obtain ⟨ho, op, before, gone, hp⟩ := hs.inProgress ht
    cases Option.some.inj hn
    refine ⟨fun _ => ⟨fun u => ?_, ?_⟩, fun u hu => by simp at hu⟩
    · by_cases hu : u = t
      · subst hu; simp
      · simpa [Function.update_of_ne hu] using hp.others u hu
    · have hbody : (prog op).body = gone := by rw [hp.body, List.append_nil]
      change serial prog s₀ s.entered = (s.shared, s.left ++ [(t, l)])
      rw [hp.entered, serial_snoc]
      simp only [hbody, hp.shared, hp.left]

theorem inv_of_reachable {s : State ι σ ℓ Op} (hs : (system prog s₀).Reachable s) :
    Inv prog s₀ s := by
  refine hs.invariant ⟨fun _ => ⟨fun _ => rfl, rfl⟩, fun t ht => by cases ht⟩ ?_
  intro s a s' _ hs hn
  cases a with
  | lock t op => exact inv_lock hs hn
  | step t => exact inv_step hs hn
  | unlock t => exact inv_unlock hs hn

/-- With the mutex free, the shared data and the results are those of the sections
executed whole in the order in which they were entered. -/
theorem serial_of_free {s : State ι σ ℓ Op} (hs : (system prog s₀).Reachable s)
    (hfree : s.owner = none) : serial prog s₀ s.entered = (s.shared, s.left) :=
  ((inv_of_reachable hs).free hfree).2

/-- The results of the sections left so far are those of a serial execution of the
sections entered before the one in progress, if there is one. -/
theorem serial_prefix {s : State ι σ ℓ Op} (hs : (system prog s₀).Reachable s) :
    ∃ before, before <+: s.entered ∧ s.entered.length ≤ before.length + 1 ∧
      (serial prog s₀ before).2 = s.left := by
  have hinv := inv_of_reachable hs
  cases ho : s.owner with
  | none => exact ⟨s.entered, List.prefix_rfl, by omega, by rw [(hinv.free ho).2]⟩
  | some t =>
    obtain ⟨op, before, gone, rest, l, hp⟩ := hinv.held t ho
    exact ⟨before, ⟨_, hp.entered.symm⟩, by simp [hp.entered], hp.left⟩

/-- What every section keeps at each of its micro-steps, executed alone, holds of the
shared data in every interleaving. -/
theorem shared_invariant {P : σ → Prop} (hinit : P s₀)
    (hsection : ∀ op s, P s → ∀ gone rest, (prog op).body = gone ++ rest →
      P (exec gone (s, (prog op).start)).1)
    {s : State ι σ ℓ Op} (hs : (system prog s₀).Reachable s) : P s.shared := by
  have hserial : ∀ ops : List (ι × Op), P (serial prog s₀ ops).1 := by
    intro ops
    induction ops using List.reverseRecOn with
    | nil => exact hinit
    | append_singleton ops o ih =>
      rw [serial_snoc]
      exact hsection o.2 _ ih _ [] (by rw [List.append_nil])
  have hinv := inv_of_reachable hs
  cases ho : s.owner with
  | none =>
    have h := hserial s.entered
    rwa [(hinv.free ho).2] at h
  | some t =>
    obtain ⟨op, before, gone, rest, l, hp⟩ := hinv.held t ho
    have h := hsection op _ (hserial before) gone rest hp.body
    rwa [hp.shared] at h

end Mutex
end Mbtest.Lib
