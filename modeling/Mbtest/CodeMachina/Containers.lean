import Mathlib.Data.Multiset.AddSub

/-! The policy `IProducerConsumerCollection<T>`, which the source leaves implicit, and the
queue and the stack that implement it. -/
namespace Mbtest.CodeMachina

/-- `SIZE_MAX` -/
def sizeMax : ℕ := 18446744073709551615

/-- An operation that returns `false` is `none`. The last one is absent from a container that
has no `try_take_prio`. -/
class ProducerConsumerCollection (C : Type) (T : outParam Type) where
  new (boundedCapacity : ℕ) : C
  size : C → ℕ
  tryAdd : C → T → Option C
  tryEmplace : C → T → Option C
  tryTake : C → Option (T × C)
  tryTakePrio : Option (C → Option (T × C))

export ProducerConsumerCollection (size tryAdd tryEmplace tryTake tryTakePrio)

/-- What the collection relies on: a container keeps what it is given, takes nothing beyond its
capacity and gives back while it holds anything. -/
class LawfulCollection (C : Type) {T : outParam Type} [ProducerConsumerCollection C T] where
  items : C → Multiset T
  boundedCapacity : C → ℕ
  items_new (capacity : ℕ) : items (ProducerConsumerCollection.new capacity : C) = 0
  boundedCapacity_new (capacity : ℕ) :
    boundedCapacity (ProducerConsumerCollection.new capacity : C) = capacity
  card_items (c : C) : (items c).card = size c
  tryAdd_eq_none {c : C} {item : T} : tryAdd c item = none ↔ size c = boundedCapacity c
  tryAdd_eq_some {c c' : C} {item : T} : tryAdd c item = some c' →
    items c' = item ::ₘ items c ∧ boundedCapacity c' = boundedCapacity c
  tryEmplace_eq_none {c : C} {item : T} : tryEmplace c item = none ↔ size c = boundedCapacity c
  tryEmplace_eq_some {c c' : C} {item : T} : tryEmplace c item = some c' →
    items c' = item ::ₘ items c ∧ boundedCapacity c' = boundedCapacity c
  tryTake_eq_none {c : C} : tryTake c = none ↔ size c = 0
  tryTake_eq_some {c c' : C} {item : T} : tryTake c = some (item, c') →
    items c = item ::ₘ items c' ∧ boundedCapacity c' = boundedCapacity c
  tryTakePrio_eq_none {take : C → Option (T × C)} {c : C} : tryTakePrio = some take →
    (take c = none ↔ size c = 0)
  tryTakePrio_eq_some {take : C → Option (T × C)} {c c' : C} {item : T} :
    tryTakePrio = some take → take c = some (item, c') →
    items c = item ::ₘ items c' ∧ boundedCapacity c' = boundedCapacity c

/-- An operation on a container that has succeeded. -/
inductive Op (T : Type)
  | add (item : T)
  | emplace (item : T)
  | take (item : T)
  | takePrio (item : T)
  deriving DecidableEq, Repr

namespace Op
variable {T : Type}

/-- The items that are put into the container, in order. -/
def puts : List (Op T) → List T
  | [] => []
  | .add item :: ops => item :: puts ops
  | .emplace item :: ops => item :: puts ops
  | .take _ :: ops => puts ops
  | .takePrio _ :: ops => puts ops

def removals : List (Op T) → List T
  | [] => []
  | .add _ :: ops => removals ops
  | .emplace _ :: ops => removals ops
  | .take item :: ops => item :: removals ops
  | .takePrio item :: ops => item :: removals ops

@[simp] theorem puts_append (ops ops' : List (Op T)) :
    puts (ops ++ ops') = puts ops ++ puts ops' := by
  induction ops with
  | nil => rfl
  | cons op ops ih => cases op <;> simp [puts, ih]

@[simp] theorem removals_append (ops ops' : List (Op T)) :
    removals (ops ++ ops') = removals ops ++ removals ops' := by
  induction ops with
  | nil => rfl
  | cons op ops ih => cases op <;> simp [removals, ih]

section Map
variable {op : T → Op T} (items : List T)

theorem map_of_puts (h : ∀ item, puts [op item] = [item] ∧ removals [op item] = []) :
    puts (items.map op) = items ∧ removals (items.map op) = [] := by
  induction items with
  | nil => exact ⟨rfl, rfl⟩
  | cons item items ih =>
    have hitem := h item
    rw [List.map_cons, ← List.singleton_append, puts_append, removals_append, ih.1, ih.2, hitem.1,
      hitem.2]
    exact ⟨rfl, rfl⟩

theorem map_of_removals (h : ∀ item, puts [op item] = [] ∧ removals [op item] = [item]) :
    puts (items.map op) = [] ∧ removals (items.map op) = items := by
  induction items with
  | nil => exact ⟨rfl, rfl⟩
  | cons item items ih =>
    have hitem := h item
    rw [List.map_cons, ← List.singleton_append, puts_append, removals_append, ih.1, ih.2, hitem.1,
      hitem.2]
    exact ⟨rfl, rfl⟩

end Map

end Op

section Operations
variable {C T : Type} [ProducerConsumerCollection C T]

inductive Runs : C → List (Op T) → C → Prop
  | nil (c : C) : Runs c [] c
  | add {c c' c'' : C} {item : T} {ops : List (Op T)} :
    tryAdd c item = some c' → Runs c' ops c'' → Runs c (.add item :: ops) c''
  | emplace {c c' c'' : C} {item : T} {ops : List (Op T)} :
    tryEmplace c item = some c' → Runs c' ops c'' → Runs c (.emplace item :: ops) c''
  | take {c c' c'' : C} {item : T} {ops : List (Op T)} :
    tryTake c = some (item, c') → Runs c' ops c'' → Runs c (.take item :: ops) c''
  | takePrio {c c' c'' : C} {item : T} {ops : List (Op T)} {take : C → Option (T × C)} :
    tryTakePrio = some take → take c = some (item, c') → Runs c' ops c'' →
    Runs c (.takePrio item :: ops) c''

theorem Runs.append {c c' c'' : C} {ops ops' : List (Op T)} (h : Runs c ops c')
    (h' : Runs c' ops' c'') : Runs c (ops ++ ops') c'' := by
  induction h with
  | nil c => exact h'
  | add hadd _ ih => exact .add hadd (ih h')
  | emplace hemplace _ ih => exact .emplace hemplace (ih h')
  | take htake _ ih => exact .take htake (ih h')
  | takePrio hprio htake _ ih => exact .takePrio hprio htake (ih h')

/-- A property of a container and of the operations so far that each operation keeps. -/
structure Kept (R : List (Op T) → C → Prop) : Prop where
  add {ops : List (Op T)} {c c' : C} {item : T} :
    R ops c → tryAdd c item = some c' → R (ops ++ [.add item]) c'
  emplace {ops : List (Op T)} {c c' : C} {item : T} :
    R ops c → tryEmplace c item = some c' → R (ops ++ [.emplace item]) c'
  take {ops : List (Op T)} {c c' : C} {item : T} :
    R ops c → tryTake c = some (item, c') → R (ops ++ [.take item]) c'
  takePrio {ops : List (Op T)} {c c' : C} {item : T} {take : C → Option (T × C)} :
    R ops c → tryTakePrio = some take → take c = some (item, c') →
    R (ops ++ [.takePrio item]) c'

theorem Kept.runs {R : List (Op T) → C → Prop} (hR : Kept R) {ops ops' : List (Op T)}
    {c c' : C} (h : R ops c) (hruns : Runs c ops' c') : R (ops ++ ops') c' := by
  induction hruns generalizing ops with
  | nil c => rwa [List.append_nil]
  | add hadd _ ih => exact List.append_cons .. ▸ ih (hR.add h hadd)
  | emplace hemplace _ ih => exact List.append_cons .. ▸ ih (hR.emplace h hemplace)
  | take htake _ ih => exact List.append_cons .. ▸ ih (hR.take h htake)
  | takePrio hprio htake _ ih => exact List.append_cons .. ▸ ih (hR.takePrio h hprio htake)

theorem Kept.runs_from_empty {R : List (Op T) → C → Prop} (hR : Kept R) {ops : List (Op T)}
    {c c' : C} (h : R [] c) (hruns : Runs c ops c') : R ops c' := hR.runs h hruns

theorem Runs.split {c c' : C} {ops ops' : List (Op T)} (h : Runs c (ops ++ ops') c') :
    ∃ d, Runs c ops d ∧ Runs d ops' c' := by
  induction ops generalizing c with
  | nil => exact ⟨c, .nil c, h⟩
  | cons op ops ih =>
    cases h with
    | add hadd hrest =>
      obtain ⟨d, hd, hd'⟩ := ih hrest
      exact ⟨d, .add hadd hd, hd'⟩
    | emplace hemplace hrest =>
      obtain ⟨d, hd, hd'⟩ := ih hrest
      exact ⟨d, .emplace hemplace hd, hd'⟩
    | take htake hrest =>
      obtain ⟨d, hd, hd'⟩ := ih hrest
      exact ⟨d, .take htake hd, hd'⟩
    | takePrio hprio htake hrest =>
      obtain ⟨d, hd, hd'⟩ := ih hrest
      exact ⟨d, .takePrio hprio htake hd, hd'⟩

/-- The loop of `try_add_bulk`, and how many items it adds. -/
def addBulk : List T → C → ℕ × C
  | [], c => (0, c)
  | item :: items, c =>
    match tryAdd c item with
    | none => (0, c)
    | some c => ((addBulk items c).1 + 1, (addBulk items c).2)

/-- The loops of `try_take_bulk`, `try_take_prio_bulk` and `flush`, and what they take. -/
def takeBulk (take : C → Option (T × C)) : ℕ → C → List T × C
  | 0, c => ([], c)
  | count + 1, c =>
    match take c with
    | none => ([], c)
    | some (item, c) => (item :: (takeBulk take count c).1, (takeBulk take count c).2)

theorem runs_addBulk (items : List T) (c : C) :
    Runs c ((items.take (addBulk items c).1).map .add) (addBulk items c).2 := by
  induction items generalizing c with
  | nil => exact .nil c
  | cons item items ih =>
    cases h : tryAdd c item with
    | none =>
      simp only [addBulk, h, List.take_zero, List.map_nil]
      exact .nil c
    | some c' =>
      simp only [addBulk, h, List.take_succ_cons, List.map_cons]
      exact .add h (ih c')

theorem addBulk_le (items : List T) (c : C) : (addBulk items c).1 ≤ items.length := by
  induction items generalizing c with
  | nil => exact Nat.zero_le _
  | cons item items ih =>
    cases hadd : tryAdd c item with
    | none => simp [addBulk, hadd]
    | some c' =>
      simp only [addBulk, hadd, List.length_cons, Nat.add_le_add_iff_right]
      exact ih c'

/-- `op` says which of the two operations `take` is. -/
inductive Takes : (C → Option (T × C)) → (T → Op T) → Prop
  | take : Takes tryTake .take
  | prio {take : C → Option (T × C)} : tryTakePrio = some take → Takes take .takePrio

theorem Takes.runs {take : C → Option (T × C)} {op : T → Op T} (h : Takes take op) {c c' c'' : C}
    {item : T} {ops : List (Op T)} (htake : take c = some (item, c')) (hruns : Runs c' ops c'') :
    Runs c (op item :: ops) c'' := by
  cases h with
  | take => exact .take htake hruns
  | prio hprio => exact .takePrio hprio htake hruns

theorem Takes.runs_takeBulk {take : C → Option (T × C)} {op : T → Op T} (h : Takes take op)
    (count : ℕ) (c : C) :
    Runs c ((takeBulk take count c).1.map op) (takeBulk take count c).2 := by
  induction count generalizing c with
  | zero => exact .nil c
  | succ count ih =>
    cases htake : take c with
    | none =>
      simp only [takeBulk, htake, List.map_nil]
      exact .nil c
    | some taken =>
      simp only [takeBulk, htake, List.map_cons]
      exact h.runs htake (ih taken.2)

section Lawful
variable [LawfulCollection C]
open LawfulCollection

/-- What is put into a container is what is taken out of it and what is still in it. -/
theorem Runs.items {c c' : C} {ops : List (Op T)} (h : Runs c ops c') :
    (Op.puts ops : Multiset T) + LawfulCollection.items c =
      (Op.removals ops : Multiset T) + LawfulCollection.items c' ∧
      boundedCapacity c' = boundedCapacity c := by
  induction h with
  | nil c => simp [Op.puts, Op.removals]
  | add hadd _ ih =>
    obtain ⟨hitems, hcapacity⟩ := tryAdd_eq_some hadd
    rw [hitems, hcapacity, Multiset.add_cons] at ih
    simpa only [Op.puts, Op.removals, ← Multiset.cons_coe, Multiset.cons_add] using ih
  | emplace hemplace _ ih =>
    obtain ⟨hitems, hcapacity⟩ := tryEmplace_eq_some hemplace
    rw [hitems, hcapacity, Multiset.add_cons] at ih
    simpa only [Op.puts, Op.removals, ← Multiset.cons_coe, Multiset.cons_add] using ih
  | take htake _ ih =>
    obtain ⟨hitems, hcapacity⟩ := tryTake_eq_some htake
    rw [hitems, ← hcapacity, Multiset.add_cons]
    simpa only [Op.puts, Op.removals, ← Multiset.cons_coe, Multiset.cons_add, Multiset.cons_inj_right]
      using ih
  | takePrio hprio htake _ ih =>
    obtain ⟨hitems, hcapacity⟩ := tryTakePrio_eq_some hprio htake
    rw [hitems, ← hcapacity, Multiset.add_cons]
    simpa only [Op.puts, Op.removals, ← Multiset.cons_coe, Multiset.cons_add, Multiset.cons_inj_right]
      using ih

theorem Runs.size {c c' : C} {ops : List (Op T)} (h : Runs c ops c') :
    (Op.puts ops).length + size c = (Op.removals ops).length + size c' := by
  have hcard := congrArg Multiset.card h.items.1
  simpa only [Multiset.card_add, Multiset.coe_card, card_items] using hcard

private theorem size_of_cons {c c' : C} {item : T} (h : items c' = item ::ₘ items c) :
    size c' = size c + 1 := by
  rw [← card_items, h, Multiset.card_cons, card_items]

theorem Runs.size_le {c c' : C} {ops : List (Op T)} (h : Runs c ops c')
    (hle : CodeMachina.size c ≤ boundedCapacity c) :
    CodeMachina.size c' ≤ boundedCapacity c' := by
  induction h with
  | nil c => exact hle
  | @add c c₁ c₂ item ops hadd _ ih =>
    obtain ⟨hitems, hcapacity⟩ := tryAdd_eq_some hadd
    have hsize := size_of_cons hitems
    have hroom : CodeMachina.size c ≠ boundedCapacity c :=
      tryAdd_eq_none.not.mp (by rw [hadd]; simp)
    exact ih (by omega)
  | @emplace c c₁ c₂ item ops hemplace _ ih =>
    obtain ⟨hitems, hcapacity⟩ := tryEmplace_eq_some hemplace
    have hsize := size_of_cons hitems
    have hroom : CodeMachina.size c ≠ boundedCapacity c :=
      tryEmplace_eq_none.not.mp (by rw [hemplace]; simp)
    exact ih (by omega)
  | take htake _ ih =>
    obtain ⟨hitems, hcapacity⟩ := tryTake_eq_some htake
    have hsize := size_of_cons hitems
    exact ih (by omega)
  | takePrio hprio htake _ ih =>
    obtain ⟨hitems, hcapacity⟩ := tryTakePrio_eq_some hprio htake
    have hsize := size_of_cons hitems
    exact ih (by omega)

/-- The loop stops early only at the capacity. -/
theorem size_addBulk {items : List T} {c : C} (h : (addBulk items c).1 < items.length) :
    size (addBulk items c).2 = boundedCapacity c := by
  induction items generalizing c with
  | nil => simp [addBulk] at h
  | cons item items ih =>
    cases hadd : tryAdd c item with
    | none =>
      simp only [addBulk, hadd]
      exact tryAdd_eq_none.mp hadd
    | some c' =>
      simp only [addBulk, hadd, List.length_cons, Nat.add_lt_add_iff_right] at h ⊢
      rw [ih h, (tryAdd_eq_some hadd).2]

theorem Takes.eq_none {take : C → Option (T × C)} {op : T → Op T} (h : Takes take op) {c : C} :
    take c = none ↔ size c = 0 := by
  cases h with
  | take => exact tryTake_eq_none
  | prio hprio => exact tryTakePrio_eq_none hprio

theorem Takes.length_takeBulk {take : C → Option (T × C)} {op : T → Op T} (h : Takes take op)
    (count : ℕ) (c : C) : (takeBulk take count c).1.length = min count (size c) := by
  induction count generalizing c with
  | zero => simp [takeBulk]
  | succ count ih =>
    cases htake : take c with
    | none => simp [takeBulk, htake, h.eq_none.mp htake]
    | some taken =>
      have hsize := (h.runs htake (.nil taken.2)).size
      cases h <;> simp only [takeBulk, htake, List.length_cons, ih] <;>
        simp [Op.puts, Op.removals] at hsize <;> omega

theorem Takes.size_takeBulk {take : C → Option (T × C)} {op : T → Op T} (h : Takes take op)
    (count : ℕ) (c : C) : size (takeBulk take count c).2 = size c - count := by
  have hsize := (h.runs_takeBulk count c).size
  have hlength := h.length_takeBulk count c
  have hop : ∀ item, Op.puts [op item] = [] ∧ Op.removals [op item] = [item] := fun _ => by
    cases h <;> exact ⟨rfl, rfl⟩
  have hops := Op.map_of_removals (takeBulk take count c).1 hop
  rw [hops.1, hops.2, List.length_nil] at hsize
  omega

end Lawful

end Operations

inductive ContainerType
  | queueType
  | stackType
  deriving DecidableEq, Repr

def isQueue : ContainerType → Bool
  | .queueType => true
  | .stackType => false

/-- `detail::Container`, over a deque. -/
structure Container (T : Type) (type : ContainerType) where
  boundedCapacity : ℕ
  container : List T
  deriving DecidableEq, Repr

abbrev QueueContainer (T : Type) := Container T .queueType

abbrev StackContainer (T : Type) := Container T .stackType

namespace Container
variable {T : Type} {type : ContainerType}

def pushBack (c : Container T type) (item : T) : Container T type :=
  { c with container := c.container ++ [item] }

def emplaceFront (c : Container T type) (item : T) : Container T type :=
  { c with container := item :: c.container }

def popFront (c : Container T type) : Option (T × Container T type) :=
  match c.container with
  | [] => none
  | item :: rest => some (item, { c with container := rest })

def popBack (c : Container T type) : Option (T × Container T type) :=
  c.container.getLast?.map fun item => (item, { c with container := c.container.dropLast })

def tryAdd (c : Container T type) (item : T) : Option (Container T type) :=
  if c.container.length = c.boundedCapacity then none else some (c.pushBack item)

/-- A stack takes from its back what it was given at its front. -/
def tryEmplace (c : Container T type) (item : T) : Option (Container T type) :=
  if c.container.length = c.boundedCapacity then none
  else some (if isQueue type then c.pushBack item else c.emplaceFront item)

def tryTake (c : Container T type) : Option (T × Container T type) :=
  if isQueue type then c.popFront else c.popBack

instance : ProducerConsumerCollection (Container T type) T where
  new boundedCapacity := ⟨boundedCapacity, []⟩
  size c := c.container.length
  tryAdd := tryAdd
  tryEmplace := tryEmplace
  tryTake := tryTake
  tryTakePrio := none

variable {c c' : Container T type} {item : T}

theorem tryAdd_eq_some (h : c.tryAdd item = some c') :
    c.container.length ≠ c.boundedCapacity ∧ c' = c.pushBack item := by
  unfold tryAdd at h
  split_ifs at h with hfull
  exact ⟨hfull, (Option.some.inj h).symm⟩

theorem tryEmplace_eq_some (h : c.tryEmplace item = some c') :
    c.container.length ≠ c.boundedCapacity ∧
      c' = if isQueue type then c.pushBack item else c.emplaceFront item := by
  unfold tryEmplace at h
  split_ifs at h with hfull
  all_goals exact ⟨hfull, by simp_all⟩

theorem popFront_eq_some (h : c.popFront = some (item, c')) :
    c.container = item :: c'.container ∧ c'.boundedCapacity = c.boundedCapacity := by
  unfold popFront at h
  cases hc : c.container with
  | nil => simp [hc] at h
  | cons first rest =>
    rw [hc] at h
    cases h
    exact ⟨rfl, rfl⟩

theorem popBack_eq_some (h : c.popBack = some (item, c')) :
    c.container = c'.container ++ [item] ∧ c'.boundedCapacity = c.boundedCapacity := by
  obtain ⟨last, hlast, heq⟩ := Option.map_eq_some_iff.mp h
  cases heq
  exact ⟨(List.dropLast_append_getLast? _ hlast).symm, rfl⟩

theorem tryTake_eq_some (h : c.tryTake = some (item, c')) :
    c'.boundedCapacity = c.boundedCapacity ∧
      c.container = if isQueue type then item :: c'.container else c'.container ++ [item] := by
  unfold tryTake at h
  split_ifs at h ⊢
  · exact (popFront_eq_some h).symm
  · exact (popBack_eq_some h).symm

theorem tryTake_eq_none : c.tryTake = none ↔ c.container.length = 0 := by
  unfold tryTake
  split_ifs
  · unfold popFront
    cases c.container <;> simp
  · simp [popBack]

instance : LawfulCollection (Container T type) where
  items c := c.container
  boundedCapacity c := c.boundedCapacity
  items_new _ := rfl
  boundedCapacity_new _ := rfl
  card_items _ := rfl
  tryAdd_eq_none := by simp [ProducerConsumerCollection.tryAdd, tryAdd, size]
  tryAdd_eq_some {c c' item} h := by
    obtain ⟨-, rfl⟩ := tryAdd_eq_some h
    exact ⟨Multiset.coe_eq_coe.mpr (List.perm_append_singleton _ _), rfl⟩
  tryEmplace_eq_none := by simp [ProducerConsumerCollection.tryEmplace, tryEmplace, size]
  tryEmplace_eq_some {c c' item} h := by
    obtain ⟨-, rfl⟩ := tryEmplace_eq_some h
    split_ifs
    · exact ⟨Multiset.coe_eq_coe.mpr (List.perm_append_singleton _ _), rfl⟩
    · exact ⟨rfl, rfl⟩
  tryTake_eq_none := tryTake_eq_none
  tryTake_eq_some {c c' item} h := by
    obtain ⟨hcapacity, hc⟩ := tryTake_eq_some h
    refine ⟨?_, hcapacity⟩
    rw [hc]
    split_ifs
    · rfl
    · exact Multiset.coe_eq_coe.mpr (List.perm_append_singleton _ _)
  tryTakePrio_eq_none h := by cases h
  tryTakePrio_eq_some h := by cases h

end Container
end Mbtest.CodeMachina
