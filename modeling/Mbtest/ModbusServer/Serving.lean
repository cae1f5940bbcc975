import Mbtest.Lib.TransitionSystem
import Mbtest.ModbusServer.Tables
import Mathlib.Logic.Function.Basic

/-! The mapping over time: the start-up steps of `ModbusServer::run__`, the requests of
Modbus connections and the read operations that TCP connections call, each section under
`ctxMutex` in one step. The start-up steps do not take the mutex, and a TCP connection
may call from the beginning. -/
namespace Mbtest.ModbusServer
open Lib

/-- The next step of `run__`, or how it ended. -/
inductive Startup
  | create
  | allocate
  | fillInputs
  | fillDiscrete
  | listen
  | serving
  | createFailed
  | allocateFailed
  | listenFailed
  deriving DecidableEq, Repr

/-- A thread of a TCP connection: between commands, at the section of a single-table
read, at one of the four sections of `readAll` with what the ones before returned, or
with a result. -/
inductive Reader
  | idle
  | single (op : ReadOp)
  | coils
  | inputs (n1 : Option (List UInt8))
  | discrete (n1 : Option (List UInt8)) (n2 : Option (List UInt16))
  | holding (n1 : Option (List UInt8)) (n2 : Option (List UInt16)) (n3 : Option (List UInt8))
  | value (op : ReadOp) (val : Value)
  | regs (val : Option AllRegs)
  deriving DecidableEq, Repr

structure State where
  startup : Startup
  mapping : Option Mapping
  reader : ℕ → Reader
  crashed : Option Fault

/-- `startup ok`: the next start-up step, where `ok` decides whether it succeeds.
`request`: the section of a Modbus request, with the coils and holding registers that
`modbus_reply` leaves. `call` and `callAll`: a TCP command. `readSection`: the next
section of the read a thread is in. -/
inductive Action
  | startup (ok : Bool)
  | request (coils : List UInt8) (holding : List UInt16)
  | call (t : ℕ) (op : ReadOp)
  | callAll (t : ℕ)
  | readSection (t : ℕ)
  deriving DecidableEq, Repr

/-- `std::iota(.., 1)` over the input registers. -/
def iotaInputRegisters (m : Mapping) : Mapping :=
  { m with tabInputRegisters :=
      (List.range m.tabInputRegisters.length).map fun i => UInt16.ofNat (i + 1) }

/-- `std::fill(.., 1)` over the first half of the discrete inputs. -/
def fillInputBits (m : Mapping) : Mapping :=
  { m with tabInputBits :=
      .replicate (m.tabInputBits.length / 2) 1 ++ m.tabInputBits.drop (m.tabInputBits.length / 2) }

def startupNext (s : State) (ok : Bool) : Option State :=
  match s.startup with
  | .create => some { s with startup := if ok then .allocate else .createFailed }
  | .allocate =>
    if ok then some { s with startup := .fillInputs, mapping := some (mappingNew 10 10 10 10) }
    else some { s with startup := .allocateFailed }
  | .fillInputs => some { s with startup := .fillDiscrete, mapping := s.mapping.map iotaInputRegisters }
  | .fillDiscrete => some { s with startup := .listen, mapping := s.mapping.map fillInputBits }
  | .listen => some { s with startup := if ok then .serving else .listenFailed }
  | _ => none

/-- The end of a section: the thread goes on with what it read, or a pointer was
followed that must not be. -/
def resume {α : Type} (s : State) (t : ℕ) (result : Access α) (go : α → Reader) : State :=
  match result with
  | .ok v => { s with reader := Function.update s.reader t (go v) }
  | .error f => { s with crashed := some f }

def sectionNext (s : State) (t : ℕ) : Option State :=
  match s.reader t with
  | .single op => some (resume s t (op.call s.mapping) (.value op))
  | .coils => some (resume s t (readCoilAll s.mapping) .inputs)
  | .inputs n1 => some (resume s t (readInputAll s.mapping) (.discrete n1))
  | .discrete n1 n2 => some (resume s t (readDiscreteAll s.mapping) (.holding n1 n2))
  | .holding n1 n2 n3 =>
    some (resume s t (readHoldingAll s.mapping) fun n4 => .regs (collect n1 n2 n3 n4))
  | _ => none

def Reader.Ready : Reader → Bool
  | .idle | .value _ _ | .regs _ => true
  | _ => false

def requestNext (s : State) (coils : List UInt8) (holding : List UInt16) : Option State :=
  match s.startup, s.mapping with
  | .serving, some m =>
    if coils.length = m.tabBits.length ∧ holding.length = m.tabRegisters.length then
      some { s with mapping := some { m with tabBits := coils, tabRegisters := holding } }
    else none
  | _, _ => none

def callNext (s : State) (t : ℕ) (r : Reader) : Option State :=
  if (s.reader t).Ready then some { s with reader := Function.update s.reader t r } else none

def next (s : State) (a : Action) : Option State :=
  if s.crashed.isSome then none
  else match a with
  | .startup ok => startupNext s ok
  | .request coils holding => requestNext s coils holding
  | .call t op => callNext s t (.single op)
  | .callAll t => callNext s t .coils
  | .readSection t => sectionNext s t

def serving : TransitionSystem State Action where
  init := ⟨.create, none, fun _ => .idle, none⟩
  next := next

/-- The tables as `run__` leaves them when it starts to listen. -/
def filledMapping : Mapping := fillInputBits (iotaInputRegisters (mappingNew 10 10 10 10))

def Startup.mapping : Startup → Option Mapping
  | .create | .allocate | .createFailed | .allocateFailed => none
  | .fillInputs => some (mappingNew 10 10 10 10)
  | .fillDiscrete => some (iotaInputRegisters (mappingNew 10 10 10 10))
  | .listen | .serving | .listenFailed => some filledMapping

def Startup.allocated (p : Startup) : Bool := p.mapping.isSome

def Startup.inputsFilled : Startup → Bool
  | .fillDiscrete | .listen | .serving | .listenFailed => true
  | _ => false

def Startup.discreteFilled : Startup → Bool
  | .listen | .serving | .listenFailed => true
  | _ => false

/-- Requests have changed the entries of the coils and holding registers at most. -/
structure SameInputs (m m₀ : Mapping) : Prop where
  inputBits : m.tabInputBits = m₀.tabInputBits
  inputRegisters : m.tabInputRegisters = m₀.tabInputRegisters
  bits : m.tabBits.length = m₀.tabBits.length
  registers : m.tabRegisters.length = m₀.tabRegisters.length

theorem SameInputs.refl (m : Mapping) : SameInputs m m := ⟨rfl, rfl, rfl, rfl⟩

def MappingInv (s : State) : Prop := Option.Rel SameInputs s.mapping s.startup.mapping

theorem mappingInv_startup {s s' : State} {ok : Bool} (hs : MappingInv s)
    (hn : startupNext s ok = some s') : MappingInv s' := by
  unfold MappingInv at hs
  unfold startupNext at hn
  split at hn
  case h_1 hp =>
    rw [hp] at hs
    cases Option.some.inj hn
    cases ok <;> exact hs
  case h_2 hp =>
    rw [hp] at hs
    split_ifs at hn <;> cases Option.some.inj hn
    · exact .some (.refl _)
    · exact hs
  case h_3 hp =>
    rw [hp] at hs
    cases Option.some.inj hn
    generalize s.mapping = mapping at hs
    cases hs with
    | some hm =>
      exact .some ⟨hm.inputBits, by simp only [iotaInputRegisters, hm.inputRegisters], hm.bits,
        hm.registers⟩
  case h_4 hp =>
    rw [hp] at hs
    cases Option.some.inj hn
    generalize s.mapping = mapping at hs
    cases hs with
    | some hm =>
      exact .some ⟨by simp only [fillInputBits, hm.inputBits]; rfl, hm.inputRegisters, hm.bits,
        hm.registers⟩
  case h_5 hp =>
    rw [hp] at hs
    cases Option.some.inj hn
    cases ok <;> exact hs
  case h_6 => cases hn

theorem mappingInv_request {s s' : State} {coils : List UInt8} {holding : List UInt16}
    (hs : MappingInv s) (hn : requestNext s coils holding = some s') : MappingInv s' := by
  unfold MappingInv at hs
  unfold requestNext at hn
  split at hn
  case h_2 => cases hn
  case h_1 m hp hm =>
    split_ifs at hn with hlen
    cases Option.some.inj hn
    rw [hp, hm] at hs
    unfold MappingInv
    rw [hp]
    cases hs with
    | some hm => exact .some ⟨hm.inputBits, hm.inputRegisters, hlen.1.trans hm.bits,
        hlen.2.trans hm.registers⟩

theorem startupNext_frame {s s' : State} {ok : Bool} (hn : startupNext s ok = some s') :
    s'.reader = s.reader ∧ s'.crashed = s.crashed := by
  unfold startupNext at hn
  split at hn
  case h_2 => split_ifs at hn <;> cases Option.some.inj hn <;> exact ⟨rfl, rfl⟩
  case h_6 => cases hn
  all_goals cases Option.some.inj hn; exact ⟨rfl, rfl⟩

theorem requestNext_frame {s s' : State} {coils : List UInt8} {holding : List UInt16}
    (hn : requestNext s coils holding = some s') :
    s'.reader = s.reader ∧ s'.crashed = s.crashed ∧ s'.startup = s.startup := by
  unfold requestNext at hn
  split at hn
  · split_ifs at hn
    cases Option.some.inj hn
    exact ⟨rfl, rfl, rfl⟩
  · cases hn

def opReady (p : Startup) : ReadOp → Prop
  | .readCoil arg => InRange nbBits arg → p.allocated
  | .readInput arg => InRange nbInputRegisters arg → p.inputsFilled
  | .readDiscrete arg => InRange nbInputBits arg → p.discreteFilled
  | .readHolding arg => InRange nbRegisters arg → p.allocated
  | .readCoilAll => p.allocated
  | .readInputAll => p.inputsFilled
  | .readDiscreteAll => p.discreteFilled
  | .readHoldingAll => p.allocated

def sectionReady (p : Startup) : Reader → Prop
  | .single op => opReady p op
  | .coils => p.allocated
  | .inputs _ => p.inputsFilled
  | .discrete _ _ => p.discreteFilled
  | .holding _ _ _ => p.allocated
  | _ => True

/-- Every section of a read is executed after the start-up steps on which it depends. -/
def ReadsReady (s : State) : Action → Prop
  | .readSection t => sectionReady s.startup (s.reader t)
  | _ => True

instance (p : Startup) (op : ReadOp) : Decidable (opReady p op) :=
  match op with
  | .readCoil arg => inferInstanceAs (Decidable (InRange nbBits arg → p.allocated))
  | .readInput arg => inferInstanceAs (Decidable (InRange nbInputRegisters arg → p.inputsFilled))
  | .readDiscrete arg => inferInstanceAs (Decidable (InRange nbInputBits arg → p.discreteFilled))
  | .readHolding arg => inferInstanceAs (Decidable (InRange nbRegisters arg → p.allocated))
  | .readCoilAll | .readHoldingAll => inferInstanceAs (Decidable (p.allocated = true))
  | .readInputAll => inferInstanceAs (Decidable (p.inputsFilled = true))
  | .readDiscreteAll => inferInstanceAs (Decidable (p.discreteFilled = true))

instance (p : Startup) (r : Reader) : Decidable (sectionReady p r) :=
  match r with
  | .single op => inferInstanceAs (Decidable (opReady p op))
  | .coils | .holding _ _ _ => inferInstanceAs (Decidable (p.allocated = true))
  | .inputs _ => inferInstanceAs (Decidable (p.inputsFilled = true))
  | .discrete _ _ => inferInstanceAs (Decidable (p.discreteFilled = true))
  | .idle | .value _ _ | .regs _ => .isTrue trivial

instance (s : State) (a : Action) : Decidable (ReadsReady s a) :=
  match a with
  | .readSection t => inferInstanceAs (Decidable (sectionReady s.startup (s.reader t)))
  | .startup _ | .request _ _ | .call _ _ | .callAll _ => .isTrue trivial

/-- The reads of the two input tables, which requests do not change. -/
def ReadOp.ofInputs : ReadOp → Bool
  | .readInput _ | .readDiscrete _ | .readInputAll | .readDiscreteAll => true
  | _ => false

/-- What a thread has read of the input tables is their filled content. -/
def readFilled : Reader → Prop
  | .value op val => op.ofInputs = true → op.call (some filledMapping) = .ok val
  | .discrete _ n2 => n2 = some filledMapping.tabInputRegisters
  | .holding _ n2 n3 =>
    n2 = some filledMapping.tabInputRegisters ∧ n3 = some filledMapping.tabInputBits
  | .regs val => ∀ regs ∈ val, regs.inputs = filledMapping.tabInputRegisters ∧
      regs.discrete = filledMapping.tabInputBits
  | _ => True

/-- No pointer has been followed that must not be, and no thread has read an input table
before its fill. -/
structure Safe (s : State) : Prop where
  crashed : s.crashed = none
  filled : ∀ t, readFilled (s.reader t)

theorem MappingInv.exists_mapping {s : State} {m₀ : Mapping} (hs : MappingInv s)
    (hm₀ : s.startup.mapping = some m₀) : ∃ m, s.mapping = some m ∧ SameInputs m m₀ := by
  unfold MappingInv at hs
  rw [hm₀] at hs
  generalize s.mapping = mapping at hs
  cases hs with
  | some hm => exact ⟨_, rfl, hm⟩

theorem MappingInv.allocated {s : State} (hs : MappingInv s) (hp : s.startup.allocated = true) :
    ∃ m, s.mapping = some m ∧ m.tabBits.length = nbBits ∧ m.tabRegisters.length = nbRegisters := by
  have hlen : ∀ p : Startup, p.allocated = true → ∃ m₀, p.mapping = some m₀ ∧
      m₀.tabBits.length = nbBits ∧ m₀.tabRegisters.length = nbRegisters := by
    intro p hp
    cases p <;> first | exact ⟨_, rfl, rfl, rfl⟩ | cases hp
  obtain ⟨m₀, hm₀, hbits, hregisters⟩ := hlen _ hp
  obtain ⟨m, hm, hsame⟩ := hs.exists_mapping hm₀
  exact ⟨m, hm, hsame.bits.trans hbits, hsame.registers.trans hregisters⟩

theorem MappingInv.inputsFilled {s : State} (hs : MappingInv s)
    (hp : s.startup.inputsFilled = true) :
    ∃ m, s.mapping = some m ∧ m.tabInputRegisters = filledMapping.tabInputRegisters := by
  have htab : ∀ p : Startup, p.inputsFilled = true → ∃ m₀, p.mapping = some m₀ ∧
      m₀.tabInputRegisters = filledMapping.tabInputRegisters := by
    intro p hp
    cases p <;> first | exact ⟨_, rfl, rfl⟩ | cases hp
  obtain ⟨m₀, hm₀, hfilled⟩ := htab _ hp
  obtain ⟨m, hm, hsame⟩ := hs.exists_mapping hm₀
  exact ⟨m, hm, hsame.inputRegisters.trans hfilled⟩

theorem MappingInv.discreteFilled {s : State} (hs : MappingInv s)
    (hp : s.startup.discreteFilled = true) :
    ∃ m, s.mapping = some m ∧ m.tabInputBits = filledMapping.tabInputBits := by
  have htab : ∀ p : Startup, p.discreteFilled = true → p.mapping = some filledMapping := by
    intro p hp
    cases p <;> first | rfl | cases hp
  obtain ⟨m, hm, hsame⟩ := hs.exists_mapping (htab _ hp)
  exact ⟨m, hm, hsame.inputBits⟩

private theorem entry_allocated {α : Type} {nb : ℕ} (tab : Mapping → List α) {arg : ℤ}
    {mapping : Option Mapping}
    (h : InRange nb arg → ∃ m, mapping = some m ∧ (tab m).length = nb) :
    ∃ v, readEntry nb tab mapping arg = .ok v := by
  by_cases harg : InRange nb arg
  · obtain ⟨m, rfl, hlen⟩ := h harg
    exact readEntry_total hlen arg
  · exact ⟨none, readEntry_of_not_inRange harg _⟩

private theorem entry_filled {α : Type} {nb : ℕ} (tab : Mapping → List α) {arg : ℤ}
    {mapping : Option Mapping} (hnb : (tab filledMapping).length = nb)
    (h : InRange nb arg → ∃ m, mapping = some m ∧ tab m = tab filledMapping) :
    ∃ v, readEntry nb tab mapping arg = .ok v ∧
      readEntry nb tab (some filledMapping) arg = .ok v := by
  obtain ⟨v, hv⟩ := readEntry_total hnb arg
  exact ⟨v, (readEntry_congr h).trans hv, hv⟩

/-- A read that the start-up is ready for returns a value, and one of the input tables
returns what it returns from the filled tables. -/
theorem call_of_ready {s : State} (hs : MappingInv s) {op : ReadOp}
    (hop : opReady s.startup op) : ∃ v, op.call s.mapping = .ok v ∧
      (op.ofInputs = true → op.call (some filledMapping) = .ok v) := by
  cases op with
  | readCoil arg =>
    obtain ⟨v, hv⟩ := entry_allocated (·.tabBits) fun harg => by
      obtain ⟨m, hm, hlen, -⟩ := hs.allocated (hop harg)
      exact ⟨m, hm, hlen⟩
    exact ⟨_, congrArg (Value.bit <$> ·) hv, fun h => by cases h⟩
  | readHolding arg =>
    obtain ⟨v, hv⟩ := entry_allocated (·.tabRegisters) fun harg => by
      obtain ⟨m, hm, -, hlen⟩ := hs.allocated (hop harg)
      exact ⟨m, hm, hlen⟩
    exact ⟨_, congrArg (Value.word <$> ·) hv, fun h => by cases h⟩
  | readInput arg =>
    obtain ⟨v, hv, hfilled⟩ := entry_filled (·.tabInputRegisters) rfl
      fun harg => hs.inputsFilled (hop harg)
    exact ⟨_, congrArg (Value.word <$> ·) hv, fun _ => congrArg (Value.word <$> ·) hfilled⟩
  | readDiscrete arg =>
    obtain ⟨v, hv, hfilled⟩ := entry_filled (·.tabInputBits) rfl
      fun harg => hs.discreteFilled (hop harg)
    exact ⟨_, congrArg (Value.bit <$> ·) hv, fun _ => congrArg (Value.bit <$> ·) hfilled⟩
  | readCoilAll =>
    obtain ⟨m, hm, -⟩ := hs.allocated hop
    rw [hm]
    exact ⟨_, rfl, fun h => by cases h⟩
  | readHoldingAll =>
    obtain ⟨m, hm, -⟩ := hs.allocated hop
    rw [hm]
    exact ⟨_, rfl, fun h => by cases h⟩
  | readInputAll =>
    obtain ⟨m, hm, hfilled⟩ := hs.inputsFilled hop
    rw [hm]
    exact ⟨_, rfl, fun _ => congrArg (fun tab => Except.ok (Value.words (some tab))) hfilled.symm⟩
  | readDiscreteAll =>
    obtain ⟨m, hm, hfilled⟩ := hs.discreteFilled hop
    rw [hm]
    exact ⟨_, rfl, fun _ => congrArg (fun tab => Except.ok (Value.bits (some tab))) hfilled.symm⟩

theorem Safe.update {s : State} (hs : Safe s) {t : ℕ} {r : Reader} (hr : readFilled r) :
    Safe { s with reader := Function.update s.reader t r } := by
  refine ⟨hs.crashed, fun u => ?_⟩
  by_cases hu : u = t
  · subst hu; simpa using hr
  · simpa [Function.update_of_ne hu] using hs.filled u

theorem safe_section {s s' : State} {t : ℕ} (hs : Safe s) (hmap : MappingInv s)
    (hready : sectionReady s.startup (s.reader t)) (hn : sectionNext s t = some s') : Safe s' := by
  have hfilled := hs.filled t
  unfold sectionNext at hn
  cases hr : s.reader t with
  | idle => rw [hr] at hn; cases hn
  | value op val => rw [hr] at hn; cases hn
  | regs val => rw [hr] at hn; cases hn
  | single op =>
    rw [hr] at hn hready
    obtain ⟨v, hv, hop⟩ := call_of_ready hmap hready
    simp only [hv, resume, Option.some.injEq] at hn
    subst hn
    exact hs.update hop
  | coils =>
    rw [hr] at hn hready
    obtain ⟨m, hm, -⟩ := hmap.allocated hready
    rw [hm] at hn
    cases Option.some.inj hn
    exact hs.update trivial
  | inputs n1 =>
    rw [hr] at hn hready
    obtain ⟨m, hm, htab⟩ := hmap.inputsFilled hready
    rw [hm] at hn
    cases Option.some.inj hn
    exact hs.update (congrArg some htab)
  | discrete n1 n2 =>
    rw [hr] at hn hready hfilled
    obtain ⟨m, hm, htab⟩ := hmap.discreteFilled hready
    rw [hm] at hn
    cases Option.some.inj hn
    exact hs.update ⟨hfilled, congrArg some htab⟩
  | holding n1 n2 n3 =>
    rw [hr] at hn hready hfilled
    obtain ⟨m, hm, -⟩ := hmap.allocated hready
    rw [hm] at hn
    cases Option.some.inj hn
    refine hs.update fun regs hregs => ?_
    rw [hfilled.1, hfilled.2] at hregs
    cases n1 with
    | none => cases hregs
    | some coils => cases Option.some.inj hregs; exact ⟨rfl, rfl⟩

theorem resume_frame {α : Type} (s : State) (t : ℕ) (result : Access α) (go : α → Reader) :
    (resume s t result go).startup = s.startup ∧ (resume s t result go).mapping = s.mapping := by
  cases result <;> exact ⟨rfl, rfl⟩

theorem sectionNext_frame {s s' : State} {t : ℕ} (hn : sectionNext s t = some s') :
    s'.startup = s.startup ∧ s'.mapping = s.mapping := by
  unfold sectionNext at hn
  split at hn <;> first | (cases Option.some.inj hn; exact resume_frame _ _ _ _) | cases hn

theorem callNext_eq {s s' : State} {t : ℕ} {r : Reader} (hn : callNext s t r = some s') :
    s' = { s with reader := Function.update s.reader t r } := by
  unfold callNext at hn
  split_ifs at hn
  exact (Option.some.inj hn).symm

theorem mappingInv_next {s s' : State} {a : Action} (hs : MappingInv s)
    (hn : next s a = some s') : MappingInv s' := by
  unfold next at hn
  split_ifs at hn
  cases a with
  | startup ok => exact mappingInv_startup hs hn
  | request coils holding => exact mappingInv_request hs hn
  | call t op => rw [callNext_eq hn]; exact hs
  | callAll t => rw [callNext_eq hn]; exact hs
  | readSection t =>
    obtain ⟨hp, hm⟩ := sectionNext_frame hn
    unfold MappingInv
    rw [hp, hm]
    exact hs

theorem safe_next {s s' : State} {a : Action} (hready : ReadsReady s a) (hs : Safe s)
    (hmap : MappingInv s) (hn : next s a = some s') : Safe s' := by
  unfold next at hn
  split_ifs at hn
  cases a with
  | startup ok =>
    obtain ⟨hr, hc⟩ := startupNext_frame hn
    exact ⟨hc.trans hs.crashed, fun t => by rw [hr]; exact hs.filled t⟩
  | request coils holding =>
    obtain ⟨hr, hc, -⟩ := requestNext_frame hn
    exact ⟨hc.trans hs.crashed, fun t => by rw [hr]; exact hs.filled t⟩
  | call t op => rw [callNext_eq hn]; exact hs.update trivial
  | callAll t => rw [callNext_eq hn]; exact hs.update trivial
  | readSection t => exact safe_section hs hmap hready hn

theorem mappingInv_init : MappingInv serving.init := .none

theorem safe_init : Safe serving.init := ⟨rfl, fun _ => trivial⟩

theorem mappingInv_of_reachable {s : State} (hs : serving.Reachable s) : MappingInv s :=
  hs.invariant mappingInv_init fun _ _ _ _ h hn => mappingInv_next h hn

/-- In a run in which each section of a read comes after the start-up steps on which it
depends, no read follows the null mapping and none returns an unfilled table. -/
theorem safe_of_readsReady {s : State} (hs : serving.ReachableVia ReadsReady s) : Safe s := by
  have h : Safe s ∧ MappingInv s := by
    refine hs.invariant (I := fun s => Safe s ∧ MappingInv s)
      ⟨safe_init, mappingInv_init⟩ ?_
    intro s a s' hready hinv hn
    exact ⟨safe_next hready hinv.1 hinv.2 hn, mappingInv_next hinv.2 hn⟩
  exact h.1

theorem safe_readInput_readAll : ∃ s, (serving.ReachableVia ReadsReady s ∧
    s.reader 1 = .value (.readInput 0) (.word (some 1)) ∧ (s.reader 2).Ready) ∧ Safe s := by
  obtain ⟨s, hs, hr⟩ := TransitionSystem.exists_reachableVia_of_runVia
    serving ReadsReady
    ([.call 1 (.readInput 0), .startup true, .startup true, .callAll 2, .readSection 2,
      .startup true, .readSection 1, .readSection 2, .startup true, .readSection 2, .startup true,
      .request [1, 1, 1, 1, 1, 1, 1, 1, 1, 1] [7, 7, 7, 7, 7, 7, 7, 7, 7, 7], .readSection 2])
    (fun s => decide (s.reader 1 = .value (.readInput 0) (.word (some 1))) &&
      (s.reader 2).Ready) (by decide)
  rw [Bool.and_eq_true, decide_eq_true_eq] at hr
  exact ⟨s, ⟨hs, hr⟩, safe_of_readsReady hs⟩

/-- A command served before the mapping is allocated follows the null pointer, and one
served before the fill of the input registers returns what was not yet filled. -/
theorem read_before_startup :
    (∃ s, serving.Reachable s ∧ s.crashed = some .nullMapping) ∧
    (∃ s, serving.Reachable s ∧ s.startup = .fillInputs ∧
      s.reader 0 = .value (.readInput 0) (.word (some 0))) := by
  constructor
  · obtain ⟨s, hs, hc⟩ := TransitionSystem.exists_reachable_of_run serving
      ([.call 0 (.readCoil 0), .readSection 0])
      (fun s => decide (s.crashed = some .nullMapping)) (by decide)
    exact ⟨s, hs, of_decide_eq_true hc⟩
  · obtain ⟨s, hs, hr⟩ := TransitionSystem.exists_reachable_of_run serving
      ([.startup true, .startup true, .call 0 (.readInput 0), .readSection 0])
      (fun s => decide (s.startup = .fillInputs) &&
        decide (s.reader 0 = .value (.readInput 0) (.word (some 0)))) (by decide)
    rw [Bool.and_eq_true, decide_eq_true_eq, decide_eq_true_eq] at hr
    exact ⟨s, hs, hr⟩

end Mbtest.ModbusServer
