import Mbtest.Client.Commands
import Mbtest.Lib.Reading

/-! The client's way through the bytes of a response: the four overloads of `decodeResponse`,
the loops that print, and the test of the size that each command makes before. -/
namespace Mbtest.Client.Buffer
open Lib Lib.Reading Console

section Decode
variable (o : ByteOrder) (overflow : CInt) (fuel : ℕ) (response : List UInt8)

/-- `ntohs(ptr[j])` -/
def wordAt (j : ℤ) : Reading UInt16 := do
  let b0 ← look 1 response (2 * j)
  let b1 ← look 1 response (2 * j + 1)
  return ntohs o (load16 o [b0, b1])

/-- `decodeResponse(.., std::vector<uint8_t> &data)` -/
def decodeBytes : Reading (List UInt8) := copy response

/-- `decodeResponse(.., uint8_t &data)` -/
def decodeByte : Reading UInt8 := look 1 response 0

/-- `decodeResponse(.., uint16_t &data)` -/
def decodeWord : Reading UInt16 := wordAt o response 0

/-- `decodeResponse(.., std::vector<uint16_t> &data)`. An entry of `data` stands for two bytes. -/
def decodeWords : Reading (List UInt16) :=
  forInt overflow (response.length / 2)
    (fun j data => do
      let w ← wordAt o response j
      store 2 data j w)
    fuel .zero (.replicate (response.length / 2) 0)

end Decode

section Commands
variable (o : ByteOrder) (overflow : CInt) (fuel : ℕ)

/-- The loop over the entries of a table, each of which stands for `w` bytes. -/
def printTable {α : Type} (w : ℕ) (toNat : α → ℕ) (values : List α) : Reading (List Line) :=
  forInt overflow values.length
    (fun j lines => do
      let v ← look w values j
      return lines ++ [.entry j.toNat (toNat v)])
    fuel .zero []

def printByte (response : List UInt8) : Reading (List Line) := do
  let data ← decodeByte response
  return [.value data.toNat]

def printWord (response : List UInt8) : Reading (List Line) := do
  let data ← decodeWord o response
  return [.value data.toNat]

def printBytes (response : List UInt8) : Reading (List Line) := do
  let data ← decodeBytes response
  printTable overflow fuel 1 UInt8.toNat data

def printWords (response : List UInt8) : Reading (List Line) := do
  let data ← decodeWords o overflow fuel response
  printTable overflow fuel 2 UInt16.toNat data

/-- The body shared by the commands: the response is looked at if it has at least `size` bytes. -/
def command (size : ℕ) (print : List UInt8 → Reading (List Line)) (response : List UInt8) :
    Reading (List Line) :=
  if size ≤ response.length then print response else return [.noValues]

def readDiscreteAll : List UInt8 → Reading (List Line) := command 1 (printBytes overflow fuel)

def readCoilAll : List UInt8 → Reading (List Line) := command 1 (printBytes overflow fuel)

def readInputAll : List UInt8 → Reading (List Line) := command 1 (printWords o overflow fuel)

def readHoldingAll : List UInt8 → Reading (List Line) := command 1 (printWords o overflow fuel)

def readDiscrete : List UInt8 → Reading (List Line) := command 1 printByte

def readCoil : List UInt8 → Reading (List Line) := command 1 printByte

def readInput : List UInt8 → Reading (List Line) := command 2 (printWord o)

def readHolding : List UInt8 → Reading (List Line) := command 2 (printWord o)

def readAll : List UInt8 → Reading (List Line) :=
  command 1 fun response => return [.size response.length]

/-- What the command with this code does with the response that it gets. -/
def shown : Code → List UInt8 → Reading (List Line)
  | .readCoil => readCoil
  | .readDiscrete => readDiscrete
  | .readInput => readInput o
  | .readHolding => readHolding o
  | .readCoilAll => readCoilAll overflow fuel
  | .readDiscreteAll => readDiscreteAll overflow fuel
  | .readInputAll => readInputAll o overflow fuel
  | .readHoldingAll => readHoldingAll o overflow fuel
  | .readAll => readAll

end Commands

section Within
variable {o : ByteOrder} {overflow : CInt} {fuel : ℕ} {response : List UInt8}

theorem within_wordAt {j : ℤ} (hj : 0 ≤ j) (hn : 2 * (j + 1) ≤ response.length) :
    (wordAt o response j).Within response.length := by
  refine (within_look response (by omega) (by omega)).bind fun b0 _ => ?_
  exact (within_look response (by omega) (by omega)).bind fun b1 _ => within_pure _

theorem within_decodeWords (hlen : response.length < 2 ^ 32) :
    (decodeWords o overflow fuel response).Within response.length := by
  refine within_forInt (by omega) (fun j data hj hlt => ?_) fuel .zero _
  have hn : 2 * (j + 1) ≤ response.length := by omega
  exact (within_wordAt hj hn).bind fun w _ => within_store data w hj hn

theorem length_decodeWords {ws : List UInt16}
    (h : (decodeWords o overflow fuel response).value = some ws) :
    ws.length = response.length / 2 := by
  refine forInt_invariant (fun data : List UInt16 => data.length = response.length / 2) ?_
    (List.length_replicate ..) h
  intro j data data' hdata hbody
  rw [bind_value] at hbody
  obtain ⟨w, -, hstore⟩ := Option.bind_eq_some_iff.mp hbody
  simp only [store] at hstore
  split_ifs at hstore
  cases hstore
  rw [List.length_set, hdata]

theorem within_printTable {α : Type} {n w : ℕ} {toNat : α → ℕ} {values : List α}
    (hsize : values.length ≤ 2 ^ 63) (hn : w * values.length ≤ n) :
    (printTable overflow fuel w toNat values).Within n := by
  refine within_forInt hsize (fun j lines hj hlt => ?_) fuel .zero []
  have hle : (w : ℤ) * (j + 1) ≤ w * values.length :=
    Int.mul_le_mul_of_nonneg_left hlt (Int.natCast_nonneg w)
  have hentry : (w : ℤ) * (j + 1) ≤ n := by
    refine hle.trans ?_
    exact_mod_cast hn
  exact (within_look values hj hentry).bind fun v _ => within_pure _

theorem within_printBytes (hlen : response.length < 2 ^ 32) :
    (printBytes overflow fuel response).Within response.length := by
  refine (within_copy le_rfl).bind fun data hdata => ?_
  cases hdata
  exact within_printTable (by omega) (by omega)

theorem within_printWords (hlen : response.length < 2 ^ 32) :
    (printWords o overflow fuel response).Within response.length := by
  refine (within_decodeWords hlen).bind fun data hdata => ?_
  have hlength := length_decodeWords hdata
  exact within_printTable (by omega) (by omega)

theorem within_command {size : ℕ} {print : List UInt8 → Reading (List Line)}
    (h : size ≤ response.length → (print response).Within response.length) :
    (command size print response).Within response.length := by
  unfold command
  split_ifs with hsize
  · exact h hsize
  · exact within_pure _

theorem within_shown (hlen : response.length < 2 ^ 32) (c : Code) :
    (shown o overflow fuel c response).Within response.length := by
  have hbyte : 1 ≤ response.length → (printByte response).Within response.length := by
    intro hsize
    exact (within_look response le_rfl (by omega)).bind fun b _ => within_pure _
  have hword : 2 ≤ response.length → (printWord o response).Within response.length := by
    intro hsize
    exact (within_wordAt le_rfl (by omega)).bind fun w _ => within_pure _
  cases c with
  | readCoil | readDiscrete => exact within_command hbyte
  | readInput | readHolding => exact within_command hword
  | readCoilAll | readDiscreteAll => exact within_command fun _ => within_printBytes hlen
  | readInputAll | readHoldingAll => exact within_command fun _ => within_printWords hlen
  | readAll => exact within_command fun _ => within_pure _

end Within

section Values
variable {o : ByteOrder} {overflow : CInt} {fuel : ℕ} {response : List UInt8}

theorem wordAt_value (j : ℕ) : (wordAt o response j).value = (bytesWords response)[j]? := by
  have hhi : (2 * j : ℤ) = (2 * j : ℕ) := (Int.natCast_mul 2 j).symm
  have hlo : ((2 * j : ℕ) + 1 : ℤ) = (2 * j + 1 : ℕ) := rfl
  rw [← Client.wordAt_eq o]
  simp only [wordAt, Client.wordAt, bind_value, hhi, hlo, look_value, pure_value]
  rfl

theorem decodeWords_value (hlen : response.length < 2 ^ 32) (hfuel : response.length / 2 < fuel) :
    (decodeWords o overflow fuel response).value = some (bytesWords response) := by
  have hloop : ∃ data, (decodeWords o overflow fuel response).value = some data ∧
      data.length = response.length / 2 ∧
        ∀ i < response.length / 2, data[i]? = (bytesWords response)[i]? := by
    refine forInt_value (fun j (data : List UInt16) => data.length = response.length / 2 ∧
      ∀ i < j, data[i]? = (bytesWords response)[i]?) (by omega) ?_ hfuel
      ⟨List.length_replicate .., by simp⟩
    rintro j data hj ⟨hlength, hdata⟩
    have hword : (wordAt o response j).value = (bytesWords response)[j]? := wordAt_value j
    have hinside : j < (bytesWords response).length := by rwa [length_bytesWords]
    rw [List.getElem?_eq_getElem hinside] at hword
    refine ⟨data.set j (bytesWords response)[j], ?_, by rw [List.length_set, hlength], ?_⟩
    · rw [bind_value, hword]
      exact store_value 2 (by omega) _
    · intro i hi
      by_cases hij : i = j
      · subst hij
        rw [List.getElem?_set_self (by omega), List.getElem?_eq_getElem hinside]
      · rw [List.getElem?_set_ne (Ne.symm hij)]
        exact hdata i (by omega)
  obtain ⟨data, hvalue, hlength, hdata⟩ := hloop
  have heq : data = bytesWords response := by
    refine List.ext_getElem? fun i => ?_
    by_cases hi : i < response.length / 2
    · exact hdata i hi
    · have hsame : data.length = (bytesWords response).length := by rw [hlength, length_bytesWords]
      rw [List.getElem?_eq_none (by omega), List.getElem?_eq_none (by omega)]
  rw [hvalue, heq]

theorem printTable_value {α : Type} (w : ℕ) (toNat : α → ℕ) {values : List α}
    (hsize : values.length < 2 ^ 31) (hfuel : values.length < fuel) :
    (printTable overflow fuel w toNat values).value =
      some (Console.printTable (values.map toNat)) := by
  have hloop : ∃ lines, (printTable overflow fuel w toNat values).value = some lines ∧
      lines = Console.printTable ((values.take values.length).map toNat) := by
    refine forInt_value (fun j lines => lines = Console.printTable ((values.take j).map toNat))
      hsize ?_ hfuel rfl
    rintro j lines hj rfl
    have hentry : Console.printTable ((values.take (j + 1)).map toNat) =
        Console.printTable ((values.take j).map toNat) ++ [.entry j (toNat values[j])] := by
      have hlength : ((values.take j).map toNat).length = j := by
        rw [List.length_map, List.length_take, Nat.min_eq_left hj.le]
      rw [List.take_succ_eq_append_getElem hj, List.map_append, List.map_singleton,
        Console.printTable, List.mapIdx_concat, hlength]
      rfl
    refine ⟨_, ?_, hentry.symm⟩
    rw [bind_value, look_value, List.getElem?_eq_getElem hj]
    rfl
  obtain ⟨lines, hvalue, hlines⟩ := hloop
  rw [hvalue, hlines, List.take_length]

theorem printByte_value : (printByte response).value = Console.printByte response := by
  have hlook : (decodeByte response).value = Client.decodeByte response := look_value 1 response 0
  rw [printByte, bind_value, hlook]
  rfl

theorem printWord_value : (printWord o response).value = Console.printWord o response := by
  have hlook : (decodeWord o response).value = Client.decodeWord o response :=
    (wordAt_value 0).trans (Client.wordAt_eq o response 0).symm
  rw [printWord, bind_value, hlook]
  rfl

theorem printBytes_value (hlen : response.length < 2 ^ 31) (hfuel : response.length < fuel) :
    (printBytes overflow fuel response).value = Console.printBytes response :=
  printTable_value 1 UInt8.toNat hlen hfuel

theorem printWords_value (hlen : response.length < 2 ^ 32) (hfuel : response.length / 2 < fuel) :
    (printWords o overflow fuel response).value = Console.printWords o response := by
  have hlength := length_bytesWords response
  rw [printWords, bind_value, decodeWords_value hlen hfuel, Console.printWords,
    Client.decodeWords_eq]
  exact printTable_value 2 UInt16.toNat (by omega) (by omega)

theorem command_value {size : ℕ} {print : List UInt8 → Reading (List Line)}
    {lines : List UInt8 → Option (List Line)} (h : (print response).value = lines response) :
    (command size print response).value =
      if size ≤ response.length then lines response else some [.noValues] := by
  unfold command
  split_ifs
  · exact h
  · rfl

end Values

/-- The command of the client with this code, for the register `n` where it has one. -/
def readCommand {S : Type} (o : ByteOrder) (sock : Endpoint S) (n : ℤ) :
    Code → Command S (Option (List Line))
  | .readCoil => Console.readCoil o sock n
  | .readDiscrete => Console.readDiscrete o sock n
  | .readInput => Console.readInput o sock n
  | .readHolding => Console.readHolding o sock n
  | .readCoilAll => Console.readCoilAll o sock
  | .readDiscreteAll => Console.readDiscreteAll o sock
  | .readInputAll => Console.readInputAll o sock
  | .readHoldingAll => Console.readHoldingAll o sock
  | .readAll => Console.readAll o sock

section Socket
variable {S : Type} {o : ByteOrder} {sock : Endpoint S}

theorem command_response {c : Code} {arg : UInt16} {size : ℕ}
    {print : List UInt8 → Option (List Line)} {s s' : S} {lines : Option (List Line)}
    (h : Console.command o sock c arg size print s = (.ok lines, s')) :
    ∃ response, Console.sendCommand o sock c arg s = (.ok response, s') ∧
      lines = if size ≤ response.length then print response else some [.noValues] := by
  rcases hsent : Console.sendCommand o sock c arg s with ⟨result, t⟩
  cases result with
  | error e =>
    rw [Console.command, bind_error hsent] at h
    cases h
  | ok response =>
    rw [command_sent hsent] at h
    cases h
    exact ⟨response, rfl, rfl⟩

/-- A command prints what it finds on its way through the response. From `2 ^ 31` bytes on, the
loop over a table of bytes overflows its counter. -/
theorem readCommand_shown {n : ℤ} {c : Code} {s s' : S} {lines : Option (List Line)}
    (h : readCommand o sock n c s = (.ok lines, s')) :
    ∃ arg response, Console.sendCommand o sock c arg s = (.ok response, s') ∧
      ∀ overflow fuel, response.length < 2 ^ 32 → response.length < fuel →
        (c = .readCoilAll ∨ c = .readDiscreteAll → response.length < 2 ^ 31) →
          lines = (shown o overflow fuel c response).value := by
  cases c with
  | readCoil | readDiscrete =>
    obtain ⟨response, hsent, hlines⟩ := command_response h
    refine ⟨_, response, hsent, fun overflow fuel _ _ _ => hlines.trans ?_⟩
    exact (command_value printByte_value).symm
  | readInput | readHolding =>
    obtain ⟨response, hsent, hlines⟩ := command_response h
    refine ⟨_, response, hsent, fun overflow fuel _ _ _ => hlines.trans ?_⟩
    exact (command_value printWord_value).symm
  | readCoilAll | readDiscreteAll =>
    obtain ⟨response, hsent, hlines⟩ := command_response h
    refine ⟨_, response, hsent, fun overflow fuel _ hfuel hlen => hlines.trans ?_⟩
    exact (command_value (printBytes_value (hlen (by simp)) hfuel)).symm
  | readInputAll | readHoldingAll =>
    obtain ⟨response, hsent, hlines⟩ := command_response h
    refine ⟨_, response, hsent, fun overflow fuel hlen hfuel _ => hlines.trans ?_⟩
    exact (command_value (printWords_value hlen (by omega))).symm
  | readAll =>
    obtain ⟨response, hsent, hlines⟩ := command_response h
    refine ⟨_, response, hsent, fun overflow fuel _ _ _ => hlines.trans ?_⟩
    exact (@command_value response 1 (fun response => return [.size response.length])
      (fun response => some [.size response.length]) rfl).symm

end Socket

/-- No command looks at a byte outside of the payload, whatever an overflow leaves in a counter
and however far the loops have come; and the words of a table are the big-endian words of the
pairs of bytes. -/
structure ReadsInside (o : ByteOrder) (p : List UInt8) : Prop where
  inside : ∀ overflow fuel c, ∀ i ∈ (shown o overflow fuel c p).positions, 0 ≤ i ∧ i < p.length
  words : ∀ overflow fuel, p.length / 2 < fuel →
    ∃ ws, (decodeWords o overflow fuel p).value = some ws ∧ ws.length = p.length / 2 ∧
      ∀ j hi lo, p[2 * j]? = some hi → p[2 * j + 1]? = some lo →
        ws[j]?.map UInt16.toNat = some (256 * hi.toNat + lo.toNat)

/-- For every payload whose length a header can announce. -/
theorem readsInside_of_readResponse (o : ByteOrder) {p : List UInt8} (hp : p.length < 2 ^ 32)
    (rest : List UInt8) :
    Client.readResponse o streamRead (frame 4 p ++ rest) = (p, rest) ∧ ReadsInside o p := by
  refine ⟨Client.readResponse_frame o hp rest, fun overflow fuel c => within_shown hp c, ?_⟩
  intro overflow fuel hfuel
  refine ⟨bytesWords p, decodeWords_value hp hfuel, length_bytesWords p, fun j hi lo hhi hlo => ?_⟩
  have hword : Client.wordAt o p j = some (ntohs o (load16 o [hi, lo])) := by
    simp only [Client.wordAt, hhi, hlo]
    rfl
  rw [← Client.wordAt_eq o, hword, ntohs_load16 o rfl, Option.map_some, toNat_word]

/-- A table of words whose last byte has no partner. -/
theorem readsInside_of_readResponse_odd :
    Client.readResponse .little streamRead (frame 4 [1, 2, 3] ++ [9]) = ([1, 2, 3], [9]) ∧
      ReadsInside .little [1, 2, 3] ∧
      (readInputAll .little .zero 4 [1, 2, 3]).positions = [0, 1, 0, 1, 0, 1] := by
  obtain ⟨hresponse, hinside⟩ :=
    readsInside_of_readResponse .little (p := [1, 2, 3]) (by decide) [9]
  exact ⟨hresponse, hinside, by decide⟩

end Mbtest.Client.Buffer
