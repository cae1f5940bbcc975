import Mbtest.Client.Reader
import Mbtest.Interfaces

/-! The commands of the interactive client: what is sent for a command line, and what is
printed from the response. -/
namespace Mbtest.Client.Console
open Lib

/-- `std::string` -/
abbrev Str := List Char

inductive Thrown
  | systemError
  | invalidArgument
  | outOfRange
  deriving DecidableEq, Repr

/-- A line that a command prints: `value = v`, `value[j] = v`, `no values`,
`readAll: response.size() = n`, and the messages of the client. -/
inductive Line
  | value (v : ℕ)
  | entry (j v : ℕ)
  | noValues
  | size (n : ℕ)
  | error
  | connected
  | disconnected
  | invalidArgument
  | invalidCommand
  | tooFewArgs
  deriving DecidableEq, Repr

/-- The socket `s` of the client: whether a write succeeds, and what a read brings. -/
structure Endpoint (S : Type) where
  write : List UInt8 → S → Bool × S
  read : Source S

abbrev Command (S α : Type) := ExceptT Thrown (StateM S) α

section Commands
variable {S : Type} (o : ByteOrder) (sock : Endpoint S)

/-- `boost::asio::write` without an `error_code`. -/
def write (buffer : List UInt8) : Command S Unit := fun s =>
  let (sent, s) := sock.write buffer s
  (if sent then .ok () else .error .systemError, s)

def readResponse : Command S (List UInt8) := fun s =>
  let (response, s) := Client.readResponse o sock.read s
  (.ok response, s)

def sendCommand (cmd : Code) (arg : UInt16) : Command S (List UInt8) := do
  (Client.sendCommand o cmd.toByte arg).forM (write sock)
  readResponse o sock

/-- The body shared by the commands: the response is looked at if it has at least `size`
bytes. The lines are `none` when an access leaves the buffer. -/
def command (cmd : Code) (arg : UInt16) (size : ℕ) (print : List UInt8 → Option (List Line)) :
    Command S (Option (List Line)) := do
  let response ← sendCommand o sock cmd arg
  return if size ≤ response.length then print response else some [.noValues]

def printTable (values : List ℕ) : List Line := values.mapIdx fun j v => .entry j v

def printByte (response : List UInt8) : Option (List Line) := do
  let data ← decodeByte response
  return [.value data.toNat]

def printWord (response : List UInt8) : Option (List Line) := do
  let data ← decodeWord o response
  return [.value data.toNat]

def printBytes (response : List UInt8) : Option (List Line) :=
  some (printTable ((decodeBytes response).map UInt8.toNat))

def printWords (response : List UInt8) : Option (List Line) := do
  let data ← decodeWords o response
  return printTable (data.map UInt16.toNat)

def readDiscrete (n : ℤ) : Command S (Option (List Line)) :=
  command o sock .readDiscrete (UInt16.ofInt n) 1 printByte

def readCoil (n : ℤ) : Command S (Option (List Line)) :=
  command o sock .readCoil (UInt16.ofInt n) 1 printByte

def readInput (n : ℤ) : Command S (Option (List Line)) :=
  command o sock .readInput (UInt16.ofInt n) 2 (printWord o)

def readHolding (n : ℤ) : Command S (Option (List Line)) :=
  command o sock .readHolding (UInt16.ofInt n) 2 (printWord o)

def readDiscreteAll : Command S (Option (List Line)) :=
  command o sock .readDiscreteAll 0 1 printBytes

def readCoilAll : Command S (Option (List Line)) := command o sock .readCoilAll 0 1 printBytes

def readInputAll : Command S (Option (List Line)) :=
  command o sock .readInputAll 0 1 (printWords o)

def readHoldingAll : Command S (Option (List Line)) :=
  command o sock .readHoldingAll 0 1 (printWords o)

def readAll : Command S (Option (List Line)) :=
  command o sock .readAll 0 1 fun response => some [.size response.length]

def readAllRegsByType (mode : Str) : Command S (Option (List Line)) :=
  if mode = "discrete".toList then readDiscreteAll o sock
  else if mode = "coil".toList then readCoilAll o sock
  else if mode = "input".toList then readInputAll o sock
  else if mode = "holding".toList then readHoldingAll o sock
  else return some [.invalidArgument]

def readRegByType (mode : Str) (n : ℤ) : Command S (Option (List Line)) :=
  if mode = "discrete".toList then readDiscrete o sock n
  else if mode = "coil".toList then readCoil o sock n
  else if mode = "input".toList then readInput o sock n
  else if mode = "holding".toList then readHolding o sock n
  else return some [.invalidArgument]

end Commands

def isSpace (c : Char) : Bool := c == ' ' || (9 ≤ c.toNat && c.toNat ≤ 13)

def ofDigits (ds : Str) : ℕ := ds.foldl (fun n c => 10 * n + (c.toNat - '0'.toNat)) 0

def optionalSign : Str → Bool × Str
  | '-' :: s => (true, s)
  | '+' :: s => (false, s)
  | s => (false, s)

/-- `std::stoi`: leading blanks, a sign, and the longest run of digits; what follows is
not looked at. -/
def stoi (s : Str) : Except Thrown ℤ :=
  let (negative, s) := optionalSign (s.dropWhile isSpace)
  let ds := s.takeWhile Char.isDigit
  if ds.isEmpty then .error .invalidArgument
  else
    let n : ℤ := if negative then -ofDigits ds else ofDigits ds
    if -2 ^ 31 ≤ n ∧ n < 2 ^ 31 then .ok n else .error .outOfRange

def processReadOp {S : Type} (o : ByteOrder) (sock : Endpoint S) (args : List Str) :
    Command S (Option (List Line)) :=
  match args with
  | _ :: mode :: arg :: _ =>
    if arg = "all".toList then readAllRegsByType o sock mode
    else do
      let n ← (stoi arg : Except Thrown ℤ)
      readRegByType o sock mode n
  | _ => return some [.tooFewArgs]

/-- The calls of the client that are not made on an open connection. `resolve` belongs to
the resolver, which throws when it does not know the host. -/
structure Socket (S : Type) extends Endpoint S where
  resolve : Str → Str → S → Bool × S
  connect : S → Bool × S
  close : S → Bool × S

section Connection
variable {S : Type} (o : ByteOrder) (sock : Socket S)

def resolve (host service : Str) : Command S Unit := fun s =>
  let (found, s) := sock.resolve host service s
  (if found then .ok () else .error .systemError, s)

/-- The lines are `none` when `args[1]` or `args[2]` is beyond the end. -/
def connectToServer (args : List Str) : Command S (Option (List Line)) :=
  match args with
  | _ :: host :: service :: _ => do
    resolve sock host service
    fun s =>
      let (done, s) := sock.connect s
      (.ok (some [if done then .connected else .error]), s)
  | _ => return none

def disconnectFromServer : Command S (Option (List Line)) := fun s =>
  let (done, s) := sock.close s
  (.ok (some [if done then .disconnected else .error]), s)

/-- `processCommand` for a line without `start` or `stop`, which are about threads. -/
def processCommand (args : List Str) : Command S (Option (List Line)) :=
  match args with
  | [] => return none
  | verb :: _ =>
    if verb = "connect".toList then connectToServer sock args
    else if verb = "disconnect".toList then disconnectFromServer sock
    else if verb = "read".toList then processReadOp o sock.toEndpoint args
    else return some [.invalidCommand]

end Connection

section Runs
variable {S α β : Type} {o : ByteOrder} {sock : Endpoint S}

theorem bind_ok {x : Command S α} {f : α → Command S β} {s s' : S} {a : α}
    (h : x s = (.ok a, s')) : (x >>= f) s = f a s' := by
  change (ExceptT.bindCont f (x s).1) (x s).2 = _
  rw [h]
  rfl

theorem bind_error {x : Command S α} {f : α → Command S β} {s s' : S} {e : Thrown}
    (h : x s = (.error e, s')) : (x >>= f) s = (.error e, s') := by
  change (ExceptT.bindCont f (x s).1) (x s).2 = _
  rw [h]
  rfl

theorem write_ok {buffer : List UInt8} {s s' : S} (h : sock.write buffer s = (true, s')) :
    write sock buffer s = (.ok (), s') := by
  simp only [write, h, if_true]

theorem write_error {buffer : List UInt8} {s s' : S} (h : sock.write buffer s = (false, s')) :
    write sock buffer s = (.error .systemError, s') := by
  simp only [write, h, Bool.false_eq_true, if_false]

theorem forM_cons (x : List UInt8) (xs : List (List UInt8)) :
    (x :: xs).forM (write sock) = write sock x >>= fun _ => xs.forM (write sock) := rfl

theorem sendCommand_sent {cmd : Code} {arg : UInt16} {s s₁ s₂ : S}
    (hcode : sock.write [cmd.toByte] s = (true, s₁))
    (harg : sock.write (mem16 o (htons o arg)) s₁ = (true, s₂)) :
    sendCommand o sock cmd arg s =
      (.ok (Client.readResponse o sock.read s₂).1, (Client.readResponse o sock.read s₂).2) := by
  have hwrites : (Client.sendCommand o cmd.toByte arg).forM (write sock) s = (.ok (), s₂) := by
    rw [Client.sendCommand, forM_cons, bind_ok (write_ok hcode), forM_cons,
      bind_ok (write_ok harg)]
    rfl
  rw [sendCommand, bind_ok hwrites]
  rfl

theorem command_sent {cmd : Code} {arg : UInt16} {size : ℕ}
    {print : List UInt8 → Option (List Line)} {s s' : S} {response : List UInt8}
    (h : sendCommand o sock cmd arg s = (.ok response, s')) :
    command o sock cmd arg size print s =
      (.ok (if size ≤ response.length then print response else some [.noValues]), s') := by
  rw [command, bind_ok h]
  rfl

end Runs

end Mbtest.Client.Console
