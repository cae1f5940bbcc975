import Mbtest.Client.InputLoop
import Mbtest.Wire.ReadCommand

/-! The program of the client from its standard input to its output, against the server. -/
namespace Mbtest.Wire
open Lib TcpConnection Client Client.Console

/-- How `main` ends. A line that uses an argument that is not there has no meaning. -/
inductive Exit
  | returned
  | uncaught (e : Thrown)
  | undefined
  deriving DecidableEq, Repr

/-- The loop of `main` with what it prints, command by command; `none` when the fuel ends before
the loop. -/
def mainLines {S : Type} (o : ByteOrder) (term : Terminal S) :
    ℕ → InStream → Str → S → Option (List (List Line) × Exit)
  | 0, _, _, _ => none
  | fuel + 1, cin, command, s =>
    let (cin, command) := getline cin command
    match processText o term command s with
    | (.ok (some (true, lines)), s) =>
      (mainLines o term fuel cin command s).map fun (more, exit) => (lines :: more, exit)
    | (.ok (some (false, _)), _) => some ([], .returned)
    | (.ok none, _) => some ([], .undefined)
    | (.error e, _) => some ([], .uncaught e)

/-! ### The server as the client sees it -/

/-- The other end of the client's socket: the connection, if there is one; the number of requests
that were served; and what was resolved last. -/
structure Remote where
  link : Option Link
  served : ℕ
  target : Str × Str

def Remote.read (n : ℕ) (p : Remote) : ReadResult × Remote :=
  match p.link with
  | none => (⟨[], true⟩, p)
  | some l => ((streamRead n l.toClient).1,
      { p with link := some { l with toClient := (streamRead n l.toClient).2 } })

/-- `tables i` are the tables at the time of the request with number `i`, whoever has changed
them before; `known` and `listens` are about a host and a service. -/
structure Site where
  server : ByteOrder
  tables : ℕ → ModbusServer.AllocatedMapping
  known : Str → Str → Bool
  listens : Str → Str → Bool

namespace Site
variable (site : Site)

def write (buffer : List UInt8) (p : Remote) : Bool × Remote :=
  match p.link with
  | none => (false, p)
  | some l =>
    let l : Link := { l with toServer := l.toServer ++ buffer }
    (true, { p with
      link := some (l.serve site.server (.same (site.tables p.served)))
      served :=
        if (readRequest site.server streamRead l.toServer).1.ec then p.served else p.served + 1 })

/-- A new connection is made after the old one is closed. -/
def connect (p : Remote) : Bool × Remote :=
  let listens := site.listens p.target.1 p.target.2
  (listens, { p with link := if listens then some ⟨[], []⟩ else none })

def socket : Console.Socket Remote where
  write := site.write
  read := Remote.read
  resolve host service p := (site.known host service, { p with target := (host, service) })
  connect := site.connect
  close p := (true, { p with link := none })

end Site

/-! ### What the client is for -/

inductive Order
  | connect (host service : Str)
  | disconnect
  | read (τ : RegType) (n : UInt16)
  | readTable (τ : RegType)
  | reject (message : Line)
  deriving DecidableEq, Repr

def RegType.ofMode (mode : Str) : Option RegType :=
  [.coil, .discrete, .input, .holding].find? fun τ => τ.mode = mode

namespace Order

/-- An argument of `read` that is neither `all` nor a number is no order. -/
def ofRead : List Str → Option Order
  | mode :: arg :: _ =>
    if arg = "all".toList then
      some ((RegType.ofMode mode).elim (.reject .invalidArgument) .readTable)
    else
      match stoi arg with
      | .ok n =>
        some ((RegType.ofMode mode).elim (.reject .invalidArgument) (.read · (UInt16.ofInt n)))
      | .error _ => none
  | _ => some (.reject .tooFewArgs)

/-- The order in a line that neither starts nor stops the loop. -/
def ofArgs : List Str → Option Order
  | [] => none
  | verb :: args =>
    if verb = "connect".toList then
      match args with
      | host :: service :: _ => some (.connect host service)
      | _ => none
    else if verb = "disconnect".toList then some .disconnect
    else if verb = "read".toList then ofRead args
    else if verb = "start".toList ∨ verb = "stop".toList then none
    else some (.reject .invalidCommand)

def ofLine (command : Str) : Option Order :=
  if command.isEmpty then none else ofArgs (arguments command)

end Order

/-- What an order brings on the screen, with the new connection and count of requests; `none`
when there is no connection to read from, or no such host. -/
def Site.carryOut (site : Site) (connected : Bool) (i : ℕ) : Order → Option (List Line × Bool × ℕ)
  | .connect host service =>
    if site.known host service then
      some ([if site.listens host service then .connected else .error],
        site.listens host service, i)
    else none
  | .disconnect => some ([.disconnected], false, i)
  | .read τ n =>
    if connected then some (τ.lines (site.tables i).toMapping n.toNat, true, i + 1) else none
  | .readTable τ =>
    if connected then some (printTable (τ.table (site.tables i).toMapping), true, i + 1) else none
  | .reject message => some ([message], connected, i)

def Site.screen (site : Site) : Bool → ℕ → List Order → List (List Line) × Exit
  | _, _, [] => ([], .returned)
  | connected, i, order :: orders =>
    match site.carryOut connected i order with
    | none => ([], .uncaught .systemError)
    | some (lines, connected, i) =>
      (lines :: (site.screen connected i orders).1, (site.screen connected i orders).2)

section Orders
variable {client : ByteOrder} {site : Site}

structure Remote.Between (p : Remote) (connected : Bool) (i : ℕ) : Prop where
  link : p.link = if connected then some ⟨[], []⟩ else none
  served : p.served = i

theorem readResponse_remote {p : Remote} {l : Link} (hl : p.link = some l) :
    Client.readResponse client Remote.read p =
      ((Client.readResponse client streamRead l.toClient).1,
        { p with
          link := some { l with
            toClient := (Client.readResponse client streamRead l.toClient).2 } }) := by
  cases hec : (streamRead 4 l.toClient).1.ec with
  | true => simp only [Client.readResponse, Remote.read, hl, hec, if_true]
  | false => simp only [Client.readResponse, Remote.read, hl, hec, Bool.false_eq_true, if_false]

theorem sendCommand_connected {p : Remote} {i : ℕ} (hp : p.Between true i) (c : Code)
    (arg : UInt16) : ∃ p', Console.sendCommand client site.socket.toEndpoint c arg p =
      (.ok (payload (.same (site.tables i)) arg.toNat c), p') ∧ p'.Between true (i + 1) := by
  obtain ⟨ws, hws, -, hread⟩ :=
    dispatch_readResponse site.server client (.same (site.tables i)) c arg
  obtain ⟨hi, lo, hbytes⟩ : ∃ hi lo, toBytes 2 arg.toNat = [hi, lo] := ⟨_, _, rfl⟩
  have hlink : p.link = some ⟨[], []⟩ := hp.link
  have hshort : (readRequest site.server streamRead [c.toByte]).1.ec = true :=
    (readRequest_short site.server (by simp)).1
  have hunit : readRequest site.server streamRead [c.toByte, hi, lo] =
      (⟨false, c.toByte, arg⟩, []) := by
    rw [readRequest_unit, ← hbytes, ofBytes_toBytes_word]
  have hcode : site.write [c.toByte] p = (true, { p with link := some ⟨[c.toByte], []⟩ }) := by
    have hserve := serve_short site.server (.same (site.tables p.served)) ⟨[c.toByte], []⟩ (by simp)
    simp only [Site.write, hlink, List.nil_append, hserve, hshort, if_true]
  have harg : site.write (mem16 client (htons client arg))
      { p with link := some ⟨[c.toByte], []⟩ } =
        (true, { p with link := some ⟨[], ws.flatten⟩, served := p.served + 1 }) := by
    rw [mem16_htons, hbytes]
    simp only [Site.write, Link.serve, List.cons_append, List.nil_append, hunit, hp.served, hws,
      Bool.false_eq_true, if_false]
  refine ⟨{ p with link := some ⟨[], []⟩, served := p.served + 1 }, ?_, rfl, ?_⟩
  · rw [sendCommand_sent hcode harg]
    change (Except.ok (Client.readResponse client Remote.read _).1,
      (Client.readResponse client Remote.read _).2) = _
    rw [readResponse_remote rfl]
    simp only [hread]
  · change p.served + 1 = i + 1
    rw [hp.served]

theorem sendCommand_disconnected {p : Remote} {i : ℕ} (hp : p.Between false i) (c : Code)
    (arg : UInt16) : Console.sendCommand client site.socket.toEndpoint c arg p =
      (.error .systemError, p) := by
  have hlink : p.link = none := hp.link
  have hwrite : site.write [c.toByte] p = (false, p) := by simp only [Site.write, hlink]
  rw [Console.sendCommand, Client.sendCommand, forM_cons]
  exact bind_error (bind_error (write_error hwrite))

theorem RegType.eq_mode_of_ofMode {mode : Str} {τ : RegType} (h : RegType.ofMode mode = some τ) :
    mode = τ.mode := by
  have hmode := List.find?_some h
  exact (of_decide_eq_true hmode).symm

theorem RegType.ne_mode_of_ofMode {mode : Str} (h : RegType.ofMode mode = none) (τ : RegType) :
    mode ≠ τ.mode := by
  have hnone := List.find?_eq_none.mp h τ (by cases τ <;> simp)
  intro hmode
  exact hnone (decide_eq_true hmode.symm)

def RegType.printAll (o : ByteOrder) : RegType → List UInt8 → Option (List Line)
  | .coil | .discrete => printBytes
  | .input | .holding => printWords o

theorem readAllRegsByType_mode {S : Type} (o : ByteOrder) (sock : Endpoint S) (τ : RegType) :
    readAllRegsByType o sock τ.mode = command o sock τ.all 0 1 (τ.printAll o) := by
  cases τ <;> rfl

theorem printAll_eq (o : ByteOrder) (τ : RegType) (response : List UInt8) :
    τ.printAll o response = (τ.decodeTable o response).map printTable := by
  cases τ with
  | coil | discrete => rfl
  | input | holding =>
    simp only [RegType.printAll, RegType.decodeTable, printWords, Option.map_map]
    cases decodeWords o response <;> rfl

/-- A command of the client shows on the screen what its order brings. -/
inductive Shows : Except Thrown (Option (List Line)) × Remote → Option (List Line × Bool × ℕ) → Prop
  | lines {lines : List Line} {p : Remote} {connected : Bool} {i : ℕ} : p.Between connected i →
    Shows (.ok (some lines), p) (some (lines, connected, i))
  | throws (p : Remote) : Shows (.error .systemError, p) none

theorem shows_single {p : Remote} {connected : Bool} {i : ℕ} (hp : p.Between connected i)
    (τ : RegType) {arg : Str} {n : ℤ} (hn : stoi arg = .ok n) :
    Shows (command client site.socket.toEndpoint τ.single (UInt16.ofInt n) τ.size (τ.print client) p)
      (site.carryOut connected i (.read τ (UInt16.ofInt n))) := by
  cases connected with
  | false =>
    rw [command, bind_error (sendCommand_disconnected hp _ _)]
    exact .throws p
  | true =>
    obtain ⟨p', hsent, hp'⟩ :=
      @sendCommand_connected client site p i hp τ.single (UInt16.ofInt n)
    -- what is printed depends on the payload alone
    have hserved := processReadOp_served site.server client (site.tables i) τ [] hn []
    rw [processReadOp_number client _ τ [] hn, readRegByType_mode,
      command_sent (sendCommand_served site.server client (.same (site.tables i)) τ.single _)]
      at hserved
    have hlines := Except.ok.inj (Prod.mk.inj hserved).1
    rw [command_sent hsent, hlines]
    exact .lines hp'

theorem shows_table {p : Remote} {connected : Bool} {i : ℕ} (hp : p.Between connected i)
    (τ : RegType) :
    Shows (command client site.socket.toEndpoint τ.all 0 1 (τ.printAll client) p)
      (site.carryOut connected i (.readTable τ)) := by
  cases connected with
  | false =>
    rw [command, bind_error (sendCommand_disconnected hp _ _)]
    exact .throws p
  | true =>
    obtain ⟨p', hsent, hp'⟩ := @sendCommand_connected client site p i hp τ.all 0
    have hdecode := decodeTable_payload client (site.tables i) τ 0
    have hprint : τ.printAll client (payload (.same (site.tables i)) 0 τ.all) =
        some (printTable (τ.table (site.tables i).toMapping)) := by
      rw [printAll_eq, hdecode]
      rfl
    have hsize : 1 ≤ (payload (.same (site.tables i)) 0 τ.all).length := by
      rw [Nat.one_le_iff_ne_zero, Ne, List.length_eq_zero_iff]
      intro hnil
      have hempty : τ.decodeTable client [] = some [] := by cases τ <;> rfl
      change τ.decodeTable client (payload (.same (site.tables i)) 0 τ.all) = _ at hdecode
      rw [hnil, hempty] at hdecode
      have hlen := length_table (site.tables i) τ
      rw [← Option.some.inj hdecode] at hlen
      cases hlen
    rw [command_sent hsent]
    change Shows (.ok (if 1 ≤ (payload (.same (site.tables i)) 0 τ.all).length then
      τ.printAll client (payload (.same (site.tables i)) 0 τ.all) else _), p') _
    rw [if_pos hsize, hprint]
    exact .lines hp'

theorem readRegByType_other {S : Type} (o : ByteOrder) (sock : Endpoint S) {mode : Str}
    (h : RegType.ofMode mode = none) (n : ℤ) :
    readRegByType o sock mode n = pure (some [.invalidArgument]) := by
  have hne := RegType.ne_mode_of_ofMode h
  exact (if_neg (hne .discrete)).trans ((if_neg (hne .coil)).trans
    ((if_neg (hne .input)).trans (if_neg (hne .holding))))

theorem readAllRegsByType_other {S : Type} (o : ByteOrder) (sock : Endpoint S) {mode : Str}
    (h : RegType.ofMode mode = none) :
    readAllRegsByType o sock mode = pure (some [.invalidArgument]) := by
  have hne := RegType.ne_mode_of_ofMode h
  exact (if_neg (hne .discrete)).trans ((if_neg (hne .coil)).trans
    ((if_neg (hne .input)).trans (if_neg (hne .holding))))

theorem shows_processReadOp {p : Remote} {connected : Bool} {i : ℕ} (hp : p.Between connected i)
    {args : List Str} {order : Order} (horder : Order.ofRead args = some order) (verb : Str) :
    Shows (processReadOp client site.socket.toEndpoint (verb :: args) p)
      (site.carryOut connected i order) := by
  rcases args with _ | ⟨mode, _ | ⟨arg, more⟩⟩
  · cases Option.some.inj horder
    exact .lines hp
  · cases Option.some.inj horder
    exact .lines hp
  simp only [Order.ofRead] at horder
  by_cases hall : arg = "all".toList
  · rw [if_pos hall] at horder
    rw [processReadOp, if_pos hall]
    cases hmode : RegType.ofMode mode with
    | none =>
      rw [hmode] at horder
      cases Option.some.inj horder
      rw [readAllRegsByType_other client _ hmode]
      exact .lines hp
    | some τ =>
      rw [hmode] at horder
      cases Option.some.inj horder
      rw [RegType.eq_mode_of_ofMode hmode, readAllRegsByType_mode]
      exact shows_table hp τ
  · rw [if_neg hall] at horder
    cases hn : stoi arg with
    | error e =>
      rw [hn] at horder
      cases horder
    | ok n =>
      rw [hn] at horder
      have hreads : processReadOp client site.socket.toEndpoint (verb :: mode :: arg :: more) =
          readRegByType client site.socket.toEndpoint mode n := by
        rw [processReadOp, if_neg hall, hn]
        rfl
      rw [hreads]
      cases hmode : RegType.ofMode mode with
      | none =>
        rw [hmode] at horder
        cases Option.some.inj horder
        rw [readRegByType_other client _ hmode]
        exact .lines hp
      | some τ =>
        rw [hmode] at horder
        cases Option.some.inj horder
        rw [RegType.eq_mode_of_ofMode hmode, readRegByType_mode]
        exact shows_single hp τ hn

theorem shows_connectToServer {p : Remote} {connected : Bool} {i : ℕ} (hp : p.Between connected i)
    (verb host service : Str) (more : List Str) :
    Shows (connectToServer site.socket (verb :: host :: service :: more) p)
      (site.carryOut connected i (.connect host service)) := by
  cases hknown : site.known host service with
  | false =>
    have hresolve : resolve site.socket host service p =
        (.error .systemError, { p with target := (host, service) }) := by
      simp only [resolve, Site.socket, hknown, Bool.false_eq_true, if_false]
    rw [connectToServer, bind_error hresolve, Site.carryOut, hknown]
    exact .throws _
  | true =>
    have hresolve : resolve site.socket host service p =
        (.ok (), { p with target := (host, service) }) := by
      simp only [resolve, Site.socket, hknown, if_true]
    rw [connectToServer, bind_ok hresolve, Site.carryOut, hknown, if_pos rfl]
    exact .lines ⟨rfl, hp.served⟩

theorem shows_processCommand {p : Remote} {connected : Bool} {i : ℕ} (hp : p.Between connected i)
    {args : List Str} {order : Order} (horder : Order.ofArgs args = some order) :
    Shows (processCommand client site.socket args p) (site.carryOut connected i order) := by
  rcases args with _ | ⟨verb, args⟩
  · cases horder
  simp only [Order.ofArgs] at horder
  by_cases hconnect : verb = "connect".toList
  · rw [if_pos hconnect] at horder
    rw [processCommand, if_pos hconnect]
    rcases args with _ | ⟨host, _ | ⟨service, more⟩⟩
    · cases horder
    · cases horder
    · cases Option.some.inj horder
      exact shows_connectToServer hp verb host service more
  by_cases hdisconnect : verb = "disconnect".toList
  · rw [if_neg hconnect, if_pos hdisconnect] at horder
    cases Option.some.inj horder
    rw [processCommand, if_neg hconnect, if_pos hdisconnect]
    exact .lines ⟨rfl, hp.served⟩
  by_cases hread : verb = "read".toList
  · rw [if_neg hconnect, if_neg hdisconnect, if_pos hread] at horder
    rw [processCommand, if_neg hconnect, if_neg hdisconnect, if_pos hread]
    exact shows_processReadOp hp horder verb
  · rw [if_neg hconnect, if_neg hdisconnect, if_neg hread] at horder
    rw [processCommand, if_neg hconnect, if_neg hdisconnect, if_neg hread]
    split_ifs at horder
    cases Option.some.inj horder
    exact .lines hp

end Orders

theorem Order.ofArgs_head {args : List Str} {order : Order} (h : ofArgs args = some order) :
    args.head? ≠ some "start".toList ∧ args.head? ≠ some "stop".toList := by
  constructor
  · intro hstart
    obtain ⟨rest, rfl⟩ := List.head?_eq_some_iff.mp hstart
    cases h
  · intro hstop
    obtain ⟨rest, rfl⟩ := List.head?_eq_some_iff.mp hstop
    cases h

section Main
variable {client : ByteOrder} {site : Site} {term : Terminal Remote}

theorem processText_order (hterm : term.toSocket = site.socket) {p : Remote} {connected : Bool}
    {i : ℕ} (hp : p.Between connected i) {command : Str} {order : Order}
    (horder : Order.ofLine command = some order) :
    ∃ outcome, Shows outcome (site.carryOut connected i order) ∧
      processText client term command p = (outcome.1.map (Option.map (true, ·)), outcome.2) := by
  unfold Order.ofLine at horder
  split_ifs at horder with hempty
  obtain ⟨hstart, hstop⟩ := Order.ofArgs_head horder
  have hcommand : command ≠ [] := by simpa using hempty
  refine ⟨_, @shows_processCommand client site p connected i hp _ order horder, ?_⟩
  rw [← hterm]
  exact processText_eq client term hcommand hstart hstop p

theorem getline_piece {content piece : Str} {pieces : List Str}
    (h : content.splitOn '\n' = piece :: pieces) (last : Str) :
    ∃ cin, getline ⟨content, true⟩ last = (cin, piece) ∧
      (pieces ≠ [] → cin.good = true ∧ cin.rest.splitOn '\n' = pieces) := by
  rcases line_cases content with hlast | ⟨line, rest, hline, rfl⟩
  · rw [List.splitOn_eq_singleton hlast] at h
    obtain ⟨rfl, rfl⟩ := List.cons.inj h
    exact ⟨_, getline_last hlast last, fun hne => absurd rfl hne⟩
  · rw [splitOn_line hline] at h
    obtain ⟨rfl, hrest⟩ := List.cons.inj h
    exact ⟨_, getline_line hline rest last, fun _ => ⟨rfl, hrest⟩⟩

theorem mainLines_orders (hterm : term.toSocket = site.socket) {content : Str}
    {commands more : List Str} (hcontent : content.splitOn '\n' = commands ++ [] :: more)
    {orders : List Order} (horders : commands.map Order.ofLine = orders.map some) (extra : ℕ)
    (last : Str) {p : Remote} {connected : Bool} {i : ℕ} (hp : p.Between connected i) :
    mainLines client term (commands.length + 1 + extra) ⟨content, true⟩ last p =
      some (site.screen connected i orders) := by
  induction commands generalizing content orders last p connected i with
  | nil =>
    obtain ⟨cin, hline, -⟩ := getline_piece hcontent last
    have hnone : orders = [] := by simpa using horders.symm
    have hempty : processText client term [] p = (.ok (some (false, [])), p) := rfl
    rw [hnone, List.length_nil, Nat.zero_add, Nat.add_comm, mainLines]
    simp only [hline, hempty]
    rfl
  | cons command commands ih =>
    obtain ⟨cin, hline, hrest⟩ := getline_piece hcontent last
    obtain ⟨hgood, hpieces⟩ := hrest (by simp)
    obtain ⟨rest, good⟩ := cin
    subst hgood
    cases orders with
    | nil => cases horders
    | cons order orders =>
      obtain ⟨horder, horders⟩ := List.cons.inj horders
      obtain ⟨outcome, hshows, htext⟩ :=
        @processText_order client site term hterm p connected i hp command order horder
      have hfuel : (command :: commands).length + 1 + extra = commands.length + 1 + extra + 1 := by
        rw [List.length_cons]
        omega
      rw [hfuel, mainLines, Site.screen]
      simp only [hline, htext]
      generalize site.carryOut connected i order = brought at hshows ⊢
      cases hshows with
      | lines hp' =>
        simp only [Except.map, Option.map_some, ih hpieces horders command hp']
      | throws p' => rfl

end Main

/-- What the program prints is what its orders bring, by the tables that the server has at the
time of each request; it returns at the first empty line, or is ended by an exception at an
order that cannot be carried out. -/
theorem mainLines_screen (client : ByteOrder) (site : Site) (term : Terminal Remote)
    (hterm : term.toSocket = site.socket) {content : Str} {commands more : List Str}
    (hcontent : content.splitOn '\n' = commands ++ [] :: more) {orders : List Order}
    (horders : commands.map Order.ofLine = orders.map some) (extra : ℕ) :
    mainLines client term (commands.length + 1 + extra) ⟨content, true⟩ [] ⟨none, 0, ([], [])⟩ =
      some (site.screen false 0 orders) :=
  mainLines_orders hterm hcontent horders extra [] ⟨rfl, rfl⟩

/-- Somebody writes 7 to register 4 after the first request. -/
private def changing : Site where
  server := .big
  tables i :=
    if i = 0 then .new
    else
      { ModbusServer.AllocatedMapping.new with
        tabRegisters := [0, 0, 0, 0, 7, 0, 0, 0, 0, 0]
        length_tabRegisters := rfl }
  known host _ := host = "localhost".toList
  listens _ service := service = "5000".toList

theorem mainLines_screen_changing :
    mainLines .little ⟨changing.socket, id, id⟩ 7
      ⟨"connect localhost 5000\nread holding 4\nread holding 4\nhelp\n\nread".toList, true⟩ []
      ⟨none, 0, ([], [])⟩ =
        some ([[.connected], [.value 0], [.value 7], [.invalidCommand]], .returned) := by
  have hscreen : changing.screen false 0 [.connect "localhost".toList "5000".toList,
      .read .holding 4, .read .holding 4, .reject .invalidCommand] =
        ([[.connected], [.value 0], [.value 7], [.invalidCommand]], .returned) := by decide
  rw [← hscreen]
  exact @mainLines_screen .little changing ⟨changing.socket, id, id⟩ rfl _
    ["connect localhost 5000".toList, "read holding 4".toList, "read holding 4".toList,
      "help".toList] ["read".toList] (by decide) _ (by decide) 2

end Mbtest.Wire
