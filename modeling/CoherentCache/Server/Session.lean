import CoherentCache.Directory
import CoherentCache.Server
import CoherentCache.Server.CommandLine

/-!
# Sessions of the server

A session is a run of the server from its command line to its end, with everything that happens to
it from outside as a list of steps.  Between two steps the server reads what it was given in pieces,
and after the last step it sends what is still waiting; then it is told to stop.

* `Session.run` : a whole session.
* `Session.Step` : what happens from outside.
-/

namespace CoherentCache

namespace Session

/-- The clients that take no data for the moment. -/
inductive Stall where
  /-- All of them. -/
  | everyone
  /-- Those with the given names. -/
  | named (names : List Bytes)

/-- The client takes no data for the moment. -/
def Stall.covers : Stall → Bytes → Bool
  | .everyone, _ => true
  | .named names, name => names.contains name

/-- What happens from outside before a pass. -/
structure Step where
  /-- Time that passes, in microseconds. -/
  elapsed : Int64
  /-- Waiting for the clients fails, and there is no pass. -/
  interrupted : Bool
  /-- A client with that name waits to be connected. -/
  arrival : Option Bytes
  /-- A client waits that cannot be connected. -/
  arrivalFault : Option SystemError
  /-- What clients give to read, by name. -/
  incoming : List (Bytes × Incoming)
  /-- Who takes no data. -/
  stall : Stall
  /-- What sends are given, by name. -/
  sending : List (Bytes × Sending)

/-- What is noticed of the server in a session. -/
inductive Notice where
  /-- A client notices something. -/
  | event (e : ServerEvent)
  /-- The client is not connected. -/
  | gone
deriving DecidableEq

/-- What is noticed in one pass, by name. -/
abbrev Pass := List (Bytes × Notice)

/-- A server in a session, and the clients by name. -/
structure State where
  /-- The server. -/
  server : Server
  /-- The numbers of the clients, in the order in which they came; a name may be used again. -/
  numbers : List (Bytes × Nat)

namespace State

/-- The number of the client with the given name: the first that came and is still connected. -/
def number? (s : State) (name : Bytes) : Option Nat :=
  (s.numbers.find? fun entry => entry.1 = name && s.server.isConnected entry.2).map (·.2)

/-- The name of a client. -/
def nameOf (s : State) (number : Nat) : Bytes :=
  ((s.numbers.find? fun entry => entry.2 = number).map (·.1)).getD []

/-- What is noticed in one pass, client by client, in the order of their names. -/
def collect (s : State) (gone : List Bytes) (notices : Server.Notices) : Pass :=
  let events := gone.map (·, Notice.gone) ++
    notices.map fun (number, event) => (s.nameOf number, .event event)
  events.mergeSort fun a b => (compare a.1 b.1).isLE

/-- One pass of the server. -/
def pass : State → (gone : List Bytes) → Ready → Pass × State
  | ⟨server, numbers⟩, gone, ready =>
    let (notices, server) := server.pass ready
    let s : State := ⟨server, numbers⟩
    (s.collect gone notices, s)

end State

/-! ### Steps -/

/-- What is given to read, as the server reads it: data in pieces.  Where there is no data, there is
nothing to read. -/
def pieces : Incoming → List Incoming
  | .data bytes => (Bytes.pieces Server.receiveSize bytes).map .data
  | item => [item]

/-- Splits what clients give to read into the first item of each client and the rest. -/
def firstOfEach : List Nat → List (Nat × Incoming) → List (Nat × Incoming) × List (Nat × Incoming)
  | _, [] => ([], [])
  | seen, (number, item) :: rest =>
    let (first, later) := firstOfEach (number :: seen) rest
    if seen.contains number then (first, (number, item) :: later)
    else ((number, item) :: first, later)

/-- The passes in which the server reads, item by item, what is left to read.  Items of clients that
are no longer connected are lost. -/
def readOn : List (Nat × Incoming) → State → List Pass × State
  | [], s => ([], s)
  | (number, item) :: rest, s =>
    if s.server.isConnected number then
      let ready := { Ready.idle with incoming := fun n => if n = number then some item else none }
      let (noticed, s) := ({ s with server := s.server.sweep } : State).pass [] ready
      let (passes, s) := readOn rest s
      (noticed :: passes, s)
    else readOn rest s

/-- Who waits to be connected; a client that can be is given a number. -/
def State.announce (s : State) (outside : Step) : Option Arrival × State :=
  match outside.arrivalFault, outside.arrival with
  | some e, _ => (some (.fails e), s)
  | none, none => (none, s)
  | none, some name =>
    (some .client, { s with numbers := s.numbers ++ [(name, s.server.nextNumber)] })

/-- The passes that a step leads to. -/
def step (s : State) (outside : Step) : List Pass × State :=
  let server := s.server.sweep.mapStore (·.mapNetwork (·.pause outside.elapsed))
  let s := { s with server }
  if outside.interrupted then
    ([[]], { s with server.service := s.server.service.fail .interrupted })
  else
    let gone := (outside.incoming.map (·.1)).filter fun name => (s.number? name).isNone
    let incoming := outside.incoming.flatMap fun (name, item) =>
      match s.number? name with
      | none => []
      | some number => (pieces item).map (number, ·)
    let (first, later) := firstOfEach [] incoming
    let (arrival, s) := s.announce outside
    let ready : Ready := {
      arrival
      incoming := fun number => first.lookup number
      writable := fun number => !outside.stall.covers (s.nameOf number)
      sending := fun number => outside.sending.lookup (s.nameOf number) }
    let (noticed, s) := s.pass gone ready
    let (passes, s) := readOn later s
    (noticed :: passes, s)

/-- The passes that steps lead to. -/
def steps : List Step → State → List Pass × State
  | [], s => ([], s)
  | outside :: rest, s =>
    let (passes, s) := step s outside
    let (further, s) := steps rest s
    (passes ++ further, s)

/-- The passes in which nothing happens from outside, that many of them. -/
def idlePasses : Nat → State → List Pass × State
  | 0, s => ([], s)
  | n + 1, s =>
    let (noticed, s) := ({ s with server := s.server.sweep } : State).pass [] .idle
    let (passes, s) := idlePasses n s
    (noticed :: passes, s)

/-- How many passes it takes to send all that is waiting. -/
def passesToDrain (s : Server) : Nat :=
  let longest := (s.clients.map fun c => c.pending.length).foldl max 0
  (longest + Server.sendSize - 1) / Server.sendSize

/-- The passes from the start of the server to its end. -/
def passes (outside : List Step) (s : State) : List Pass × State :=
  let (first, s) := steps outside s
  let (idle, s) := idlePasses (passesToDrain s.server) s
  let (notices, server) := s.server.sweep.stop
  let s := { s with server }
  (first ++ idle ++ [s.collect [] notices], s)

/-! ### Whole sessions -/

/-- What a session leaves behind. -/
structure Outcome where
  /-- The exit code. -/
  code : Nat
  /-- What is written to standard output. -/
  output : Bytes
  /-- What is written to standard error. -/
  errors : Bytes
  /-- What is noticed, pass by pass. -/
  passes : List Pass
  /-- The network afterwards. -/
  network : Network

/-- A line of text. -/
def line (text : Bytes) : Bytes := text ++ [10]

/-- A session that fails before the first pass. -/
def fail (errors : Bytes) (n : Network) : Outcome := ⟨1, [], errors, [], n⟩

/-- A session of a server with the given store, once its command line is read and the remote store
was asked for a sign of life. -/
def listen (settings : Settings) (bindFault listenFault : Option SystemError) (host : Host)
    (warnings : Bytes) (outside : List Step) : Outcome :=
  match bindFault with
  | some e =>
    fail (warnings ++ line (Bytes.ofString "bind failed: " ++ e.message)) host.close.network
  | none =>
    let host := host.mapNetwork (·.note (.bind (UInt16.ofInt settings.port)))
    match listenFault with
    | some e =>
      fail (warnings ++ line (Bytes.ofString "listen failed: " ++ e.message)) host.close.network
    | none =>
      let (passes, s) := passes outside ⟨.ofHost settings host, []⟩
      let greeting := Bytes.ofString "tscache_server listening on " ++
        Decimal.ofInt settings.port ++ Bytes.ofString " backend " ++ RecordStore.name host
      ⟨0, line greeting ++ line (Bytes.ofString "tscache_server stopped"), warnings, passes,
        s.server.service.cache.store.network⟩

/-- A whole session.  A word of the command line ends at its first zero byte.  A number in a
settings file that is too large to be read is passed over, but it is a failure like any other. -/
def run (directory : Directory) (arguments : List Bytes) (n : Network)
    (bindFault listenFault : Option SystemError) (outside : List Step) : Outcome :=
  let arguments := arguments.map Bytes.untilZero
  match CommandLine.parse directory.read? arguments with
  | .error fault => fail (line fault.message) n
  | .ok settings =>
    let n := if CommandLine.isOversized directory.read? arguments then n.fail .outOfRange else n
    match Host.ofSettings settings n with
    | .error message => fail (line message) n
    | .ok host =>
      let (sign, host) := host.ping
      let warnings := match sign with
        | .error e => line (Bytes.ofString "warning: " ++ e.message)
        | .ok () => []
      listen settings bindFault listenFault host warnings outside

end Session

end CoherentCache
