import CoherentCache.Decimal
import CoherentCache.Instant
import CoherentCache.Network.Event
import CoherentCache.Network.Failure

/-!
# The network

The network is taken as data: what the resolver answers, what becomes of each attempt to open a
connection, and, for a connection that opens, what every send and every receive on it is given.
Programs that use the network are then functions of that data, and a statement about every
behaviour of the network is a statement about every value of `Network`.

* `Network.reach` : try to open a connection to an address.
* `Network.reachFirst` : try addresses in turn.
* `Network.reachAtOnce` : try to open a connection without waiting for it.
* `Link` : an open connection, as the calls on it that are still to come.
-/

namespace CoherentCache

/-- What a send is given. -/
inductive Sending where
  /-- Not more than that many bytes are taken. -/
  | takes (limit : Nat)
  /-- The call fails. -/
  | fails (e : SystemError)
deriving DecidableEq

/-- What a receive is given. -/
inductive Receipt where
  /-- Data arrives. -/
  | data (bytes : Bytes)
  /-- The call fails. -/
  | fails (e : SystemError)
  /-- The peer has closed the connection. -/
  | ended
  /-- Some microseconds pass, and what comes next is given then. -/
  | pause (micros : Int64)
deriving DecidableEq

/-- An open connection: what the calls on it will be given.  When the list is used up, a send takes
everything and a receive has nothing to wait for. -/
structure Link where
  /-- What the sends to come are given. -/
  sendings : List Sending
  /-- What the receives to come are given. -/
  receipts : List Receipt
deriving DecidableEq

/-- What becomes of data in a send: what was taken, or nothing when the send failed.  A send that is
given nothing in particular takes everything. -/
def Sending.taken (data : Bytes) : Option Sending → Option Bytes
  | none => some data
  | some (.takes limit) => some (data.take limit)
  | some (.fails _) => none

namespace Receipt

/-- A receipt as receives see it that take at most `size` bytes each. -/
def pieces (size : Nat) : Receipt → List Receipt
  | .data bytes => if bytes.isEmpty then [.ended] else (Bytes.pieces size bytes).map .data
  | r => [r]

end Receipt

namespace Link

/-- The connection as receives see it that take at most `size` bytes each. -/
def inPieces (size : Nat) (l : Link) : Link :=
  { l with receipts := l.receipts.flatMap (Receipt.pieces size) }

end Link

/-- What becomes of an attempt to open a connection. -/
inductive Attempt where
  /-- There is no socket to be had. -/
  | noSocket (e : SystemError)
  /-- The connection fails at once. -/
  | fails (e : SystemError)
  /-- The connection stays under way for as long as it is waited for. -/
  | neverReady
  /-- The connection is under way, and waiting for it fails. -/
  | waitFails (e : SystemError)
  /-- The connection is under way, and fails then. -/
  | failsLate (e : SystemError)
  /-- The connection opens, at once or after being under way. -/
  | opens (late : Bool) (link : Link)
deriving DecidableEq

/-- Why a connection was not made. -/
inductive ConnectFault where
  /-- The host name was not resolved. -/
  | resolve (host : Bytes) (e : ResolverError)
  /-- No socket was to be had. -/
  | socket (e : SystemError)
  /-- The connection failed. -/
  | connect (e : SystemError)
  /-- The connection was not made in time. -/
  | timedOut
  /-- Waiting for the connection failed. -/
  | wait (e : SystemError)
deriving DecidableEq

/-- The fault in words. -/
def ConnectFault.message : ConnectFault → Bytes
  | .resolve host e => Bytes.ofString "resolve " ++ host ++ Bytes.ofString ": " ++ e.message
  | .socket e => Bytes.ofString "socket: " ++ e.message
  | .connect e => Bytes.ofString "connect: " ++ e.message
  | .timedOut => Bytes.ofString "connect: timed out"
  | .wait e => Bytes.ofString "poll: " ++ e.message

/-- The network, with the clock that its delays move. -/
structure Network where
  /-- What the clock shows. -/
  now : Instant
  /-- How many addresses the resolver knows for a host, whatever its name. -/
  addresses : Except ResolverError Nat
  /-- What becomes of the attempts to come.  When the list is used up, connections are refused. -/
  attempts : List Attempt
  /-- What happened so far, the newest event first. -/
  events : List NetworkEvent
  /-- The last failure that a call to the system met, on whatever connection.  Calls that come off
  leave it as it is. -/
  lastFailure : Option SystemError

namespace Network

/-- Notes an event. -/
def note (n : Network) (e : NetworkEvent) : Network := { n with events := e :: n.events }

/-- A call fails. -/
def fail (n : Network) (e : SystemError) : Network := { n with lastFailure := some e }

/-- Lets microseconds pass. -/
def pause (n : Network) (micros : Int64) : Network := { n with now := n.now.addMicros micros }

/-- Lets nanoseconds pass. -/
def advance (n : Network) (nanos : Int64) : Network := { n with now := n.now.addNanos nanos }

/-- The outward view of what happened so far, the oldest event first. -/
def outward (n : Network) : List NetworkEvent := NetworkEvent.outward n.events.reverse

/-- Forgets what happened so far. -/
def forget (n : Network) : Network := { n with events := [] }

/-- The addresses of a host, `10.0.0.1` and so on. -/
def addressesOf (count : Nat) : List Bytes :=
  (List.range count).map fun i => Bytes.ofString "10.0.0." ++ Decimal.ofNat (i + 1)

/-- Tries to open a connection to an address.  A connection under way is waited for, `timeout`
milliseconds at most.  A socket that does not become a connection is closed. -/
def reach (n : Network) (address : Bytes) (port : Int) (timeout : UInt64) :
    Except ConnectFault Link × Network :=
  let asked := fun (rest : List Attempt) (progress : Progress) =>
    ({ n with attempts := rest } : Network).note (.connect address (UInt16.ofInt port) progress)
  let waited := fun (rest : List Attempt) =>
    ((asked rest .pending).fail .inProgress).note (.wait (Int32.ofNat timeout.toNat))
  match n.attempts with
  | [] =>
    (.error (.connect .connectionRefused),
      ((asked [] .failed).fail .connectionRefused).note .close)
  | .noSocket e :: rest =>
    (.error (.socket e), (({ n with attempts := rest } : Network).fail e).note .noSocket)
  | .fails e :: rest => (.error (.connect e), ((asked rest .failed).fail e).note .close)
  | .neverReady :: rest => (.error .timedOut, (waited rest).note .close)
  | .waitFails e :: rest => (.error (.wait e), ((waited rest).fail e).note .close)
  | .failsLate e :: rest => (.error (.connect e), (waited rest).note .close)
  | .opens late link :: rest => (.ok link, if late then waited rest else asked rest .done)

/-- Tries to make a socket. -/
def takeSocket (n : Network) : Bool × Network :=
  match n.attempts with
  | .noSocket e :: rest =>
    (false, (({ n with attempts := rest } : Network).fail e).note .noSocket)
  | _ => (true, n)

/-- Asks for a connection to an address and gives up unless it opens at once. -/
def reachAtOnce (n : Network) (address : Bytes) (port : Int) : Option Link × Network :=
  let asked := fun (rest : List Attempt) (progress : Progress) =>
    ({ n with attempts := rest } : Network).note (.connect address (UInt16.ofInt port) progress)
  match n.attempts with
  | [] => (none, (asked [] .failed).fail .connectionRefused)
  | .opens false link :: rest => (some link, asked rest .done)
  | .noSocket e :: rest | .fails e :: rest => (none, (asked rest .failed).fail e)
  | _ :: rest => (none, (asked rest .pending).fail .inProgress)

/-- Tries addresses in turn until a connection opens.  The faults on the way are given in order. -/
def reachFirst (port : Int) (timeout : UInt64) :
    List Bytes → Network → (List ConnectFault × Option Link) × Network
  | [], n => (([], none), n)
  | address :: rest, n =>
    match n.reach address port timeout with
    | (.ok link, n) => (([], some link), n)
    | (.error fault, n) =>
      let ((faults, link), n) := reachFirst port timeout rest n
      ((fault :: faults, link), n)

end Network

end CoherentCache
