import CoherentCache.Proofs.Remote.Exchanges

/-!
# No socket is lost

A connection is made of sockets, which the system hands out by number: one is made for each address
that is tried, and whoever holds it has to close it, once.  Here a connection is followed system
call by system call.  An attempt makes a socket, asks for the connection and waits for it.  It can
be left in seven ways, and in four of them there is a socket that has to be closed.  A connection
holds the number of its socket until it is closed, replaced or given up in the middle of a call.

Told in this way, a connection behaves like `Connection`: taking the numbers away turns each of its
functions into the one that is run.  What the numbers add is that a call to close names the socket
that is closed.  The invariant says that sockets take turns, which is kept by every way out of an
attempt, by every round of the loop over the addresses and by every use.  It needs nothing to be
known of the numbers: a new socket may well get the number of one that was closed.

* `Sockets` : the network with the sockets that were made and closed on it, and
  `Sockets.connectWithin` : an attempt.
* `Connection.Wired` : a connection that holds a socket by its number.
* `Sockets.connectWithin_reach`, `Connection.Wired.use_plain` : without the numbers it is a
  connection as it runs.
* `Sockets.Kept` : the invariant, kept by every use (`kept_use`) and so by every run
  (`kept_through`).
* `Connection.Wired.sockets_take_turns` : no socket is lost or closed twice, and at most one is open
  at a time.
-/

namespace CoherentCache

/-! ### Calls that make and close sockets -/

/-- What is done to a socket. -/
inductive SocketDeed where
  /-- The socket is made. -/
  | made
  /-- The socket is closed. -/
  | closed
deriving DecidableEq

/-- A call that makes or closes a socket. -/
structure SocketCall where
  /-- What is done. -/
  deed : SocketDeed
  /-- The number of the socket. -/
  number : Nat
deriving DecidableEq

/-- The numbers of the sockets that are open after some calls, of which the latest is first. -/
def openSockets : List SocketCall → List Nat
  | [] => []
  | ⟨.made, d⟩ :: before => d :: openSockets before
  | ⟨.closed, d⟩ :: before => (openSockets before).erase d

/-- Sockets take turns: each is closed before the next one is made, and the last one may be held
yet. -/
inductive InTurn : Option Nat → List SocketCall → Prop
  | nil : InTurn none []
  | made {calls : List SocketCall} (d : Nat) :
    InTurn none calls → InTurn (some d) (⟨.made, d⟩ :: calls)
  | closed {calls : List SocketCall} {d : Nat} :
    InTurn (some d) calls → InTurn none (⟨.closed, d⟩ :: calls)

namespace InTurn

variable {held : Option Nat} {calls : List SocketCall}

/-- What is open is what is held. -/
theorem openSockets_eq (h : InTurn held calls) : openSockets calls = held.toList := by
  induction h with
  | nil => rfl
  | made d _ ih => rw [openSockets, ih]; rfl
  | closed _ ih => rw [openSockets, ih]; exact List.erase_cons_head ..

/-- Sockets took turns at any time before. -/
theorem drop (h : InTurn held calls) (k : Nat) : ∃ before, InTurn before (calls.drop k) := by
  induction k generalizing held calls with
  | zero => exact ⟨held, h⟩
  | succ k ih =>
    cases h with
    | nil => exact ⟨none, .nil⟩
    | made d h => exact ih h
    | closed h => exact ih h

theorem length_openSockets_le (h : InTurn held calls) : (openSockets calls).length ≤ 1 := by
  rw [h.openSockets_eq]
  cases held <;> simp

/-- The calls of sockets that take turns, the oldest call first. -/
theorem exists_turns (h : InTurn held calls) :
    ∃ ds : List Nat, calls.reverse =
      ds.flatMap (fun d => [⟨.made, d⟩, ⟨.closed, d⟩]) ++ held.toList.map (⟨.made, ·⟩) := by
  induction h with
  | nil => exact ⟨[], rfl⟩
  | made d _ ih =>
    obtain ⟨ds, hds⟩ := ih
    exact ⟨ds, by rw [List.reverse_cons, hds]; simp⟩
  | @closed _ d _ ih =>
    obtain ⟨ds, hds⟩ := ih
    refine ⟨ds ++ [d], ?_⟩
    rw [List.reverse_cons, hds]
    simp

end InTurn

namespace Network

/-- What an event shows of a socket.  A socket is first seen when it is asked to connect. -/
def socketDeed? : NetworkEvent → Option SocketDeed
  | .connect .. => some .made
  | .close => some .closed
  | _ => none

/-- What the log shows of sockets, the latest first. -/
def socketDeeds (n : Network) : List SocketDeed := n.events.filterMap socketDeed?

theorem socketDeeds_foldl_send (taken : List Bytes) (n : Network) :
    (taken.foldl (fun n data => n.note (.send data)) n).socketDeeds = n.socketDeeds :=
  apply_foldl_send socketDeeds (fun _ _ => rfl) taken n

end Network

/-! ### An attempt, call by call -/

/-- An open connection with the number of its socket. -/
structure Socket where
  /-- The number. -/
  number : Nat
  /-- The connection. -/
  link : Link

/-- The network with the sockets on it. -/
structure Sockets where
  /-- The network. -/
  network : Network
  /-- Which number a new socket gets, after the calls that were made. -/
  allot : List SocketCall → Nat
  /-- The calls that made and closed sockets, the latest first. -/
  calls : List SocketCall

namespace Sockets

/-- The same sockets, after something happened on the network that is not about them. -/
def on (s : Sockets) (n : Network) : Sockets := { s with network := n }

/-- What a connection under way will come to. -/
inductive Prospect where
  /-- It stays under way. -/
  | never
  /-- Waiting for it fails. -/
  | waitFails (e : SystemError)
  /-- It is decided: it fails or opens. -/
  | decided (result : Except SystemError Link)

/-- What a call that asks for a connection is told. -/
inductive Asked where
  /-- The connection is open. -/
  | done (link : Link)
  /-- The connection is under way. -/
  | pending (prospect : Prospect)
  /-- The call fails. -/
  | failed (e : SystemError)

/-- What a call that waits for a connection is told. -/
inductive Awaited where
  /-- The time is over. -/
  | timedOut
  /-- The call fails. -/
  | failed (e : SystemError)
  /-- The connection is no longer under way, and this is what the socket says of it. -/
  | ready (result : Except SystemError Link)

/-- Makes a socket. -/
def make (s : Sockets) : Except SystemError Nat × Sockets :=
  match s.network.attempts with
  | .noSocket e :: rest =>
    (.error e, s.on ((({ s.network with attempts := rest } : Network).fail e).note .noSocket))
  | _ => (.ok (s.allot s.calls), { s with calls := ⟨.made, s.allot s.calls⟩ :: s.calls })

/-- Closes a socket. -/
def shut (s : Sockets) (d : Nat) : Sockets :=
  { s with network := s.network.note .close, calls := ⟨.closed, d⟩ :: s.calls }

/-- Asks for a connection to an address. -/
def ask (s : Sockets) (address : Bytes) (port : Int) : Asked × Sockets :=
  let asked := fun (rest : List Attempt) (progress : Progress) =>
    ({ s.network with attempts := rest } : Network).note
      (.connect address (UInt16.ofInt port) progress)
  let failed := fun (rest : List Attempt) (e : SystemError) =>
    (Asked.failed e, s.on ((asked rest .failed).fail e))
  let pending := fun (rest : List Attempt) (prospect : Prospect) =>
    (Asked.pending prospect, s.on ((asked rest .pending).fail .inProgress))
  match s.network.attempts with
  | [] => failed [] .connectionRefused
  | .noSocket e :: rest | .fails e :: rest => failed rest e
  | .neverReady :: rest => pending rest .never
  | .waitFails e :: rest => pending rest (.waitFails e)
  | .failsLate e :: rest => pending rest (.decided (.error e))
  | .opens true link :: rest => pending rest (.decided (.ok link))
  | .opens false link :: rest => (.done link, s.on (asked rest .done))

/-- Waits for a connection under way, `timeout` milliseconds at most. -/
def await (s : Sockets) (timeout : UInt64) (prospect : Prospect) : Awaited × Sockets :=
  let n := s.network.note (.wait (Int32.ofNat timeout.toNat))
  match prospect with
  | .never => (.timedOut, s.on n)
  | .waitFails e => (.failed e, s.on (n.fail e))
  | .decided result => (.ready result, s.on n)

/-- Tries to open a connection to an address.  On every way out on which there is none, the socket
is closed, if there is one. -/
def connectWithin (s : Sockets) (address : Bytes) (port : Int) (timeout : UInt64) :
    Except ConnectFault Socket × Sockets :=
  match s.make with
  | (.error e, s) => (.error (.socket e), s)
  | (.ok d, s) =>
    match s.ask address port with
    | (.done link, s) => (.ok ⟨d, link⟩, s)
    | (.failed e, s) => (.error (.connect e), s.shut d)
    | (.pending prospect, s) =>
      match s.await timeout prospect with
      | (.timedOut, s) => (.error .timedOut, s.shut d)
      | (.failed e, s) => (.error (.wait e), s.shut d)
      | (.ready (.error e), s) => (.error (.connect e), s.shut d)
      | (.ready (.ok link), s) => (.ok ⟨d, link⟩, s)

/-- Tries addresses in turn until a connection opens. -/
def connectFirst (port : Int) (timeout : UInt64) :
    List Bytes → Sockets → (List ConnectFault × Option Socket) × Sockets
  | [], s => (([], none), s)
  | address :: rest, s =>
    match s.connectWithin address port timeout with
    | (.ok k, s) => (([], some k), s)
    | (.error fault, s) =>
      let ((faults, k), s) := connectFirst port timeout rest s
      ((fault :: faults, k), s)

/-- Without the numbers, an attempt is the one that is run. -/
theorem connectWithin_reach (s : Sockets) (address : Bytes) (port : Int) (timeout : UInt64) :
    ((s.connectWithin address port timeout).1.map Socket.link,
        (s.connectWithin address port timeout).2.network) =
      s.network.reach address port timeout := by
  obtain ⟨⟨now, addresses, attempts, events, lastFailure⟩, allot, calls⟩ := s
  rcases attempts with _ | ⟨_ | _ | _ | _ | _ | ⟨_ | _, _⟩, _⟩ <;> rfl

theorem connectFirst_reachFirst (port : Int) (timeout : UInt64) (addresses : List Bytes)
    (s : Sockets) :
    (((connectFirst port timeout addresses s).1.1,
          (connectFirst port timeout addresses s).1.2.map Socket.link),
        (connectFirst port timeout addresses s).2.network) =
      Network.reachFirst port timeout addresses s.network := by
  induction addresses generalizing s with
  | nil => rfl
  | cons address rest ih =>
    rw [connectFirst, Network.reachFirst, ← connectWithin_reach]
    rcases s.connectWithin address port timeout with ⟨fault | k, s⟩
    · simp only [Except.map, ← ih s]
    · rfl

/-- Sockets took turns, the log shows as much, and the one that is held is the one that is open. -/
structure Kept (held : Option Nat) (s : Sockets) : Prop where
  /-- Sockets took turns. -/
  inTurn : InTurn held s.calls
  /-- The log shows each of them. -/
  socketDeeds_eq : s.network.socketDeeds = s.calls.map SocketCall.deed

namespace Kept

variable {held : Option Nat} {s : Sockets} {d : Nat}

/-- What shows no socket may happen at any time. -/
theorem quiet (h : Kept held s) {n : Network} (hn : n.socketDeeds = s.network.socketDeeds) :
    Kept held (s.on n) := ⟨h.inTurn, hn.trans h.socketDeeds_eq⟩

/-- The socket that is held may be closed. -/
theorem shut (h : Kept (some d) s) : Kept none (s.shut d) :=
  ⟨.closed h.inTurn, congrArg (SocketDeed.closed :: ·) h.socketDeeds_eq⟩

/-- When no socket is held, one may be made; it shows in the log when it is asked to connect. -/
theorem made (h : Kept none s) {n : Network} (hn : n.socketDeeds = .made :: s.network.socketDeeds) :
    Kept (some d) { s with network := n, calls := ⟨.made, d⟩ :: s.calls } :=
  ⟨.made d h.inTurn, hn.trans (congrArg (SocketDeed.made :: ·) h.socketDeeds_eq)⟩

end Kept

/-- What is asked for shows in the log. -/
theorem socketDeeds_ask (s : Sockets) (address : Bytes) (port : Int) :
    (s.ask address port).2 = s.on (s.ask address port).2.network ∧
      (s.ask address port).2.network.socketDeeds = .made :: s.network.socketDeeds := by
  obtain ⟨⟨now, addresses, attempts, events, lastFailure⟩, allot, calls⟩ := s
  rcases attempts with _ | ⟨_ | _ | _ | _ | _ | ⟨_ | _, _⟩, _⟩ <;> exact ⟨rfl, rfl⟩

variable {s : Sockets}

/-- A socket that was made is held once it was asked to connect. -/
theorem kept_make_ask (h : Kept none s) (address : Bytes) (port : Int) :
    match s.make with
    | (.error _, s) => Kept none s
    | (.ok d, s) => Kept (some d) (s.ask address port).2 := by
  have hmade : Kept (some (s.allot s.calls))
      (ask { s with calls := ⟨.made, s.allot s.calls⟩ :: s.calls } address port).2 := by
    obtain ⟨hrest, hdeeds⟩ := socketDeeds_ask
      { s with calls := ⟨.made, s.allot s.calls⟩ :: s.calls } address port
    rw [hrest]
    exact h.made hdeeds
  unfold make
  rcases s.network.attempts with _ | ⟨_ | _ | _ | _ | _ | _, _⟩
  case cons.noSocket => exact h.quiet rfl
  all_goals exact hmade

/-- Waiting makes and closes nothing. -/
theorem kept_await {held : Option Nat} (h : Kept held s) (timeout : UInt64) (prospect : Prospect) :
    Kept held (s.await timeout prospect).2 := by
  cases prospect <;> exact h.quiet rfl

/-- **An attempt that fails leaves no socket behind**, and one that comes off leaves its own. -/
theorem kept_connectWithin (h : Kept none s) (address : Bytes) (port : Int) (timeout : UInt64) :
    match s.connectWithin address port timeout with
    | (.error _, s) => Kept none s
    | (.ok k, s) => Kept (some k.number) s := by
  have hask := kept_make_ask h address port
  unfold connectWithin
  generalize s.make = made at hask ⊢
  rcases made with ⟨e | d, s⟩
  · exact hask
  · dsimp only at hask ⊢
    generalize s.ask address port = asked at hask ⊢
    rcases asked with ⟨link | prospect | e, s⟩
    · exact hask
    · have hawait := kept_await hask timeout prospect
      -- Waiting is over, and there are four ways out.
      dsimp only at hawait ⊢
      generalize s.await timeout prospect = awaited at hawait ⊢
      rcases awaited with ⟨_ | e | ⟨e | link⟩, s⟩
      · exact hawait.shut
      · exact hawait.shut
      · exact hawait.shut
      · exact hawait
    · exact hask.shut

/-- So does a loop over addresses: before each round nothing is held. -/
theorem kept_connectFirst (h : Kept none s) (port : Int) (timeout : UInt64)
    (addresses : List Bytes) :
    Kept ((connectFirst port timeout addresses s).1.2.map Socket.number)
      (connectFirst port timeout addresses s).2 := by
  induction addresses generalizing s with
  | nil => exact h
  | cons address rest ih =>
    have hattempt := kept_connectWithin h address port timeout
    rw [connectFirst]
    generalize s.connectWithin address port timeout = attempt at hattempt ⊢
    rcases attempt with ⟨fault | k, s⟩
    · exact ih hattempt
    · exact hattempt

end Sockets

/-! ### A connection that holds a socket -/

namespace Connection

theorem socketDeeds_wait (n : Network) (replies : ReplyStream) (receipts : List Receipt) :
    (wait n replies receipts).network.socketDeeds = n.socketDeeds :=
  apply_wait Network.socketDeeds (fun _ _ => rfl) (fun _ _ => rfl) (fun _ _ => rfl) n replies
    receipts

/-- A connection that holds a socket, with the network and all sockets on it. -/
structure Wired where
  /-- The socket, if the connection is open. -/
  socket : Option Socket
  /-- What was received and not used up. -/
  replies : ReplyStream
  /-- The network with the sockets on it. -/
  sockets : Sockets

/-- Lets the resolver answer this from now on. -/
def Linked.resolving (l : Linked) (answer : Except ResolverError Nat) : Linked :=
  { l with network := { l.network with addresses := answer } }

/-- Uses a connection many times.  The resolver may answer differently each time. -/
def Linked.through (l : Linked) : List (Except ResolverError Nat × Linked.Use) → List Told × Linked
  | [] => ([], l)
  | (answer, u) :: rest =>
    let (told, l) := (l.resolving answer).use u
    let (tolds, l) := l.through rest
    (told :: tolds, l)

namespace Wired

/-- The connection as it runs, without numbers. -/
def plain (w : Wired) : Linked := ⟨⟨w.socket.map Socket.link, w.replies⟩, w.sockets.network⟩

/-- The number of the socket that the connection holds. -/
def held (w : Wired) : Option Nat := w.socket.map Socket.number

/-- The same connection, after something happened on the network. -/
def on (w : Wired) (n : Network) : Wired := { w with sockets := w.sockets.on n }

/-- Closes the socket, if there is one. -/
def close (w : Wired) : Wired where
  socket := none
  replies := .empty
  sockets := match w.socket with
    | none => w.sockets
    | some k => w.sockets.shut k.number

/-- Closes what is open, looks up the host and tries its addresses in turn. -/
def connect (w : Wired) (target : RemoteSettings) : List ConnectFault × Wired :=
  let s := w.close.sockets
  let s := s.on (s.network.note (.resolve target.host.untilZero (Decimal.ofInt target.port)))
  match s.network.addresses with
  | .error e => ([.resolve target.host e], ⟨none, .empty, s⟩)
  | .ok count =>
    match Sockets.connectFirst target.port target.connectTimeout (Network.addressesOf count) s with
    | ((faults, none), s) => (faults, ⟨none, .empty, s⟩)
    | ((faults, some k), s) =>
      (faults, ⟨some ⟨k.number, k.link.inPieces receiveSize⟩, .empty,
        s.on (limitTimes target.ioTimeout s.network)⟩)

/-- Sends a request and waits for its reply.  Whatever goes wrong, the socket is closed. -/
def call (w : Wired) (request : List Bytes) : Except Failure Reply × Wired :=
  match w.socket with
  | none => (.error .notConnected, w)
  | some k =>
    let n := w.sockets.network
    let d := deliver n.lastFailure k.link.sendings (Wire.command request)
    let n := { n with lastFailure := d.lastFailure }
    let n := d.taken.foldl (fun n data => n.note (.send data)) n
    match d.failure with
    | some failure => (.error failure, (w.on n).close)
    | none =>
      let waited := wait n w.replies k.link.receipts
      match waited.result with
      | .ok reply =>
        (.ok reply, ⟨some ⟨k.number, ⟨d.sendings, waited.receipts⟩⟩, waited.replies,
          w.sockets.on waited.network⟩)
      | .error failure => (.error failure, (w.on waited.network).close)

/-- Uses the connection. -/
def use (w : Wired) : Linked.Use → Told × Wired
  | .connect target =>
    let (faults, w) := w.connect target
    (.connect w.socket.isSome faults, w)
  | .call request =>
    let (result, w) := w.call request
    (.call result, w)
  | .close => (.closed, w.close)

/-- Lets the resolver answer this from now on. -/
def resolving (w : Wired) (answer : Except ResolverError Nat) : Wired :=
  w.on { w.sockets.network with addresses := answer }

/-- Uses the connection many times.  The resolver may answer differently each time. -/
def through (w : Wired) : List (Except ResolverError Nat × Linked.Use) → List Told × Wired
  | [] => ([], w)
  | (answer, u) :: rest =>
    let (told, w) := (w.resolving answer).use u
    let (tolds, w) := w.through rest
    (told :: tolds, w)

/-- A connection that was not opened yet, on a network with an empty log and no sockets. -/
def fresh (n : Network) (allot : List SocketCall → Nat) : Wired :=
  ⟨none, .empty, ⟨n.forget, allot, []⟩⟩

/-! ### Without the numbers -/

@[simp] theorem isOpen_plain (w : Wired) : w.plain.connection.isOpen = w.socket.isSome :=
  Option.isSome_map

theorem close_plain (w : Wired) :
    w.plain.connection.close w.plain.network =
      (w.close.plain.connection, w.close.plain.network) := by
  obtain ⟨_ | k, replies, s⟩ := w <;> rfl

theorem connect_plain (w : Wired) (target : RemoteSettings) :
    w.plain.connection.connect target w.plain.network =
      ((w.connect target).1, (w.connect target).2.plain.connection,
        (w.connect target).2.plain.network) := by
  simp only [Connection.connect, Wired.connect, close_plain]
  generalize hs : w.close.sockets.on _ = s
  have hn : w.close.plain.network.note
      (.resolve target.host.untilZero (Decimal.ofInt target.port)) = s.network := by
    rw [← hs]
    rfl
  rw [hn]
  cases s.network.addresses with
  | error e => rfl
  | ok count =>
    dsimp only
    rw [← Sockets.connectFirst_reachFirst]
    generalize Sockets.connectFirst target.port target.connectTimeout _ s = found
    obtain ⟨⟨faults, _ | k⟩, s⟩ := found <;> rfl

theorem call_plain (w : Wired) (request : List Bytes) :
    w.plain.connection.call w.plain.network request =
      ((w.call request).1, (w.call request).2.plain.connection,
        (w.call request).2.plain.network) := by
  obtain ⟨_ | k, replies, s⟩ := w
  · rfl
  · simp only [Connection.call, Wired.call, plain, Option.map_some]
    generalize deliver s.network.lastFailure k.link.sendings (Wire.command request) = d
    cases d.failure with
    | some failure => rfl
    | none =>
      generalize wait _ replies k.link.receipts = waited
      dsimp only
      cases waited.result with
      | ok reply => rfl
      | error failure => rfl

/-- **Without the numbers a use is the one that is run.** -/
theorem use_plain (w : Wired) (u : Linked.Use) :
    w.plain.use u = ((w.use u).1, (w.use u).2.plain) := by
  cases u with
  | connect target => simp only [Linked.use, connect_plain, use, isOpen_plain]
  | call request => simp only [Linked.use, call_plain, use]
  | close => simp only [Linked.use, close_plain, use]

/-- So is a run. -/
theorem through_plain (w : Wired) (steps : List (Except ResolverError Nat × Linked.Use)) :
    w.plain.through steps = ((w.through steps).1, (w.through steps).2.plain) := by
  induction steps generalizing w with
  | nil => rfl
  | cons step rest ih =>
    obtain ⟨answer, u⟩ := step
    have huse : (w.plain.resolving answer).use u =
        (((w.resolving answer).use u).1, ((w.resolving answer).use u).2.plain) :=
      use_plain (w.resolving answer) u
    simp only [Linked.through, through, huse, ih]

/-! ### Sockets take turns -/

/-- Sockets took turns, and the one that the connection holds is the one that is open. -/
def Kept (w : Wired) : Prop := w.sockets.Kept w.held

variable {w : Wired}

theorem kept_fresh (n : Network) (allot : List SocketCall → Nat) : (fresh n allot).Kept :=
  ⟨.nil, rfl⟩

/-- A socket that is held is closed when the connection is. -/
theorem kept_close (h : w.Kept) : w.close.Kept := by
  obtain ⟨_ | k, replies, s⟩ := w
  · exact h
  · exact h.shut

/-- A connection that is asked for takes the place of one whose socket was closed. -/
theorem kept_connect (h : w.Kept) (target : RemoteSettings) : (w.connect target).2.Kept := by
  have hnoted (host port : Bytes) :
      (w.close.sockets.on (w.close.sockets.network.note (.resolve host port))).Kept none :=
    Sockets.Kept.quiet (kept_close h) rfl
  unfold connect
  dsimp only
  split
  · exact hnoted ..
  · next count _ =>
    have hfirst := Sockets.kept_connectFirst
      (hnoted target.host.untilZero (Decimal.ofInt target.port)) target.port target.connectTimeout
      (Network.addressesOf count)
    split
    · next hfound =>
      rw [hfound] at hfirst
      exact hfirst
    · next hfound =>
      rw [hfound] at hfirst
      exact hfirst.quiet rfl

/-- A call keeps its socket or closes it. -/
theorem kept_call (h : w.Kept) (request : List Bytes) : (w.call request).2.Kept := by
  obtain ⟨_ | k, replies, s⟩ := w
  · exact h
  · unfold call
    dsimp only
    generalize deliver s.network.lastFailure k.link.sendings (Wire.command request) = d
    generalize hn : d.taken.foldl (fun (n : Network) data => n.note (.send data))
      { s.network with lastFailure := d.lastFailure } = n
    have hsent : n.socketDeeds = s.network.socketDeeds :=
      hn ▸ Network.socketDeeds_foldl_send d.taken { s.network with lastFailure := d.lastFailure }
    have hwaited := (socketDeeds_wait n replies k.link.receipts).trans hsent
    split
    · exact kept_close (w := Wired.on ⟨some k, replies, s⟩ n) (h.quiet hsent)
    · split
      · exact h.quiet hwaited
      · exact kept_close (w := Wired.on ⟨some k, replies, s⟩ _) (h.quiet hwaited)

/-- **Every use lets sockets take turns.** -/
theorem kept_use (h : w.Kept) (u : Linked.Use) : (w.use u).2.Kept := by
  cases u with
  | connect target => exact kept_connect h target
  | call request => exact kept_call h request
  | close => exact kept_close h

/-- So does every run. -/
theorem kept_through (h : w.Kept) (steps : List (Except ResolverError Nat × Linked.Use)) :
    (w.through steps).2.Kept := by
  induction steps generalizing w with
  | nil => exact h
  | cons step rest ih =>
    obtain ⟨answer, u⟩ := step
    have hanswered : (w.resolving answer).Kept := h.quiet rfl
    exact ih (kept_use hanswered u)

/-- **No socket is lost.**  A run on sockets is the run of the connection, with numbers for the
sockets: any numbers, also one again that was closed.  After any run, in which the resolver, each
attempt, each send and each receive may come off in any way,

* each socket that was made was closed, once, before the next one was made, except that the last one
  may be open yet;
* at no time was more than one open;
* the one that the connection holds is the one that is open, and the connection is open just when
  there is one;
* the log of the network shows these sockets and no others;
* when the connection is closed then, none is left. -/
theorem sockets_take_turns (n : Network) (allot : List SocketCall → Nat)
    (steps : List (Except ResolverError Nat × Linked.Use)) :
    let (answers, w) := (fresh n allot).through steps
    let l := ((Linked.fresh n).through steps).2
    (Linked.fresh n).through steps = (answers, w.plain) ∧
      (∃ ds : List Nat, w.sockets.calls.reverse =
        ds.flatMap (fun d => [⟨.made, d⟩, ⟨.closed, d⟩]) ++ w.held.toList.map (⟨.made, ·⟩)) ∧
      (∀ k : Nat, (openSockets (w.sockets.calls.drop k)).length ≤ 1) ∧
      openSockets w.sockets.calls = w.held.toList ∧
      (l.connection.isOpen = true ↔ openSockets w.sockets.calls ≠ []) ∧
      l.network.socketDeeds = w.sockets.calls.map SocketCall.deed ∧
      openSockets w.close.sockets.calls = [] := by
  have hplain : (Linked.fresh n).through steps = _ := through_plain (fresh n allot) steps
  have hkept := kept_through (kept_fresh n allot) steps
  rw [hplain]
  generalize (fresh n allot).through steps = run at hkept ⊢
  obtain ⟨answers, w⟩ := run
  have hopen : openSockets w.sockets.calls = w.held.toList := hkept.inTurn.openSockets_eq
  refine ⟨rfl, hkept.inTurn.exists_turns, ?_, hopen, ?_, hkept.socketDeeds_eq, ?_⟩
  · intro k
    obtain ⟨before, hbefore⟩ := hkept.inTurn.drop k
    exact hbefore.length_openSockets_le
  · rw [hopen, isOpen_plain, held]
    cases w.socket <;> simp
  · exact (kept_close hkept).inTurn.openSockets_eq

/-- An attempt for each way out, then one that opens and is lost in a call, and one that opens and
is kept. -/
def everyWayOut : Network :=
  ⟨⟨0⟩, .ok 0, [.noSocket .tooManyFiles, .fails .connectionRefused, .neverReady,
    .waitFails .interrupted, .failsLate .connectionRefused,
    .opens true ⟨[.fails .wouldBlock], []⟩, .opens false ⟨[], []⟩], [], none⟩

/-- There was no socket for the first attempt, and the last one of the six others is open yet. -/
example : ((fresh everyWayOut List.length).through [(.ok 6, .connect {}), (.ok 6, .call [[65]]),
    (.ok 1, .connect {})]).2.sockets.calls.reverse =
      [⟨.made, 0⟩, ⟨.closed, 0⟩, ⟨.made, 2⟩, ⟨.closed, 2⟩, ⟨.made, 4⟩, ⟨.closed, 4⟩,
        ⟨.made, 6⟩, ⟨.closed, 6⟩, ⟨.made, 8⟩, ⟨.closed, 8⟩, ⟨.made, 10⟩] := by
  decide +kernel

end Wired

end Connection

end CoherentCache
