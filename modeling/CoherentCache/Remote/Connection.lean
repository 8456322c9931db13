import CoherentCache.Network
import CoherentCache.Resp.Stream
import CoherentCache.Settings

/-!
# Connections to a remote store

A connection carries one request at a time: the request is sent in full, and then one reply is
waited for.  Whatever goes wrong on the way closes the connection, so that a late reply can never be
taken for the answer to a later request.

* `Connection.connect` : close what is open and open a new connection.
* `Connection.call` : send a request and wait for its reply.
* `Connection.Failure` : why there is no reply.
-/

namespace CoherentCache

/-- A connection to a remote store, open or not. -/
structure Connection where
  /-- The open link, if there is one. -/
  link : Option Link
  /-- What was received on the link and not used up. -/
  replies : ReplyStream

namespace Connection

/-- A connection that is not open. -/
def closed : Connection := ⟨none, .empty⟩

/-- The connection is open. -/
def isOpen (c : Connection) : Bool := c.link.isSome

/-- How many bytes one receive takes at most. -/
def receiveSize : Nat := 16384

/-- Closes the connection, if it is open. -/
def close (c : Connection) (n : Network) : Connection × Network :=
  (.closed, if c.isOpen then n.note .close else n)

/-- Sets how long a send and a receive on a new connection may take. -/
def limitTimes (millis : UInt64) (n : Network) : Network :=
  let seconds := millis.toNat / 1000
  let micros := millis.toNat % 1000 * 1000
  (n.note (.receiveTimeout seconds micros)).note (.sendTimeout seconds micros)

/-- Closes what is open, looks up the host and tries its addresses in turn.  The resolver is asked
for the host up to its first zero byte.  The faults met on the way are given in order; they do not
keep a later address from being used. -/
def connect (c : Connection) (target : RemoteSettings) (n : Network) :
    List ConnectFault × Connection × Network :=
  let (_, n) := c.close n
  let n := n.note (.resolve target.host.untilZero (Decimal.ofInt target.port))
  match n.addresses with
  | .error e => ([.resolve target.host e], .closed, n)
  | .ok count =>
    match Network.reachFirst target.port target.connectTimeout (Network.addressesOf count) n with
    | ((faults, none), n) => (faults, .closed, n)
    | ((faults, some link), n) =>
      (faults, ⟨some (link.inPieces receiveSize), .empty⟩, limitTimes target.ioTimeout n)

/-- What is said of the faults met while connecting: the last one counts. -/
def faultsMessage (faults : List ConnectFault) : Bytes :=
  (faults.getLast?.map ConnectFault.message).getD []

/-! ### Calls -/

/-- Why a call has no reply. -/
inductive Failure where
  /-- The connection is not open. -/
  | notConnected
  /-- The request could not be sent in full. -/
  | send (e : SystemError)
  /-- A send took nothing and gave no reason.  What is said of it is the last failure before. -/
  | nothingSent (last : Option SystemError)
  /-- What was received is no reply. -/
  | malformed
  /-- The peer closed the connection. -/
  | closedByPeer
  /-- Receiving failed. -/
  | receive (e : SystemError)
deriving DecidableEq

namespace Failure

/-- The failure in words. -/
def message : Failure → Bytes
  | .notConnected => Bytes.ofString "not connected"
  | .send .wouldBlock => Bytes.ofString "send: timed out"
  | .send e => Bytes.ofString "send: " ++ e.message
  | .nothingSent none => Bytes.ofString "send: Success"
  | .nothingSent (some e) => Bytes.ofString "send: " ++ e.message
  | .malformed => Bytes.ofString "malformed reply"
  | .closedByPeer => Bytes.ofString "connection closed by server"
  | .receive .wouldBlock => Bytes.ofString "recv: timed out"
  | .receive e => Bytes.ofString "recv: " ++ e.message

/-- Some of the request may have reached the peer. -/
def mayHaveArrived : Failure → Bool
  | .notConnected => false
  | _ => true

end Failure

/-- What became of data that was to be sent. -/
structure Delivery where
  /-- What each of the sends took. -/
  taken : List Bytes
  /-- What the sends to come are given. -/
  sendings : List Sending
  /-- The last failure that a call met. -/
  lastFailure : Option SystemError
  /-- Why the data was not sent in full, if it was not. -/
  failure : Option Failure

/-- Sends data in as many sends as it takes.  An interrupted send is made again, and one that takes
nothing is the last. -/
def deliver : (lastFailure : Option SystemError) → List Sending → Bytes → Delivery
  | last, [], data => ⟨if data.isEmpty then [] else [data], [], last, none⟩
  | last, sending :: rest, data =>
    if data.isEmpty then ⟨[], sending :: rest, last, none⟩
    else
      match sending with
      | .fails e =>
        if e = .interrupted then deliver (some e) rest data
        else ⟨[], rest, some e, some (.send e)⟩
      | .takes limit =>
        if limit = 0 then ⟨[[]], rest, last, some (.nothingSent last)⟩
        else
          let d := deliver last rest (data.drop limit)
          { d with taken := data.take limit :: d.taken }

/-- A wait for a reply, and what it leaves behind. -/
structure Wait where
  /-- The reply, or why there is none. -/
  result : Except Failure Reply
  /-- What the receives to come are given. -/
  receipts : List Receipt
  /-- What was received and not used up. -/
  replies : ReplyStream
  /-- The network afterwards. -/
  network : Network

/-- Receives until a reply is complete.  An interrupted receive is made again. -/
def wait (n : Network) (replies : ReplyStream) (receipts : List Receipt) : Wait :=
  match replies.next with
  | (some reply, replies) => ⟨.ok reply, receipts, replies, n⟩
  | (none, replies) =>
    if replies.malformed then ⟨.error .malformed, receipts, replies, n⟩
    else
      match receipts with
      | [] => ⟨.error (.receive .wouldBlock), [], replies, n.fail .wouldBlock⟩
      | .data bytes :: rest => wait (n.note (.receive bytes)) (replies.feed bytes) rest
      | .pause micros :: rest => wait (n.pause micros) replies rest
      | .ended :: rest => ⟨.error .closedByPeer, rest, replies, n⟩
      | .fails e :: rest =>
        if e = .interrupted then wait (n.fail e) replies rest
        else ⟨.error (.receive e), rest, replies, n.fail e⟩

/-- Sends a request and waits for its reply.  A failure closes the connection. -/
def call (c : Connection) (n : Network) (request : List Bytes) :
    Except Failure Reply × Connection × Network :=
  match c.link with
  | none => (.error .notConnected, c, n)
  | some link =>
    let d := deliver n.lastFailure link.sendings (Wire.command request)
    let n := { n with lastFailure := d.lastFailure }
    let n := d.taken.foldl (fun n data => n.note (.send data)) n
    match d.failure with
    | some failure =>
      let (c, n) := c.close n
      (.error failure, c, n)
    | none =>
      let w := wait n c.replies link.receipts
      match w.result with
      | .ok reply => (.ok reply, ⟨some ⟨d.sendings, w.receipts⟩, w.replies⟩, w.network)
      | .error failure =>
        let (c, n) := c.close w.network
        (.error failure, c, n)

end Connection

end CoherentCache
