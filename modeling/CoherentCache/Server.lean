import CoherentCache.Network
import CoherentCache.Server.Service

/-!
# The server

The server goes through its clients in passes.  In one pass it accepts a client that waits to be
connected, reads from the clients that sent something, serves their requests, and sends what it can
of the replies that wait.  What the pass finds — who can be read from, how much a send takes — is a
value of `Ready`, so that a pass is a function.

* `Server.pass` : one pass.
* `Server.serve` : the requests of one client in one pass.
* `ServerEvent` : what a client notices of a pass.
-/

namespace CoherentCache

/-- What a client notices of the server. -/
inductive ServerEvent where
  /-- The connection is made. -/
  | accept
  /-- Data is sent. -/
  | send (data : Bytes)
  /-- Data cannot be sent. -/
  | sendFailed
  /-- The connection is closed. -/
  | close
deriving DecidableEq

/-- What a client gives the server to read. -/
inductive Incoming where
  /-- Data. -/
  | data (bytes : Bytes)
  /-- The client closed the connection. -/
  | ended
  /-- The client broke the connection off. -/
  | broken
deriving DecidableEq

/-- The connection is over. -/
def Incoming.isOver : Incoming → Bool
  | .data _ => false
  | .ended | .broken => true

/-- What becomes of a client that waits to be connected. -/
inductive Arrival where
  /-- It can be connected. -/
  | client
  /-- Connecting it fails. -/
  | fails (e : SystemError)
deriving DecidableEq

/-- What a pass finds. -/
structure Ready where
  /-- A client that waits to be connected, if there is one. -/
  arrival : Option Arrival
  /-- What a client gives to read; `none` when there is nothing to read. -/
  incoming : Nat → Option Incoming
  /-- The client takes data, if there is any for it. -/
  writable : Nat → Bool
  /-- What a send to the client is given. -/
  sending : Nat → Option Sending

namespace Ready

/-- Nothing happens, but whoever has data waiting takes it. -/
def idle : Ready := ⟨none, fun _ => none, fun _ => true, fun _ => none⟩

end Ready

namespace Server

/-- A connected client. -/
structure Client where
  /-- Tells the client from all others that ever connected. -/
  number : Nat
  /-- What was received from the client and not used up. -/
  requests : RequestStream
  /-- Replies that wait to be sent. -/
  pending : Bytes
deriving DecidableEq

/-- How many bytes one receive takes at most. -/
def receiveSize : Nat := 4096

/-- How many bytes one send hands over at most. -/
def sendSize : Nat := 8192

/-- What a client notices of a send. -/
def sendEvent : Option Bytes → ServerEvent
  | some data => .send data
  | none => .sendFailed

/-! ### Requests -/

/-- What serving the requests of a client in one pass leads to. -/
structure Served where
  /-- The replies, in the order of the requests. -/
  replies : List Reply
  /-- Too many bytes wait for the client, which is dropped for it. -/
  overflow : Bool
  /-- What was received and not used up. -/
  requests : RequestStream
  /-- What the clients share, afterwards. -/
  service : Service

/-- Puts a reply in front. -/
def Served.after (reply : Reply) (served : Served) : Served :=
  { served with replies := reply :: served.replies }

/-- Serves the requests of a client, `left` of them at most, with `waiting` bytes waiting for it
already.  A malformed request ends the pass for the client.  The bytes that wait are compared with
the bound after every request that has a name. -/
def serve (maxPending connected : Nat) : (left : Nat) → (waiting : Nat) → RequestStream → Service →
    Served
  | 0, _, requests, s => ⟨[], false, requests, s⟩
  | left + 1, waiting, requests, s =>
    match requests.next with
    | (none, requests) => ⟨[], false, requests, s⟩
    | (some request, requests) =>
      let (reply, s) := s.answer connected request.words
      let waiting := waiting + reply.encode.length
      if request.words = Request.malformed.words then ⟨[reply], false, requests, s⟩
      else if request.words = [] then
        (serve maxPending connected left waiting requests s).after reply
      else if maxPending < waiting then ⟨[reply], true, requests, s.reject⟩
      else (serve maxPending connected left waiting requests s).after reply

end Server

/-- A server. -/
structure Server where
  /-- The settings. -/
  settings : Settings
  /-- What the clients share. -/
  service : Service
  /-- The connected clients, the latest first, which is also the order of their turns. -/
  clients : List Server.Client
  /-- The number of the next client. -/
  nextNumber : Nat

namespace Server

/-- A server without clients. -/
def ofHost (settings : Settings) (host : Host) : Server :=
  ⟨settings, { cache := .ofStore host }, [], 0⟩

/-- Changes the store. -/
def mapStore (s : Server) (f : Host → Host) : Server := { s with service := s.service.mapStore f }

/-- Drops expired keys. -/
def sweep (s : Server) : Server := s.mapStore Host.sweep

/-- The client is connected. -/
def isConnected (s : Server) (number : Nat) : Bool := s.clients.any fun c => c.number = number

/-- What clients noticed, each under its number. -/
abbrev Notices := List (Nat × ServerEvent)

/-! ### One pass -/

/-- Notes the failure of a send, if it is to fail. -/
def noteSending (s : Service) : Option Sending → Service
  | some (.fails e) => s.fail e
  | _ => s

/-- Accepts a client that waits to be connected.  When too many are connected already, it is told so
and its connection is closed. -/
def accept (s : Server) (ready : Ready) : Notices × Server :=
  match ready.arrival with
  | none => ([], s)
  | some (.fails e) => ([], { s with service := s.service.fail e })
  | some .client =>
    let number := s.nextNumber
    let s := { s with nextNumber := number + 1 }
    if s.settings.maxConnections ≤ s.clients.length then
      let message := (Reply.refusal (Bytes.ofString "connection limit reached")).encode
      let sending := ready.sending number
      ([(number, .accept), (number, sendEvent (Sending.taken message sending)), (number, .close)],
        { s with service := noteSending s.service.reject sending })
    else ([(number, .accept)], { s with clients := ⟨number, .empty, []⟩ :: s.clients })

/-- A client after its turn in a pass, and what it leads to. -/
structure Turn where
  /-- The client. -/
  client : Client
  /-- The connection is to be closed. -/
  closing : Bool
  /-- What the client notices. -/
  events : List ServerEvent
  /-- What the clients share, afterwards. -/
  service : Service

/-- Reads from a client, if it gave something, and serves its requests. -/
def receive (settings : Settings) (connected : Nat) : Option Incoming → Client → Service → Turn
  | none, c, s => ⟨c, false, [], s⟩
  | some .ended, c, s => ⟨c, true, [], s⟩
  | some .broken, c, s => ⟨c, true, [], s.fail .connectionReset⟩
  | some (.data bytes), ⟨number, requests, pending⟩, s =>
    let s := { s with receivedBytes := s.receivedBytes + bytes.length }
    let served := serve settings.maxPending connected settings.maxRequestsPerPass pending.length
      (requests.feed bytes) s
    let pending := pending ++ (served.replies.map Reply.encode).flatten
    ⟨⟨number, served.requests, pending⟩, served.overflow, [], served.service⟩

/-- Sends to the client of a turn.  A send that takes nothing closes the connection. -/
def flush (sending : Option Sending) (t : Turn) : Turn :=
  let sent := Sending.taken (t.client.pending.take sendSize) sending
  let t := { t with
    events := t.events ++ [sendEvent sent]
    service := noteSending t.service sending }
  match sent with
  | none | some [] => { t with closing := true }
  | some data => { t with client.pending := t.client.pending.drop data.length }

/-- The turn of a client.  Replies are sent only if some were waiting when the pass began, and not
on a connection that is over. -/
def turn (settings : Settings) (connected : Nat) (ready : Ready) (c : Client) (s : Service) :
    Turn :=
  let number := c.number
  let incoming := ready.incoming number
  let flushes := !c.pending.isEmpty && ready.writable number && !incoming.any Incoming.isOver
  let t := receive settings connected incoming c s
  if flushes then flush (ready.sending number) t else t

/-- The turns of clients, one after the other.  Connections that are to be closed are closed. -/
def turns (settings : Settings) (connected : Nat) (ready : Ready) :
    List Client → Service → Notices × List Client × Service
  | [], s => ([], [], s)
  | c :: rest, s =>
    let t := turn settings connected ready c s
    let events := (if t.closing then t.events ++ [.close] else t.events).map (t.client.number, ·)
    let (notices, clients, s) := turns settings connected ready rest t.service
    (events ++ notices, if t.closing then clients else t.client :: clients, s)

/-- One pass through the clients. -/
def pass (s : Server) (ready : Ready) : Notices × Server :=
  let (accepted, ⟨settings, service, clients, nextNumber⟩) := s.accept ready
  let (notices, clients, service) := turns settings clients.length ready clients service
  (accepted ++ notices, ⟨settings, service, clients, nextNumber⟩)

/-- Closes the connections of all clients, and that to a remote store. -/
def stop (s : Server) : Notices × Server :=
  (s.clients.map fun c => (c.number, .close), { s.mapStore Host.close with clients := [] })

end Server

end CoherentCache
