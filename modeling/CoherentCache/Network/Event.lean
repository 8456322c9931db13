import CoherentCache.Bytes

/-!
# What happens on the network

A log of the network is a list of events.  Sends with nothing received in between are one send as
far as a peer can tell, and what is received is the peer's own doing, so the outward view of a log
joins the former and leaves out the latter.

* `NetworkEvent` : one entry of a log.
* `NetworkEvent.outward` : the outward view of a log.
-/

namespace CoherentCache

/-- How far a call that opens a connection gets. -/
inductive Progress where
  /-- The connection is open. -/
  | done
  /-- The connection is being made. -/
  | pending
  /-- The connection was not made. -/
  | failed
deriving DecidableEq

/-- An entry of the log of the network. -/
inductive NetworkEvent where
  /-- The addresses of a host were looked up. -/
  | resolve (host port : Bytes)
  /-- No socket could be made. -/
  | noSocket
  /-- A connection to an address was asked for. -/
  | connect (address : Bytes) (port : UInt16) (progress : Progress)
  /-- A connection under way was waited for, that many milliseconds at most. -/
  | wait (millis : Int32)
  /-- The time that a receive may take was set. -/
  | receiveTimeout (seconds micros : Nat)
  /-- The time that a send may take was set. -/
  | sendTimeout (seconds micros : Nat)
  /-- Data was handed over to be sent. -/
  | send (data : Bytes)
  /-- Data was received. -/
  | receive (data : Bytes)
  /-- A socket was closed. -/
  | close
  /-- A port was taken to listen on. -/
  | bind (port : UInt16)
deriving DecidableEq

namespace NetworkEvent

/-- Puts an event in front of a log whose sends are joined. -/
def joinFront : NetworkEvent → List NetworkEvent → List NetworkEvent
  | .send a, .send b :: rest => .send (a ++ b) :: rest
  | e, rest => e :: rest

/-- The event is the peer's own doing. -/
def isReceive : NetworkEvent → Bool
  | .receive _ => true
  | _ => false

/-- The outward view of a log: sends in a row are joined, and nothing of what was received is
shown. -/
def outward (log : List NetworkEvent) : List NetworkEvent :=
  (log.foldr joinFront []).filter fun e => !e.isReceive

end NetworkEvent

end CoherentCache
