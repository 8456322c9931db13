import CoherentCache.Network
import CoherentCache.Resp.Stream
import CoherentCache.Terminal.Arguments
import CoherentCache.Terminal.Display

/-!
# The terminal

The terminal sends each line that is typed to a server, as the list of its words, and shows the
reply.  It stops at the line `quit`, at the end of what is typed, or when the server cannot be heard
any more.

* `Terminal.run` : a whole run.
* `Terminal.converse` : the lines of a run, once the connection is open.
-/

namespace CoherentCache

namespace Terminal

/-- What a run leaves behind. -/
structure Outcome where
  /-- The exit code. -/
  code : Nat
  /-- What is written to standard output. -/
  output : Bytes
  /-- What is written to standard error. -/
  errors : Bytes
  /-- The network afterwards. -/
  network : Network

/-- The port that is used when none is named. -/
def defaultPort : Int := 6390

/-- The address that is used when none is named. -/
def defaultHost : Bytes := Bytes.ofString "127.0.0.1"

/-- How many bytes one receive takes at most. -/
def receiveSize : Nat := 4096

/-- The end of a run with an open connection, which is closed. -/
def finish (code : Nat) (errors : Bytes) (n : Network) : Outcome :=
  ⟨code, [], errors, n.note .close⟩

/-- Puts text in front of what is written to standard output. -/
def Outcome.after (text : Bytes) (o : Outcome) : Outcome := { o with output := text ++ o.output }

/-- What is heard of the server after a request. -/
inductive Heard where
  /-- A reply. -/
  | reply (r : Reply)
  /-- Something that is no reply. -/
  | malformed
  /-- Nothing any more. -/
  | silence

/-- Receives until a reply is complete.  Any failure counts as silence. -/
def listen (n : Network) (replies : ReplyStream) (receipts : List Receipt) :
    Heard × List Receipt × ReplyStream × Network :=
  match replies.next with
  | (some reply, replies) => (.reply reply, receipts, replies, n)
  | (none, replies) =>
    if replies.malformed then (.malformed, receipts, replies, n)
    else
      match receipts with
      | [] => (.silence, [], replies, n)
      | .data bytes :: rest => listen (n.note (.receive bytes)) (replies.feed bytes) rest
      | .pause micros :: rest => listen (n.pause micros) replies rest
      | .ended :: rest | .fails _ :: rest => (.silence, rest, replies, n)

/-- Goes through the lines that are typed.  A request is handed to one send; what the send does not
take is lost, and a send that takes nothing ends the run. -/
def converse : List Bytes → Link → ReplyStream → Network → Outcome
  | [], _, _, n => finish 0 [] n
  | line :: rest, link, replies, n =>
    if line = Bytes.ofString "quit" then finish 0 [] n
    else if Bytes.words line = [] then converse rest link replies n
    else
      match Sending.taken (Wire.command (Bytes.words line)) link.sendings.head? with
      | none => finish 0 [] n
      | some [] => finish 0 [] (n.note (.send []))
      | some taken =>
        match listen (n.note (.send taken)) replies link.receipts with
        | (.malformed, _, _, n) => finish 1 (Bytes.ofString "malformed reply" ++ [10]) n
        | (.silence, _, _, n) => finish 0 [] n
        | (.reply reply, receipts, replies, n) =>
          (converse rest ⟨link.sendings.tail, receipts⟩ replies n).after (reply.display [])

/-- A run that fails before the connection is open. -/
def fail (message : Bytes) (n : Network) : Outcome := ⟨1, [], message ++ [10], n⟩

/-- A run with a port and an address. -/
def runAt (port : Int) (host input : Bytes) (n : Network) : Outcome :=
  let (hasSocket, n) := n.takeSocket
  if !isAddress host then fail (Bytes.ofString "bad address " ++ host) n
  else
    let (link, n) := if hasSocket then n.reachAtOnce host port else (none, n)
    match link with
    | none => fail (Bytes.ofString "connect failed") n
    | some link => converse (Bytes.lines input) (link.inPieces receiveSize) .empty n

/-- A whole run.  The arguments are a port and an address, each up to its first zero byte; what
follows them does not matter. -/
def run (arguments : List Bytes) (input : Bytes) (n : Network) : Except PortFault Outcome :=
  match arguments.map Bytes.untilZero with
  | [] => .ok (runAt defaultPort defaultHost input n)
  | port :: rest => (readPort port).map fun port => runAt port (rest.head?.getD defaultHost) input n

end Terminal

end CoherentCache
