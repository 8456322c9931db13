import CoherentCache.Resp.Reply

/-!
# Reading requests from a stream

A request is an array of bulk strings.  The bytes of a connection arrive in pieces of any size, so a
reader takes one byte at a time and keeps what it has read of the request under way.  A line that
cannot start a request is dropped and reported.  After a proper first line there is no way back: an
argument that is no bulk string leaves the reader stuck, and no further request is read.

* `Request.Reader` : what of a request has been read, and `Request.Reader.step` for one more byte.
* `RequestStream.next` : take the next request off a stream.
-/

namespace CoherentCache

/-- What is taken off the front of a stream of requests. -/
inductive Request where
  /-- A line that starts no request. -/
  | malformed
  /-- A request with its arguments, the name of the command first. -/
  | command (arguments : List Bytes)
deriving DecidableEq

namespace Request

/-- The longest list of arguments that is read. -/
def maxArguments : Int := 1024

/-- The longest argument that is read. -/
def maxArgument : Int := 8 * 1024 * 1024

/-- The word that stands for a malformed line among the requests. -/
def malformedWord : Bytes := Bytes.ofString "__MALFORMED__"

/-- The words of a request; a malformed line counts as a request of one reserved word. -/
def words : Request → List Bytes
  | .malformed => [malformedWord]
  | .command arguments => arguments

/-- What of a request has been read.  Bytes and arguments are kept in reverse, the last one
first. -/
inductive Reader where
  /-- The first line has begun. -/
  | header (line : Bytes)
  /-- The line with the length of an argument has begun; `left` arguments come after this one. -/
  | length (left : Nat) (arguments : List Bytes) (line : Bytes)
  /-- An argument has begun, of which `room` bytes are to come, its line end included. -/
  | data (left : Nat) (arguments : List Bytes) (room : Nat) (argument : Bytes)
  /-- There is an argument that is no bulk string. -/
  | stuck
deriving DecidableEq, Inhabited

namespace Reader

/-- Nothing of a request has been read. -/
def start : Reader := .header []

/-- Goes on to the next of `left` arguments, or to the end of the request. -/
def resume : (left : Nat) → (arguments : List Bytes) → Reader ⊕ Request
  | 0, arguments => .inr (.command arguments.reverse)
  | left + 1, arguments => .inl (.length left arguments [])

/-- Goes on after the first line, which says how many arguments there are. -/
def ofHeader (line : Bytes) : Reader ⊕ Request :=
  match line with
  | [] => .inr .malformed
  | tag :: count =>
    if tag = 42 then
      match Decimal.readWithin? 0 maxArguments count with
      | none => .inr .malformed
      | some n => resume n.toNat []
    else .inr .malformed

/-- Goes on after the line that says how long an argument is. -/
def ofLength (left : Nat) (arguments : List Bytes) (line : Bytes) : Reader :=
  match line with
  | [] => .stuck
  | tag :: size =>
    if tag = 36 then
      match Decimal.readWithin? 0 maxArgument size with
      | none => .stuck
      | some n => .data left arguments (n.toNat + 2) []
    else .stuck

/-- Reads one byte, which may be the last one of a request. -/
def step : Reader → UInt8 → Reader ⊕ Request
  | .header line, b =>
    if Bytes.endsLine line b then ofHeader line.tail.reverse else .inl (.header (b :: line))
  | .length left arguments line, b =>
    if Bytes.endsLine line b then .inl (ofLength left arguments line.tail.reverse)
    else .inl (.length left arguments (b :: line))
  | .data left arguments (room + 2) argument, b =>
    .inl (.data left arguments (room + 1) (b :: argument))
  | .data left arguments _ argument, b =>
    if Bytes.endsLine argument b then resume left (argument.tail.reverse :: arguments)
    else .inl .stuck
  | .stuck, _ => .inl .stuck

/-- Reads up to the end of a request, or all there is: the request, if one was completed, and the
bytes after it. -/
def read : Reader → Bytes → Option Request × Reader × Bytes
  | r, [] => (none, r, [])
  | r, b :: rest =>
    match r.step b with
    | .inl r => r.read rest
    | .inr request => (some request, .start, rest)

end Reader

end Request

/-- The receiving end of a connection that requests arrive on. -/
structure RequestStream where
  /-- What of the next request has been read. -/
  reader : Request.Reader
  /-- Bytes received and not read. -/
  ahead : Bytes
deriving DecidableEq, Inhabited

namespace RequestStream

/-- A stream on which nothing has arrived. -/
def empty : RequestStream := ⟨.start, []⟩

/-- More bytes arrive. -/
def feed : RequestStream → (data : Bytes) → RequestStream
  | ⟨reader, ahead⟩, data => ⟨reader, ahead ++ data⟩

/-- Takes the next request off the stream. -/
def next : RequestStream → Option Request × RequestStream
  | ⟨reader, ahead⟩ =>
    let (request, reader, ahead) := reader.read ahead
    (request, ⟨reader, ahead⟩)

end RequestStream

end CoherentCache
