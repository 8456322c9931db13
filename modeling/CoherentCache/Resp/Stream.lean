import CoherentCache.Resp.Reply

/-!
# Reading replies from a stream

The bytes of a connection arrive in pieces of any size, so a reader takes one byte at a time and
keeps what it has read of the reply under way: the lists that are open around it, and the line or
the bulk string that has begun.  A reader that meets something that no further bytes can mend stays
malformed until the stream is reset.

* `Reply.Reader` : what of a reply has been read, and `Reply.Reader.step` for one more byte.
* `ReplyStream.next` : take the next reply off a stream.
-/

namespace CoherentCache

namespace Reply

/-- The longest bulk string that is read. -/
def maxBulk : Int := 64 * 1024 * 1024

/-- The longest list that is read. -/
def maxItems : Int := 1024 * 1024

/-- How many lists may be open around a reply. -/
def maxDepth : Nat := 8

/-- A list that has begun. -/
structure Frame where
  /-- How many items come after the one under way. -/
  left : Nat
  /-- The items read so far, the last one first. -/
  items : List Reply
deriving Inhabited

/-- What of a reply has been read.  `frames` are the lists that are open around it, the innermost
first; bytes are kept in reverse, the last one first. -/
inductive Reader where
  /-- A reply is to begin. -/
  | start (frames : List Frame)
  /-- The line of a reply has begun, after its tag. -/
  | line (frames : List Frame) (tag : UInt8) (text : Bytes)
  /-- A bulk string has begun, of which `room` bytes are to come, its line end included. -/
  | bulk (frames : List Frame) (room : Nat) (data : Bytes)
  /-- No further bytes can mend what was read. -/
  | malformed
deriving Inhabited

namespace Reader

/-- Puts a reply into the innermost open list.  One that is the last item completes the list, which
is put into the next open list in turn; outside of all lists a reply is complete. -/
def complete : List Frame → Reply → Reader ⊕ Reply
  | [], r => .inr r
  | ⟨0, items⟩ :: frames, r => complete frames (.array (r :: items).reverse)
  | ⟨left + 1, items⟩ :: frames, r => .inl (.start (⟨left, r :: items⟩ :: frames))

/-- Opens a list of the given length.  One that has items and lies too deep is malformed, whatever
the items. -/
def openList (frames : List Frame) : (length : Nat) → Reader ⊕ Reply
  | 0 => complete frames (.array [])
  | left + 1 =>
    .inl (if frames.length < maxDepth then .start (⟨left, []⟩ :: frames) else .malformed)

/-- Goes on after the line of a reply, which is all of it unless it is a length. -/
def ofLine (frames : List Frame) (tag : UInt8) (line : Bytes) : Reader ⊕ Reply :=
  if tag = 43 then complete frames (.simple line)
  else if tag = 45 then complete frames (.error line)
  else if tag = 58 then
    match Decimal.readInt64? line with
    | none => .inl .malformed
    | some v => complete frames (.integer v)
  else if tag = 36 then
    match Decimal.readWithin? (-1) maxBulk line with
    | none => .inl .malformed
    | some n => if n = -1 then complete frames .null else .inl (.bulk frames (n.toNat + 2) [])
  else if tag = 42 then
    match Decimal.readWithin? (-1) maxItems line with
    | none => .inl .malformed
    | some n => if n = -1 then complete frames .null else openList frames n.toNat
  else .inl .malformed

/-- Reads one byte, which may be the last one of a reply. -/
def step : Reader → UInt8 → Reader ⊕ Reply
  | .start frames, b => .inl (.line frames b [])
  | .line frames tag text, b =>
    if Bytes.endsLine text b then ofLine frames tag text.tail.reverse
    else .inl (.line frames tag (b :: text))
  | .bulk frames (room + 2) data, b => .inl (.bulk frames (room + 1) (b :: data))
  | .bulk frames _ data, b =>
    if Bytes.endsLine data b then complete frames (.bulk data.tail.reverse) else .inl .malformed
  | .malformed, _ => .inl .malformed

/-- Reads up to the end of a reply, or all there is: the reply, if one was completed, and the bytes
after it. -/
def read : Reader → Bytes → Option Reply × Reader × Bytes
  | r, [] => (none, r, [])
  | r, b :: rest =>
    match r.step b with
    | .inl r => r.read rest
    | .inr reply => (some reply, .start [], rest)

end Reader

end Reply

/-- The receiving end of a connection that replies arrive on. -/
structure ReplyStream where
  /-- What of the next reply has been read. -/
  reader : Reply.Reader
  /-- Bytes received and not read. -/
  ahead : Bytes
deriving Inhabited

namespace ReplyStream

/-- A stream on which nothing has arrived. -/
def empty : ReplyStream := ⟨.start [], []⟩

/-- The stream went wrong. -/
def malformed (s : ReplyStream) : Bool :=
  match s.reader with
  | .malformed => true
  | _ => false

/-- More bytes arrive. -/
def feed : ReplyStream → (data : Bytes) → ReplyStream
  | ⟨reader, ahead⟩, data => ⟨reader, ahead ++ data⟩

/-- Takes the next reply off the stream.  There is none when more bytes are needed and when the
stream went wrong. -/
def next : ReplyStream → Option Reply × ReplyStream
  | ⟨reader, ahead⟩ =>
    let (reply, reader, ahead) := reader.read ahead
    (reply, ⟨reader, ahead⟩)

end ReplyStream

end CoherentCache
