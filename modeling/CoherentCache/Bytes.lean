/-!
# Byte strings

Keys, values, messages and wire data are all byte strings.  A byte string is a plain list, so that
the lemmas of `List` apply to it.

* `Bytes.ofString` : the bytes of an ASCII text.
* `Bytes.endsLine` : the end of a line of the wire format.
* `Bytes.lines`, `Bytes.words` : cut at line feeds and at blanks.
* `Bytes.pieces` : cut into pieces of a given size.
* `Bytes.untilZero` : the part that is passed on where texts end at a zero byte.
-/

namespace CoherentCache

/-- A byte string. -/
abbrev Bytes := List UInt8

namespace Bytes

/-- The bytes of an ASCII text.  A character outside that range keeps its low eight bits. -/
def ofString (text : String) : Bytes := text.toList.map fun c => c.toNat.toUInt8

/-- The line end of the wire format: carriage return, line feed. -/
def crlf : Bytes := [13, 10]

/-- The six blanks: space, tab, line feed, vertical tab, form feed, carriage return. -/
def isBlank (b : UInt8) : Bool := b == 32 || (9 ≤ b && b ≤ 13)

/-- Upper case for ASCII letters; every other byte stays. -/
def upperByte (b : UInt8) : UInt8 := if 97 ≤ b && b ≤ 122 then b - 32 else b

/-- Upper case, byte by byte. -/
def upper (s : Bytes) : Bytes := s.map upperByte

/-- The text up to its first zero byte: all that is seen of it where texts end at a zero byte, as
command lines, paths and host names do. -/
def untilZero (s : Bytes) : Bytes := s.takeWhile (· != 0)

/-- `pattern` occurs somewhere in the text. -/
def occursIn (pattern : Bytes) : Bytes → Bool
  | [] => pattern.isEmpty
  | b :: rest => pattern.isPrefixOf (b :: rest) || occursIn pattern rest

/-- The byte ends a line of the wire format, as the line feed after a carriage return; `before`
holds the bytes before it, the last one first. -/
def endsLine (before : Bytes) (b : UInt8) : Bool := b = 10 && before.head? = some 13

/-- The lines of a text.  A line feed ends a line; one at the very end starts no further line. -/
def lines (s : Bytes) : List Bytes := go [] s
where
  /-- `before` holds the bytes of the line under way, the last one first. -/
  go (before : Bytes) : Bytes → List Bytes
    | [] => if before.isEmpty then [] else [before.reverse]
    | b :: rest => if b = 10 then before.reverse :: go [] rest else go (b :: before) rest

/-- The maximal runs of bytes that are not blank. -/
def words (s : Bytes) : List Bytes := go [] s
where
  /-- `before` holds the bytes of the word under way, the last one first. -/
  go (before : Bytes) : Bytes → List Bytes
    | [] => if before.isEmpty then [] else [before.reverse]
    | b :: rest =>
      if isBlank b then
        if before.isEmpty then go [] rest else before.reverse :: go [] rest
      else go (b :: before) rest

/-- The parts of a text between separators; one part more than there are separators. -/
def splitAt (separator : UInt8) : Bytes → List Bytes
  | [] => [[]]
  | b :: rest =>
    if b = separator then [] :: splitAt separator rest
    else
      match splitAt separator rest with
      | [] => [[b]]
      | part :: parts => (b :: part) :: parts

/-- Cuts a text into pieces of `size` bytes, the last one shorter if need be.  A size of zero counts
as one. -/
def pieces (size : Nat) (s : Bytes) : List Bytes := go size [] s
where
  /-- `before` holds the bytes of the piece under way, the last one first, and `room` is how many
  more it may take. -/
  go : (room : Nat) → (before : Bytes) → Bytes → List Bytes
    | _, before, [] => if before.isEmpty then [] else [before.reverse]
    | 0, before, b :: rest =>
      if before.isEmpty then [b] :: go 0 [] rest else before.reverse :: go (size - 1) [b] rest
    | room + 1, before, b :: rest => go room (b :: before) rest

/-- One line of a report: a name, a colon, a value, a line feed. -/
def reportLine (name : String) (value : Bytes) : Bytes :=
  ofString name ++ 58 :: value ++ [10]

end Bytes

end CoherentCache
