import CoherentCache.Decimal

/-!
# Replies on the wire

What a server of the RESP protocol answers with.  A reply is a tree; on the wire each node starts
with a tag and a line, and a bulk string carries its length so that it may hold any bytes.

* `Reply.encode` : the wire form of a reply.
* `Wire.bulk`, `Wire.array`, … : the wire form of each kind of node, from wire forms of its items.
* `Wire.command` : the wire form of a request, an array of bulk strings.
-/

namespace CoherentCache

/-- A reply. -/
inductive Reply where
  /-- A short text, on one line. -/
  | simple (text : Bytes)
  /-- A refusal or failure, on one line. -/
  | error (text : Bytes)
  /-- A signed 64-bit integer. -/
  | integer (value : Int64)
  /-- A string of any bytes. -/
  | bulk (data : Bytes)
  /-- Nothing. -/
  | null
  /-- A list of replies. -/
  | array (items : List Reply)
deriving Inhabited

namespace Wire

/-- A tagged line. -/
def line (tag : UInt8) (text : Bytes) : Bytes := tag :: text ++ Bytes.crlf

/-- A short text. -/
def simple (text : Bytes) : Bytes := line 43 text

/-- A refusal or failure. -/
def error (text : Bytes) : Bytes := line 45 text

/-- An integer. -/
def integer (value : Int) : Bytes := line 58 (Decimal.ofInt value)

/-- A string of any bytes, after its length. -/
def bulk (data : Bytes) : Bytes := line 36 (Decimal.ofNat data.length) ++ data ++ Bytes.crlf

/-- Nothing. -/
def null : Bytes := line 36 (Decimal.ofInt (-1))

/-- A list, from the wire forms of its items. -/
def array (items : List Bytes) : Bytes := line 42 (Decimal.ofNat items.length) ++ items.flatten

/-- A request: the list of its arguments. -/
def command (arguments : List Bytes) : Bytes := array (arguments.map bulk)

end Wire

namespace Reply

/-- A refusal that the server itself words. -/
def refusal (text : Bytes) : Reply := .error (Bytes.ofString "ERR " ++ text)

/-- A failure of a kind that callers tell apart by its name. -/
def failure (kind text : Bytes) : Reply := .error (kind ++ 32 :: text)

mutual

/-- The wire form of a reply. -/
def encode : Reply → Bytes
  | .simple text => Wire.simple text
  | .error text => Wire.error text
  | .integer value => Wire.integer value.toInt
  | .bulk data => Wire.bulk data
  | .null => Wire.null
  | .array items => Wire.array (encodeAll items)

/-- The wire forms of a list of replies. -/
def encodeAll : List Reply → List Bytes
  | [] => []
  | r :: rest => r.encode :: encodeAll rest

end

/-- The text that a reply carries: that of a line or a bulk string, empty for any other reply. -/
def text : Reply → Bytes
  | .simple t | .error t | .bulk t => t
  | .integer _ | .null | .array _ => []

end Reply

end CoherentCache
