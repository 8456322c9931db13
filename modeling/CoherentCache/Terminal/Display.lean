import CoherentCache.Resp.Reply

/-!
# Replies on the terminal

A reply is shown on lines of its own.  The items of a list are numbered from one, and each is shown
below its number, two columns further to the right.

* `Reply.display` : the lines that show a reply.
-/

namespace CoherentCache

namespace Reply

mutual

/-- The lines that show a reply, each after an indent. -/
def display (indent : Bytes) : Reply → Bytes
  | .simple text => indent ++ text ++ [10]
  | .error text => indent ++ Bytes.ofString "(error) " ++ text ++ [10]
  | .integer value => indent ++ Bytes.ofString "(integer) " ++ Decimal.ofInt value.toInt ++ [10]
  | .bulk data => indent ++ 34 :: data ++ [34, 10]
  | .null => indent ++ Bytes.ofString "(nil)" ++ [10]
  | .array [] => indent ++ Bytes.ofString "(empty array)" ++ [10]
  | .array (first :: rest) => displayItems indent 1 (first :: rest)

/-- The lines that show items of a list, the first of which has the given number. -/
def displayItems (indent : Bytes) : Nat → List Reply → Bytes
  | _, [] => []
  | i, item :: rest =>
    indent ++ Decimal.ofNat i ++ [41, 10] ++ display (indent ++ [32, 32]) item ++
      displayItems indent (i + 1) rest

end

end Reply

end CoherentCache
