import CoherentCache.Decimal

/-!
# Looking up a setting in a text

A settings file is a flat object in JSON notation, but it is searched and not parsed: the value of a
key is what follows the first quoted occurrence of the key that has a colon and a value of the
wanted form behind it.  Blanks may stand around the colon.

* `Lookup.digits?` : the value of a key, as a digit string.
* `Lookup.string?` : the value of a key, as the text between two quotes.
-/

namespace CoherentCache

namespace Lookup

/-- The text after a prefix. -/
def after? (start text : Bytes) : Option Bytes :=
  if start.isPrefixOf text then some (text.drop start.length) else none

/-- The text without the blanks in front. -/
def skipBlanks (text : Bytes) : Bytes := text.dropWhile Bytes.isBlank

/-- A key between quotes. -/
def quoted (key : String) : Bytes := 34 :: Bytes.ofString key ++ [34]

/-- What stands behind a quoted key and a colon at the very start of the text. -/
def behindKey? (key text : Bytes) : Option Bytes :=
  ((after? key text).bind fun rest => after? [58] (skipBlanks rest)).map skipBlanks

/-- One or more digits at the very start of the text. -/
def leadingDigits? (text : Bytes) : Option Bytes :=
  let digits := text.takeWhile Decimal.isDigit
  if digits.isEmpty then none else some digits

/-- The text between a quote at the very start and the next quote. -/
def leadingString? (text : Bytes) : Option Bytes :=
  match text with
  | [] => none
  | b :: rest => if b = 34 ∧ rest.contains 34 then some (rest.takeWhile (· != 34)) else none

/-- The first place of the text where a quoted key with a value of the wanted form starts, and the
value there. -/
def search? (key : Bytes) (value? : Bytes → Option Bytes) : Bytes → Option Bytes
  | [] => none
  | b :: rest =>
    match (behindKey? key (b :: rest)).bind value? with
    | some value => some value
    | none => search? key value? rest

/-- The digits that a key is given. -/
def digits? (text : Bytes) (key : String) : Option Bytes :=
  search? (quoted key) leadingDigits? text

/-- The string that a key is given. -/
def string? (text : Bytes) (key : String) : Option Bytes :=
  search? (quoted key) leadingString? text

/-- The number that a key is given.  A number of more than 64 bits counts as none. -/
def number? (text : Bytes) (key : String) : Option Nat :=
  (digits? text key).bind fun digits => (Decimal.readUInt64? digits).map UInt64.toNat

end Lookup

end CoherentCache
