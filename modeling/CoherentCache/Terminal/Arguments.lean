import CoherentCache.Decimal

/-!
# Arguments of the terminal

The terminal is told a port and an address.  A port is read with goodwill: blanks before it, a sign
and anything after its digits are allowed.  An address is read strictly.

* `Terminal.readPort` : the port in a text.
* `Terminal.isAddress` : the text is an address.
-/

namespace CoherentCache

namespace Terminal

/-- Why a text is no port. -/
inductive PortFault where
  /-- There are no digits. -/
  | notANumber
  /-- The number does not fit into 32 bits. -/
  | outOfRange
deriving DecidableEq

/-- Splits a sign off a text; without one the number is not negative. -/
def splitSign : Bytes → Bool × Bytes
  | [] => (false, [])
  | b :: rest =>
    if b = 45 then (true, rest) else if b = 43 then (false, rest) else (false, b :: rest)

/-- The port in a text. -/
def readPort (text : Bytes) : Except PortFault Int :=
  let (negative, rest) := splitSign (text.dropWhile Bytes.isBlank)
  let digits := rest.takeWhile Decimal.isDigit
  if digits.isEmpty then .error .notANumber
  else
    match Decimal.valueBelow? Int32.size 0 digits with
    | none => .error .outOfRange
    | some n =>
      let port : Int := if negative then -n else n
      if Int32.minValue.toInt ≤ port ∧ port ≤ Int32.maxValue.toInt then .ok port
      else .error .outOfRange

/-- The text is a number from 0 to 255 without leading zeros. -/
def isOctet (text : Bytes) : Bool :=
  match Decimal.readNatBelow? UInt8.size text with
  | none => false
  | some n => text = Decimal.ofNat n

/-- The text is an address: four octets with points between them. -/
def isAddress (text : Bytes) : Bool :=
  let parts := Bytes.splitAt 46 text
  parts.length == 4 && parts.all isOctet

end Terminal

end CoherentCache
