import CoherentCache.Timestamp
import Std.Data.TreeMap

/-!
# Cache records and their persisted form

A record is what the cache knows about one key: the value with the timestamp of its write, if there
is one, and the timestamp of the last invalidation.  Stores keep a record as a map from field names
to texts, which other programs may write to as well, so reading one back can fail.

* `Record.toFields` : the persisted form of a record.
* `Record.ofFields` : the record of a field map, or the first `Record.Fault` found in it.
* `Record.Visible` : a reader may be served the value.
-/

namespace CoherentCache

/-- A cache record. -/
structure Record where
  /-- The stored value, if any. -/
  value : Option Bytes
  /-- The timestamp of the write that stored the value. -/
  written : Timestamp
  /-- The timestamp of the newest invalidation, zero when there was none. -/
  invalidated : Timestamp
deriving DecidableEq, Inhabited

/-- The persisted form of a record: texts by field name. -/
abbrev Fields := Std.TreeMap Bytes Bytes compare

namespace Record

/-- The record of a key that was never touched. -/
def blank : Record := ⟨none, .zero, .zero⟩

/-- The write is at least as new as the last invalidation. -/
def Fresh (r : Record) : Prop := r.invalidated ≤ r.written

instance (r : Record) : Decidable r.Fresh := by unfold Fresh; infer_instance

/-- There is a value and it is fresh, so that a reader may be served it. -/
def Visible (r : Record) : Prop := r.value.isSome ∧ r.Fresh

instance (r : Record) : Decidable r.Visible := by unfold Visible; infer_instance

/-- The value that a reader is served. -/
def visibleValue (r : Record) : Option Bytes := if r.Visible then r.value else none

/-! ### Field names -/

/-- The two timestamps of a record. -/
inductive Stamp where
  /-- When the value was written. -/
  | write
  /-- When the key was last invalidated. -/
  | invalidate
deriving DecidableEq

/-- The field that holds the seconds of a timestamp. -/
def Stamp.secondsField : Stamp → Bytes
  | .write => Bytes.ofString "ts_sec"
  | .invalidate => Bytes.ofString "inv_sec"

/-- The field that holds the nanoseconds of a timestamp. -/
def Stamp.nanosecondsField : Stamp → Bytes
  | .write => Bytes.ofString "ts_nsec"
  | .invalidate => Bytes.ofString "inv_nsec"

/-- The field that holds the value. -/
def valueField : Bytes := Bytes.ofString "v"

/-! ### Writing -/

/-- Puts a timestamp into a field map. -/
def putStamp (fields : Fields) (stamp : Stamp) (t : Timestamp) : Fields :=
  (fields.insert stamp.secondsField (Decimal.ofInt t.seconds.toInt)).insert
    stamp.nanosecondsField (Decimal.ofInt t.nanoseconds.toInt)

/-- The persisted form.  The write timestamp is there exactly when a value is; the invalidation
timestamp is left out when it is zero. -/
def toFields (r : Record) : Fields :=
  let written : Fields :=
    match r.value with
    | none => ∅
    | some v => (putStamp ∅ .write r.written).insert valueField v
  if r.invalidated = .zero then written else putStamp written .invalidate r.invalidated

/-! ### Reading -/

/-- Why a field map is not the persisted form of a record. -/
inductive Fault where
  /-- Only one of the two fields of a timestamp is there. -/
  | incomplete (stamp : Stamp)
  /-- The seconds are not a signed 64-bit integer. -/
  | badSeconds (stamp : Stamp)
  /-- The nanoseconds are not a signed 64-bit integer. -/
  | badNanoseconds (stamp : Stamp)
  /-- The nanoseconds are negative, or a full second or more. -/
  | outOfRange (stamp : Stamp)
  /-- A value without the timestamp of its write. -/
  | unstampedValue
  /-- The timestamp of a write whose value is not there. -/
  | stampWithoutValue
deriving DecidableEq

/-- The fault in words. -/
def Fault.message : Fault → Bytes
  | .incomplete s =>
    Bytes.ofString "incomplete timestamp pair " ++ s.secondsField ++ 47 :: s.nanosecondsField
  | .badSeconds s => Bytes.ofString "non-integer " ++ s.secondsField
  | .badNanoseconds s => Bytes.ofString "non-integer " ++ s.nanosecondsField
  | .outOfRange s => s.nanosecondsField ++ Bytes.ofString " out of range"
  | .unstampedValue => Bytes.ofString "value without write timestamp"
  | .stampWithoutValue => Bytes.ofString "write timestamp without value"

/-- Reads one timestamp; `none` when neither of its fields is there. -/
def readStamp (fields : Fields) (stamp : Stamp) : Except Fault (Option Timestamp) :=
  match fields[stamp.secondsField]?, fields[stamp.nanosecondsField]? with
  | none, none => .ok none
  | some sec, some nsec =>
    match Decimal.readInt64? sec, Decimal.readInt64? nsec with
    | none, _ => .error (.badSeconds stamp)
    | some _, none => .error (.badNanoseconds stamp)
    | some s, some n =>
      if 0 ≤ n.toInt ∧ n.toInt < Timestamp.nanosPerSecond then .ok (some ⟨s, Int32.ofInt n.toInt⟩)
      else .error (.outOfRange stamp)
  | _, _ => .error (.incomplete stamp)

/-- The record that a field map persists.  The write timestamp is checked first, then the
invalidation timestamp, then that a value is there exactly when a write timestamp is; other fields
do not matter. -/
def ofFields (fields : Fields) : Except Fault Record := do
  let written ← readStamp fields .write
  let invalidated ← readStamp fields .invalidate
  match fields[valueField]?, written with
  | some _, none => .error .unstampedValue
  | none, some _ => .error .stampWithoutValue
  | value, _ => .ok ⟨value, written.getD .zero, invalidated.getD .zero⟩

end Record

end CoherentCache
