import CoherentCache.Decimal
import CoherentCache.Instant

/-!
# Logical timestamps

A timestamp is what a writer says about when its write happened: seconds and nanoseconds, ordered
lexicographically.  Any pair of words is a timestamp; those whose nanoseconds lie below one second
are `Normal`, and every clock reading gives a normal one.

* `Timestamp.ofInstant` : the timestamp of a clock reading, before and after the epoch.
* `Timestamp.compare` : the order, as `Ordering`.
* `Timestamp.text` : seconds, a point, nine columns of nanoseconds.
-/

namespace CoherentCache

/-- A logical write time. -/
structure Timestamp where
  /-- Whole seconds since the epoch. -/
  seconds : Int64
  /-- Nanoseconds within the second; not confined to one second by the type. -/
  nanoseconds : Int32
deriving DecidableEq, Inhabited

namespace Timestamp

/-- The timestamp that stands for "never". -/
def zero : Timestamp := ⟨0, 0⟩

/-- Earlier in the lexicographic order. -/
def Before (a b : Timestamp) : Prop :=
  a.seconds < b.seconds ∨ (a.seconds = b.seconds ∧ a.nanoseconds < b.nanoseconds)

instance (a b : Timestamp) : Decidable (Before a b) := by unfold Before; infer_instance

instance : LT Timestamp := ⟨Before⟩

instance : LE Timestamp := ⟨fun a b => ¬ Before b a⟩

instance (a b : Timestamp) : Decidable (a < b) := inferInstanceAs (Decidable (Before a b))

instance (a b : Timestamp) : Decidable (a ≤ b) := inferInstanceAs (Decidable (¬ Before b a))

/-- The order of two timestamps. -/
def compare (a b : Timestamp) : Ordering := if a < b then .lt else if b < a then .gt else .eq

instance : Ord Timestamp := ⟨compare⟩

/-- Nanoseconds in one second. -/
def nanosPerSecond : Int := 1000000000

/-- The nanoseconds lie within one second. -/
def Normal (t : Timestamp) : Prop := 0 ≤ t.nanoseconds.toInt ∧ t.nanoseconds.toInt < nanosPerSecond

instance (t : Timestamp) : Decidable t.Normal := by unfold Normal; infer_instance

/-- The timestamp of a clock reading: the second it falls in and the nanoseconds into that second,
also for readings before the epoch. -/
def ofInstant (t : Instant) : Timestamp :=
  ⟨Int64.ofInt (t.nanos.toInt.fdiv nanosPerSecond), Int32.ofInt (t.nanos.toInt.fmod nanosPerSecond)⟩

/-- The timestamp in words: seconds, a point, and the nanoseconds in at least nine columns. -/
def text (t : Timestamp) : Bytes :=
  Decimal.ofInt t.seconds.toInt ++ 46 :: Decimal.padded 9 t.nanoseconds.toInt

end Timestamp

end CoherentCache
