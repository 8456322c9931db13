/-!
# Instants

A reading of the system clock: a signed 64-bit count of nanoseconds since the epoch.  Arithmetic
on instants wraps around, as the clock's own word does.

* `Instant.addMillis` : a moment that many milliseconds later.
* `Instant.millisUntil` : whole milliseconds left until a later instant.
-/

namespace CoherentCache

/-- A reading of the system clock. -/
structure Instant where
  /-- Nanoseconds since the epoch. -/
  nanos : Int64
deriving DecidableEq, Inhabited

namespace Instant

instance : LE Instant := ⟨fun a b => a.nanos ≤ b.nanos⟩

instance : LT Instant := ⟨fun a b => a.nanos < b.nanos⟩

instance (a b : Instant) : Decidable (a ≤ b) := inferInstanceAs (Decidable (a.nanos ≤ b.nanos))

instance (a b : Instant) : Decidable (a < b) := inferInstanceAs (Decidable (a.nanos < b.nanos))

/-- The instant `n` nanoseconds later. -/
def addNanos (t : Instant) (n : Int64) : Instant := ⟨t.nanos + n⟩

/-- The instant `ms` milliseconds later. -/
def addMillis (t : Instant) (ms : UInt64) : Instant := t.addNanos (ms.toInt64 * 1000000)

/-- The instant `us` microseconds later. -/
def addMicros (t : Instant) (us : Int64) : Instant := t.addNanos (us * 1000)

/-- Whole milliseconds from `t` to `later`, as an unsigned word. -/
def millisUntil (t later : Instant) : UInt64 := ((later.nanos - t.nanos) / 1000000).toUInt64

/-- Whole microseconds from `t` to `later`, as an unsigned word. -/
def microsUntil (t later : Instant) : UInt64 := ((later.nanos - t.nanos) / 1000).toUInt64

/-- Whole milliseconds since the epoch, cut toward zero. -/
def millis (t : Instant) : Int64 := t.nanos / 1000000

end Instant

end CoherentCache
