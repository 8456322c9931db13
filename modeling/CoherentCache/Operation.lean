import CoherentCache.Record

/-!
# Operations on one key

The coherence rule of the cache, as a pure function of the operation and of the record it meets.  A
write that is older than the last invalidation may carry a row from before the mutation that caused
the invalidation, so it is refused; so is a write older than the stored value.  Equal timestamps are
accepted.

* `Operation.effect` : what an operation does to a record.
* `Retention` : what becomes of the expiry of the key.  Only a record without a value expires.
-/

namespace CoherentCache

/-- One step on a single key. -/
inductive Operation where
  /-- Store a value that was current at the timestamp. -/
  | set (value : Bytes) (ts : Timestamp)
  /-- Refuse every value that is older than the timestamp. -/
  | invalidate (ts : Timestamp)
  /-- Read the visible value. -/
  | get
deriving DecidableEq

/-- What became of a write. -/
inductive Outcome where
  /-- The write took effect. -/
  | accepted
  /-- The record holds something newer. -/
  | rejected
deriving DecidableEq

/-- The word for an outcome. -/
def Outcome.name : Outcome → Bytes
  | .accepted => Bytes.ofString "accepted"
  | .rejected => Bytes.ofString "rejected"

/-- What an operation does to the expiry of its key. -/
inductive Retention where
  /-- Leave it as it is. -/
  | keep
  /-- Let the key expire after the retention time, counted from now. -/
  | arm
  /-- Let the key live until further notice. -/
  | clear
deriving DecidableEq

/-- What the caller of an operation is told. -/
structure Answer where
  /-- What became of a write; a read leaves it at `rejected`. -/
  outcome : Outcome
  /-- The value that a read is served. -/
  value : Option Bytes
deriving DecidableEq

/-- What an operation does. -/
structure Effect where
  /-- The record to store, if one is to be stored. -/
  next : Option Record
  /-- What becomes of the expiry of the key. -/
  retention : Retention
  /-- What the caller is told. -/
  answer : Answer
deriving DecidableEq

namespace Effect

/-- The write is refused and nothing changes. -/
def reject : Effect := ⟨none, .keep, ⟨.rejected, none⟩⟩

/-- The write is accepted. -/
def accept (next : Record) (retention : Retention) : Effect :=
  ⟨some next, retention, ⟨.accepted, none⟩⟩

end Effect

namespace Operation

/-- A value of that age must not be stored over the record. -/
def Stale (r : Record) (ts : Timestamp) : Prop :=
  ts < r.invalidated ∨ (r.value.isSome ∧ ts < r.written)

instance (r : Record) (ts : Timestamp) : Decidable (Stale r ts) := by unfold Stale; infer_instance

/-- **The coherence rule.**  The effect of an operation on the record of its key, `none` when the
key has none. -/
def effect (op : Operation) (current : Option Record) : Effect :=
  let base := current.getD .blank
  match op with
  | .set value ts =>
    if Stale base ts then .reject
    else .accept { base with value := some value, written := ts } .clear
  | .invalidate ts =>
    if ts < base.invalidated then .reject
    else .accept { base with invalidated := ts } (if base.value.isSome then .keep else .arm)
  | .get => ⟨none, .keep, ⟨.rejected, base.visibleValue⟩⟩

end Operation

end CoherentCache
