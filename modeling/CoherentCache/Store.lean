import CoherentCache.Operation

/-!
# Record stores

A store runs operations on records by key, each as one indivisible step.  The class `RecordStore`
is all that the layers above know of one.  A store value holds whatever its answers depend on, a
clock and a network included, so that its functions are pure.

* `RecordStore.execute` : run an operation.
* `RecordStore.inspect` : look at a record without serving it.
* `StoreError` : what a caller is told when the store itself failed.
-/

namespace CoherentCache

/-- The kinds of failure that callers tell apart. -/
inductive ErrorKind where
  /-- No failure. -/
  | none
  /-- The store could not be reached or did not answer properly. -/
  | unavailable
  /-- The persisted record is not one. -/
  | corrupt
  /-- A cached value could not be decoded. -/
  | serialization
deriving DecidableEq, Inhabited

namespace ErrorKind

/-- The word for a kind of failure. -/
def name : ErrorKind → Bytes
  | .none => Bytes.ofString "NONE"
  | .unavailable => Bytes.ofString "UNAVAILABLE"
  | .corrupt => Bytes.ofString "CORRUPT"
  | .serialization => Bytes.ofString "SERIALIZATION"

/-- The kind with the given number. -/
def ofCode? : Int → Option ErrorKind
  | 0 => some .none
  | 1 => some .unavailable
  | 2 => some .corrupt
  | 3 => some .serialization
  | _ => Option.none

/-- The word for a number, which need not be that of a kind. -/
def nameOfCode (code : Int) : Bytes :=
  match ofCode? code with
  | some kind => kind.name
  | Option.none => Bytes.ofString "UNKNOWN"

end ErrorKind

/-- A failure of the store itself.  A rejected write and a missing value are none. -/
structure StoreError where
  /-- What kind of failure. -/
  kind : ErrorKind
  /-- What happened, in words. -/
  message : Bytes
deriving DecidableEq, Inhabited

namespace StoreError

/-- The persisted fields of a key are not those of a record. -/
def corruptRecord (key : Bytes) (fault : Record.Fault) : StoreError :=
  ⟨.corrupt, key ++ Bytes.ofString ": " ++ fault.message⟩

/-- The kind and the message, as one text. -/
def text (e : StoreError) : Bytes := e.kind.name ++ 32 :: e.message

end StoreError

/-- A persisted record as an observer sees it. -/
structure Snapshot where
  /-- The record. -/
  record : Record
  /-- Milliseconds until the record expires; `none` when it does not. -/
  retention : Option UInt64
deriving DecidableEq

/-- A store of records, together with all that its answers depend on. -/
class RecordStore (σ : Type) where
  /-- The word for this kind of store. -/
  name : σ → Bytes
  /-- Runs an operation on a key, as one indivisible step. -/
  execute : σ → Bytes → Operation → Except StoreError Answer × σ
  /-- Shows the record of a key, `none` when there is none. -/
  inspect : σ → Bytes → Except StoreError (Option Snapshot) × σ
  /-- A report on the store, one line for each item. -/
  info : σ → Bytes

end CoherentCache
