import CoherentCache.Store

/-!
# Stores that fail on schedule

A store behind a layer that makes chosen calls fail before they reach it.  Without a schedule the
layer is not there at all.

* `Faulty` : a store with a schedule of failures.
-/

namespace CoherentCache

/-- A store with a schedule of failures. -/
structure Faulty (σ : Type) where
  /-- The store behind the layer. -/
  inner : σ
  /-- What happens to the calls to come, in order: fail with an error, or reach the store.  Calls
  past the end reach the store. -/
  schedule : Option (List (Option StoreError))

namespace Faulty

variable {σ : Type}

/-- Takes the fate of the next call off the schedule. -/
def nextFault (f : Faulty σ) : Option StoreError × Faulty σ :=
  match f.schedule with
  | some (fault :: rest) => (fault, { f with schedule := some rest })
  | _ => (none, f)

/-- The word for a store behind a schedule. -/
def name : Bytes := Bytes.ofString "fault"

instance [RecordStore σ] : RecordStore (Faulty σ) where
  name f := if f.schedule.isSome then Faulty.name else RecordStore.name f.inner
  execute f key op :=
    match f.nextFault with
    | (some e, f) => (.error e, f)
    | (none, f) =>
      let (answer, inner) := RecordStore.execute f.inner key op
      (answer, { f with inner })
  inspect f key :=
    let (shown, inner) := RecordStore.inspect f.inner key
    (shown, { f with inner })
  info f :=
    if f.schedule.isSome then Bytes.reportLine "store" Faulty.name else RecordStore.info f.inner

end Faulty

end CoherentCache
