import CoherentCache.Pipeline.Script
import CoherentCache.Proofs.Cache.Asks

/-!
# Pipelines with a history

A recorded store does what the store inside does and keeps a list of what happened to it: operations
with their answers and readings of the clock.  A source that is tracked marks in the same list where
it was asked and where it answered, so that the order of readings, rows and changes can be read off
the list.

* `Recorded` : a store with its history.
* `Pipeline.Source.tracked` : a source that leaves its marks in the history.
* `Pipeline.forget` : the pipeline without the history.
* `Script.run_forget` : the history changes nothing, neither answers nor stores.
-/

namespace CoherentCache

/-- What a caller of a pipeline marks in the history. -/
inductive Mark where
  /-- The source is asked, when so many things have happened. -/
  | asked (call : Nat)
  /-- The source that was asked then answers with rows, of which the cached forms are given, or it
  fails. -/
  | answered (call : Nat) (forms : Option (List Bytes))
  /-- An update of the keys is over. -/
  | updated (keys : List Bytes)
deriving DecidableEq

/-- Something that happened to a store or to the clock, or that a caller has marked. -/
inductive Happening where
  /-- A timestamp was taken from the clock. -/
  | reading (ts : Timestamp)
  /-- An operation was run. -/
  | executed (key : Bytes) (op : Operation) (result : Except StoreError Answer)
  /-- Something was marked. -/
  | marked (m : Mark)
deriving DecidableEq

/-- A store with its history. -/
structure Recorded (σ : Type) where
  /-- The store inside. -/
  inner : σ
  /-- What happened, newest first. -/
  history : List Happening

variable {σ ρ : Type}

namespace Recorded

instance [RecordStore σ] : RecordStore (Recorded σ) where
  name r := RecordStore.name r.inner
  execute r key op :=
    let (result, inner) := RecordStore.execute r.inner key op
    (result, ⟨inner, .executed key op result :: r.history⟩)
  inspect r key :=
    let (shown, inner) := RecordStore.inspect r.inner key
    (shown, { r with inner })
  info r := RecordStore.info r.inner

instance [MemoryBacked σ] : MemoryBacked (Recorded σ) where
  memory r := MemoryBacked.memory r.inner
  mapMemory f r := { r with inner := MemoryBacked.mapMemory f r.inner }

/-- Takes a timestamp from a clock. -/
def read (clock : σ → Timestamp × σ) (r : Recorded σ) : Timestamp × Recorded σ :=
  let (ts, inner) := clock r.inner
  (ts, ⟨inner, .reading ts :: r.history⟩)

/-- Marks something. -/
def mark (r : Recorded σ) (m : Mark) : Recorded σ := { r with history := .marked m :: r.history }

end Recorded

namespace Cache

/-- The cache without the history. -/
def forget (c : Cache (Recorded σ)) : Cache σ := ⟨c.store.inner, c.counters⟩

end Cache

namespace Pipeline

/-- The policy with another key for each row. -/
def Policy.keyedBy (policy : Policy σ ρ) (keyOf : ρ → Bytes) : Policy σ ρ := { policy with keyOf }

/-- The policy on a recorded store. -/
def Policy.recorded (policy : Policy σ ρ) : Policy (Recorded σ) ρ :=
  { policy with clock := Recorded.read policy.clock }

/-- The pipeline without the history. -/
def forget (p : Pipeline (Recorded σ)) : Pipeline σ := ⟨p.cache.forget, p.stats, p.log⟩

/-- Marks something. -/
def mark (p : Pipeline (Recorded σ)) (m : Mark) : Pipeline (Recorded σ) :=
  { p with cache.store := p.cache.store.mark m }

/-- The source, with marks where it is asked and where it answers; `forms` gives the cached forms of
the rows in an answer. -/
def Source.tracked {α : Type} (forms : α → List Bytes) (source : Source (Recorded σ) α) :
    Source (Recorded σ) α := fun p =>
  let call := p.cache.store.history.length
  let (answer, p) := source (p.mark (.asked call))
  (answer, p.mark (.answered call (answer.toOption.map forms)))

end Pipeline

/-! ### The cache -/

namespace Cache

theorem forEach_forget {α β : Type} {step : Cache (Recorded σ) → α → β × Cache (Recorded σ)}
    {step' : Cache σ → α → β × Cache σ}
    (h : ∀ c item, step' c.forget item = ((step c item).1, (step c item).2.forget))
    (c : Cache (Recorded σ)) (items : List α) :
    c.forget.forEach step' items = ((c.forEach step items).1, (c.forEach step items).2.forget) := by
  induction items generalizing c with
  | nil => rfl
  | cons item rest ih =>
    simp only [forEach]
    rw [h, ih]

variable [RecordStore σ] (c : Cache (Recorded σ))

theorem perform_forget {α : Type} (key : Bytes) (op : Operation) (pick : Answer → α)
    (count : Counters → α → Counters) :
    c.forget.perform key op pick count =
      ((c.perform key op pick count).1, (c.perform key op pick count).2.forget) := by
  simp only [perform, RecordStore.execute, forget]
  rcases RecordStore.execute c.store.inner key op with ⟨e | answer, store⟩ <;> rfl

theorem set_forget (key value : Bytes) (ts : Timestamp) :
    c.forget.set key value ts = ((c.set key value ts).1, (c.set key value ts).2.forget) :=
  c.perform_forget ..

theorem invalidate_forget (key : Bytes) (ts : Timestamp) :
    c.forget.invalidate key ts = ((c.invalidate key ts).1, (c.invalidate key ts).2.forget) :=
  c.perform_forget ..

theorem get_forget (key : Bytes) :
    c.forget.get key = ((c.get key).1, (c.get key).2.forget) := c.perform_forget ..

theorem setAll_forget (items : List (Bytes × Bytes)) (ts : Timestamp) :
    c.forget.setAll items ts = ((c.setAll items ts).1, (c.setAll items ts).2.forget) :=
  forEach_forget (fun c _ => c.set_forget ..) c items

theorem call_forget (q : Call) :
    c.forget.call q = ((c.call q).1, (c.call q).2.forget) := by
  cases q with
  | set key value ts => simp only [call]; rw [set_forget]
  | invalidate key ts => simp only [call]; rw [invalidate_forget]
  | get key => simp only [call]; rw [get_forget]
  | setAll items ts => simp only [call]; rw [setAll_forget]
  | invalidateAll keys ts =>
    simp only [call, invalidateAll]
    rw [forEach_forget fun c key => c.invalidate_forget key ts]
  | getAll keys =>
    simp only [call, getAll]
    rw [forEach_forget fun c key => c.get_forget key]
  | inspect key => rfl
  | counters => rfl
  | info => rfl
  | name => rfl

end Cache

/-! ### The pipeline -/

namespace Pipeline

section Policies

variable (policy : Policy σ ρ)

@[simp] theorem recorded_encode : policy.recorded.encode = policy.encode := rfl

@[simp] theorem recorded_decode : policy.recorded.decode = policy.decode := rfl

@[simp] theorem recorded_keyOf : policy.recorded.keyOf = policy.keyOf := rfl

variable (p : Pipeline (Recorded σ))

theorem note_forget (entry : LogEntry) :
    (p.note policy.recorded entry).forget = p.forget.note policy entry := by
  unfold note
  by_cases h : policy.logging
  · have h' : policy.recorded.logging := h
    rw [if_pos h, if_pos h']
    rfl
  · have h' : ¬ policy.recorded.logging := h
    rw [if_neg h, if_neg h']

theorem readClock_forget :
    p.forget.readClock policy =
      ((p.readClock policy.recorded).1, (p.readClock policy.recorded).2.forget) := rfl

theorem degrade_forget (key : Bytes) (e : StoreError) (cacheable : Bool) :
    p.forget.degrade policy key e cacheable =
      ((p.degrade policy.recorded key e cacheable).1,
        (p.degrade policy.recorded key e cacheable).2.forget) := by
  by_cases h : policy.bypass
  · have h' : policy.recorded.bypass := h
    simp only [degrade, if_pos h, if_pos h', ← note_forget]
    rfl
  · have h' : ¬ policy.recorded.bypass := h
    simp only [degrade, if_neg h, if_neg h', ← note_forget]
    rfl

theorem countSet_forget (key : Bytes) (result : Except StoreError Outcome) :
    (p.countSet policy.recorded key result).forget = p.forget.countSet policy key result := by
  unfold countSet
  split
  · rw [note_forget]; rfl
  · rfl
  · rfl

theorem countSets_forget (results : List ((Bytes × Bytes) × Except StoreError Outcome)) :
    (p.countSets policy.recorded results).forget = p.forget.countSets policy results := by
  induction results generalizing p with
  | nil => rfl
  | cons result rest ih =>
    simp only [countSets]
    rw [ih, countSet_forget]

end Policies

section Halves

variable [RecordStore σ] (policy : Policy σ ρ) (p : Pipeline (Recorded σ))

theorem lookup_forget (key : Bytes) :
    p.forget.lookup policy key =
      ((p.lookup policy.recorded key).1, (p.lookup policy.recorded key).2.forget) := by
  have hget : p.forget.cache.get key = _ := p.cache.get_forget key
  simp only [lookup, recorded_decode]
  rw [hget]
  rcases p.cache.get key with ⟨e | found, cache⟩
  · exact degrade_forget policy { p with cache } ..
  · cases found with
    | none => rfl
    | some value =>
      simp only
      cases policy.decode value with
      | error why => exact degrade_forget policy { p with cache, stats := _ } ..
      | ok row => rfl

theorem lookupAll_forget (store : Bool) (keys : List Bytes) :
    p.forget.lookupAll policy store keys =
      ((p.lookupAll policy.recorded store keys).1,
        (p.lookupAll policy.recorded store keys).2.forget) := by
  induction keys generalizing p with
  | nil => rfl
  | cons key rest ih =>
    simp only [lookupAll]
    rw [lookup_forget]
    rcases p.lookup policy.recorded key with ⟨f | found, q⟩
    · rfl
    · -- The lookups that follow start from the pipeline that this one left.
      simp only
      rw [ih]
      rcases q.lookupAll policy.recorded store rest with ⟨f | wanted, q'⟩ <;> rfl

theorem storeRows_forget (items : List (Bytes × Bytes)) (ts : Timestamp) :
    p.forget.storeRows policy items ts =
      ((p.storeRows policy.recorded items ts).1,
        (p.storeRows policy.recorded items ts).2.forget) := by
  have hset : p.forget.cache.setAll items ts = _ := p.cache.setAll_forget items ts
  simp only [storeRows]
  rw [hset, countSets_forget]
  rfl

theorem endPopulate_forget (ts : Timestamp) (fetched : Except Bytes (List ρ)) :
    p.forget.endPopulate policy ts fetched =
      ((p.endPopulate policy.recorded ts fetched).1,
        (p.endPopulate policy.recorded ts fetched).2.forget) := by
  cases fetched with
  | error text => rfl
  | ok rows =>
    simp only [endPopulate, recorded_encode, recorded_keyOf]
    rw [storeRows_forget]
    rfl

theorem beginRead_forget (key : Bytes) (store : Bool) :
    p.forget.beginRead policy key store =
      ((p.beginRead policy.recorded key store).1,
        (p.beginRead policy.recorded key store).2.forget) := by
  simp only [beginRead]
  rw [readClock_forget, lookup_forget]
  rcases (p.readClock policy.recorded).2.lookup policy.recorded key with ⟨f | ⟨row, _⟩, q⟩
  · rfl
  · cases row <;> rfl

theorem endRead_forget (ticket : ReadTicket) (fetched : Except Bytes (List ρ)) :
    p.forget.endRead policy ticket fetched =
      ((p.endRead policy.recorded ticket fetched).1,
        (p.endRead policy.recorded ticket fetched).2.forget) := by
  rcases fetched with text | (_ | ⟨row, rest⟩)
  · rfl
  · rfl
  · simp only [endRead, recorded_encode]
    rw [storeRows_forget]
    split <;> rfl

theorem beginReadMany_forget (keys : List Bytes) (store : Bool) :
    p.forget.beginReadMany policy keys store =
      ((p.beginReadMany policy.recorded keys store).1,
        (p.beginReadMany policy.recorded keys store).2.forget) := by
  simp only [beginReadMany]
  rw [readClock_forget, lookupAll_forget]
  rcases (p.readClock policy.recorded).2.lookupAll policy.recorded store keys with ⟨f | wanted, q⟩
  · rfl
  · simp only
    split <;> rfl

theorem endReadMany_forget (ticket : ManyTicket ρ) (fetched : Except Bytes (List ρ)) :
    p.forget.endReadMany policy ticket fetched =
      ((p.endReadMany policy.recorded ticket fetched).1,
        (p.endReadMany policy.recorded ticket fetched).2.forget) := by
  cases fetched with
  | error text => rfl
  | ok rows =>
    simp only [endReadMany]
    rw [storeRows_forget]
    rfl

theorem invalidateKey_forget (ts : Timestamp) (key : Bytes) :
    p.forget.invalidateKey policy ts key =
      ((p.invalidateKey policy.recorded ts key).1,
        (p.invalidateKey policy.recorded ts key).2.forget) := by
  have hinvalidate : p.forget.cache.invalidate key ts = _ := p.cache.invalidate_forget key ts
  simp only [invalidateKey]
  rw [hinvalidate]
  rcases p.cache.invalidate key ts with ⟨e | outcome, cache⟩
  · simp only [note_forget]
    rfl
  · rfl

theorem invalidateKeys_forget (ts : Timestamp) (keys : List Bytes) :
    p.forget.invalidateKeys policy ts keys =
      ((p.invalidateKeys policy.recorded ts keys).1,
        (p.invalidateKeys policy.recorded ts keys).2.forget) := by
  induction keys generalizing p with
  | nil => rfl
  | cons key rest ih =>
    simp only [invalidateKeys]
    rw [invalidateKey_forget, ih]

theorem endUpdate_forget (keys : List Bytes) (mutated : Except Bytes Unit) :
    p.forget.endUpdate policy keys mutated =
      ((p.endUpdate policy.recorded keys mutated).1,
        (p.endUpdate policy.recorded keys mutated).2.forget) := by
  cases mutated with
  | error text => rfl
  | ok =>
    simp only [endUpdate]
    rw [readClock_forget, invalidateKeys_forget]
    rcases (p.readClock policy.recorded).2.invalidateKeys policy.recorded _ keys with
      ⟨_ | ⟨⟨key, e⟩, rest⟩, q⟩ <;> rfl

end Halves

end Pipeline

/-! ### Scripts -/

namespace MemoryStore

variable [MemoryBacked σ]

theorem step_forget (c : Cache (Recorded σ)) (q : Step) :
    step c.forget q = ((step c q).1, (step c q).2.forget) := by
  cases q with
  | call q => simp only [step]; rw [Cache.call_forget]
  | overwrite key fields => rfl
  | sweep => rfl
  | advance nanos => rfl
  | counters => rfl

end MemoryStore

namespace Script

variable [MemoryBacked σ] (policy : Pipeline.Policy σ ρ)

mutual

theorem step_forget (s : Step ρ) (p : Pipeline (Recorded σ)) :
    step policy s p.forget =
      ((step policy.recorded s p).1, (step policy.recorded s p).2.forget) := by
  cases s with
  | store s =>
    have hstep : MemoryStore.step p.forget.cache s = _ := MemoryStore.step_forget p.cache s
    simp only [step]
    rw [hstep]
    rfl
  | info => simp only [step]; rfl
  | populate rows fail during =>
    simp only [step, Pipeline.beginPopulate]
    rw [Pipeline.readClock_forget, run_forget during, Pipeline.endPopulate_forget]
    rfl
  | read key keep rows fail during =>
    simp only [step]
    rw [Pipeline.beginRead_forget]
    rcases p.beginRead policy.recorded key keep with ⟨result | ticket, q⟩
    · rfl
    · simp only
      rw [run_forget during, Pipeline.endRead_forget]
      rfl
  | readMany keys keep rows fail during =>
    simp only [step]
    rw [Pipeline.beginReadMany_forget]
    rcases p.beginReadMany policy.recorded keys keep with ⟨result | ticket, q⟩
    · rfl
    · simp only
      rw [run_forget during, Pipeline.endReadMany_forget]
      rfl
  | update keys fail during =>
    simp only [step]
    rw [run_forget during, Pipeline.endUpdate_forget]
    rfl

/-- **The history changes nothing**: a script is answered alike with and without it. -/
theorem run_forget (script : List (Step ρ)) (p : Pipeline (Recorded σ)) :
    run policy script p.forget =
      ((run policy.recorded script p).1, (run policy.recorded script p).2.forget) := by
  cases script with
  | nil => simp only [run]
  | cons s rest =>
    simp only [run]
    rw [step_forget s p, run_forget rest (step policy.recorded s p).2]

end

end Script

end CoherentCache
