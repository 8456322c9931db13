import CoherentCache.Proofs.Pipeline.Executions

/-!
# Updates on a store that fails

An update changes the source and then invalidates its keys one after another with the timestamp that
it reads once the change has returned.  Calls that fail are counted, logged and passed over.

An invalidation that the store answers does its work even if it is rejected: then the record of the
key was invalidated at a later timestamp already, and it may show only values that are newer still.
What an answered invalidation has seen to, the invalidations after it leave as it is, whether they
come off or fail, for the same key or for another one.

* `Pipeline.Invalidation`, `Pipeline.invalidations` : the invalidations of an update, in order.
* `Pipeline.map_execution_invalidations` : they are operations, one after another.
* `Pipeline.fst_invalidateKeys`, `Pipeline.log_invalidateKeys` : the failures are those of the
  store, and each is logged.
* `Slot.InvalidatedSince` : what an answered invalidation sees to.
* `Pipeline.Invalidation.Sound` : what one invalidation does to the slots of all keys.
* `Pipeline.since_of_answered`, `Pipeline.slot?_of_unanswered` : the keys after all of them.
* `Pipeline.endUpdate_spec` : what an update gives, leaves and logs, in terms of its invalidations.
* `Pipeline.update_despite_failures` : **what an update sees to, whatever fails.**
-/

namespace CoherentCache

open Cache (Ask)

/-! ### Slots that were invalidated -/

namespace Slot

variable {key : Bytes} {due now : Instant} {ts : Timestamp} {slot : Option Slot} {answer : Answer}

/-- The record of the slot, if it can be read, was invalidated at a timestamp or later. -/
def InvalidatedSince (ts : Timestamp) (slot : Option Slot) : Prop :=
  ∀ r, record slot = .ok (some r) → ts ≤ r.invalidated

theorem InvalidatedSince.live (h : InvalidatedSince ts slot) (now : Instant) :
    InvalidatedSince ts (live now slot) := by
  rcases live_eq_or now slot with hsame | hgone
  · rw [hsame]
    exact h
  · rw [hgone]
    rintro r ⟨⟩

/-- **An invalidation that is answered has seen to it**, whether it was accepted or rejected. -/
theorem invalidatedSince_operate (h : (operate key due (.invalidate ts) slot).1 = .ok answer) :
    InvalidatedSince ts (operate key due (.invalidate ts) slot).2 := by
  unfold operate at h ⊢
  cases hrecord : record slot with
  | error fault =>
    rw [hrecord] at h
    cases h
  | ok found =>
    by_cases hnewer : ts < (found.getD .blank).invalidated
    · -- Rejected, because the record is ahead of the timestamp.
      simp only [Operation.effect_invalidate_of_lt hnewer]
      intro r hr
      have hfound : found = some r := Except.ok.inj (hrecord.symm.trans hr)
      subst hfound
      exact le_of_lt hnewer
    · -- Accepted: if the new record can be read back at all, the timestamp is in it.
      simp only [Operation.effect_invalidate_of_le (not_lt.1 hnewer)]
      intro r hr
      have hfields : (Record.ofFields (Record.toFields
          { found.getD .blank with invalidated := ts })).map some = .ok (some r) := hr
      rw [Record.ofFields_toFields_eq] at hfields
      split at hfields
      · cases hfields
      · split at hfields
        · cases hfields
        · cases hfields
          exact le_refl ts

/-- A slot that shows a value was written since it was invalidated. -/
theorem le_written_of_inspect {shown : Snapshot} (h : InvalidatedSince ts slot)
    (hshown : inspect key now slot = .ok (some shown)) (hvisible : shown.record.Visible) :
    ts ≤ shown.record.written := by
  unfold inspect at hshown
  cases hrecord : record slot with
  | error fault => rw [hrecord] at hshown; cases hshown
  | ok found =>
    cases found with
    | none => rw [hrecord] at hshown; cases hshown
    | some r =>
      rw [hrecord] at hshown
      cases hshown
      exact le_trans (h r hrecord) hvisible.2

end Slot

namespace Pipeline

variable {σ ρ : Type}

/-! ### The invalidations of an update -/

/-- An invalidation of a key, with the store before it and after it. -/
structure Invalidation (σ : Type) where
  /-- The key. -/
  key : Bytes
  /-- What the store answered. -/
  result : Except StoreError Answer
  /-- The store that was asked. -/
  before : σ
  /-- The store that was left. -/
  after : σ

namespace Invalidation

/-- The store answered: the invalidation was accepted or rejected. -/
def Answered (c : Invalidation σ) : Prop := ∃ answer, c.result = .ok answer

/-- The key and the error, if the store failed. -/
def failure? (c : Invalidation σ) : Option (Bytes × StoreError) :=
  match c.result with
  | .error e => some (c.key, e)
  | .ok _ => none

/-- The invalidation as it is put on record. -/
def happening (ts : Timestamp) (c : Invalidation σ) : Happening :=
  .executed c.key (.invalidate ts) c.result

/-- Invalidates a key. -/
def of [RecordStore σ] (ts : Timestamp) (s : σ) (key : Bytes) : Invalidation σ :=
  let (result, after) := RecordStore.execute s key (.invalidate ts)
  ⟨key, result, s, after⟩

/-- The invalidation as an operation. -/
def execution (ts : Timestamp) (c : Invalidation σ) : Execution σ :=
  ⟨c.key, .invalidate ts, c.result, c.before, c.after⟩

theorem answered_iff {c : Invalidation σ} : c.Answered ↔ c.failure? = none :=
  Execution.answered_iff (c := c.execution .zero)

end Invalidation

/-- The entries of the log for keys that could not be invalidated, newest first. -/
def entries (policy : Policy σ ρ) (ts : Timestamp) (failed : List (Bytes × StoreError)) :
    List LogEntry :=
  if policy.logging then (failed.map fun f => .invalidateFailed f.1 ts f.2).reverse else []

theorem entries_eq_noted (policy : Policy σ ρ) (ts : Timestamp)
    (failed : List (Bytes × StoreError)) :
    entries policy ts failed = noted policy (failed.map fun f => .invalidateFailed f.1 ts f.2) :=
  rfl

theorem entries_append (policy : Policy σ ρ) (ts : Timestamp)
    (failed more : List (Bytes × StoreError)) :
    entries policy ts (failed ++ more) = entries policy ts more ++ entries policy ts failed := by
  simp only [entries_eq_noted, List.map_append, noted_append]

variable [RecordStore σ]

/-- The invalidations of keys with one timestamp, one after another. -/
def invalidations (ts : Timestamp) (s : σ) : List Bytes → List (Invalidation σ)
  | [] => []
  | key :: rest => .of ts s key :: invalidations ts (Invalidation.of ts s key).after rest

/-- The store after keys were invalidated with one timestamp. -/
def invalidated (ts : Timestamp) (s : σ) (keys : List Bytes) : σ :=
  (keys.map fun key => Ask.execute key (.invalidate ts)).foldl Ask.run s

/-- **Every key is invalidated, as often as it is listed and in that order.** -/
theorem map_key_invalidations (ts : Timestamp) (s : σ) (keys : List Bytes) :
    (invalidations ts s keys).map (·.key) = keys := by
  induction keys generalizing s with
  | nil => rfl
  | cons key rest ih =>
    rw [invalidations, List.map_cons, ih]
    rfl

/-- The invalidations as operations. -/
theorem map_execution_invalidations (ts : Timestamp) (s : σ) (keys : List Bytes) :
    (invalidations ts s keys).map (Invalidation.execution ts) =
      executions s (keys.map fun key => (key, .invalidate ts)) := by
  induction keys generalizing s with
  | nil => rfl
  | cons key rest ih =>
    rw [invalidations, List.map_cons, ih]
    rfl

theorem invalidated_eq_executed (ts : Timestamp) (s : σ) (keys : List Bytes) :
    invalidated ts s keys = executed s (keys.map fun key => (key, .invalidate ts)) := by
  rw [executed, List.map_map]
  rfl

section Calls

variable (policy : Policy σ ρ) (p : Pipeline σ) (ts : Timestamp)

theorem invalidateKey_eq (key : Bytes) :
    ((p.invalidateKey policy ts key).1.map fun e => (key, e)) =
        (Invalidation.of ts p.store key).failure? ∧
      (p.invalidateKey policy ts key).2.log =
        entries policy ts (Invalidation.of ts p.store key).failure?.toList ++ p.log := by
  simp only [invalidateKey, Cache.invalidate, Cache.perform, Invalidation.of, store]
  rcases RecordStore.execute p.cache.store key (.invalidate ts) with ⟨e | answer, after⟩
  · exact ⟨rfl, log_note ..⟩
  · refine ⟨rfl, ?_⟩
    show p.log = entries policy ts [] ++ p.log
    rw [entries_eq_noted, List.map_nil, noted_nil, List.nil_append]

/-- The failures of an update are those of the store, in order. -/
theorem fst_invalidateKeys (keys : List Bytes) :
    (p.invalidateKeys policy ts keys).1 =
      (invalidations ts p.store keys).filterMap Invalidation.failure? := by
  induction keys generalizing p with
  | nil => rfl
  | cons key rest ih =>
    obtain ⟨hfirst, -⟩ := invalidateKey_eq policy p ts key
    simp only [invalidateKeys, invalidations]
    rw [ih, hfirst, store_invalidateKey, List.filterMap_cons]
    cases (Invalidation.of ts p.store key).failure? <;> rfl

/-- **Every failure is logged**, if anything is. -/
theorem log_invalidateKeys (keys : List Bytes) :
    (p.invalidateKeys policy ts keys).2.log =
      entries policy ts (p.invalidateKeys policy ts keys).1 ++ p.log := by
  induction keys generalizing p with
  | nil => rw [invalidateKeys, entries_eq_noted, List.map_nil, noted_nil, List.nil_append]
  | cons key rest ih =>
    obtain ⟨hfirst, hlog⟩ := invalidateKey_eq policy p ts key
    simp only [invalidateKeys]
    rw [ih, hlog, hfirst, entries_append, List.append_assoc]

end Calls

theorem history_invalidated (ts : Timestamp) (r : Recorded σ) (keys : List Bytes) :
    (invalidated ts r keys).history =
      ((invalidations ts r keys).map (Invalidation.happening ts)).reverse ++ r.history := by
  rw [invalidated_eq_executed, history_executed, ← map_execution_invalidations, List.map_map]
  rfl

/-! ### The keys of an update -/

section Sites

variable {r : Recorded Site} {c : Invalidation (Recorded Site)} {ts : Timestamp} {key : Bytes}
  {keys : List Bytes}

/-- What an invalidation does to the slots of all keys. -/
structure Invalidation.Sound (ts : Timestamp) (c : Invalidation (Recorded Site)) : Prop where
  /-- There are still as many shards as there should be. -/
  wellFormed : c.after.memory.WellFormed
  /-- An answered invalidation has seen to its key. -/
  since_of_answered : c.Answered → Slot.InvalidatedSince ts (c.after.memory.slot? c.key)
  /-- A failed invalidation leaves every key as it was. -/
  slot?_of_unanswered : ¬ c.Answered → ∀ k, c.after.memory.slot? k = c.before.memory.slot? k
  /-- Every invalidation leaves the other keys as they were. -/
  slot?_of_ne : ∀ k, c.key ≠ k → c.after.memory.slot? k = c.before.memory.slot? k

/-- An invalidation is as sound as the operation that it is. -/
theorem Invalidation.Sound.of_execution (h : (c.execution ts).Sound) : c.Sound ts := by
  refine ⟨h.wellFormed, ?_, h.slot?_of_unanswered, h.slot?_of_ne⟩
  rintro ⟨answer, hanswer⟩
  obtain ⟨due, hresult, hslot⟩ := h.operate_of_answered ⟨answer, hanswer⟩
  have hsince := Slot.invalidatedSince_operate (hresult.symm.trans hanswer)
  show Slot.InvalidatedSince ts ((c.execution ts).after.memory.slot? (c.execution ts).key)
  rw [hslot]
  exact hsince

/-- **An invalidation is sound**, whether it reaches the in-memory store or fails on schedule. -/
theorem Invalidation.sound_of (hr : r.memory.WellFormed) (ts : Timestamp) (key : Bytes) :
    (Invalidation.of ts r key).Sound ts :=
  .of_execution (Execution.sound_of hr key (.invalidate ts))

/-- What an invalidation has seen to, later ones with its timestamp leave so. -/
theorem Invalidation.Sound.since (h : c.Sound ts)
    (hkey : Slot.InvalidatedSince ts (c.before.memory.slot? key)) :
    Slot.InvalidatedSince ts (c.after.memory.slot? key) := by
  by_cases hk : c.key = key
  · subst hk
    by_cases ha : c.Answered
    · exact h.since_of_answered ha
    · rw [h.slot?_of_unanswered ha]
      exact hkey
  · rw [h.slot?_of_ne key hk]
    exact hkey

theorem sound_of_mem (hr : r.memory.WellFormed) (hc : c ∈ invalidations ts r keys) :
    c.Sound ts := by
  have hmem := List.mem_map_of_mem (f := Invalidation.execution ts) hc
  rw [map_execution_invalidations] at hmem
  exact .of_execution (sound_of_mem_executions hr hmem).1

theorem wellFormed_invalidated (hr : r.memory.WellFormed) (ts : Timestamp) (keys : List Bytes) :
    (invalidated ts r keys).memory.WellFormed := by
  rw [invalidated_eq_executed]
  exact (wellFormed_executed hr _).1

theorem since_invalidated (hr : r.memory.WellFormed) (ts : Timestamp) (keys : List Bytes)
    (h : Slot.InvalidatedSince ts (r.memory.slot? key)) :
    Slot.InvalidatedSince ts ((invalidated ts r keys).memory.slot? key) := by
  induction keys generalizing r with
  | nil => exact h
  | cons k rest ih =>
    have hfirst := Invalidation.sound_of hr ts k
    exact ih hfirst.wellFormed (hfirst.since h)

/-- **A key is seen to once one of its invalidations is answered**, whatever comes after it. -/
theorem since_of_answered (hr : r.memory.WellFormed) (hc : c ∈ invalidations ts r keys)
    (ha : c.Answered) :
    Slot.InvalidatedSince ts ((invalidated ts r keys).memory.slot? c.key) := by
  induction keys generalizing r with
  | nil => cases hc
  | cons key rest ih =>
    have hfirst := Invalidation.sound_of hr ts key
    rcases List.mem_cons.1 hc with rfl | hc
    · -- The key may be listed again: what comes later, failed or not, takes nothing back.
      exact since_invalidated hfirst.wellFormed ts rest (hfirst.since_of_answered ha)
    · exact ih hfirst.wellFormed hc

/-- **A key whose invalidations all fail stays as it was**, whatever becomes of other keys. -/
theorem slot?_of_unanswered (hr : r.memory.WellFormed)
    (h : ∀ c ∈ invalidations ts r keys, c.key = key → ¬ c.Answered) :
    (invalidated ts r keys).memory.slot? key = r.memory.slot? key := by
  rw [invalidated_eq_executed]
  refine slot?_executed_of_unanswered hr ?_
  rw [← map_execution_invalidations, List.forall_mem_map]
  exact h

end Sites

/-! ### Updates -/

/-- What an update gives when these invalidations failed. -/
def verdict : List (Bytes × StoreError) → Except Failure Unit
  | [] => .ok ()
  | (key, e) :: rest => .error (.notInvalidated (rest.length + 1) key e)

theorem endUpdate_eq (policy : Policy σ ρ) (p : Pipeline σ) (keys : List Bytes) :
    p.endUpdate policy keys (.ok ()) =
      let run := (p.readClock policy).2.invalidateKeys policy (p.readClock policy).1 keys
      (verdict run.1, run.2) := by
  simp only [endUpdate]
  rcases (p.readClock policy).2.invalidateKeys policy (p.readClock policy).1 keys with
    ⟨_ | ⟨⟨key, e⟩, rest⟩, q⟩
  · rfl
  · rfl

/-- What the second half of an update gives, leaves and logs, in terms of its invalidations. -/
theorem endUpdate_spec (policy : Policy σ ρ) (p : Pipeline σ) (keys : List Bytes) :
    let ts := (policy.clock p.store).1
    let failed :=
      (invalidations ts (policy.clock p.store).2 keys).filterMap Invalidation.failure?
    let run := p.endUpdate policy keys (.ok ())
    run.1 = verdict failed ∧ run.2.store = invalidated ts (policy.clock p.store).2 keys ∧
      run.2.log = entries policy ts failed ++ p.log := by
  intro ts failed run
  have hrun : run = (verdict ((p.readClock policy).2.invalidateKeys policy ts keys).1,
      ((p.readClock policy).2.invalidateKeys policy ts keys).2) := endUpdate_eq policy p keys
  have hfailed : ((p.readClock policy).2.invalidateKeys policy ts keys).1 = failed :=
    fst_invalidateKeys ..
  have hlog := log_invalidateKeys policy (p.readClock policy).2 ts keys
  rw [hfailed] at hrun hlog
  exact ⟨congrArg Prod.fst hrun, store_endUpdate policy p keys, hrun ▸ hlog⟩

theorem verdict_eq_ok_iff {failed : List (Bytes × StoreError)} :
    verdict failed = .ok () ↔ failed = [] := by
  cases failed with
  | nil => simp [verdict]
  | cons f rest => simp [verdict]

omit [RecordStore σ] in
theorem filterMap_failure?_eq_nil_iff {calls : List (Invalidation σ)} :
    calls.filterMap Invalidation.failure? = [] ↔ ∀ c ∈ calls, c.Answered := by
  simp only [List.filterMap_eq_nil_iff, Invalidation.answered_iff]

/-- **What an update sees to, whatever fails.**  Calls fail on schedule before they reach the
in-memory store, which any events may have led to, or fail there because the record of the key
cannot be read.

The update comes off exactly if the change of the source does and the store answers every
invalidation.  If the change fails, everything is left as the change left it: nothing is asked of
the store, and the clock is not read.  Otherwise the clock is read, and then every key is
invalidated with that timestamp, as often as it is listed and in that order.  A key with an
invalidation that was answered shows no value afterwards that was written before the timestamp.  An
invalidation that fails leaves all slots as they were, and so a key whose invalidations all fail
holds what it held.  The failures are logged, each with its own error, and the text of the failure
counts them and quotes the first. -/
theorem update_despite_failures (policy : Policy Site ρ)
    (hclock : ∀ s, (policy.clock s).2.store = s.store) {p q : Pipeline (Recorded Site)}
    (mutate : Source (Recorded Site) Unit) {mutated : Except Bytes Unit}
    (hmutate : mutate p = (mutated, q)) (config : MemoryStore.Config)
    (events : List MemoryStore.Event)
    (hmemory : q.store.memory = (MemoryStore.empty config).after events) (keys : List Bytes) :
    let ts := (q.store.read policy.clock).1
    let calls := invalidations ts (q.store.read policy.clock).2 keys
    let failed := calls.filterMap Invalidation.failure?
    let run := p.update policy.recorded keys mutate
    (run.1 = .ok () ↔ mutated = .ok () ∧ ∀ c ∈ calls, c.Answered) ∧
    (∀ text, mutated = .error text → run = (.error (.source text), q)) ∧
    (mutated = .ok () →
      calls.map (·.key) = keys ∧
      run.2.store.history =
        (calls.map (Invalidation.happening ts)).reverse ++ .reading ts :: q.store.history ∧
      (∀ c ∈ calls, c.Answered → ∀ now shown,
        (run.2.store.memory.inspect now c.key).1 = .ok (some shown) → shown.record.Visible →
          ts ≤ shown.record.written) ∧
      (∀ c ∈ calls, ¬ c.Answered → ∀ key,
        c.after.memory.slot? key = c.before.memory.slot? key) ∧
      (∀ key, (∀ c ∈ calls, c.key = key → ¬ c.Answered) →
        run.2.store.memory.slot? key = q.store.memory.slot? key) ∧
      run.2.log = entries policy ts failed ++ q.log ∧
      ∀ key e rest, failed = (key, e) :: rest → ∃ f, run.1 = .error f ∧
        f.message = Bytes.ofString "mutation committed but " ++ Decimal.ofNat failed.length ++
          Bytes.ofString " invalidation(s) failed, first " ++ key ++ Bytes.ofString ": " ++
            e.message) := by
  intro ts calls failed run
  have hrun : run = q.endUpdate policy.recorded keys mutated := by
    show p.update policy.recorded keys mutate = _
    simp only [update]
    rw [hmutate]
  cases mutated with
  | error text =>
    have hfailed : run = (.error (.source text), q) := hrun
    refine ⟨⟨fun hok => ?_, fun hok => ?_⟩, fun other hother => ?_, fun hok => ?_⟩
    · rw [hfailed] at hok
      cases hok
    · cases hok.1
    · cases hother
      exact hfailed
    · cases hok
  | ok =>
    -- The store from which the keys are invalidated.
    have hread : (q.store.read policy.clock).2.memory = q.store.memory :=
      Recorded.memory_read hclock q.store
    have hr : (q.store.read policy.clock).2.memory.WellFormed := by
      rw [hread, hmemory]
      exact MemoryStore.wellFormed_after (MemoryStore.wellFormed_empty config) events
    obtain ⟨hverdict, hstore, hlog⟩ : run.1 = verdict failed ∧
        run.2.store = invalidated ts (q.store.read policy.clock).2 keys ∧
        run.2.log = entries policy ts failed ++ q.log := by
      rw [hrun]
      exact endUpdate_spec policy.recorded q keys
    refine ⟨?_, fun text htext => (by cases htext), fun _ => ⟨map_key_invalidations .., ?_, ?_, ?_,
      ?_, ?_, ?_⟩⟩
    · rw [hverdict, verdict_eq_ok_iff, filterMap_failure?_eq_nil_iff]
      exact ⟨fun h => ⟨rfl, h⟩, fun h => h.2⟩
    · rw [hstore, history_invalidated]
      rfl
    · intro c hc ha now shown hshown hvisible
      have hsince := since_of_answered hr hc ha
      rw [← hstore] at hsince
      have hwf : run.2.store.memory.WellFormed := hstore ▸ wellFormed_invalidated hr ts keys
      rw [(MemoryStore.inspect_eq hwf now c.key).1] at hshown
      exact Slot.le_written_of_inspect (hsince.live now) hshown hvisible
    · intro c hc
      exact (sound_of_mem hr hc).slot?_of_unanswered
    · intro key hkey
      rw [hstore, slot?_of_unanswered hr hkey, hread]
    · exact hlog
    · intro key e rest hfirst
      rw [hverdict, hfirst]
      exact ⟨_, rfl, rfl⟩

/-- The failure that is on schedule. -/
def down : StoreError := ⟨.unavailable, Bytes.ofString "down"⟩

/-- A site where the second and the third call fail.  Two keys have an old value, a third has one
that is newer than its invalidation, and what is stored under a fourth is no record. -/
def failingSite : Recorded Site :=
  let events : List MemoryStore.Event :=
    [⟨⟨0⟩, .access [1] (.operate (.set [5] ⟨1, 0⟩))⟩,
      ⟨⟨0⟩, .access [2] (.operate (.set [6] ⟨1, 0⟩))⟩,
      ⟨⟨0⟩, .access [3] (.operate (.invalidate ⟨20, 0⟩))⟩,
      ⟨⟨0⟩, .access [3] (.operate (.set [7] ⟨21, 0⟩))⟩,
      ⟨⟨0⟩, .access [4] (.overwrite ((∅ : Fields).insert Record.valueField [9]))⟩]
  ⟨⟨⟨⟨(MemoryStore.empty {}).after events, ⟨0⟩⟩, some [none, some down, some down]⟩,
    .stepping 10⟩, []⟩

/-- The first key is listed twice, and its second invalidation fails. -/
theorem update_despite_failures_mixed :
    let run := (Pipeline.ofStore failingSite).update (Row.policy true true).recorded
      [[1], [2], [1], [3], [4], [5]] fun p => (.ok (), p)
    (∃ f, run.1 = .error f ∧ f.message =
      Bytes.ofString "mutation committed but 3 invalidation(s) failed, first " ++ [2] ++
        Bytes.ofString ": down") ∧
    (∀ now shown, (run.2.store.memory.inspect now [1]).1 = .ok (some shown) →
      shown.record.Visible → ⟨10, 0⟩ ≤ shown.record.written) ∧
    run.2.store.memory.slot? [2] = failingSite.memory.slot? [2] := by
  intro run
  obtain ⟨-, -, hchanged⟩ := update_despite_failures (Row.policy true true) (fun _ => rfl)
    (p := .ofStore failingSite) (fun p => (.ok (), p)) rfl {} _ rfl [[1], [2], [1], [3], [4], [5]]
  obtain ⟨-, -, hshown, -, hkept, -, hfailed⟩ := hchanged rfl
  refine ⟨?_, ?_, hkept [2] ?_⟩
  · exact hfailed [2] down [([1], down), ([4], .corruptRecord [4] .unstampedValue)]
      (by decide +kernel)
  · have hanswered : (Invalidation.of (failingSite.read Site.clock).1
        (failingSite.read Site.clock).2 [1]).Answered :=
      Invalidation.answered_iff.2 (by decide +kernel)
    have hfirst := hshown _ (List.mem_cons_self ..) hanswered
    exact hfirst
  · intro c hc hkey
    rw [Invalidation.answered_iff]
    revert c
    decide +kernel

end Pipeline

end CoherentCache
