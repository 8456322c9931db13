import CoherentCache.Proofs.Cache.Batches
import CoherentCache.Proofs.Cache.Readback
import CoherentCache.Proofs.Pipeline.Executions

/-!
# Rows on a store that fails

Populating caches all rows of the source with the one timestamp that was read before the source was
asked, past failures.  Rows may share a key.  Of those, the store takes one after the other, since
equal timestamps are accepted, so the key is left with the last row whose set the store answered;
unless its record holds something newer than the timestamp, which no set of the batch can replace.

* `Slot.Populated`, `Slot.populated_operate` : what an answered set sees to, accepted or rejected.
* `MemoryStore.shows_of_populated` : what a caller and an observer make of it.
* `Pipeline.log_storeRows` : each row that could not be cached is logged.
* `Pipeline.lastCached` : the last row of a key whose set the store answered.
* `Pipeline.endPopulate_spec` : what populating gives, leaves and logs, in terms of its sets.
* `Pipeline.populate_despite_failures` : **what populating sees to, whatever fails.**
-/

namespace CoherentCache

/-! ### Slots that a set has seen to -/

namespace Slot

variable {key value : Bytes} {due now : Instant} {ts : Timestamp} {slot : Option Slot}

/-- The record of the slot can be read, and it shows the value or holds something newer than the
timestamp. -/
def Populated (ts : Timestamp) (value : Bytes) (slot : Option Slot) : Prop :=
  ∃ found, record slot = .ok found ∧
    ((found.getD .blank).visibleValue = some value ∨ Operation.Stale (found.getD .blank) ts)

/-- **A set that is answered populates the slot**, whether it was accepted or rejected, and leaves
no slot that has lapsed. -/
theorem populated_operate {answer : Answer} (hts : ts.Normal)
    (h : (operate key due (.set value ts) (live now slot)).1 = .ok answer) :
    let left := (operate key due (.set value ts) (live now slot)).2
    Populated ts value left ∧ live now left = left := by
  unfold operate at h ⊢
  cases hrecord : record (live now slot) with
  | error fault =>
    rw [hrecord] at h
    cases h
  | ok found =>
    by_cases hstale : Operation.Stale (found.getD .blank) ts
    · -- Rejected: the record that is ahead of the timestamp stays, and so does its deadline.
      simp only [Operation.effect_set_of_stale hstale]
      exact ⟨⟨found, hrecord, Or.inr hstale⟩, live_live (Instant.le_refl now) slot⟩
    · -- Accepted: the new record can be read back, and a value has no deadline.
      let next : Record := { found.getD .blank with value := some value, written := ts }
      have heffect : (Operation.set value ts).effect found = .accept next .clear :=
        Operation.effect_set_of_not_stale hstale
      have hnormal : (Operation.set value ts).Normal := hts
      have hstorable : next.Storable :=
        Operation.storable_of_effect hnormal (storable_of_record hrecord)
          (congrArg Effect.next heffect)
      simp only [heffect]
      have hvisible : next.Visible := ⟨rfl, (Operation.not_stale_iff.1 hstale).1⟩
      refine ⟨⟨some next, ?_, Or.inl (if_pos hvisible)⟩, live_of_deadline_eq_none rfl now⟩
      exact congrArg (Except.map some) (Record.ofFields_toFields hstorable)

end Slot

namespace MemoryStore

variable {m : MemoryStore} {now : Instant} {key value : Bytes} {ts : Timestamp}

/-- **A populated key is a hit with the value, or it shows what is newer.** -/
theorem shows_of_populated (hm : m.WellFormed) (hslot : Slot.Populated ts value (m.slot? key))
    (hlive : Slot.live now (m.slot? key) = m.slot? key) :
    let c : Cache Clocked := .ofStore ⟨m, now⟩
    (c.get key).1 = .ok (some value) ∨ ∃ shown, (c.inspect key).1 = .ok shown ∧
      Operation.Stale ((shown.map (·.record)).getD .blank) ts := by
  intro c
  obtain ⟨found, hrecord, hfound⟩ := hslot
  have hrecord' : Slot.record (m.live? now key) = .ok found := by rw [live?, hlive, hrecord]
  rcases hfound with hvisible | hstale
  · refine Or.inl ?_
    have hget : (c.get key).1 = (m.execute now key .get).1.map Answer.value :=
      Cache.perform_fst ..
    rw [hget, (execute_eq hm now key .get).1, Slot.operate, hrecord']
    exact congrArg Except.ok hvisible
  · refine Or.inr ?_
    have hinspect : (c.inspect key).1 = Slot.inspect key now (m.live? now key) :=
      (inspect_eq hm now key).1
    rw [hinspect, Slot.inspect, hrecord']
    cases found with
    | none => exact ⟨none, rfl, hstale⟩
    | some r => exact ⟨_, rfl, hstale⟩

end MemoryStore

namespace Pipeline

variable {σ ρ : Type}

/-! ### What is logged -/

/-- The entry for a row that could not be cached. -/
def setFailure? : (Bytes × Bytes) × Except StoreError Outcome → Option LogEntry
  | (item, .error e) => some (.setFailed item.1 e)
  | (_, .ok _) => none

theorem log_countSet (policy : Policy σ ρ) (p : Pipeline σ) (item : Bytes × Bytes)
    (result : Except StoreError Outcome) :
    (p.countSet policy item.1 result).log =
      noted policy (setFailure? (item, result)).toList ++ p.log := by
  rcases result with e | _ | _
  · exact log_note ..
  · exact (congrArg (· ++ p.log) (noted_nil policy)).symm
  · exact (congrArg (· ++ p.log) (noted_nil policy)).symm

/-- **Each row that could not be cached is logged**, if anything is. -/
theorem log_countSets (policy : Policy σ ρ) (p : Pipeline σ)
    (results : List ((Bytes × Bytes) × Except StoreError Outcome)) :
    (p.countSets policy results).log = noted policy (results.filterMap setFailure?) ++ p.log := by
  induction results generalizing p with
  | nil => rw [List.filterMap_nil, noted_nil]; rfl
  | cons result rest ih =>
    have hfirst : (result :: rest).filterMap setFailure? =
        (setFailure? result).toList ++ rest.filterMap setFailure? := by
      rw [List.filterMap_cons]
      cases setFailure? result <;> rfl
    rw [countSets, ih, log_countSet, hfirst, noted_append, List.append_assoc]

/-! ### What became of the sets -/

/-- What became of the set of a row. -/
def outcomeOf (c : Execution σ) : Except StoreError Outcome := c.result.map Answer.outcome

theorem outcomeOf_eq_error_iff {c : Execution σ} {e : StoreError} :
    outcomeOf c = .error e ↔ c.result = .error e := by
  unfold outcomeOf
  cases c.result <;> simp [Except.map]

theorem countP_outcomeOf (sets : List (Execution σ)) :
    (sets.map outcomeOf).countP (fun r => !r.isOk) =
      (sets.filterMap Execution.failure?).length := by
  rw [List.countP_map, List.length_filterMap_eq_countP]
  refine List.countP_congr fun c _ => ?_
  simp only [Function.comp, outcomeOf, Execution.failure?]
  cases c.result <;> simp [Except.map, Except.isOk, Except.toBool]

theorem filterMap_errorOf?_outcomeOf (sets : List (Execution σ)) :
    (sets.map outcomeOf).filterMap Cache.errorOf? =
      (sets.filterMap Execution.failure?).map Prod.snd := by
  rw [List.filterMap_map, List.map_filterMap]
  congr 1
  funext c
  simp only [Function.comp, outcomeOf, Execution.failure?]
  cases c.result <;> rfl

/-- What went wrong with so many rows, if these sets were made for them. -/
def shortfall (total : Nat) (sets : List (Execution σ)) : Option Failure :=
  let failed := sets.filterMap Execution.failure?
  if failed.length = 0 then none
  else some (.notCached failed.length total (Cache.firstError (sets.map outcomeOf)))

section Shortfall

variable {total : Nat} {sets : List (Execution σ)} {key : Bytes} {e : StoreError}
  {rest : List (Bytes × StoreError)}

/-- Nothing went wrong exactly if every set was answered. -/
theorem shortfall_eq_none_iff : shortfall total sets = none ↔ ∀ c ∈ sets, c.Answered := by
  rw [← filterMap_failure?_eq_nil_iff_answered, ← List.length_eq_zero_iff]
  simp only [shortfall]
  split
  · next hnone => exact iff_of_true rfl hnone
  · next hsome => exact iff_of_false (fun h => nomatch h) hsome

/-- What went wrong is counted, and the first error stands for all. -/
theorem shortfall_of_failed (hkinds : ∀ c ∈ sets, ∀ e, c.result = .error e → e.kind ≠ .none)
    (hfailed : sets.filterMap Execution.failure? = (key, e) :: rest) :
    shortfall total sets =
      some (.notCached (sets.filterMap Execution.failure?).length total (some e)) := by
  have hanswers (e : StoreError) (he : .error e ∈ sets.map outcomeOf) : e.kind ≠ .none := by
    obtain ⟨c, hc, hresult⟩ := List.mem_map.1 he
    exact hkinds c hc e (outcomeOf_eq_error_iff.1 hresult)
  have hfirst := Cache.firstError_eq_head? hanswers
  rw [filterMap_errorOf?_outcomeOf, hfailed] at hfirst
  have hlength : (sets.filterMap Execution.failure?).length ≠ 0 := by
    rw [hfailed]
    exact Nat.succ_ne_zero _
  simp only [shortfall]
  rw [if_neg hlength, hfirst]
  rfl

end Shortfall

/-! ### Populating -/

section Populating

variable [RecordStore σ] (ts : Timestamp)

/-- The set that caches an item. -/
def caching (item : Bytes × Bytes) : Bytes × Operation := (item.1, .set item.2 ts)

/-- A row as it is to be cached: its key, and the set of its cached form. -/
def Policy.ask (policy : Policy σ ρ) (row : ρ) : Bytes × Operation :=
  caching ts (policy.keyOf row, policy.encode row)

theorem fst_setAll (c : Cache σ) (items : List (Bytes × Bytes)) :
    (c.setAll items ts).1 = (executions c.store (items.map (caching ts))).map outcomeOf :=
  Cache.fst_forEach_eq (fun c item => c.perform_fst item.1 _ _ _)
    (fun c item => c.store_set item.1 item.2 ts) c items

theorem filterMap_zip_outcomeOf (s : σ) (items : List (Bytes × Bytes)) :
    let sets := executions s (items.map (caching ts))
    (items.zip (sets.map outcomeOf)).filterMap setFailure? =
      (sets.filterMap Execution.failure?).map fun f => .setFailed f.1 f.2 := by
  induction items generalizing s with
  | nil => rfl
  | cons item rest ih =>
    simp only [List.map_cons, executions, List.zip_cons_cons, List.filterMap_cons]
    rw [ih]
    simp only [outcomeOf, caching, Execution.of, Execution.failure?]
    rcases RecordStore.execute s item.1 (.set item.2 ts) with ⟨_ | _, _⟩ <;> rfl

theorem log_storeRows (policy : Policy σ ρ) (p : Pipeline σ) (items : List (Bytes × Bytes)) :
    (p.storeRows policy items ts).2.log =
      noted policy (((executions p.store (items.map (caching ts))).filterMap
        Execution.failure?).map fun f => .setFailed f.1 f.2) ++ p.log := by
  simp only [storeRows]
  rw [log_countSets, fst_setAll]
  exact congrArg (noted policy · ++ p.log) (filterMap_zip_outcomeOf ts p.store items)

/-- What the second half of populating gives, leaves and logs, in terms of its sets. -/
theorem endPopulate_spec (policy : Policy σ ρ) (p : Pipeline σ) (rows : List ρ) :
    let asks := rows.map (policy.ask ts)
    let sets := executions p.store asks
    let run := p.endPopulate policy ts (.ok rows)
    run.1 = .ok ⟨rows, shortfall rows.length sets⟩ ∧ run.2.store = executed p.store asks ∧
      run.2.log = noted policy ((sets.filterMap Execution.failure?).map
        fun f => .setFailed f.1 f.2) ++ p.log := by
  intro asks sets run
  let items := rows.map fun row => (policy.keyOf row, policy.encode row)
  have hasks : items.map (caching ts) = asks := List.map_map
  have hresults : (p.storeRows policy items ts).1 = _ := fst_setAll ts p.cache items
  have hstore := store_storeRows policy p items ts
  have hlog := log_storeRows ts policy p items
  rw [hasks] at hresults hlog
  refine ⟨?_, ?_, hlog⟩
  · simp only [run, endPopulate]
    rw [hresults, countP_outcomeOf, List.length_map]
    rfl
  · rw [executed, ← hasks, List.map_map]
    exact hstore

/-! ### The last row of a key -/

/-- The last of the rows with the key whose set the store answered. -/
def lastCached (keyOf : ρ → Bytes) (rows : List ρ) (sets : List (Execution σ)) (key : Bytes) :
    Option ρ :=
  ((rows.zip sets).reverse.find? fun entry => keyOf entry.1 = key ∧ entry.2.Answered).map Prod.fst

section Last

variable {ts} {policy : Policy σ ρ} {s : σ} {rows : List ρ} {row : ρ}
  {c : Execution σ} {key : Bytes}

theorem length_sets (ts : Timestamp) (policy : Policy σ ρ) (s : σ) (rows : List ρ) :
    (executions s (rows.map (policy.ask ts))).length = rows.length := by
  rw [← List.length_map, map_executions, List.length_map]

/-- The sets stand in line with the rows. -/
theorem ask_of_mem_zip (h : (row, c) ∈ rows.zip (executions s (rows.map (policy.ask ts)))) :
    (c.key, c.op) = policy.ask ts row := by
  induction rows generalizing s with
  | nil => cases h
  | cons first rest ih =>
    rcases List.mem_cons.1 h with hfirst | hrest
    · obtain ⟨rfl, rfl⟩ := Prod.mk.inj hfirst
      rfl
    · exact ih hrest

/-- A key with a set that was answered has a last row of that kind. -/
theorem exists_lastCached (hc : c ∈ executions s (rows.map (policy.ask ts))) (ha : c.Answered) :
    ∃ row, lastCached policy.keyOf rows (executions s (rows.map (policy.ask ts))) c.key =
      some row := by
  have hzip := List.map_snd_zip (Nat.le_of_eq (length_sets ts policy s rows))
  rw [← hzip] at hc
  obtain ⟨⟨row, d⟩, hmem, rfl⟩ := List.mem_map.1 hc
  have hkey := congrArg Prod.fst (ask_of_mem_zip hmem)
  rw [← Option.isSome_iff_exists, lastCached, Option.isSome_map, List.find?_isSome]
  exact ⟨_, List.mem_reverse.2 hmem, decide_eq_true ⟨hkey.symm, ha⟩⟩

/-- **After the set of the last row no set of the key is answered.** -/
theorem exists_split_of_lastCached
    (h : lastCached policy.keyOf rows (executions s (rows.map (policy.ask ts))) key = some row) :
    ∃ earlier c later, executions s (rows.map (policy.ask ts)) = earlier ++ c :: later ∧
      c.key = key ∧ c.op = .set (policy.encode row) ts ∧ c.Answered ∧
      ∀ d ∈ later, d.key = key → ¬ d.Answered := by
  obtain ⟨⟨row', c⟩, hfind, hrow⟩ := Option.map_eq_some_iff.1 h
  obtain rfl : row' = row := hrow
  obtain ⟨hlast, after, before, hreverse, hafter⟩ := List.find?_eq_some_iff_append.1 hfind
  obtain ⟨hkey, ha⟩ := of_decide_eq_true hlast
  -- The rows and sets in order: first those that were looked at last.
  have hzip : rows.zip (executions s (rows.map (policy.ask ts))) =
      before.reverse ++ (row', c) :: after.reverse := by
    rw [← List.reverse_reverse (rows.zip _), hreverse]
    simp
  have hsets := List.map_snd_zip (Nat.le_of_eq (length_sets ts policy s rows))
  rw [hzip, List.map_append, List.map_cons] at hsets
  have hask := ask_of_mem_zip (hzip ▸ List.mem_append_right _ List.mem_cons_self)
  refine ⟨_, c, _, hsets.symm, ?_, congrArg Prod.snd hask, ha, fun d hd hdkey hdanswered => ?_⟩
  · exact (congrArg Prod.fst hask).trans hkey
  · obtain ⟨⟨other, d⟩, hmem, rfl⟩ := List.mem_map.1 hd
    have hother := ask_of_mem_zip
      (hzip ▸ List.mem_append_right _ (List.mem_cons_of_mem _ hmem))
    have hnot := hafter _ (List.mem_reverse.1 hmem)
    rw [decide_eq_true ⟨(congrArg Prod.fst hother).symm.trans hdkey, hdanswered⟩] at hnot
    cases hnot

end Last

end Populating

/-- **A key is left as the set of its last row saw to.** -/
theorem shows_lastCached {r : Recorded Site} {policy : Policy (Recorded Site) ρ} {ts : Timestamp}
    {rows : List ρ} {row : ρ} {key : Bytes} (hr : r.memory.WellFormed) (hts : ts.Normal)
    (hrow : lastCached policy.keyOf rows (executions r (rows.map (policy.ask ts))) key =
      some row) :
    let after := executed r (rows.map (policy.ask ts))
    let c : Cache MemoryStore.Clocked := .ofStore ⟨after.memory, after.now⟩
    (c.get key).1 = .ok (some (policy.encode row)) ∨ ∃ shown, (c.inspect key).1 = .ok shown ∧
      Operation.Stale ((shown.map (·.record)).getD .blank) ts := by
  intro after
  obtain ⟨earlier, d, later, hsplit, rfl, hop, ⟨answer, hanswer⟩, hlater⟩ :=
    exists_split_of_lastCached hrow
  have hmem : d ∈ executions r (rows.map (policy.ask ts)) :=
    hsplit ▸ List.mem_append_right _ List.mem_cons_self
  obtain ⟨hsound, hbefore⟩ := sound_of_mem_executions hr hmem
  obtain ⟨due, hresult, hslot⟩ := hsound.operate_of_answered ⟨answer, hanswer⟩
  obtain ⟨hwf, hnow⟩ := wellFormed_executed hr (rows.map (policy.ask ts))
  -- The set met the slot at a clock reading that is still shown, and nothing touched it since.
  rw [hop, hbefore, ← hnow, MemoryStore.live?] at hresult hslot
  rw [← slot?_executed_of_last hr hsplit hlater] at hslot
  obtain ⟨hpopulated, hlive⟩ := Slot.populated_operate hts (hresult.symm.trans hanswer)
  rw [← hslot] at hpopulated hlive
  exact MemoryStore.shows_of_populated hwf hpopulated hlive

/-- **What populating sees to, whatever fails.**  Calls fail on schedule before they reach the
in-memory store, which any events may have led to, or fail there because the record of the key
cannot be read.  The timestamp is read before the source is asked, and anything may happen
meanwhile.

If the source returns rows, all of them are handed back in order, and what went wrong is nothing
exactly if the store answered the set of every row.  The sets are made in the order of the rows, one
for each, and take no time.  A key with a set that was answered is a hit afterwards with the last
row of that kind, or its record was invalidated or written at a later timestamp.  The rows that
could not be cached are logged, each with its own error, and the text of the failure counts them
and quotes the first. -/
theorem populate_despite_failures (policy : Policy Site ρ) {p q : Pipeline (Recorded Site)}
    (fetch : Source (Recorded Site) (List ρ)) {rows : List ρ}
    (hfetch : fetch (p.readClock policy.recorded).2 = (.ok rows, q))
    (hts : (p.readClock policy.recorded).1.Normal) (config : MemoryStore.Config)
    (events : List MemoryStore.Event)
    (hmemory : q.store.memory = (MemoryStore.empty config).after events) :
    let ts := (p.readClock policy.recorded).1
    let asks := rows.map fun row => (policy.keyOf row, Operation.set (policy.encode row) ts)
    let sets := executions q.store asks
    let failed := sets.filterMap Execution.failure?
    let run := p.populate policy.recorded fetch
    let c : Cache MemoryStore.Clocked := .ofStore ⟨run.2.store.memory, run.2.store.now⟩
    ∃ failure, run.1 = .ok ⟨rows, failure⟩ ∧
      (failure = none ↔ ∀ set ∈ sets, set.Answered) ∧
      sets.map (fun set => (set.key, set.op)) = asks ∧
      run.2.store.history = (sets.map Execution.happening).reverse ++ q.store.history ∧
      run.2.store.now = q.store.now ∧
      (∀ key, (∃ set ∈ sets, set.key = key ∧ set.Answered) →
        ∃ row, lastCached policy.keyOf rows sets key = some row ∧
          ((c.get key).1 = .ok (some (policy.encode row)) ∨
            ∃ shown, (c.inspect key).1 = .ok shown ∧
              let r := (shown.map (·.record)).getD .blank
              ts < r.invalidated ∨ r.value.isSome ∧ ts < r.written)) ∧
      run.2.log = noted policy (failed.map fun f => .setFailed f.1 f.2) ++ q.log ∧
      ((∀ e, some e ∈ q.store.scheduled → e.kind ≠ .none) →
        ∀ key e rest, failed = (key, e) :: rest → ∃ f, failure = some f ∧
          f.message = Decimal.ofNat failed.length ++ Bytes.ofString " of " ++
            Decimal.ofNat rows.length ++ Bytes.ofString " rows not cached: " ++ e.message) := by
  intro ts asks sets failed run c
  have hr : q.store.memory.WellFormed :=
    hmemory ▸ MemoryStore.wellFormed_after (MemoryStore.wellFormed_empty config) events
  have hrun : run = q.endPopulate policy.recorded ts (.ok rows) := by
    show p.populate policy.recorded fetch = _
    simp only [populate, beginPopulate]
    rw [hfetch]
  obtain ⟨hresult, hstore, hlog⟩ := endPopulate_spec ts policy.recorded q rows
  rw [← hrun] at hresult hstore hlog
  refine ⟨_, hresult, ?_, map_executions .., ?_, ?_, ?_, hlog, ?_⟩
  · exact shortfall_eq_none_iff
  · rw [hstore]
    exact history_executed q.store asks
  · rw [hstore]
    exact (wellFormed_executed hr asks).2
  · rintro key ⟨set, hset, rfl, hanswered⟩
    have hset' : set ∈ executions q.store (rows.map (policy.recorded.ask ts)) := hset
    obtain ⟨row, hrow⟩ := exists_lastCached hset' hanswered
    refine ⟨row, hrow, ?_⟩
    have hshows := shows_lastCached hr hts hrow
    rwa [← hstore] at hshows
  · intro hscheduled key e rest hfailed
    have hkinds (set) (hset : set ∈ sets) (e) (he : set.result = .error e) : e.kind ≠ .none :=
      kind_ne_none_of_mem hscheduled hset he
    exact ⟨_, shortfall_of_failed hkinds hfailed, rfl⟩

/-- A row and the key that it is cached under. -/
def rowOf (id name : String) : Row := ⟨Bytes.ofString id, Bytes.ofString name⟩

/-- The failure that is on schedule. -/
def outage : StoreError := ⟨.unavailable, Bytes.ofString "down"⟩

/-- A site where the fifth call fails.  One key has a value that is newer than its invalidation, and
what is stored under another one is no record. -/
def patchySite : Recorded Site :=
  let events : List MemoryStore.Event :=
    [⟨⟨0⟩, .access (rowOf "2" "").key (.operate (.invalidate ⟨20, 0⟩))⟩,
      ⟨⟨0⟩, .access (rowOf "2" "").key (.operate (.set [7] ⟨21, 0⟩))⟩,
      ⟨⟨0⟩, .access (rowOf "3" "").key (.overwrite ((∅ : Fields).insert Record.valueField [9]))⟩]
  ⟨⟨⟨⟨(MemoryStore.empty {}).after events, ⟨0⟩⟩, some [none, none, none, none, some outage]⟩,
    .stepping 10⟩, []⟩

/-- Three rows share a key, and the set of the last of them fails. -/
def patchyRows : List Row :=
  [rowOf "1" "a", rowOf "1" "b", rowOf "2" "c", rowOf "3" "d", rowOf "1" "e"]

/-- Of the rows that share a key the second one is served, and the newer value of another key
stays. -/
theorem populate_despite_failures_patchy :
    let run := (Pipeline.ofStore patchySite).populate (Row.policy true true).recorded
      fun p => (.ok patchyRows, p)
    let c : Cache MemoryStore.Clocked := .ofStore ⟨run.2.store.memory, run.2.store.now⟩
    (∃ f, run.1 = .ok ⟨patchyRows, some f⟩ ∧
      f.message = Bytes.ofString
        "2 of 5 rows not cached: user:3: value without write timestamp") ∧
    ((c.get (Bytes.ofString "user:1")).1 = .ok (some (Bytes.ofString "1|b")) ∨
      ∃ shown, (c.inspect (Bytes.ofString "user:1")).1 = .ok shown ∧
        let r := (shown.map (·.record)).getD .blank
        ⟨10, 0⟩ < r.invalidated ∨ r.value.isSome ∧ ⟨10, 0⟩ < r.written) ∧
    (c.get (Bytes.ofString "user:2")).1.toOption = some (some [7]) := by
  intro run c
  obtain ⟨failure, hresult, -, -, -, -, hkeys, -, hmessage⟩ :=
    populate_despite_failures (Row.policy true true) (p := .ofStore patchySite)
      (fun p => (.ok patchyRows, p)) rfl (by decide) {} _ rfl
  refine ⟨?_, ?_, by decide +kernel⟩
  · have hkinds (e) (he : some e ∈ patchySite.scheduled) : e.kind ≠ .none := by
      obtain rfl : e = outage := by simpa [Recorded.scheduled, patchySite] using he
      decide
    obtain ⟨f, rfl, hf⟩ := hmessage hkinds (Bytes.ofString "user:3")
      (.corruptRecord (Bytes.ofString "user:3") .unstampedValue)
      [(Bytes.ofString "user:1", outage)] (by decide +kernel)
    exact ⟨f, hresult, hf.trans (by decide +kernel)⟩
  · obtain ⟨row, hrow, hshown⟩ := hkeys (Bytes.ofString "user:1") (by decide +kernel)
    obtain rfl : rowOf "1" "b" = row := Option.some.inj (.trans (by decide +kernel) hrow)
    exact hshown

end Pipeline

end CoherentCache
