import CoherentCache.Proofs.MemoryStore.Agenda
import CoherentCache.Proofs.MemoryStore.Timeline

/-!
# Sweeps of the in-memory store

A sweep goes through all shards and drops lapsed slots, at most a given number of each.  After any
run it drops exactly as many as it may, but for the stray entries of the agenda that it meets, and
such an entry belongs to a key that had lapsed earlier in the run.

* `MemoryStore.turn_respond` : what an event does to each shard.
* `MemoryStore.LapsedIn` : the deadline of a key had passed at some event of a run.
* `MemoryStore.sweep_drops` : **what a sweep drops.**
* `MemoryStore.sweep_spends_on_stray` : a run after which a stray entry keeps a sweep from dropping
  anything, though a slot has lapsed.
-/

namespace CoherentCache

namespace MemoryStore

/-! ### Shards by their places -/

variable {m : MemoryStore} {now : Instant} {key : Bytes} {i : Nat} {events : List Event}

theorem exists_shardAt {s : Shard} (h : s ∈ m.shards) : ∃ i, m.shardAt i = s := by
  obtain ⟨i, hi⟩ := List.mem_iff_getElem?.1 h
  refine ⟨i, ?_⟩
  rw [shardAt, List.getD_eq_getElem?_getD, hi]
  rfl

theorem shardAt_settle (hm : m.WellFormed) (now : Instant) (key : Bytes) (i : Nat) :
    (m.settle now key).shardAt i =
      if m.index key = i then (m.shardAt i).settle now key else m.shardAt i := by
  simp only [settle]
  split
  · show (m.withShard key _).shardAt i = _
    rw [shardAt_withShard hm]
    split
    · next hi => rw [← hi, shardAt_index]
    · rfl
  · next hl =>
    split
    · next hi => rw [← hi, shardAt_index, Shard.settle, if_neg hl]
    · rfl

/-! ### One event -/

theorem turn_execute (hm : m.WellFormed) (now : Instant) (key : Bytes) (op : Operation) (i : Nat) :
    (m.shardAt i).Turn now ((m.execute now key op).2.shardAt i) := by
  let started : MemoryStore := { m with counters.operations := m.counters.operations + 1 }
  have hsettled : (started.settle now key).shardAt i =
      if m.index key = i then (m.shardAt i).settle now key else m.shardAt i :=
    shardAt_settle (m := started) hm now key i
  have hupdated := updated_settle (m := started) hm now key
  have hindex : (started.settle now key).index key = m.index key := by
    unfold index
    rw [hupdated.config_eq]
  have hturn : (m.shardAt i).Turn now ((started.settle now key).shardAt i) := by
    rw [hsettled]
    split
    · exact .settle key
    · exact .same
  simp only [execute]
  split
  · exact hturn
  · split
    · exact hturn
    · next record _ =>
      rw [shardAt_withShard hupdated.wellFormed, hindex]
      split
      · next hi =>
        rw [← shardAt_index, hindex, hi, hsettled, if_pos hi]
        exact .commit key ..
      · exact hturn

theorem turn_inspect (hm : m.WellFormed) (now : Instant) (key : Bytes) (i : Nat) :
    (m.shardAt i).Turn now ((m.inspect now key).2.shardAt i) := by
  have hturn : (m.shardAt i).Turn now ((m.settle now key).shardAt i) := by
    rw [shardAt_settle hm]
    split
    · exact .settle key
    · exact .same
  simp only [inspect]
  split <;> exact hturn

/-- **Every event does one of few things to each shard.** -/
theorem turn_respond (hm : m.WellFormed) (e : Event) (i : Nat) :
    (m.shardAt i).Turn e.now ((m.respond e).2.shardAt i) := by
  obtain ⟨now, act⟩ := e
  cases act with
  | sweep =>
    show (m.shardAt i).Turn now ((m.sweep now).shardAt i)
    rw [shardAt_sweep]
    exact .sweep _
  | access key a =>
    cases a with
    | operate op => exact turn_execute hm now key op i
    | inspect => exact turn_inspect hm now key i
    | overwrite fields =>
      show (m.shardAt i).Turn now ((m.overwrite key fields).shardAt i)
      rw [overwrite, shardAt_withShard hm]
      split
      · next hi =>
        rw [← shardAt_index, hi]
        exact .overwrite key fields
      · exact .same

/-! ### Runs -/

theorem indexed_after (hm : m.WellFormed) (h : ∀ i, (m.shardAt i).Indexed) (events : List Event)
    (i : Nat) : ((m.after events).shardAt i).Indexed := by
  induction events generalizing m with
  | nil => exact h i
  | cons e rest ih =>
    exact ih (wellFormed_respond hm e) fun i => (turn_respond hm e i).indexed (h i)

theorem indexed_reached (config : Config) (events : List Event) (i : Nat) :
    (((empty config).after events).shardAt i).Indexed :=
  indexed_after (wellFormed_empty config) (fun i => shardAt_empty config i ▸ Shard.indexed_empty)
    events i

/-- At some event of a run the deadline of the key had passed. -/
def LapsedIn (m : MemoryStore) (events : List Event) (i : Nat) (key : Bytes) : Prop :=
  ∃ before e after, events = before ++ e :: after ∧
    ((m.after before).shardAt i).isLapsed e.now key = true

theorem LapsedIn.cons {e : Event} (h : (m.respond e).2.LapsedIn events i key) :
    m.LapsedIn (e :: events) i key := by
  obtain ⟨before, e', after, rfl, hlapsed⟩ := h
  exact ⟨e :: before, e', after, rfl, hlapsed⟩

theorem faithful_after (hm : m.WellFormed) (h : ∀ i, (m.shardAt i).Indexed)
    (hf : (m.shardAt i).Faithful key) (hnot : ¬ m.LapsedIn events i key) :
    ((m.after events).shardAt i).Faithful key := by
  induction events generalizing m with
  | nil => exact hf
  | cons e rest ih =>
    have hl : (m.shardAt i).isLapsed e.now key = false :=
      Bool.eq_false_iff.2 fun hl => hnot ⟨[], e, rest, rfl, hl⟩
    have hturn := turn_respond hm e i
    exact ih (wellFormed_respond hm e) (fun j => (turn_respond hm e j).indexed (h j))
      (hturn.faithful (h i) hl hf) fun hin => hnot hin.cons

/-- A due entry that is a stray one belongs to a key that had lapsed before. -/
theorem lapsedIn_of_isStray {config : Config} {e : Expiry}
    (he : e ∈ (((empty config).after events).shardAt i).agenda) (hdue : e.deadline ≤ now)
    (hstray : (((empty config).after events).shardAt i).isStray now e = true) :
    (empty config).LapsedIn events i e.key := by
  by_contra hnot
  have hempty : ∀ i, ((empty config).shardAt i).Indexed := fun i =>
    shardAt_empty config i ▸ Shard.indexed_empty
  have hfaithful := faithful_after (wellFormed_empty config) hempty
    (shardAt_empty config i ▸ Shard.faithful_empty e.key) hnot
  rw [hfaithful.isStray_eq he hdue] at hstray
  cases hstray

theorem sum_size_sweep {shards : List Shard} (h : ∀ s ∈ shards, s.Indexed) (now : Instant)
    (limit : Nat) :
    let swept := shards.map fun s => s.sweep now limit
    (shards.map Shard.size).foldr (· + ·) 0 =
      ((swept.map (·.1)).map Shard.size).foldr (· + ·) 0 + (swept.map (·.2)).foldr (· + ·) 0 := by
  induction shards with
  | nil => rfl
  | cons s rest ih =>
    obtain ⟨hs, hrest⟩ := List.forall_mem_cons.1 h
    obtain ⟨-, -, -, -, hsize⟩ := s.sweep_spec hs now limit
    have hsum := ih hrest
    simp only [List.map_cons, List.foldr_cons] at hsum ⊢
    omega

/-- The slots that a sweep drops are gone from the store. -/
theorem size_sweep (h : ∀ s ∈ m.shards, s.Indexed) (now : Instant) :
    m.size = (m.sweep now).size + m.swept now := sum_size_sweep h now m.config.sweepLimit

/-- **What a sweep drops.**  After any run it drops from each shard lapsed slots only, and of them
as many as the limit allows, less one for each stray entry among those that it works off.  A stray
entry belongs to a key whose deadline had passed at an earlier event of the run, so the entries of
tombstones that were renewed or given a value in time cost nothing.  What is dropped is counted. -/
theorem sweep_drops (config : Config) (events : List Event) (now : Instant) :
    let m := (empty config).after events
    (∀ i, ∃ worked, (m.shardAt i).agenda = worked ++ ((m.sweep now).shardAt i).agenda ∧
      (m.shardAt i).size = ((m.sweep now).shardAt i).size +
        min (config.sweepLimit - worked.countP ((m.shardAt i).isStray now))
          ((m.shardAt i).lapsedKeys now).length ∧
      (∀ e ∈ worked, e.deadline ≤ now ∧
        ((m.shardAt i).isStray now e = true → (empty config).LapsedIn events i e.key)) ∧
      ∀ key, ((m.sweep now).shardAt i).slots[key]? = (m.shardAt i).slots[key]? ∨
        ((m.sweep now).shardAt i).slots[key]? = none ∧ (m.shardAt i).isLapsed now key = true) ∧
    (m.sweep now).counters.expirations + (m.sweep now).size = m.counters.expirations + m.size := by
  intro m
  have hindexed : ∀ i, (m.shardAt i).Indexed := indexed_reached config events
  have hconfig : m.config = config := config_after (wellFormed_empty config) events
  refine ⟨fun i => ?_, ?_⟩
  · obtain ⟨worked, hworked, hdue, hdropped, hsize⟩ :=
      (m.shardAt i).sweep_spec (hindexed i) now m.config.sweepLimit
    rw [shardAt_sweep, ← hconfig]
    refine ⟨worked, hworked, hdropped ▸ hsize, fun e he => ⟨hdue e he, fun hstray => ?_⟩,
      fun key => ?_⟩
    · have hmem : e ∈ (m.shardAt i).agenda := hworked ▸ List.mem_append_left _ he
      rw [hconfig]
      exact lapsedIn_of_isStray hmem (hdue e he) hstray
    · exact (Shard.sweep_cases (m.shardAt i) now m.config.sweepLimit key).imp_right fun h =>
        ⟨h.1, h.2.1⟩
  · have hshards : ∀ s ∈ m.shards, s.Indexed := fun s hs => by
      obtain ⟨i, rfl⟩ := exists_shardAt hs
      exact hindexed i
    have hsize := size_sweep hshards now
    rw [expirations_sweep]
    omega

/-- The tombstone of one key lapses and is given again at once; that of another key lapses later. -/
def renewedRun : List Event :=
  [⟨⟨0⟩, .access [1] (.operate (.invalidate ⟨1, 0⟩))⟩,
    ⟨⟨5000000⟩, .access [2] (.operate (.invalidate ⟨1, 0⟩))⟩,
    ⟨⟨10000000⟩, .access [1] (.operate (.invalidate ⟨2, 0⟩))⟩]

/-- A slot has lapsed and a sweep may drop one, but it spends that on what the first tombstone of
the other key left behind. -/
theorem sweep_spends_on_stray :
    let config : Config := { shards := 1, retention := 10, sweepLimit := 1 }
    let m := (empty config).after renewedRun
    let now : Instant := ⟨15000000⟩
    min config.sweepLimit ((m.shardAt 0).lapsedKeys now).length = 1 ∧
      (m.shardAt 0).size = 2 ∧ ((m.sweep now).shardAt 0).size = 2 := by
  decide +kernel

end MemoryStore

end CoherentCache
