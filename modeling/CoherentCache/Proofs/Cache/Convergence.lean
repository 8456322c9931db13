import CoherentCache.Proofs.Cache.Asks
import CoherentCache.Proofs.Operation
import Mathlib.Data.Finset.Basic
import Mathlib.Order.Bounds.Basic

/-!
# Convergence

What a key shows after a run depends on which sets and invalidations of it there were, and not on
their order or on how often each was made, as long as no tombstone of the key expires on the way.

* `Record.Reflects` : what the operations seen so far say about a record.
* `Record.reflects_effect` : one more operation.
* `Record.Reflects.visibleValue_of_isGreatest` : what a reader is served.
* `MemoryStore.converges` : runs of a cache with the same sets and invalidations of a key end alike.
-/

namespace CoherentCache

/-! ### A record and the operations that it saw -/

namespace Record

/-- The record reflects the operations seen so far.  A set that came too late may be missing, and so
may one that an invalidation has hidden; neither can ever be served. -/
structure Reflects (seen : Set Operation) (r : Record) : Prop where
  /-- The newest invalidation is remembered. -/
  invalidated : IsGreatest (insert .zero {t | Operation.invalidate t ∈ seen}) r.invalidated
  /-- The value was set at the timestamp of its write. -/
  value : ∀ v ∈ r.value, Operation.set v r.written ∈ seen
  /-- Every set is older than the newest invalidation or no newer than the value. -/
  newest : ∀ v s, Operation.set v s ∈ seen → s < r.invalidated ∨ (r.value.isSome ∧ s ≤ r.written)

variable {seen seen' : Set Operation} {r : Record} {current : Option Record}

theorem reflects_blank : Reflects ∅ blank := by
  refine ⟨⟨Set.mem_insert .., ?_⟩, ?_, ?_⟩
  · rintro t (rfl | ht)
    · exact le_refl _
    · cases ht
  · rintro v ⟨⟩
  · rintro v s ⟨⟩

/-- Only the writes among the operations matter. -/
theorem Reflects.congr (h : Reflects seen r) (heq : ∀ op, op ≠ .get → (op ∈ seen ↔ op ∈ seen')) :
    Reflects seen' r := by
  have hinvalidations : {t | Operation.invalidate t ∈ seen} = {t | Operation.invalidate t ∈ seen'} :=
    Set.ext fun t => heq _ (by rintro ⟨⟩)
  refine ⟨hinvalidations ▸ h.invalidated, fun v hv => ?_, fun v s hs => ?_⟩
  · exact (heq _ (by rintro ⟨⟩)).1 (h.value v hv)
  · exact h.newest v s ((heq _ (by rintro ⟨⟩)).2 hs)

theorem invalidations_insert_set (v : Bytes) (s : Timestamp) (seen : Set Operation) :
    {t | Operation.invalidate t ∈ insert (Operation.set v s) seen} =
      {t | Operation.invalidate t ∈ seen} :=
  Set.ext fun t => ⟨fun ht => ht.resolve_left (by rintro ⟨⟩), Or.inr⟩

theorem Reflects.stale_set (h : Reflects seen r) {v : Bytes} {s : Timestamp}
    (hs : Operation.Stale r s) : Reflects (insert (.set v s) seen) r := by
  refine ⟨?_, fun w hw => Or.inr (h.value w hw), ?_⟩
  · rw [invalidations_insert_set]
    exact h.invalidated
  · rintro w s' (hw | hw)
    · -- The new set itself: it was refused because something newer is there.
      cases hw
      rcases hs with hs | ⟨hsome, hs⟩
      · exact Or.inl hs
      · exact Or.inr ⟨hsome, le_of_lt hs⟩
    · exact h.newest w s' hw

theorem Reflects.set (h : Reflects seen r) {v : Bytes} {s : Timestamp}
    (hs : ¬ Operation.Stale r s) :
    Reflects (insert (.set v s) seen) { r with value := some v, written := s } := by
  obtain ⟨-, hwritten⟩ := Operation.not_stale_iff.1 hs
  refine ⟨?_, ?_, ?_⟩
  · rw [invalidations_insert_set]
    exact h.invalidated
  · rintro _ ⟨⟩
    exact Or.inl rfl
  · rintro w s' (hw | hw)
    · cases hw
      exact Or.inr ⟨rfl, le_refl _⟩
    · rcases h.newest w s' hw with hold | ⟨hsome, hle⟩
      · exact Or.inl hold
      · exact Or.inr ⟨rfl, le_trans hle (hwritten hsome)⟩

theorem isGreatest_insert_invalidate {t : Timestamp} {old new : Timestamp}
    (h : IsGreatest (insert .zero {t | Operation.invalidate t ∈ seen}) old)
    (hnew : new = max old t) :
    IsGreatest (insert .zero {u | Operation.invalidate u ∈ insert (Operation.invalidate t) seen})
      new := by
  have hset : insert Timestamp.zero
      {u | Operation.invalidate u ∈ insert (Operation.invalidate t) seen} =
      insert t (insert .zero {u | Operation.invalidate u ∈ seen}) := by
    ext u
    simp only [Set.mem_insert_iff, Set.mem_ofPred_eq, Operation.invalidate.injEq]
    exact or_left_comm
  rw [hset, hnew, max_comm]
  exact h.insert t

theorem Reflects.old_invalidate (h : Reflects seen r) {t : Timestamp} (ht : t < r.invalidated) :
    Reflects (insert (.invalidate t) seen) r := by
  refine ⟨isGreatest_insert_invalidate h.invalidated (max_eq_left (le_of_lt ht)).symm,
    fun w hw => Or.inr (h.value w hw), ?_⟩
  rintro w s (hw | hw)
  · cases hw
  · exact h.newest w s hw

theorem Reflects.invalidate (h : Reflects seen r) {t : Timestamp} (ht : r.invalidated ≤ t) :
    Reflects (insert (.invalidate t) seen) { r with invalidated := t } := by
  refine ⟨isGreatest_insert_invalidate h.invalidated (max_eq_right ht).symm,
    fun w hw => Or.inr (h.value w hw), ?_⟩
  rintro w s (hw | hw)
  · cases hw
  · -- A set that the old invalidation was newer than is older than the new one all the more.
    rcases h.newest w s hw with hold | hle
    · exact Or.inl (lt_of_lt_of_le hold ht)
    · exact Or.inr hle

/-- **One more operation**, whatever becomes of it. -/
theorem reflects_effect (h : Reflects seen (current.getD .blank)) (op : Operation) :
    Reflects (insert op seen) (((op.effect current).next.or current).getD .blank) := by
  cases op with
  | get =>
    rw [Operation.effect_get]
    refine h.congr fun op hop => ⟨Or.inr, fun hmem => hmem.resolve_left hop⟩
  | set v s =>
    by_cases hs : Operation.Stale (current.getD .blank) s
    · rw [Operation.effect_set_of_stale hs]
      exact h.stale_set hs
    · rw [Operation.effect_set_of_not_stale hs]
      exact h.set hs
  | invalidate t =>
    by_cases ht : t < (current.getD .blank).invalidated
    · rw [Operation.effect_invalidate_of_lt ht]
      exact h.old_invalidate ht
    · rw [Operation.effect_invalidate_of_le ht]
      exact h.invalidate ht

/-! ### What a reader is served -/

/-- The value of the newest set is served, unless an invalidation is newer.  Sets with one timestamp
must agree on the value. -/
theorem Reflects.visibleValue_of_isGreatest (h : Reflects seen r)
    (hagree : ∀ v v' s, Operation.set v s ∈ seen → Operation.set v' s ∈ seen → v = v')
    {v : Bytes} {s : Timestamp} (hs : IsGreatest {s | ∃ v, Operation.set v s ∈ seen} s)
    (hv : Operation.set v s ∈ seen) :
    r.visibleValue = if r.invalidated ≤ s then some v else none := by
  have hle : ∀ w ∈ r.value, r.written ≤ s := fun w hw => hs.2 ⟨w, h.value w hw⟩
  unfold visibleValue
  rcases h.newest v s hv with hold | ⟨hsome, hnew⟩
  · -- Even the newest set is older than the newest invalidation, so nothing can be visible.
    rw [if_neg (not_le_of_gt hold), if_neg]
    rintro ⟨hsome, hfresh⟩
    obtain ⟨w, hw⟩ := Option.isSome_iff_exists.1 hsome
    exact absurd (le_trans hfresh (hle w hw)) (not_le_of_gt hold)
  · -- The value is at least as new as the newest set, and so it is that set's.
    obtain ⟨w, hw⟩ := Option.isSome_iff_exists.1 hsome
    have heq : r.written = s := le_antisymm (hle w hw) hnew
    have hwv : w = v := hagree w v s (heq ▸ h.value w hw) hv
    have hvisible : r.Visible ↔ r.invalidated ≤ s := by
      rw [← heq]
      exact ⟨fun hvis => hvis.2, fun hfresh => ⟨hsome, hfresh⟩⟩
    simp only [hvisible, hw, hwv]

theorem Reflects.visibleValue_of_no_set (h : Reflects seen r)
    (hnone : ∀ v s, Operation.set v s ∉ seen) : r.visibleValue = none := by
  have hvalue : r.value = none := by
    cases hv : r.value with
    | none => rfl
    | some v => exact absurd (h.value v hv) (hnone v _)
  unfold visibleValue
  rw [hvalue, ite_self]

end Record

/-! ### Runs -/

namespace MemoryStore

/-- At none of the events of a run has the deadline of the key passed. -/
def NeverLapsed (m : MemoryStore) (key : Bytes) : List Event → Prop
  | [] => True
  | e :: rest => (m.slot? key).any (·.isLapsed e.now) = false ∧ (m.respond e).2.NeverLapsed key rest

instance decidableNeverLapsed (m : MemoryStore) (key : Bytes) :
    (events : List Event) → Decidable (m.NeverLapsed key events)
  | [] => isTrue trivial
  | e :: rest =>
    have := decidableNeverLapsed (m.respond e).2 key rest
    inferInstanceAs (Decidable (_ ∧ _))

/-- The slot of the key persists a record that reflects the operations seen so far. -/
def Mirrors (m : MemoryStore) (key : Bytes) (seen : Set Operation) : Prop :=
  m.WellFormed ∧ ∃ current, Slot.Keeps (m.slot? key) current ∧
    Record.Reflects seen (current.getD .blank)

/-- The operations of a run on a key. -/
def operationsOn (key : Bytes) (events : List Event) : Set Operation :=
  {op | ∃ e ∈ events, e.act = .access key (.operate op)}

variable {m : MemoryStore} {key : Bytes} {seen : Set Operation} {e : Event} {events : List Event}

theorem live?_of_not_lapsed {now : Instant} (h : (m.slot? key).any (·.isLapsed now) = false) :
    m.live? now key = m.slot? key := by
  apply live?_eq_slot?
  rw [Shard.isLapsed_eq]
  exact h

theorem respond_operate_mirrors {now : Instant} {op : Operation} (h : Mirrors m key seen)
    (hl : (m.slot? key).any (·.isLapsed now) = false) (hop : op.Normal) :
    Mirrors (m.respond ⟨now, .access key (.operate op)⟩).2 key (insert op seen) := by
  obtain ⟨hm, current, hkeeps, hreflects⟩ := h
  obtain ⟨-, hupdated⟩ := respond_access hm now key (.operate op)
  rw [live?_of_not_lapsed hl] at hupdated
  simp only [Access.onSlot, Slot.operate, Slot.record_of_keeps hkeeps] at hupdated
  have hafter := Record.reflects_effect hreflects op
  refine ⟨hupdated.wellFormed, (op.effect current).next.or current, ?_, hafter⟩
  rw [hupdated.self]
  cases hnext : (op.effect current).next with
  | none => exact hkeeps
  | some next => exact ⟨rfl, Operation.storable_of_effect hop hkeeps.2 hnext⟩

theorem slot?_respond (hm : m.WellFormed) (hl : (m.slot? key).any (·.isLapsed e.now) = false)
    (hother : ∀ a, e.act = .access key a → a = .inspect) :
    (m.respond e).2.slot? key = m.slot? key := by
  obtain ⟨now, act⟩ := e
  cases act with
  | sweep =>
    rcases slot?_sweep m now key with hs | ⟨hgone, hdead⟩
    · exact hs
    · rw [live?_of_not_lapsed hl] at hdead
      exact hgone.trans hdead.symm
  | access k a =>
    obtain ⟨-, hupdated⟩ := respond_access hm now k a
    by_cases hk : k = key
    · subst hk
      obtain rfl := hother a rfl
      rw [hupdated.self]
      exact live?_of_not_lapsed hl
    · exact hupdated.other hk

theorem operationsOn_cons (key : Bytes) (e : Event) (rest : List Event) :
    operationsOn key (e :: rest) = operationsOn key [e] ∪ operationsOn key rest := by
  ext op
  simp only [operationsOn, List.mem_cons, List.not_mem_nil, or_false, Set.mem_union,
    Set.mem_ofPred_eq, or_and_right, exists_or]

theorem operationsOn_operate {now : Instant} (op : Operation) :
    operationsOn key [⟨now, .access key (.operate op)⟩] = {op} := by
  ext op'
  simp only [operationsOn, List.mem_singleton, exists_eq_left, Act.access.injEq,
    Access.operate.injEq, true_and, Set.mem_ofPred_eq, Set.mem_singleton_iff]
  exact eq_comm

theorem respond_mirrors (h : Mirrors m key seen)
    (hl : (m.slot? key).any (·.isLapsed e.now) = false)
    (hnormal : ∀ op ∈ operationsOn key [e], op.Normal)
    (hforeign : ∀ fields, e.act ≠ .access key (.overwrite fields)) :
    Mirrors (m.respond e).2 key (seen ∪ operationsOn key [e]) := by
  by_cases hop : ∃ op, e.act = .access key (.operate op)
  · obtain ⟨op, hact⟩ := hop
    obtain ⟨now, act⟩ := e
    obtain rfl : act = .access key (.operate op) := hact
    rw [operationsOn_operate] at hnormal ⊢
    rw [Set.union_singleton]
    exact respond_operate_mirrors h hl (hnormal op rfl)
  · -- Whatever else happens, the slot of the key stays, and so does what was seen.
    have hnone : operationsOn key [e] = ∅ := by
      refine Set.eq_empty_iff_forall_notMem.2 fun op hmem => hop ⟨op, ?_⟩
      obtain ⟨e', he', hact⟩ := hmem
      rwa [List.mem_singleton.1 he'] at hact
    obtain ⟨hm, current, hkeeps, hreflects⟩ := h
    rw [hnone, Set.union_empty]
    refine ⟨wellFormed_respond hm e, current, ?_, hreflects⟩
    rw [slot?_respond hm hl]
    · exact hkeeps
    · intro a hact
      cases a with
      | operate op => exact absurd ⟨op, hact⟩ hop
      | inspect => rfl
      | overwrite fields => exact absurd hact (hforeign fields)

/-- **What a run leaves reflects all that the run did to the key**, if nothing lapses. -/
theorem after_mirrors (h : Mirrors m key seen) (hl : m.NeverLapsed key events)
    (hnormal : ∀ op ∈ operationsOn key events, op.Normal)
    (hforeign : ∀ e ∈ events, ∀ fields, e.act ≠ .access key (.overwrite fields)) :
    Mirrors (m.after events) key (seen ∪ operationsOn key events) := by
  induction events generalizing m seen with
  | nil =>
    have hnone : operationsOn key [] = ∅ := by
      refine Set.eq_empty_iff_forall_notMem.2 ?_
      rintro op ⟨e, ⟨⟩, -⟩
    rw [hnone, Set.union_empty]
    exact h
  | cons e rest ih =>
    rw [operationsOn_cons] at hnormal ⊢
    have hstep := respond_mirrors h hl.1 (fun op hop => hnormal op (Or.inl hop))
      (hforeign e (List.mem_cons_self ..))
    rw [← Set.union_assoc]
    exact ih hstep hl.2 (fun op hop => hnormal op (Or.inr hop))
      fun e' he' => hforeign e' (List.mem_cons_of_mem _ he')

/-! ### Runs of a cache -/

theorem neverLapsed_append {rest : List Event} :
    m.NeverLapsed key (events ++ rest) ↔
      m.NeverLapsed key events ∧ (m.after events).NeverLapsed key rest := by
  induction events generalizing m with
  | nil => exact (iff_of_eq (true_and _)).symm
  | cons e events ih =>
    rw [List.cons_append, NeverLapsed, NeverLapsed, ih, and_assoc]
    rfl

/-- The operations of a run on a key are those that its calls ask for. -/
theorem mem_operationsOn_timeline {now : Instant} {steps : List Step} {op : Operation} :
    op ∈ operationsOn key (timeline now steps) ↔
      ∃ q, Step.call q ∈ steps ∧ Cache.Ask.execute key op ∈ q.asks := by
  constructor
  · rintro ⟨e, he, hact⟩
    obtain ⟨q, hq, t, ht⟩ := exists_of_mem_timeline he
    cases q with
    | call q =>
      obtain ⟨ask, hask, rfl⟩ := List.mem_map.1 ht
      cases ask with
      | execute k op' =>
        cases hact
        exact ⟨q, hq, hask⟩
      | inspect k => cases hact
    | overwrite k fields => rw [List.mem_singleton.1 ht] at hact; cases hact
    | sweep => rw [List.mem_singleton.1 ht] at hact; cases hact
    | advance nanos => cases ht
    | counters => cases ht
  · rintro ⟨q, hq, hask⟩
    obtain ⟨t, ht⟩ := events_subset_timeline hq now
    exact ⟨_, ht (List.mem_map_of_mem hask), rfl⟩

theorem not_overwrite_of_mem_timeline {now : Instant} {steps : List Step}
    (hforeign : ∀ fields, Step.overwrite key fields ∉ steps) {e : Event}
    (he : e ∈ timeline now steps) (fields : Fields) : e.act ≠ .access key (.overwrite fields) := by
  intro hact
  obtain ⟨q, hq, t, ht⟩ := exists_of_mem_timeline he
  cases q with
  | call q =>
    obtain ⟨ask, -, rfl⟩ := List.mem_map.1 ht
    cases ask <;> cases hact
  | overwrite k fields' =>
    rw [List.mem_singleton.1 ht] at hact
    cases hact
    exact hforeign fields hq
  | sweep => rw [List.mem_singleton.1 ht] at hact; cases hact
  | advance nanos => cases ht
  | counters => cases ht

theorem get_inspect_of_mirrors {c : Cache Clocked} (h : Mirrors c.store.store key seen)
    (hl : (c.store.store.slot? key).any (·.isLapsed c.store.now) = false) :
    ∃ r shown, Record.Reflects seen r ∧ (c.get key).1 = .ok r.visibleValue ∧
      (c.inspect key).1 = .ok shown ∧
      (shown.map (·.record.invalidated)).getD .zero = r.invalidated := by
  obtain ⟨hm, current, hkeeps, hreflects⟩ := h
  have hlive := live?_of_not_lapsed hl
  have hget : (RecordStore.execute c.store key .get).1 =
      .ok ⟨.rejected, (current.getD .blank).visibleValue⟩ := by
    refine (execute_eq hm c.store.now key .get).1.trans ?_
    rw [hlive]
    simp only [Slot.operate, Slot.record_of_keeps hkeeps]
    rfl
  have hinspect := (inspect_eq hm c.store.now key).1
  rw [hlive] at hinspect
  simp only [Slot.inspect, Slot.record_of_keeps hkeeps] at hinspect
  have hserved : (c.get key).1 = .ok (current.getD .blank).visibleValue := by
    refine (Cache.perform_fst ..).trans ?_
    rw [hget]
    rfl
  cases current with
  | none => exact ⟨_, none, hreflects, hserved, hinspect, rfl⟩
  | some r => exact ⟨_, some _, hreflects, hserved, hinspect, rfl⟩

/-- **Convergence.**  Take a key that has no slot, and any run of calls, sweeps and passing time in
which the sets and invalidations of the key are those of `O`, in any order and each at least once,
and no tombstone of the key expires.  Then the key ends with the newest invalidation of `O`, and a
reader is served the newest set of `O` unless that invalidation is newer. -/
theorem converges (config : Config) (start : Instant) {before steps : List Step}
    {O : Finset Operation}
    (habsent : (afterSteps (.ofStore ⟨empty config, start⟩) before).store.store.slot? key = none)
    (hforeign : ∀ fields, Step.overwrite key fields ∉ steps)
    (hwrites : ∀ op, op ∈ O ↔
      op ≠ .get ∧ ∃ q, Step.call q ∈ steps ∧ Cache.Ask.execute key op ∈ q.asks)
    (hnormal : ∀ op ∈ O, op.Normal)
    (hagree : ∀ v v' s, Operation.set v s ∈ O → Operation.set v' s ∈ O → v = v')
    (hlapse : (afterSteps (.ofStore ⟨empty config, start⟩) before).store.store.NeverLapsed key
      (timeline (afterSteps (.ofStore ⟨empty config, start⟩) before).store.now
        (steps ++ [.call (.get key)]))) :
    let c := afterSteps (.ofStore ⟨empty config, start⟩) (before ++ steps)
    ∃ T, IsGreatest (insert .zero {t | Operation.invalidate t ∈ O}) T ∧
      (∃ shown, (c.inspect key).1 = .ok shown ∧
        (shown.map (·.record.invalidated)).getD .zero = T) ∧
      (∀ S v, IsGreatest {s | ∃ v, Operation.set v s ∈ O} S → Operation.set v S ∈ O →
        (c.get key).1 = .ok (if T ≤ S then some v else none)) ∧
      ((∀ v s, Operation.set v s ∉ O) → (c.get key).1 = .ok none) := by
  intro c
  let c₀ := afterSteps (.ofStore ⟨empty config, start⟩) before
  have hc : c = afterSteps c₀ steps := List.foldl_append
  have hm : c₀.store.store.WellFormed := by
    rw [show c₀.store = _ from store_afterSteps _ before]
    exact wellFormed_after (wellFormed_empty config) _
  have hops : ∀ op, op ≠ .get → (op ∈ operationsOn key (timeline c₀.store.now steps) ↔ op ∈ O) := by
    intro op hop
    rw [mem_operationsOn_timeline, hwrites]
    exact (and_iff_right hop).symm
  have hnormal' : ∀ op ∈ operationsOn key (timeline c₀.store.now steps), op.Normal := by
    intro op hmem
    by_cases hop : op = .get
    · subst hop; trivial
    · exact hnormal op ((hops op hop).1 hmem)
  rw [timeline_append] at hlapse
  obtain ⟨hlapse, hlast⟩ := neverLapsed_append.1 hlapse
  -- The invariant holds of the absent key, and the run of `steps` preserves it.
  have hstart : Mirrors c₀.store.store key ∅ :=
    ⟨hm, none, by rw [habsent]; exact Slot.keeps_none, Record.reflects_blank⟩
  have hend := after_mirrors hstart hlapse hnormal' fun e he =>
    not_overwrite_of_mem_timeline hforeign he
  have hstore := store_afterSteps c₀ steps
  rw [← hc] at hstore
  have hmirrors : Mirrors c.store.store key
      (∅ ∪ operationsOn key (timeline c₀.store.now steps)) := by
    rw [hstore]
    exact hend
  obtain ⟨r, shown, hr, hget, hinspect, hinvalidated⟩ :=
    get_inspect_of_mirrors hmirrors (by rw [hstore]; exact hlast.1)
  -- Reads are among the operations that were seen, but not in `O`.
  have hO : Record.Reflects (O : Set Operation) r := hr.congr fun op hop => by
    rw [Set.empty_union]
    exact hops op hop
  refine ⟨r.invalidated, hO.invalidated, ⟨shown, hinspect, hinvalidated⟩, ?_, ?_⟩
  · intro S v hS hv
    rw [hget, hO.visibleValue_of_isGreatest hagree hS hv]
  · intro hnone
    rw [hget, hO.visibleValue_of_no_set hnone]

/-- A set, a batch of invalidations that is older, and the set again. -/
def retriedSet : List Step :=
  [.call (.set [1] [7] ⟨3, 0⟩), .advance 5, .call (.invalidateAll [[1], [2]] ⟨2, 0⟩), .sweep,
    .call (.set [1] [7] ⟨3, 0⟩)]

theorem converges_retriedSet :
    ((afterSteps (.ofStore ⟨empty {}, ⟨0⟩⟩) retriedSet).get [1]).1 = .ok (some [7]) := by
  let O : Finset Operation := {.set [7] ⟨3, 0⟩, .invalidate ⟨2, 0⟩}
  have hwrites : ∀ op, op ∈ O ↔
      op ≠ .get ∧ ∃ q, Step.call q ∈ retriedSet ∧ Cache.Ask.execute [1] op ∈ q.asks := by
    intro op
    simp only [O, Finset.mem_insert, Finset.mem_singleton]
    constructor
    · rintro (rfl | rfl)
      · exact ⟨by rintro ⟨⟩, _, List.mem_cons_self .., List.mem_cons_self ..⟩
      · exact ⟨by rintro ⟨⟩, .invalidateAll [[1], [2]] ⟨2, 0⟩, by simp [retriedSet],
          List.mem_cons_self ..⟩
    · rintro ⟨-, q, hq, hask⟩
      simp only [retriedSet, List.mem_cons, Step.call.injEq, List.not_mem_nil, or_false,
        reduceCtorEq, false_or] at hq
      rcases hq with rfl | rfl | rfl
      · exact Or.inl (by simpa [Cache.Call.asks] using hask)
      · exact Or.inr (by simpa [Cache.Call.asks] using hask)
      · exact Or.inl (by simpa [Cache.Call.asks] using hask)
  have hagree : ∀ v v' s, Operation.set v s ∈ O → Operation.set v' s ∈ O → v = v' := by
    simp [O]
  have hnewest : IsGreatest {s | ∃ v, Operation.set v s ∈ O} ⟨3, 0⟩ := by
    refine ⟨⟨[7], by decide⟩, ?_⟩
    rintro s ⟨v, hv⟩
    obtain ⟨-, rfl⟩ : v = [7] ∧ s = ⟨3, 0⟩ := by simpa [O] using hv
    exact le_refl _
  have hrun := @converges [1] {} ⟨0⟩ [] retriedSet O (slot?_empty ..) (by simp [retriedSet])
    hwrites (by decide) hagree (by decide +kernel)
  obtain ⟨T, hT, -, hget, -⟩ := hrun
  have hle : T ≤ ⟨3, 0⟩ := by
    rcases hT.1 with rfl | ht
    · decide
    · obtain rfl : T = ⟨2, 0⟩ := by simpa [O] using ht
      decide
  have hserved := hget ⟨3, 0⟩ [7] hnewest (by decide)
  rw [if_pos hle] at hserved
  exact hserved

end MemoryStore

end CoherentCache
