import CoherentCache.Proofs.Instant
import CoherentCache.Proofs.MemoryStore.Timeline

/-!
# Keys do not interfere

The keys of a shard share its slots, its generations and its agenda, and they compete for the
entries that a sweep may spend.  Still, what is answered about a key depends on what was done to
that key alone.  Two runs are compared: a run of the whole store, and the same run without the
events on other keys and without the sweeps.  It does not matter what fields are put into the store,
how timestamps are made, or whether a deadline lies beyond the end of the clock.

* `MemoryStore.AlikeOn` : two stores show the same of a key, from a clock reading on.
* `MemoryStore.AlikeOn.respond` : an event on the key is answered alike and keeps them alike.
* `MemoryStore.AlikeOn.respond_left` : **an event that does not concern the key keeps them alike**,
  though only one of the stores has a part in it.
* `MemoryStore.responsesOn_eq` : so the answers about a key are those of the shorter run.
-/

namespace CoherentCache

namespace MemoryStore

/-- Something is done to the key itself. -/
def Event.Concerns (key : Bytes) (e : Event) : Prop :=
  match e.act with
  | .access k _ => k = key
  | .sweep => False

instance (key : Bytes) : (e : Event) → Decidable (e.Concerns key)
  | ⟨_, .access k _⟩ => inferInstanceAs (Decidable (k = key))
  | ⟨_, .sweep⟩ => inferInstanceAs (Decidable False)

/-- The answers, in the course of a run, to the events that concern a key. -/
def responsesOn (m : MemoryStore) (key : Bytes) : List Event → List Response
  | [] => []
  | e :: rest =>
    if e.Concerns key then (m.respond e).1 :: (m.respond e).2.responsesOn key rest
    else (m.respond e).2.responsesOn key rest

/-- From the clock reading `now` on, two stores show the same of a key.  They may differ in all that
concerns other keys, in the number of shards, and in slots that have lapsed. -/
structure AlikeOn (key : Bytes) (now : Instant) (m m' : MemoryStore) : Prop where
  /-- Both keep tombstones equally long. -/
  retention_eq : m.config.retention = m'.config.retention
  /-- There are as many shards as there should be. -/
  left : m.WellFormed
  /-- There are as many shards as there should be. -/
  right : m'.WellFormed
  /-- The live slot of the key is the same. -/
  live_eq : m.live? now key = m'.live? now key

variable {m m' : MemoryStore} {key : Bytes} {now later : Instant} {events : List Event}

/-- An event that does not concern a key leaves the live slot of the key as it is. -/
theorem live?_respond_of_not_concerns (hm : m.WellFormed) {e : Event} (h : ¬ e.Concerns key) :
    (m.respond e).2.live? e.now key = m.live? e.now key := by
  obtain ⟨now, act⟩ := e
  cases act with
  | access k a =>
    have hupdated := (respond_access hm now k a).2
    exact congrArg (Slot.live now) (hupdated.other h)
  | sweep => exact live?_sweep m now.le_refl key

namespace AlikeOn

theorem empty (config : Config) (key : Bytes) (now : Instant) :
    AlikeOn key now (empty config) (empty config) :=
  ⟨rfl, wellFormed_empty config, wellFormed_empty config, rfl⟩

/-- Stores that are alike stay so while time passes. -/
theorem mono (h : AlikeOn key now m m') (hle : now ≤ later) : AlikeOn key later m m' := by
  refine ⟨h.retention_eq, h.left, h.right, ?_⟩
  have hm : Slot.live later (m.live? now key) = m.live? later key := Slot.live_live hle _
  have hm' : Slot.live later (m'.live? now key) = m'.live? later key := Slot.live_live hle _
  rw [← hm, ← hm', h.live_eq]

/-- **An event on the key is answered alike**, and the stores stay alike. -/
theorem respond (h : AlikeOn key now m m') (a : Access) :
    (m.respond ⟨now, .access key a⟩).1 = (m'.respond ⟨now, .access key a⟩).1 ∧
      AlikeOn key now (m.respond ⟨now, .access key a⟩).2 (m'.respond ⟨now, .access key a⟩).2 := by
  obtain ⟨hanswer, hupdated⟩ := respond_access h.left now key a
  obtain ⟨hanswer', hupdated'⟩ := respond_access h.right now key a
  -- Both answers are made of the live slot and the retention time, and so are the slots left.
  rw [h.live_eq, h.retention_eq] at hanswer hupdated
  refine ⟨hanswer.trans hanswer'.symm, ?_, hupdated.wellFormed, hupdated'.wellFormed, ?_⟩
  · rw [hupdated.config_eq, hupdated'.config_eq, h.retention_eq]
  · rw [live?, live?, hupdated.self, hupdated'.self]

/-- **An event elsewhere keeps the stores alike**, though it happens to one of them only. -/
theorem respond_left {e : Event} (h : AlikeOn key e.now m m') (he : ¬ e.Concerns key) :
    AlikeOn key e.now (m.respond e).2 m' := by
  refine ⟨?_, wellFormed_respond h.left e, h.right, ?_⟩
  · rw [config_respond h.left, h.retention_eq]
  · rw [live?_respond_of_not_concerns h.left he, h.live_eq]

end AlikeOn

/-- Of two stores that are alike, one goes through a run and the other through its events on the key
alone.  They answer these alike. -/
theorem responsesOn_of_alikeOn (h : AlikeOn key now m m') (hordered : Ordered events)
    (hnow : ∀ e ∈ events, now ≤ e.now) :
    m.responsesOn key events = m'.responses (events.filter fun e => e.Concerns key) := by
  induction events generalizing m m' now with
  | nil => rfl
  | cons e rest ih =>
    obtain ⟨hrest, htail⟩ := List.pairwise_cons.1 hordered
    have halike := h.mono (hnow e List.mem_cons_self)
    by_cases he : e.Concerns key
    · rw [responsesOn, if_pos he, List.filter_cons_of_pos (by simpa using he), responses]
      obtain ⟨now, act⟩ := e
      cases act with
      | sweep => exact absurd he id
      | access k a =>
        obtain rfl : k = key := he
        obtain ⟨hanswer, hafter⟩ := halike.respond a
        rw [hanswer, ih hafter htail hrest]
    · -- The shorter run does not have this event, so only one of the stores goes through it.
      rw [responsesOn, if_neg he, List.filter_cons_of_neg (by simpa using he)]
      exact ih (halike.respond_left he) htail hrest

/-- **Keys do not interfere.**  In a run whose clock never goes backward, every answer about a key
is the one it gets in the run without all sweeps and without all events on other keys. -/
theorem responsesOn_eq (config : Config) (key : Bytes) (h : Ordered events) :
    (empty config).responsesOn key events =
      (empty config).responses (events.filter fun e => e.Concerns key) :=
  responsesOn_of_alikeOn (.empty config key .first) h fun e _ => e.now.first_le

/-- Three keys share one shard: one is given a tombstone, the fields of another are no record, and a
sweep that may spend one entry only meets two tombstones that are due. -/
def crowdedRun : List Event :=
  [⟨⟨0⟩, .access [3] (.operate (.invalidate ⟨1, 0⟩))⟩,
    ⟨⟨0⟩, .access [1] (.operate (.invalidate ⟨5, 0⟩))⟩,
    ⟨⟨0⟩, .access [2] (.overwrite ((∅ : Fields).insert Record.valueField [9]))⟩,
    ⟨⟨1000000⟩, .access [1] .inspect⟩,
    ⟨⟨1000000⟩, .access [2] (.operate .get)⟩,
    ⟨⟨1000000⟩, .access [1] (.operate (.set [8] ⟨4, 0⟩))⟩,
    ⟨⟨2000000⟩, .sweep⟩,
    ⟨⟨2000000⟩, .access [1] (.operate (.set [8] ⟨4, 0⟩))⟩,
    ⟨⟨2000000⟩, .access [1] (.operate .get)⟩]

/-- The tombstone shows the time that is left to it and refuses an old value, until it expires. -/
theorem responsesOn_crowdedRun :
    Ordered crowdedRun ∧
      (empty { shards := 1, retention := 2, sweepLimit := 1 }).responsesOn [1] crowdedRun =
        [.operated (.ok ⟨.accepted, none⟩),
          .inspected (.ok (some ⟨⟨none, .zero, ⟨5, 0⟩⟩, some 1⟩)),
          .operated (.ok ⟨.rejected, none⟩),
          .operated (.ok ⟨.accepted, none⟩),
          .operated (.ok ⟨.rejected, some [8]⟩)] := by
  have hordered : Ordered crowdedRun := by decide
  refine ⟨hordered, ?_⟩
  rw [responsesOn_eq { shards := 1, retention := 2, sweepLimit := 1 } [1] hordered]
  decide +kernel

end MemoryStore

end CoherentCache
