import CoherentCache.Proofs.MemoryStore.Slot
import Mathlib.Control.Monad.Basic

/-!
# Runs of the in-memory store

A run is a list of events, each with the clock reading at which it happens.  The clock may show
anything; a run is `Ordered` when it never goes backward.

* `MemoryStore.respond` : one event.
* `MemoryStore.responses`, `MemoryStore.after` : the answers of a run, and the store that it leaves.
* `MemoryStore.acceptedSets` : the sets on a key that were accepted in a run.
* `MemoryStore.respond_access` : an event on a key concerns the slot of that key alone.
-/

namespace CoherentCache

namespace MemoryStore

/-- What is done to one key. -/
inductive Access where
  /-- Run an operation. -/
  | operate (op : Operation)
  /-- Look at the record. -/
  | inspect
  /-- Put fields in the place of those that are there. -/
  | overwrite (fields : Fields)

/-- What is done to a store. -/
inductive Act where
  /-- Something to one key. -/
  | access (key : Bytes) (access : Access)
  /-- Drop expired keys. -/
  | sweep

/-- Something that happens to a store. -/
structure Event where
  /-- The clock reading at which it happens. -/
  now : Instant
  /-- What is done. -/
  act : Act

/-- What an event is answered. -/
inductive Response where
  /-- The answer to an operation. -/
  | operated (result : Except StoreError Answer)
  /-- What an observer is shown. -/
  | inspected (result : Except StoreError (Option Snapshot))
  /-- There is nothing to answer. -/
  | done
deriving DecidableEq

/-- One event. -/
def respond (m : MemoryStore) (e : Event) : Response × MemoryStore :=
  match e.act with
  | .access key (.operate op) =>
    let (answer, m) := m.execute e.now key op
    (.operated answer, m)
  | .access key .inspect =>
    let (shown, m) := m.inspect e.now key
    (.inspected shown, m)
  | .access key (.overwrite fields) => (.done, m.overwrite key fields)
  | .sweep => (.done, m.sweep e.now)

/-- The store after the events of a run. -/
def after (m : MemoryStore) (events : List Event) : MemoryStore :=
  events.foldl (fun m e => (m.respond e).2) m

/-- The answers of a run, in order. -/
def responses (m : MemoryStore) : List Event → List Response
  | [] => []
  | e :: rest => (m.respond e).1 :: (m.respond e).2.responses rest

/-- The clock never goes backward. -/
def Ordered (events : List Event) : Prop := events.Pairwise fun e later => e.now ≤ later.now

instance (events : List Event) : Decidable (Ordered events) := by
  unfold Ordered; infer_instance

/-- What the clock showed last, if it showed `now` before the run. -/
def clockAfter (now : Instant) (events : List Event) : Instant :=
  events.foldl (fun _ e => e.now) now

/-- What an access to a key answers when it meets the live slot `current`, and what it leaves in its
place. -/
def Access.onSlot (key : Bytes) (retention : UInt64) (now : Instant) (current : Option Slot) :
    Access → Response × Option Slot
  | .operate op =>
    let (answer, left) := Slot.operate key (now.addMillis retention) op current
    (.operated answer, left)
  | .inspect => (.inspected (Slot.inspect key now current), current)
  | .overwrite fields => (.done, some ⟨fields, none⟩)

/-- The set that an event was, if it concerned the key and was accepted. -/
def Event.acceptedSet? (key : Bytes) (e : Event) (response : Response) :
    Option (Bytes × Timestamp) :=
  match e.act, response with
  | .access k (.operate (.set value ts)), .operated (.ok answer) =>
    if k = key ∧ answer.outcome = .accepted then some (value, ts) else none
  | _, _ => none

/-- The sets on a key that were accepted in the course of a run, in order. -/
def acceptedSets (m : MemoryStore) (key : Bytes) : List Event → List (Bytes × Timestamp)
  | [] => []
  | e :: rest =>
    (e.acceptedSet? key (m.respond e).1).toList ++ (m.respond e).2.acceptedSets key rest

variable {m : MemoryStore}

theorem after_append (events rest : List Event) :
    m.after (events ++ rest) = (m.after events).after rest := List.foldl_append

theorem clockAfter_le {now later : Instant} {events : List Event} (h : now ≤ later)
    (hlater : ∀ e ∈ events, e.now ≤ later) : clockAfter now events ≤ later := by
  induction events generalizing now with
  | nil => exact h
  | cons e rest ih =>
    exact ih (hlater e (List.mem_cons_self ..)) fun e' he' => hlater e' (List.mem_cons_of_mem _ he')

theorem Event.acceptedSet?_of_rejected (key : Bytes) (e : Event) {answer : Answer}
    (h : answer.outcome = .rejected) : e.acceptedSet? key (.operated (.ok answer)) = none := by
  unfold acceptedSet?
  split
  · next hr =>
    cases hr
    rw [if_neg (by rw [h]; rintro ⟨-, ⟨⟩⟩)]
  · rfl

theorem Event.acceptedSet?_other {k key : Bytes} (hk : k ≠ key) (now : Instant) (a : Access)
    (r : Response) : Event.acceptedSet? key ⟨now, .access k a⟩ r = none := by
  unfold acceptedSet?
  split
  · next hact =>
    obtain ⟨rfl, rfl⟩ := Act.access.inj hact
    rw [if_neg fun h => hk h.1]
  · rfl

/-- The last set that was accepted in a run, or before it. -/
theorem getLast?_acceptedSets_cons (m : MemoryStore) (key : Bytes) (e : Event) (rest : List Event)
    (last : Option (Bytes × Timestamp)) :
    (m.acceptedSets key (e :: rest)).getLast?.or last =
      ((m.respond e).2.acceptedSets key rest).getLast?.or
        ((e.acceptedSet? key (m.respond e).1).or last) := by
  rw [acceptedSets, List.getLast?_append, Option.or_assoc]
  cases e.acceptedSet? key (m.respond e).1 <;> rfl

/-- **An access concerns the slot of its key alone.** -/
theorem respond_access (hm : m.WellFormed) (now : Instant) (key : Bytes) (a : Access) :
    (m.respond ⟨now, .access key a⟩).1 =
        (a.onSlot key m.config.retention now (m.live? now key)).1 ∧
      Updated m key (a.onSlot key m.config.retention now (m.live? now key)).2
        (m.respond ⟨now, .access key a⟩).2 := by
  cases a with
  | operate op =>
    obtain ⟨hanswer, hupdated⟩ := execute_eq hm now key op
    exact ⟨congrArg Response.operated hanswer, hupdated⟩
  | inspect =>
    obtain ⟨hshown, hupdated⟩ := inspect_eq hm now key
    exact ⟨congrArg Response.inspected hshown, hupdated⟩
  | overwrite fields => exact ⟨rfl, updated_overwrite hm key fields⟩

theorem wellFormed_respond (hm : m.WellFormed) (e : Event) : (m.respond e).2.WellFormed := by
  obtain ⟨now, act⟩ := e
  cases act with
  | access key a => exact (respond_access hm now key a).2.wellFormed
  | sweep => exact wellFormed_sweep hm now

theorem wellFormed_after (hm : m.WellFormed) (events : List Event) :
    (m.after events).WellFormed := by
  induction events generalizing m with
  | nil => exact hm
  | cons e rest ih => exact ih (wellFormed_respond hm e)

theorem config_respond (hm : m.WellFormed) (e : Event) : (m.respond e).2.config = m.config := by
  obtain ⟨now, act⟩ := e
  cases act with
  | access key a => exact (respond_access hm now key a).2.config_eq
  | sweep => rfl

theorem config_after (hm : m.WellFormed) (events : List Event) :
    (m.after events).config = m.config := by
  induction events generalizing m with
  | nil => rfl
  | cons e rest ih => exact (ih (wellFormed_respond hm e)).trans (config_respond hm e)

/-- What lives at a clock reading after a sweep is what lived then before it. -/
theorem live?_sweep (m : MemoryStore) {now later : Instant} (h : now ≤ later) (k : Bytes) :
    (m.sweep now).live? later k = m.live? later k := by
  unfold live?
  rcases slot?_sweep m now k with hs | ⟨hgone, hdead⟩
  · rw [hs]
  · rw [hgone, ← Slot.live_live h (m.slot? k)]
    exact congrArg (Slot.live later) hdead.symm

end MemoryStore

end CoherentCache
