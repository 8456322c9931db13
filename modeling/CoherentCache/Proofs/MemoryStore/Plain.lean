import CoherentCache.Proofs.Instant
import CoherentCache.Proofs.MemoryStore.Timeline
import CoherentCache.Proofs.Operation
import Mathlib.Data.Option.Basic
import Mathlib.Logic.Function.Basic

/-!
# The in-memory store is a plain map

`PlainStore` maps keys to records with deadlines on a clock without limits.  It has no shards, no
agenda, no generations and no texts, an entry whose deadline has passed counts as absent, and
sweeping does nothing.

* `PlainStore.respond` : one event.
* `MemoryStore.Agrees` : the in-memory store shows what the plain map shows, from a clock reading on.
* `MemoryStore.respond_agrees` : every event keeps the two in agreement and is answered alike.
* `MemoryStore.responses_eq_plain` : in a run of normal operations at clock readings that never go
  backward, the in-memory store answers as the plain map does.
-/

namespace CoherentCache

/-- A record and the instant from which on it counts as absent. -/
structure PlainEntry where
  /-- The record. -/
  record : Record
  /-- When it expires, in nanoseconds since the epoch. -/
  deadline : Option Int

/-- What counts as the entry of a key when the clock shows `now`: an entry whose deadline has passed
counts as absent. -/
def PlainEntry.live (now : Int) (e : Option PlainEntry) : Option PlainEntry :=
  e.filter fun e => e.deadline.all (now < ·)

/-- A map from keys to entries. -/
abbrev PlainStore := Bytes → Option PlainEntry

/-- What becomes of a deadline when the clock shows `now`. -/
def Retention.plainDeadline (retention : Retention) (now kept : Int) (current : Option Int) :
    Option Int :=
  match retention with
  | .keep => current
  | .arm => some (now + kept)
  | .clear => none

namespace PlainStore

open MemoryStore (Act Access Event Response)

/-- No key has an entry. -/
def empty : PlainStore := fun _ => none

/-- The entry of a key, unless it has expired. -/
def live? (s : PlainStore) (now : Int) (key : Bytes) : Option PlainEntry :=
  PlainEntry.live now (s key)

/-- What an observer is shown of an entry. -/
def snapshot (now : Int) (e : PlainEntry) : Snapshot :=
  ⟨e.record, e.deadline.map fun d => UInt64.ofNat ((d - now) / Instant.nanosPerMilli).toNat⟩

/-- One event, for a store that keeps tombstones for `kept` nanoseconds.  Fields are not put into a
plain store. -/
def respond (kept : Int) (s : PlainStore) (e : Event) : Response × PlainStore :=
  let now := e.now.toInt
  match e.act with
  | .access key (.operate op) =>
    let current := s.live? now key
    let effect := op.effect (current.map PlainEntry.record)
    (.operated (.ok effect.answer),
      match effect.next with
      | none => s
      | some next =>
        Function.update s key
          (some ⟨next, effect.retention.plainDeadline now kept (current.bind PlainEntry.deadline)⟩))
  | .access key .inspect => (.inspected (.ok ((s.live? now key).map (snapshot now))), s)
  | .access _ (.overwrite _) => (.done, s)
  | .sweep => (.done, s)

/-- The answers of a run, in order. -/
def responses (kept : Int) (s : PlainStore) : List Event → List Response
  | [] => []
  | e :: rest => (s.respond kept e).1 :: responses kept (s.respond kept e).2 rest

/-- The store after the events of a run. -/
def after (kept : Int) (s : PlainStore) (events : List Event) : PlainStore :=
  events.foldl (fun s e => (s.respond kept e).2) s

theorem after_append (kept : Int) (s : PlainStore) (events rest : List Event) :
    s.after kept (events ++ rest) = (s.after kept events).after kept rest := List.foldl_append

theorem respond_of_next_eq_none {kept : Int} {s : PlainStore} {now : Instant} {key : Bytes}
    {op : Operation}
    (h : (op.effect ((s.live? now.toInt key).map PlainEntry.record)).next = none) :
    (s.respond kept ⟨now, .access key (.operate op)⟩).2 = s := by
  simp only [respond, h]

theorem respond_of_accept (kept : Int) {s : PlainStore} {now : Instant} {key : Bytes}
    {op : Operation} {next : Record} {retention : Retention}
    (h : op.effect ((s.live? now.toInt key).map PlainEntry.record) = .accept next retention) :
    (s.respond kept ⟨now, .access key (.operate op)⟩).1 = .operated (.ok ⟨.accepted, none⟩) ∧
      (s.respond kept ⟨now, .access key (.operate op)⟩).2 key =
        some ⟨next, retention.plainDeadline now.toInt kept
          ((s.live? now.toInt key).bind PlainEntry.deadline)⟩ := by
  simp only [respond, h]
  exact ⟨rfl, Function.update_self ..⟩

theorem respond_other {kept : Int} {s : PlainStore} {now : Instant} {k key : Bytes} (hk : k ≠ key)
    (a : Access) : (s.respond kept ⟨now, .access k a⟩).2 key = s key := by
  cases a with
  | inspect => rfl
  | overwrite fields => rfl
  | operate op =>
    simp only [respond]
    cases (op.effect ((s.live? now.toInt k).map PlainEntry.record)).next with
    | none => rfl
    | some next => exact Function.update_of_ne (Ne.symm hk) ..

end PlainStore

/-! ### Slots and entries -/

/-- The slot persists the entry. -/
structure Slot.Persists (slot : Slot) (e : PlainEntry) : Prop where
  /-- The fields are those of the record. -/
  fields_eq : slot.fields = e.record.toFields
  /-- The record can be read back. -/
  storable : e.record.Storable
  /-- The deadlines are the same instant. -/
  deadline_eq : slot.deadline.map Instant.toInt = e.deadline

theorem Slot.Persists.isLapsed_eq {slot : Slot} {e : PlainEntry} (h : slot.Persists e)
    (now : Instant) : (!slot.isLapsed now) = e.deadline.all (now.toInt < ·) := by
  rw [← h.deadline_eq]
  unfold Slot.isLapsed
  cases slot.deadline with
  | none => rfl
  | some d =>
    simp only [Option.map_some, Option.all_some, Instant.le_iff]
    by_cases hd : d.toInt ≤ now.toInt
    · simp [hd, Int.not_lt.2 hd]
    · simp [hd, Int.not_le.1 hd]

theorem rel_live {slot : Option Slot} {e : Option PlainEntry}
    (h : Option.Rel Slot.Persists slot e) (now : Instant) :
    Option.Rel Slot.Persists (Slot.live now slot) (PlainEntry.live now.toInt e) := by
  cases h with
  | none => exact .none
  | some h =>
    simp only [Slot.live, PlainEntry.live, Option.filter, h.isLapsed_eq]
    split
    · exact .some h
    · exact .none

theorem keeps_of_rel {slot : Option Slot} {e : Option PlainEntry}
    (h : Option.Rel Slot.Persists slot e) : Slot.Keeps slot (e.map PlainEntry.record) := by
  cases h with
  | none => exact Slot.keeps_none
  | some h => exact ⟨congrArg some h.fields_eq, h.storable⟩

theorem record_of_rel {slot : Option Slot} {e : Option PlainEntry}
    (h : Option.Rel Slot.Persists slot e) : Slot.record slot = .ok (e.map PlainEntry.record) :=
  Slot.record_of_keeps (keeps_of_rel h)

theorem deadline_of_rel {slot : Option Slot} {e : Option PlainEntry}
    (h : Option.Rel Slot.Persists slot e) :
    (slot.bind Slot.deadline).map Instant.toInt = e.bind PlainEntry.deadline := by
  cases h with
  | none => rfl
  | some h => exact h.deadline_eq

/-- An entry that has expired stays expired. -/
theorem PlainEntry.live_live {now later : Int} (h : now ≤ later) (e : Option PlainEntry) :
    live later (live now e) = live later e := by
  unfold live
  rw [Option.filter_filter]
  congr 1
  funext e
  cases hd : e.deadline with
  | none => rfl
  | some d =>
    have hd : later < d → now < d := Int.lt_of_le_of_lt h
    simpa using hd

namespace MemoryStore

/-! ### Agreement -/

/-- The event has a counterpart in a plain store: no fields are put into the store, timestamps are
normal, and the clock reaches the deadline that an invalidation would set. -/
def Event.Plain (retention : UInt64) (e : Event) : Prop :=
  match e.act with
  | .access _ (.operate (.invalidate ts)) => ts.Normal ∧ e.now.Reaches retention
  | .access _ (.operate op) => op.Normal
  | .access _ (.overwrite _) => False
  | _ => True

instance (retention : UInt64) (e : Event) : Decidable (e.Plain retention) := by
  unfold Event.Plain; split <;> infer_instance

/-- If the event concerns a key, it has a counterpart in a plain store. -/
def Event.PlainOn (key : Bytes) (retention : UInt64) (e : Event) : Prop :=
  match e.act with
  | .access k _ => k = key → e.Plain retention
  | .sweep => True

instance (key : Bytes) (retention : UInt64) (e : Event) : Decidable (e.PlainOn key retention) := by
  unfold Event.PlainOn; split <;> infer_instance

theorem Event.Plain.on {e : Event} {retention : UInt64} (h : e.Plain retention) (key : Bytes) :
    e.PlainOn key retention := by
  unfold PlainOn
  split
  · exact fun _ => h
  · trivial

/-- From the clock reading `now` on, an in-memory store with the given retention time shows of a key
what the plain map shows. -/
structure Agrees (retention : UInt64) (now : Instant) (m : MemoryStore) (s : PlainStore)
    (key : Bytes) : Prop where
  /-- How long the in-memory store keeps tombstones. -/
  retention_eq : m.config.retention = retention
  /-- There are as many shards as there should be. -/
  wellFormed : m.WellFormed
  /-- A live slot persists a live entry. -/
  live : Option.Rel Slot.Persists (m.live? now key) (s.live? now.toInt key)
  /-- The clock can count the time until the deadline. -/
  near : ∀ d ∈ (s.live? now.toInt key).bind PlainEntry.deadline, d ≤ now.toInt + Instant.lastNanos

variable {retention : UInt64} {m m' : MemoryStore} {s s' : PlainStore} {now later : Instant}
  {key : Bytes}

theorem agrees_empty (config : Config) (now : Instant) (key : Bytes) :
    Agrees config.retention now (empty config) PlainStore.empty key := by
  refine ⟨rfl, wellFormed_empty config, ?_, fun d hd => by cases hd⟩
  rw [live?, slot?_empty]
  exact .none

theorem live?_live? (h : now ≤ later) (m : MemoryStore) (key : Bytes) :
    Slot.live later (m.live? now key) = m.live? later key := Slot.live_live h _

namespace Agrees

/-- Stores that agree go on to do so while time passes. -/
theorem mono (h : Agrees retention now m s key) (hle : now ≤ later) :
    Agrees retention later m s key := by
  have hint : now.toInt ≤ later.toInt := Instant.le_iff.1 hle
  have hplain : PlainEntry.live later.toInt (s.live? now.toInt key) = s.live? later.toInt key :=
    PlainEntry.live_live hint _
  refine ⟨h.retention_eq, h.wellFormed, ?_, fun d hd => ?_⟩
  · rw [← live?_live? hle, ← hplain]
    exact rel_live h.live later
  · rw [← hplain] at hd
    obtain ⟨e, he, hde⟩ := Option.mem_bind_iff.1 hd
    have := h.near d (Option.mem_bind_iff.2 ⟨e, (Option.mem_filter_iff.1 he).1, hde⟩)
    omega

theorem frame (h : Agrees retention now m s key) (hc : m'.config = m.config)
    (hm : m'.WellFormed) (hlive : m'.live? now key = m.live? now key) (hs : s' key = s key) :
    Agrees retention now m' s' key := by
  have hplain : s'.live? now.toInt key = s.live? now.toInt key := by
    unfold PlainStore.live?
    rw [hs]
  refine ⟨hc ▸ h.retention_eq, hm, ?_, ?_⟩
  · rw [hlive, hplain]; exact h.live
  · rw [hplain]; exact h.near

theorem updated {slot : Option Slot} {e : Option PlainEntry} (h : Agrees retention now m s key)
    (hu : Updated m key slot m')
    (hrel : Option.Rel Slot.Persists slot e)
    (hnear : ∀ d ∈ e.bind PlainEntry.deadline, d ≤ now.toInt + Instant.lastNanos) :
    Agrees retention now m' (Function.update s key e) key := by
  refine ⟨hu.config_eq ▸ h.retention_eq, hu.wellFormed, ?_, fun d hd => ?_⟩
  · rw [live?, hu.self, PlainStore.live?, Function.update_self]
    exact rel_live hrel now
  · rw [PlainStore.live?, Function.update_self] at hd
    obtain ⟨entry, he, hde⟩ := Option.mem_bind_iff.1 hd
    exact hnear d (Option.mem_bind_iff.2 ⟨entry, (Option.mem_filter_iff.1 he).1, hde⟩)

theorem settled (h : Agrees retention now m s key) (hu : Updated m key (m.live? now key) m') :
    Agrees retention now m' s key := by
  refine h.frame hu.config_eq hu.wellFormed ?_ rfl
  rw [live?, hu.self]
  exact live?_live? now.le_refl m key

end Agrees

/-! ### Events -/

/-- The deadline that an operation leaves, with and without limits on the clock. -/
theorem plainDeadline_eq {op : Operation} {current : Option Record}
    (hop : ∀ ts, op = .invalidate ts → now.Reaches retention) (deadline : Option Instant) :
    ((op.effect current).retention.deadline (now.addMillis retention) deadline).map
        Instant.toInt =
      (op.effect current).retention.plainDeadline now.toInt (Instant.stretch retention)
        (deadline.map Instant.toInt) := by
  cases hr : (op.effect current).retention with
  | keep => rfl
  | clear => rfl
  | arm =>
    -- Only here is a new deadline computed, and only an invalidation gets here.
    obtain ⟨ts, hts⟩ := Operation.eq_invalidate_of_arm hr
    exact congrArg some (Instant.toInt_addMillis (hop ts hts))

theorem plainDeadline_near {op : Operation} {current : Option Record}
    (hop : ∀ ts, op = .invalidate ts → now.Reaches retention) {deadline : Option Int}
    (hd : ∀ d ∈ deadline, d ≤ now.toInt + Instant.lastNanos) :
    ∀ d ∈ (op.effect current).retention.plainDeadline now.toInt (Instant.stretch retention)
        deadline, d ≤ now.toInt + Instant.lastNanos := by
  cases hr : (op.effect current).retention with
  | keep => exact hd
  | clear => rintro d ⟨⟩
  | arm =>
    obtain ⟨ts, hts⟩ := Operation.eq_invalidate_of_arm hr
    rintro d ⟨⟩
    have := (hop ts hts).1
    omega

variable {kept : Int} {e : Event}

theorem respond_operate_eq (h : Agrees retention now m s key) (op : Operation) (kept : Int) :
    (m.respond ⟨now, .access key (.operate op)⟩).1 =
      (s.respond kept ⟨now, .access key (.operate op)⟩).1 := by
  obtain ⟨hanswer, -⟩ := respond_access h.wellFormed now key (.operate op)
  refine hanswer.trans ?_
  simp only [Access.onSlot, Slot.operate, record_of_rel h.live]
  rfl

theorem respond_operate_agrees {op : Operation} (h : Agrees retention now m s key) (hop : op.Normal)
    (hreach : ∀ ts, op = .invalidate ts → now.Reaches retention) :
    Agrees retention now (m.respond ⟨now, .access key (.operate op)⟩).2
      (s.respond (Instant.stretch retention) ⟨now, .access key (.operate op)⟩).2 key := by
  obtain ⟨-, hupdated⟩ := respond_access h.wellFormed now key (.operate op)
  simp only [Access.onSlot, Slot.operate, record_of_rel h.live, h.retention_eq] at hupdated
  simp only [PlainStore.respond]
  cases hnext : (op.effect ((s.live? now.toInt key).map PlainEntry.record)).next with
  | none =>
    rw [hnext] at hupdated
    exact h.settled hupdated
  | some next =>
    rw [hnext] at hupdated
    refine h.updated hupdated (.some ⟨rfl, ?_, ?_⟩) ?_
    · exact Operation.storable_of_effect hop (keeps_of_rel h.live).2 hnext
    · rw [← deadline_of_rel h.live]
      exact plainDeadline_eq hreach _
    · exact plainDeadline_near hreach h.near

theorem respond_inspect_agrees (h : Agrees retention now m s key) (kept : Int) :
    let event : Event := ⟨now, .access key .inspect⟩
    (m.respond event).1 = (s.respond kept event).1 ∧
      Agrees retention now (m.respond event).2 (s.respond kept event).2 key := by
  obtain ⟨hanswer, hupdated⟩ := respond_access h.wellFormed now key .inspect
  have hrecord := record_of_rel h.live
  have hdeadline := deadline_of_rel h.live
  have hnear := h.near
  refine ⟨hanswer.trans ?_, h.settled hupdated⟩
  simp only [Access.onSlot, Slot.inspect, PlainStore.respond, hrecord]
  cases he : s.live? now.toInt key with
  | none => rfl
  | some entry =>
    -- The records are the same, so what is left to compare is the time until the deadline.
    rw [he] at hdeadline hnear
    simp only [Option.map_some, PlainStore.snapshot]
    change _ = entry.deadline at hdeadline
    rw [← hdeadline, Option.map_map]
    refine congrArg (fun left => Response.inspected (.ok (some ⟨entry.record, left⟩))) ?_
    refine Option.map_congr fun d hd => Instant.millisUntil_eq ?_ ?_
    · exact Int.le_of_lt (Instant.lt_iff.1 (Slot.lt_of_mem_live hd))
    · have hd' : d.toInt ∈ (some entry).bind PlainEntry.deadline := by
        show d.toInt ∈ entry.deadline
        rw [← hdeadline]
        exact Option.mem_map_of_mem _ hd
      have := hnear _ hd'
      omega

/-- An access that has a counterpart is answered alike and keeps the stores in agreement. -/
theorem respond_access_agrees {a : Access} (h : Agrees retention now m s key)
    (he : Event.Plain retention ⟨now, .access key a⟩) :
    let event : Event := ⟨now, .access key a⟩
    (m.respond event).1 = (s.respond (Instant.stretch retention) event).1 ∧
      Agrees retention now (m.respond event).2 (s.respond (Instant.stretch retention) event).2
        key := by
  cases a with
  | overwrite fields => exact absurd he id
  | inspect => exact respond_inspect_agrees h _
  | operate op =>
    refine ⟨respond_operate_eq h op _, ?_⟩
    cases op with
    | invalidate ts => exact respond_operate_agrees h he.1 fun _ _ => he.2
    | set value ts => exact respond_operate_agrees h he (by rintro _ ⟨⟩)
    | get => exact respond_operate_agrees h trivial (by rintro _ ⟨⟩)

/-- Every event that has a counterpart on the key keeps the stores in agreement. -/
theorem respond_agrees (h : Agrees retention e.now m s key) (he : e.PlainOn key retention) :
    Agrees retention e.now (m.respond e).2 (s.respond (Instant.stretch retention) e).2 key := by
  obtain ⟨now, act⟩ := e
  cases act with
  | sweep =>
    -- The plain map is not touched, and what a sweep drops was not live.
    refine h.frame rfl (wellFormed_sweep h.wellFormed now) ?_ rfl
    exact live?_sweep m now.le_refl key
  | access k a =>
    by_cases hk : k = key
    · subst hk
      exact (respond_access_agrees h (he rfl)).2
    · obtain ⟨-, hupdated⟩ := respond_access h.wellFormed now k a
      refine h.frame hupdated.config_eq hupdated.wellFormed ?_ (PlainStore.respond_other hk a)
      rw [live?, hupdated.other hk, live?]

/-- Every event that has a counterpart is answered alike. -/
theorem respond_eq (h : ∀ key, Agrees retention e.now m s key) (he : e.Plain retention) :
    (m.respond e).1 = (s.respond (Instant.stretch retention) e).1 := by
  obtain ⟨now, act⟩ := e
  cases act with
  | sweep => rfl
  | access k a => exact (respond_access_agrees (h k) he).1

/-! ### Runs -/

/-- A run that starts when the clock shows `now`: the clock never goes backward, and what concerns
the key has a counterpart in a plain store. -/
structure Orderly (key : Bytes) (retention : UInt64) (now : Instant) (events : List Event) :
    Prop where
  /-- The run does not start before `now`. -/
  start : ∀ e ∈ events, now ≤ e.now
  /-- The clock never goes backward. -/
  ordered : Ordered events
  /-- What concerns the key has a counterpart. -/
  plain : ∀ e ∈ events, e.PlainOn key retention

namespace Orderly

variable {rest events : List Event}

theorem tail (h : Orderly key retention now (e :: rest)) : Orderly key retention e.now rest := by
  obtain ⟨hnext, hrest⟩ := List.pairwise_cons.1 h.ordered
  exact ⟨hnext, hrest, fun e' he' => h.plain e' (List.mem_cons_of_mem _ he')⟩

theorem head (h : Orderly key retention now (e :: rest)) :
    now ≤ e.now ∧ e.PlainOn key retention :=
  ⟨h.start e (List.mem_cons_self ..), h.plain e (List.mem_cons_self ..)⟩

theorem fromHead (h : Orderly key retention now (e :: rest)) :
    Orderly key retention e.now (e :: rest) := by
  refine ⟨?_, h.ordered, h.plain⟩
  rintro e' (_ | ⟨_, he'⟩)
  · exact e.now.le_refl
  · exact h.tail.start e' he'

theorem left (h : Orderly key retention now (events ++ rest)) :
    Orderly key retention now events :=
  ⟨fun e he => h.start e (List.mem_append_left _ he), (List.pairwise_append.1 h.ordered).1,
    fun e he => h.plain e (List.mem_append_left _ he)⟩

theorem right (h : Orderly key retention now (events ++ rest)) :
    Orderly key retention (clockAfter now events) rest := by
  induction events generalizing now with
  | nil => exact h
  | cons e events ih => exact ih h.tail

end Orderly

variable {events : List Event}

/-- A run keeps the stores in agreement. -/
theorem after_agrees (h : Agrees retention now m s key) (hrun : Orderly key retention now events) :
    Agrees retention (clockAfter now events) (m.after events)
      (s.after (Instant.stretch retention) events) key := by
  induction events generalizing m s now with
  | nil => exact h
  | cons e rest ih =>
    obtain ⟨hle, hplain⟩ := hrun.head
    exact ih (respond_agrees (h.mono hle) hplain) hrun.tail

theorem responses_of_agrees (h : ∀ key, Agrees retention now m s key)
    (hstart : ∀ e ∈ events, now ≤ e.now) (hordered : Ordered events)
    (hplain : ∀ e ∈ events, e.Plain retention) :
    m.responses events = s.responses (Instant.stretch retention) events := by
  induction events generalizing m s now with
  | nil => rfl
  | cons e rest ih =>
    obtain ⟨hnext, hrest⟩ := List.pairwise_cons.1 hordered
    have hhead : e ∈ e :: rest := List.mem_cons_self ..
    have hnow : ∀ key, Agrees retention e.now m s key := fun key => (h key).mono (hstart e hhead)
    have hrun := ih (fun key => respond_agrees (hnow key) ((hplain e hhead).on key)) hnext hrest
      (fun e' he' => hplain e' (List.mem_cons_of_mem _ he'))
    show _ :: _ = _ :: _
    rw [respond_eq hnow (hplain e hhead), hrun]

/-- **The in-memory store is a plain map.**  Whatever its shards, its hash, its sweep limit and its
retention time, a run of normal operations at clock readings that never go backward is answered as
the plain map answers it, the milliseconds left to a tombstone included. -/
theorem responses_eq_plain (config : Config) {events : List Event} (hordered : Ordered events)
    (hplain : ∀ e ∈ events, e.Plain config.retention) :
    (empty config).responses events =
      PlainStore.empty.responses (Instant.stretch config.retention) events :=
  responses_of_agrees (fun key => agrees_empty config .first key)
    (fun e _ => Instant.first_le e.now) hordered hplain

/-- A tombstone is looked at, expires before a sweep, and its key is set again. -/
def tombstoneRun : List Event :=
  [⟨⟨0⟩, .access [1] (.operate (.invalidate ⟨5, 0⟩))⟩,
    ⟨⟨500000⟩, .access [1] .inspect⟩,
    ⟨⟨500000⟩, .access [2] (.operate (.set [7] ⟨3, 0⟩))⟩,
    ⟨⟨2000000⟩, .sweep⟩,
    ⟨⟨2000000⟩, .access [1] (.operate (.set [8] ⟨4, 0⟩))⟩,
    ⟨⟨2000000⟩, .access [1] (.operate .get)⟩]

theorem responses_tombstoneRun :
    (Ordered tombstoneRun ∧ ∀ e ∈ tombstoneRun, e.Plain 2) ∧
      (empty { retention := 2 }).responses tombstoneRun =
        PlainStore.empty.responses (Instant.stretch 2) tombstoneRun := by
  have hordered : Ordered tombstoneRun := by decide
  have hplain : ∀ e ∈ tombstoneRun, e.Plain 2 := by decide
  exact ⟨⟨hordered, hplain⟩, responses_eq_plain { retention := 2 } hordered hplain⟩

end MemoryStore

end CoherentCache
