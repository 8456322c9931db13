import CoherentCache.Proofs.MemoryStore.Plain

/-!
# Which slots have a deadline

Only a tombstone expires.  A slot with a value has no deadline, whoever wrote its fields and
whatever the clock showed, so nothing but a write can remove it.  A slot without a value, if the
store itself made it, is due when the retention time has passed since the last invalidation that was
accepted.

* `MemoryStore.Event.Leaves` : all that an event can leave in the place of a slot.
* `MemoryStore.acceptedInvalidations` : when invalidations of a key were accepted in a run.
* `Slot.ValueStays`, `Slot.DueAfter` : a value has no deadline; without a value there is one.
* `MemoryStore.deadlines_after` : **the deadlines of the slots that a run leaves, and what an
  observer is told of them.**
-/

namespace CoherentCache

/-- The milliseconds left of a stretch that has begun and is not over. -/
theorem Instant.millisUntil_addMillis {start now : Instant} {ms : UInt64}
    (hreach : start.Reaches ms) (hbegun : start ≤ now) (hleft : now < start.addMillis ms) :
    ((now.millisUntil (start.addMillis ms)).toNat : Int) =
        (start.toInt + stretch ms - now.toInt) / nanosPerMilli ∧
      now.millisUntil (start.addMillis ms) ≤ ms := by
  have hdue := toInt_addMillis hreach
  have hbegun' : start.toInt ≤ now.toInt := le_iff.1 hbegun
  have hleft' : now.toInt < start.toInt + stretch ms := hdue ▸ lt_iff.1 hleft
  have hwhole : stretch ms / nanosPerMilli = ms.toNat := Int.mul_ediv_cancel _ (by decide)
  have hle : (start.toInt + stretch ms - now.toInt) / nanosPerMilli ≤ ms.toNat := by
    rw [← hwhole]
    exact Int.ediv_le_ediv (by decide) (by omega)
  have hnonneg : 0 ≤ (start.toInt + stretch ms - now.toInt) / nanosPerMilli :=
    Int.ediv_nonneg (by omega) (by decide)
  have hsmall := ms.toNat_lt
  have hmillis : (now.millisUntil (start.addMillis ms)).toNat =
      ((start.toInt + stretch ms - now.toInt) / nanosPerMilli).toNat := by
    rw [millisUntil_eq (by omega) (by have := hreach.1; omega), hdue, UInt64.toNat_ofNat']
    exact Nat.mod_eq_of_lt (by omega)
  refine ⟨by omega, UInt64.le_iff_toNat_le.2 (by omega)⟩

namespace Slot

variable {now : Instant} {slot current : Option Slot}

theorem live_eq_or (now : Instant) (slot : Option Slot) :
    live now slot = slot ∨ live now slot = none := by
  cases slot with
  | none => exact .inl rfl
  | some slot =>
    cases hl : slot.isLapsed now with
    | true => exact .inr (live_of_lapsed hl)
    | false => exact .inl (live_of_not_lapsed hl)

theorem mem_of_mem_live {s : Slot} (h : s ∈ live now slot) : s ∈ slot :=
  (Option.mem_filter_iff.1 h).1

/-- A slot is live until it is due. -/
theorem mem_live_iff {s : Slot} : s ∈ live now slot ↔ s ∈ slot ∧ ∀ due ∈ s.deadline, now < due := by
  rw [live, Option.mem_filter_iff]
  refine and_congr_right fun _ => ?_
  cases hd : s.deadline with
  | none => simp [isLapsed, hd]
  | some due =>
    have hnot : due ≤ now ↔ ¬ now < due := Int64.not_lt.symm
    simp [isLapsed, hd, hnot]

theorem live_of_deadline_eq_none {s : Slot} (h : s.deadline = none) (now : Instant) :
    live now (some s) = some s := live_of_not_lapsed (by rw [isLapsed, h])

/-- The value of the record is the value field of the slot. -/
theorem exists_of_value {found : Option Record} (hrecord : record current = .ok found)
    (hvalue : (found.getD .blank).value.isSome) :
    ∃ s ∈ current, s.fields[Record.valueField]?.isSome := by
  cases current with
  | none =>
    cases hrecord
    cases hvalue
  | some s =>
    cases hfields : Record.ofFields s.fields with
    | error fault => rw [record, hfields] at hrecord; cases hrecord
    | ok r =>
      rw [record, hfields] at hrecord
      cases hrecord
      refine ⟨s, rfl, ?_⟩
      rw [← Record.value_of_ofFields hfields]
      exact hvalue

/-- A slot with a value has no deadline. -/
def ValueStays (slot : Option Slot) : Prop :=
  ∀ s ∈ slot, s.fields[Record.valueField]?.isSome → s.deadline = none

/-- A slot without a value is due when the retention time has passed since `last`. -/
def DueAfter (retention : UInt64) (last : Option Instant) (slot : Option Slot) : Prop :=
  ∀ s ∈ slot, s.fields[Record.valueField]? = none →
    ∃ t, last = some t ∧ s.deadline = some (t.addMillis retention)

end Slot

namespace MemoryStore

/-! ### What events leave -/

namespace Event

/-- The clock reading of an event, if it was an invalidation of the key that was accepted. -/
def acceptedInvalidation? (key : Bytes) (e : Event) (response : Response) : Option Instant :=
  match e.act, response with
  | .access k (.operate (.invalidate _)), .operated (.ok answer) =>
    if k = key ∧ answer.outcome = .accepted then some e.now else none
  | _, _ => none

theorem exists_of_acceptedInvalidation? {key : Bytes} {e : Event} {response : Response}
    {t : Instant} (h : e.acceptedInvalidation? key response = some t) :
    t = e.now ∧ ∃ ts, e.act = .access key (.operate (.invalidate ts)) := by
  unfold acceptedInvalidation? at h
  split at h
  · next ts answer hact =>
    split at h
    · next hk =>
      cases h
      obtain ⟨rfl, -⟩ := hk
      exact ⟨rfl, ts, hact⟩
    · cases h
  · cases h

theorem acceptedInvalidation?_eq_none {key : Bytes} {e : Event} {response : Response}
    (h : ∀ ts, e.act = .access key (.operate (.invalidate ts)) →
      ∀ answer, response = .operated (.ok answer) → answer.outcome = .rejected) :
    e.acceptedInvalidation? key response = none := by
  cases haccepted : e.acceptedInvalidation? key response with
  | none => rfl
  | some t =>
    obtain ⟨-, ts, hact⟩ := exists_of_acceptedInvalidation? haccepted
    simp only [acceptedInvalidation?, hact] at haccepted
    split at haccepted
    · next answer _ =>
      rw [if_neg] at haccepted
      · cases haccepted
      · rintro ⟨-, hyes⟩
        rw [h ts hact answer rfl] at hyes
        cases hyes
    · cases haccepted

/-- All that an event can leave in the place of the slot `current` of a key; `due` is the deadline
that it would set.  The accepted invalidation, if it was one, is told by its clock reading. -/
inductive Leaves (e : Event) (key : Bytes) (due : Instant) (current : Option Slot) :
    Option Instant → Option Slot → Prop where
  /-- The slot is as before. -/
  | same : Leaves e key due current none current
  /-- A lapsed slot was dropped. -/
  | dropped (h : Slot.live e.now current = none) : Leaves e key due current none none
  /-- Fields were put in the place of those that were there. -/
  | overwritten (fields : Fields) (h : e.act = .access key (.overwrite fields)) :
    Leaves e key due current none (some ⟨fields, none⟩)
  /-- A set was accepted. -/
  | set (r : Record) (h : r.value.isSome) : Leaves e key due current none (some ⟨r.toFields, none⟩)
  /-- An invalidation was accepted; a value keeps the deadline of its slot. -/
  | invalidated (found : Option Record) (ts : Timestamp)
    (h : Slot.record (Slot.live e.now current) = .ok found) :
    Leaves e key due current (some e.now)
      (some ⟨{ found.getD .blank with invalidated := ts }.toFields,
        if (found.getD .blank).value.isSome then (Slot.live e.now current).bind (·.deadline)
        else some due⟩)

namespace Leaves

variable {e : Event} {key : Bytes} {due : Instant} {current slot : Option Slot}
  {accepted last : Option Instant} {retention : UInt64}

theorem live (e : Event) (key : Bytes) (due : Instant) (current : Option Slot) :
    Leaves e key due current none (Slot.live e.now current) := by
  rcases Slot.live_eq_or e.now current with hsame | hgone
  · rw [hsame]
    exact .same
  · rw [hgone]
    exact .dropped hgone

/-- **No event gives a value a deadline.** -/
theorem valueStays (h : Leaves e key due current accepted slot) (hs : Slot.ValueStays current) :
    Slot.ValueStays slot := by
  cases h with
  | same => exact hs
  | dropped _ => rintro _ ⟨⟩
  | overwritten fields _ =>
    rintro _ ⟨⟩ _
    rfl
  | set r _ =>
    rintro _ ⟨⟩ _
    rfl
  | invalidated found ts hrecord =>
    rintro _ ⟨⟩ hvalue
    rw [Record.getElem?_toFields_value] at hvalue
    -- The value was there before, and it had no deadline then.
    obtain ⟨s, hs', hfield⟩ := Slot.exists_of_value hrecord hvalue
    rw [if_pos hvalue, Option.mem_def.1 hs']
    exact hs s (Slot.mem_of_mem_live hs') hfield

/-- **Every event leaves a tombstone with the deadline of its last invalidation.** -/
theorem dueAfter (h : Leaves e key (e.now.addMillis retention) current accepted slot)
    (hs : Slot.DueAfter retention last current)
    (hforeign : ∀ fields, e.act ≠ .access key (.overwrite fields)) :
    Slot.DueAfter retention (accepted.or last) slot := by
  cases h with
  | same => exact hs
  | dropped _ => rintro _ ⟨⟩
  | overwritten fields hact => exact absurd hact (hforeign fields)
  | set r hvalue =>
    rintro _ ⟨⟩ hnone
    rw [Record.getElem?_toFields_value] at hnone
    rw [hnone] at hvalue
    cases hvalue
  | invalidated found ts _ =>
    rintro _ ⟨⟩ hnone
    rw [Record.getElem?_toFields_value] at hnone
    change (found.getD .blank).value = none at hnone
    refine ⟨e.now, rfl, ?_⟩
    rw [hnone]
    rfl

end Leaves

end Event

variable {m : MemoryStore} {key : Bytes} {e : Event} {events : List Event}

theorem leaves_operate (hm : m.WellFormed) (now : Instant) (key : Bytes) (op : Operation) :
    let e : Event := ⟨now, .access key (.operate op)⟩
    e.Leaves key (now.addMillis m.config.retention) (m.slot? key)
      (e.acceptedInvalidation? key (m.respond e).1) ((m.respond e).2.slot? key) := by
  intro e
  obtain ⟨hanswer, hupdated⟩ := respond_access hm now key (.operate op)
  rw [hanswer, hupdated.self]
  simp only [Access.onSlot, Slot.operate]
  have hlive : Slot.record (m.live? now key) = Slot.record (Slot.live e.now (m.slot? key)) := rfl
  cases hrecord : Slot.record (m.live? now key) with
  | error fault =>
    have hnone :
        e.acceptedInvalidation? key (.operated (.error (.corruptRecord key fault))) = none :=
      Event.acceptedInvalidation?_eq_none fun _ _ answer hans => by cases hans
    rw [hnone]
    exact .live e key _ (m.slot? key)
  | ok found =>
    dsimp only
    rcases Operation.effect_cases op found with
      ⟨hnext, hrejected⟩ | ⟨value, ts, rfl, -, heffect⟩ | ⟨ts, rfl, -, heffect⟩
    · have hnone : e.acceptedInvalidation? key (.operated (.ok (op.effect found).answer)) = none :=
        Event.acceptedInvalidation?_eq_none fun _ _ answer hans => by
          cases hans
          exact hrejected
      rw [hnone, hnext]
      exact .live e key _ (m.slot? key)
    · rw [heffect]
      exact .set _ rfl
    · rw [heffect]
      have haccepted : e.acceptedInvalidation? key (.operated (.ok ⟨.accepted, none⟩)) = some now :=
        if_pos ⟨rfl, rfl⟩
      have hdeadline : e.Leaves key (now.addMillis m.config.retention) (m.slot? key) _ _ :=
        .invalidated found ts (hlive ▸ hrecord)
      dsimp only [Effect.accept]
      rw [haccepted, apply_ite (Retention.deadline · _ _)]
      exact hdeadline

/-- **Every event leaves one of few things in the place of a slot.** -/
theorem leaves_respond (hm : m.WellFormed) (e : Event) (key : Bytes) :
    e.Leaves key (e.now.addMillis m.config.retention) (m.slot? key)
      (e.acceptedInvalidation? key (m.respond e).1) ((m.respond e).2.slot? key) := by
  obtain ⟨now, act⟩ := e
  cases act with
  | sweep =>
    have hnone : Event.acceptedInvalidation? key ⟨now, .sweep⟩ .done = none := rfl
    show Event.Leaves _ key _ (m.slot? key) (Event.acceptedInvalidation? key _ .done)
      ((m.sweep now).slot? key)
    rw [hnone]
    rcases slot?_sweep m now key with hsame | ⟨hgone, hdead⟩
    · rw [hsame]
      exact .same
    · rw [hgone]
      exact .dropped hdead
  | access k a =>
    by_cases hk : k = key
    · subst hk
      cases a with
      | operate op => exact leaves_operate hm now k op
      | inspect =>
        rw [(respond_access hm now k .inspect).2.self]
        exact .live ⟨now, .access k .inspect⟩ k _ (m.slot? k)
      | overwrite fields =>
        rw [(respond_access hm now k (.overwrite fields)).2.self]
        exact .overwritten fields rfl
    · rw [Event.acceptedInvalidation?_eq_none fun ts hact => absurd (Act.access.inj hact).1 hk,
        (respond_access hm now k a).2.other hk]
      exact .same

/-! ### Runs -/

/-- When invalidations of the key were accepted in the course of a run, in order. -/
def acceptedInvalidations (m : MemoryStore) (key : Bytes) : List Event → List Instant
  | [] => []
  | e :: rest =>
    (e.acceptedInvalidation? key (m.respond e).1).toList ++
      (m.respond e).2.acceptedInvalidations key rest

theorem exists_of_mem_acceptedInvalidations {t : Instant}
    (h : t ∈ m.acceptedInvalidations key events) :
    ∃ e ∈ events, t = e.now ∧ ∃ ts, e.act = .access key (.operate (.invalidate ts)) := by
  induction events generalizing m with
  | nil => cases h
  | cons e rest ih =>
    rcases List.mem_append.1 h with h | h
    · exact ⟨e, List.mem_cons_self ..,
        Event.exists_of_acceptedInvalidation? (Option.mem_toList.1 h)⟩
    · obtain ⟨e', he', hact⟩ := ih h
      exact ⟨e', List.mem_cons_of_mem _ he', hact⟩

theorem valueStays_after (hm : m.WellFormed) (h : Slot.ValueStays (m.slot? key))
    (events : List Event) : Slot.ValueStays ((m.after events).slot? key) := by
  induction events generalizing m with
  | nil => exact h
  | cons e rest ih => exact ih (wellFormed_respond hm e) ((leaves_respond hm e key).valueStays h)

theorem dueAfter_after {last : Option Instant} (hm : m.WellFormed)
    (h : Slot.DueAfter m.config.retention last (m.slot? key))
    (hforeign : ∀ e ∈ events, ∀ fields, e.act ≠ .access key (.overwrite fields)) :
    Slot.DueAfter m.config.retention ((m.acceptedInvalidations key events).getLast?.or last)
      ((m.after events).slot? key) := by
  induction events generalizing m last with
  | nil => exact h
  | cons e rest ih =>
    obtain ⟨hfirst, hrest⟩ := List.forall_mem_cons.1 hforeign
    have hstep := (leaves_respond hm e key).dueAfter h hfirst
    rw [← config_respond hm e] at hstep ⊢
    rw [acceptedInvalidations, List.getLast?_append, Option.or_assoc]
    have hlast : (e.acceptedInvalidation? key (m.respond e).1).toList.getLast? =
        e.acceptedInvalidation? key (m.respond e).1 := by
      cases e.acceptedInvalidation? key (m.respond e).1 <;> rfl
    rw [hlast]
    exact ih (wellFormed_respond hm e) hstep hrest

/-- The event may change the record of the key. -/
def Event.Writes (key : Bytes) (e : Event) : Prop :=
  match e.act with
  | .access _ (.operate .get) | .access _ .inspect | .sweep => False
  | .access k _ => k = key

/-- A slot without a deadline stays as long as nobody writes to its key. -/
theorem slot?_respond_of_not_writes {s : Slot} (hm : m.WellFormed) (h : m.slot? key = some s)
    (hd : s.deadline = none) (he : ¬ e.Writes key) : (m.respond e).2.slot? key = some s := by
  have hlive : ∀ now, m.live? now key = some s := fun now => by
    rw [live?, h]
    exact Slot.live_of_deadline_eq_none hd now
  obtain ⟨now, act⟩ := e
  cases act with
  | sweep =>
    rcases slot?_sweep m now key with hsame | ⟨-, hdead⟩
    · exact hsame.trans h
    · rw [hlive] at hdead
      cases hdead
  | access k a =>
    have hupdated := (respond_access hm now k a).2
    by_cases hk : k = key
    · subst hk
      rw [hupdated.self, hlive]
      cases a with
      | inspect => rfl
      | overwrite fields => exact absurd rfl he
      | operate op =>
        cases op with
        | set value ts => exact absurd rfl he
        | invalidate ts => exact absurd rfl he
        | get =>
          simp only [Access.onSlot, Slot.operate]
          cases Slot.record (some s) <;> rfl
    · rw [hupdated.other hk, h]

theorem slot?_after_of_not_writes {s : Slot} (hm : m.WellFormed) (h : m.slot? key = some s)
    (hd : s.deadline = none) (hevents : ∀ e ∈ events, ¬ e.Writes key) :
    (m.after events).slot? key = some s := by
  induction events generalizing m with
  | nil => exact h
  | cons e rest ih =>
    obtain ⟨hfirst, hrest⟩ := List.forall_mem_cons.1 hevents
    exact ih (wellFormed_respond hm e) (slot?_respond_of_not_writes hm h hd hfirst) hrest

/-! ### What an observer is told -/

variable {retention : UInt64} {now : Instant} {s : PlainStore} {last : Option Instant}

/-- An observer is shown the record of a slot that is not due, the time that is left to a tombstone,
and that a value does not expire. -/
theorem inspect_deadline (h : Agrees retention now m s key) (hvalue : Slot.ValueStays (m.slot? key))
    (hdue : Slot.DueAfter retention last (m.slot? key))
    (hlast : ∀ t ∈ last, t ≤ now ∧ t.Reaches retention) :
    ∃ shown, (m.inspect now key).1 = .ok shown ∧
      (shown.isSome ↔ ∃ slot ∈ m.slot? key, ∀ due ∈ slot.deadline, now < due) ∧
      ∀ snapshot ∈ shown,
        (∃ slot ∈ m.slot? key, Record.ofFields slot.fields = .ok snapshot.record) ∧
        (snapshot.retention.isSome ↔ snapshot.record.value = none) ∧
        ∀ left ∈ snapshot.retention, left ≤ retention ∧ ∃ t ∈ last,
          (left.toNat : Int) =
            (t.toInt + Instant.stretch retention - now.toInt) / Instant.nanosPerMilli := by
  rw [(inspect_eq h.wellFormed now key).1]
  have hrecord := record_of_rel h.live
  have hshown : (m.live? now key).isSome ↔
      ∃ slot ∈ m.slot? key, ∀ due ∈ slot.deadline, now < due := by
    rw [Option.isSome_iff_exists]
    exact exists_congr fun slot => Slot.mem_live_iff
  cases hlive : m.live? now key with
  | none =>
    rw [hlive] at hshown
    exact ⟨none, rfl, hshown, by rintro _ ⟨⟩⟩
  | some slot =>
    have hslot : slot ∈ m.slot? key := Slot.mem_of_mem_live hlive
    rw [hlive] at hrecord hshown
    cases hfields : Record.ofFields slot.fields with
    | error fault => rw [Slot.record, hfields] at hrecord; cases hrecord
    | ok r =>
      have hfield := Record.value_of_ofFields hfields
      have hread : Slot.record (some slot) = .ok (some r) := by rw [Slot.record, hfields]; rfl
      simp only [Slot.inspect, hread, Option.bind_some]
      refine ⟨_, rfl, hshown, ?_⟩
      rintro _ ⟨⟩
      refine ⟨⟨slot, hslot, hfields⟩, ?_⟩
      dsimp only
      cases hv : r.value with
      | some v =>
        rw [hvalue slot hslot (by rw [← hfield, hv]; rfl)]
        exact ⟨by simp, by rintro _ ⟨⟩⟩
      | none =>
        obtain ⟨t, ht, hd⟩ := hdue slot hslot (hfield.symm.trans hv)
        obtain ⟨hbegun, hreach⟩ := hlast t ht
        have hmem : t.addMillis retention ∈ (Slot.live now (m.slot? key)).bind (·.deadline) :=
          Option.mem_bind_iff.2 ⟨slot, hlive, hd⟩
        have hleft : now < t.addMillis retention := Slot.lt_of_mem_live hmem
        obtain ⟨hmillis, hle⟩ := Instant.millisUntil_addMillis hreach hbegun hleft
        rw [hd]
        refine ⟨by simp, ?_⟩
        rintro _ ⟨⟩
        exact ⟨hle, t, ht, hmillis⟩

/-- **The deadlines of the slots that a run leaves.**  A slot with a value has none, whatever was
done to the store, and stays until somebody writes to its key.  If the store itself wrote all fields
of the key, a slot without a value is due when the retention time has passed since the last accepted
invalidation; and an observer, if the clock never went backward, is shown the record of a slot that
is not due, and nothing else, and is told of time left exactly when there is no value, and of no
more than the retention time. -/
theorem deadlines_after (config : Config) (events : List Event) (key : Bytes) :
    let m := (empty config).after events
    let last := ((empty config).acceptedInvalidations key events).getLast?
    (∀ slot, m.slot? key = some slot → slot.fields[Record.valueField]?.isSome →
      slot.deadline = none ∧ ∀ rest : List Event, (∀ e ∈ rest, ¬ e.Writes key) →
        (m.after rest).slot? key = some slot) ∧
    ((∀ e ∈ events, e.PlainOn key config.retention) →
      (∀ slot, m.slot? key = some slot → slot.fields[Record.valueField]? = none →
        ∃ t d, last = some t ∧ slot.deadline = some d ∧
          d.toInt = t.toInt + Instant.stretch config.retention) ∧
      (Ordered events → ∀ now, (∀ e ∈ events, e.now ≤ now) →
        ∃ shown, (m.inspect now key).1 = .ok shown ∧
          (shown.isSome ↔ ∃ slot ∈ m.slot? key, ∀ due ∈ slot.deadline, now < due) ∧
          ∀ snapshot ∈ shown,
            (∃ slot ∈ m.slot? key, Record.ofFields slot.fields = .ok snapshot.record) ∧
            (snapshot.retention.isSome ↔ snapshot.record.value = none) ∧
            ∀ left ∈ snapshot.retention, left ≤ config.retention ∧ ∃ t ∈ last,
              (left.toNat : Int) = (t.toInt + Instant.stretch config.retention - now.toInt) /
                Instant.nanosPerMilli)) := by
  intro m last
  have hempty := wellFormed_empty config
  have hwell : m.WellFormed := wellFormed_after hempty events
  have hvalue : Slot.ValueStays (m.slot? key) :=
    valueStays_after hempty (by rw [slot?_empty]; rintro _ ⟨⟩) events
  refine ⟨fun slot hslot hfield => ?_, fun hplain => ?_⟩
  · have hnone := hvalue slot hslot hfield
    exact ⟨hnone, fun rest => slot?_after_of_not_writes hwell hslot hnone⟩
  · have hdue : Slot.DueAfter config.retention last (m.slot? key) := by
      have hstart : Slot.DueAfter config.retention none ((empty config).slot? key) := by
        rw [slot?_empty]
        rintro _ ⟨⟩
      have hforeign : ∀ e ∈ events, ∀ fields, e.act ≠ .access key (.overwrite fields) := by
        intro e he fields hact
        have := hplain e he
        simp only [Event.PlainOn, Event.Plain, hact] at this
        exact this trivial
      have hafter := dueAfter_after hempty hstart hforeign
      rwa [Option.or_none] at hafter
    have hreach : ∀ t ∈ last, t.Reaches config.retention ∧ ∃ e ∈ events, t = e.now := by
      intro t ht
      obtain ⟨e, he, rfl, ts, hact⟩ :=
        exists_of_mem_acceptedInvalidations (List.mem_of_getLast? ht)
      have := hplain e he
      simp only [Event.PlainOn, Event.Plain, hact] at this
      exact ⟨(this trivial).2, e, he, rfl⟩
    refine ⟨fun slot hslot hfield => ?_, fun hordered now hnow => ?_⟩
    · obtain ⟨t, ht, hd⟩ := hdue slot hslot hfield
      exact ⟨t, _, ht, hd, Instant.toInt_addMillis (hreach t ht).1⟩
    · have hrun : Orderly key config.retention .first events :=
        ⟨fun e _ => e.now.first_le, hordered, hplain⟩
      have hagrees := (after_agrees (agrees_empty config .first key) hrun).mono
        (clockAfter_le now.first_le hnow)
      refine inspect_deadline hagrees hvalue hdue fun t ht => ?_
      obtain ⟨hreaches, e, he, rfl⟩ := hreach t ht
      exact ⟨hnow e he, hreaches⟩

/-- A tombstone is given, invalidated again and swept.  Half of a millisecond later an observer is
shown a record without a value, and is told of one millisecond: that is one and a half less than the
retention time, rounded down.  As soon as the tombstone is due nothing is shown. -/
theorem deadlines_after_renewal :
    let config : Config := { retention := 3 }
    let run : List Event :=
      [⟨⟨0⟩, .access [1] (.operate (.invalidate ⟨5, 0⟩))⟩,
        ⟨⟨1000000⟩, .access [1] (.operate (.invalidate ⟨6, 0⟩))⟩,
        ⟨⟨2000000⟩, .sweep⟩]
    let m := (empty config).after run
    (∀ e ∈ run, e.PlainOn [1] config.retention) ∧ Ordered run ∧
      (∃ snapshot, (m.inspect ⟨2500000⟩ [1]).1 = .ok (some snapshot) ∧
        snapshot.record.value = none ∧ snapshot.retention = some 1) ∧
      (m.inspect ⟨4000000⟩ [1]).1 = .ok none := by
  intro config run m
  have hplain : ∀ e ∈ run, e.PlainOn [1] config.retention := by decide
  have hordered : Ordered run := by decide
  obtain ⟨-, -, hinspect⟩ := (deadlines_after config run [1]).imp_right fun h => h hplain
  -- The slot is due when the retention time has passed since the second invalidation.
  have hslot : (m.slot? [1]).map (fun slot => (slot.fields[Record.valueField]?, slot.deadline)) =
      some (none, some ⟨4000000⟩) := by decide +kernel
  obtain ⟨slot, hmem, hslot⟩ := Option.map_eq_some_iff.1 hslot
  obtain ⟨hfield, hdue⟩ := Prod.mk.inj hslot
  refine ⟨hplain, hordered, ?_, ?_⟩
  · obtain ⟨shown, hshown, hsome, htold⟩ := hinspect hordered ⟨2500000⟩ (by decide)
    have hlive : shown.isSome :=
      hsome.2 ⟨slot, hmem, by rw [hdue]; rintro _ ⟨⟩; decide⟩
    obtain ⟨snapshot, rfl⟩ := Option.isSome_iff_exists.1 hlive
    obtain ⟨⟨other, hother, hrecord⟩, hiff, hleft⟩ := htold snapshot rfl
    obtain rfl : slot = other := Option.some.inj (hmem.symm.trans hother)
    have hvalue : snapshot.record.value = none := (Record.value_of_ofFields hrecord).trans hfield
    obtain ⟨left, hretention⟩ := Option.isSome_iff_exists.1 (hiff.2 hvalue)
    obtain ⟨-, t, ht, hmillis⟩ := hleft left hretention
    have hlast : ((empty config).acceptedInvalidations [1] run).getLast? = some ⟨1000000⟩ := by
      decide +kernel
    rw [hlast] at ht
    cases ht
    obtain rfl : left = 1 := UInt64.toNat_inj.1 (Int.ofNat_inj.1 (hmillis.trans (by decide)))
    exact ⟨snapshot, hshown, hvalue, hretention⟩
  · obtain ⟨shown, hshown, hsome, -⟩ := hinspect hordered ⟨4000000⟩ (by decide)
    cases shown with
    | none => exact hshown
    | some snapshot =>
      obtain ⟨other, hother, hlive⟩ := hsome.1 rfl
      obtain rfl : slot = other := Option.some.inj (hmem.symm.trans hother)
      exact absurd (hlive _ hdue) (by decide)

end MemoryStore

end CoherentCache
