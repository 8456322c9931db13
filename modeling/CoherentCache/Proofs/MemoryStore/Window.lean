import CoherentCache.Proofs.MemoryStore.Plain

/-!
# How long an invalidation protects its key

The timestamp of an invalidation is forgotten when the tombstone expires.  Until then no older value
gets in.  If the record has a value, then, or later while the tombstone lasts, it has no deadline
and the timestamp is never forgotten.

* `PlainEntry.Traced` : a value is that of the last accepted set, and does not expire.
* `PlainEntry.Guarded` : an invalidation is remembered at least until an instant.
* `PlainEntry.Lasting` : an invalidation is remembered for good.
* `MemoryStore.no_stale_value` : what callers may rely on after an invalidation.
-/

namespace CoherentCache

/-! ### What an event does to an entry -/

namespace PlainEntry

/-- The record of a key with the given entry when the clock shows `now`. -/
def recordAt (now : Int) (e : Option PlainEntry) : Record :=
  ((live now e).map PlainEntry.record).getD .blank

/-- Every value is that of the last accepted set, and does not expire. -/
def Traced (last : Option (Bytes × Timestamp)) (e : Option PlainEntry) : Prop :=
  ∀ entry ∈ e, ∀ value ∈ entry.record.value,
    entry.deadline = none ∧ last = some (value, entry.record.written)

/-- An invalidation at `b` is remembered at least until the clock shows `horizon`. -/
def Guarded (b : Timestamp) (horizon : Int) (e : Option PlainEntry) : Prop :=
  ∃ entry ∈ e, b ≤ entry.record.invalidated ∧ ∀ d ∈ entry.deadline, horizon ≤ d

/-- An invalidation at `b` is remembered for good: the entry has a value and thus no deadline. -/
def Lasting (b : Timestamp) (e : Option PlainEntry) : Prop :=
  ∃ entry ∈ e, b ≤ entry.record.invalidated ∧ entry.record.value.isSome ∧ entry.deadline = none

variable {b : Timestamp} {horizon now : Int} {e : Option PlainEntry}

/-- What an event that did not touch the key, or an operation on it, leaves in the place of its
entry. -/
inductive Change (now kept : Int) (e : Option PlainEntry) :
    Option (Bytes × Timestamp) → Option PlainEntry → Prop where
  /-- The entry is as before. -/
  | same : Change now kept e none e
  /-- A set was accepted. -/
  | set (value : Bytes) (ts : Timestamp) (h : ¬ Operation.Stale (recordAt now e) ts) :
    Change now kept e (some (value, ts))
      (some ⟨{ recordAt now e with value := some value, written := ts }, none⟩)
  /-- An invalidation was accepted. -/
  | invalidate (ts : Timestamp) (h : (recordAt now e).invalidated ≤ ts) :
    Change now kept e none
      (some ⟨{ recordAt now e with invalidated := ts },
        if (recordAt now e).value.isSome then (live now e).bind PlainEntry.deadline
        else some (now + kept)⟩)

theorem recordAt_of_not_due {entry : PlainEntry} (he : entry ∈ e)
    (hlive : ∀ d ∈ entry.deadline, now < d) :
    live now e = some entry ∧ recordAt now e = entry.record := by
  have hl : live now e = some entry := by
    rw [Option.mem_def.1 he, live]
    refine Option.filter_some_pos ?_
    simp only [Option.all_eq_true, decide_eq_true_eq]
    exact hlive
  exact ⟨hl, by rw [recordAt, hl]; rfl⟩

theorem exists_of_mem_value {value : Bytes} (h : value ∈ (recordAt now e).value) :
    ∃ entry ∈ e, live now e = some entry ∧ recordAt now e = entry.record := by
  cases hl : live now e with
  | none =>
    rw [recordAt, hl] at h
    cases h
  | some entry =>
    exact ⟨entry, (Option.mem_filter_iff.1 hl).1, rfl, by rw [recordAt, hl]; rfl⟩

theorem Guarded.not_due (h : Guarded b horizon e) (hnow : now < horizon) :
    ∃ entry ∈ e, live now e = some entry ∧ recordAt now e = entry.record ∧
      b ≤ entry.record.invalidated ∧ ∀ d ∈ entry.deadline, horizon ≤ d := by
  obtain ⟨entry, he, hb, hd⟩ := h
  obtain ⟨hl, hr⟩ := recordAt_of_not_due he fun d hd' => Int.lt_of_lt_of_le hnow (hd d hd')
  exact ⟨entry, he, hl, hr, hb, hd⟩

theorem Lasting.not_due (h : Lasting b e) (now : Int) :
    ∃ entry ∈ e, live now e = some entry ∧ recordAt now e = entry.record ∧
      b ≤ entry.record.invalidated ∧ entry.record.value.isSome ∧ entry.deadline = none := by
  obtain ⟨entry, he, hb, hv, hd⟩ := h
  have hnever : ∀ d ∈ entry.deadline, now < d := by rw [hd]; rintro d ⟨⟩
  obtain ⟨hl, hr⟩ := recordAt_of_not_due he hnever
  exact ⟨entry, he, hl, hr, hb, hv, hd⟩

namespace Change

variable {kept : Int} {accepted last : Option (Bytes × Timestamp)} {e' : Option PlainEntry}

theorem traced (h : Change now kept e accepted e') (ht : Traced last e) :
    Traced (accepted.or last) e' := by
  cases h with
  | same => exact ht
  | set value ts _ =>
    rintro _ ⟨⟩ _ ⟨⟩
    exact ⟨rfl, rfl⟩
  | invalidate ts _ =>
    -- An invalidation keeps a value together with its missing deadline.
    rintro _ ⟨⟩ value hv
    obtain ⟨entry, he, hl, hr⟩ := exists_of_mem_value hv
    have hsome : (recordAt now e).value.isSome := Option.isSome_iff_exists.2 ⟨value, hv⟩
    rw [if_pos hsome, hl, hr]
    exact ht entry he value (hr ▸ hv)

theorem guarded (h : Change now kept e accepted e') (hg : Guarded b horizon e)
    (hnow : now < horizon) (hdue : horizon ≤ now + kept) : Guarded b horizon e' := by
  obtain ⟨entry, he, hl, hr, hb, hd⟩ := hg.not_due hnow
  cases h with
  | same => exact hg
  | set value ts _ => exact ⟨_, rfl, by rw [hr]; exact hb, by rintro d ⟨⟩⟩
  | invalidate ts hts =>
    rw [hr] at hts
    refine ⟨_, rfl, le_trans hb hts, ?_⟩
    rw [hl]
    intro d hd'
    split at hd'
    · exact hd d hd'
    · -- The tombstone is given a new deadline, which is no earlier than the end of the guard.
      cases hd'
      exact hdue

theorem lasting (h : Change now kept e accepted e') (hk : Lasting b e) : Lasting b e' := by
  obtain ⟨entry, he, hl, hr, hb, hv, hd⟩ := hk.not_due now
  cases h with
  | same => exact hk
  | set value ts _ => exact ⟨_, rfl, by rw [hr]; exact hb, rfl, rfl⟩
  | invalidate ts hts =>
    rw [hr] at hts
    refine ⟨_, rfl, le_trans hb hts, by rw [hr]; exact hv, ?_⟩
    rw [hr, if_pos hv, hl]
    exact hd

theorem lasting_of_set {p : Bytes × Timestamp} (h : Change now kept e (some p) e')
    (hg : Guarded b horizon e) (hnow : now < horizon) : Lasting b e' := by
  obtain ⟨entry, he, hl, hr, hb, hd⟩ := hg.not_due hnow
  cases h with
  | set value ts _ => exact ⟨_, rfl, by rw [hr]; exact hb, rfl, rfl⟩

end Change

end PlainEntry

namespace PlainStore

open MemoryStore (Event)

theorem respond_invalidate {s : PlainStore} {now : Instant} {key : Bytes} {ts : Timestamp}
    (kept : Int) (h : (PlainEntry.recordAt now.toInt (s key)).invalidated ≤ ts) :
    (s.respond kept ⟨now, .access key (.operate (.invalidate ts))⟩).2 key =
      some ⟨{ PlainEntry.recordAt now.toInt (s key) with invalidated := ts },
        if (PlainEntry.recordAt now.toInt (s key)).value.isSome then
          (PlainEntry.live now.toInt (s key)).bind PlainEntry.deadline
        else some (now.toInt + kept)⟩ := by
  obtain ⟨-, hentry⟩ := respond_of_accept kept (Operation.effect_invalidate_of_le h)
  rw [hentry, apply_ite (Retention.plainDeadline · now.toInt kept _)]
  rfl

/-- Every event changes the entry of a key in one of these ways. -/
theorem respond_change (s : PlainStore) (kept : Int) (e : Event) (key : Bytes) :
    PlainEntry.Change e.now.toInt kept (s key) (e.acceptedSet? key (s.respond kept e).1)
      ((s.respond kept e).2 key) := by
  obtain ⟨now, act⟩ := e
  cases act with
  | sweep => exact .same
  | access k a =>
    by_cases hk : k = key
    · subst hk
      cases a with
      | inspect => exact .same
      | overwrite fields => exact .same
      | operate op =>
        rcases Operation.effect_cases op ((s.live? now.toInt k).map PlainEntry.record) with
          ⟨hnext, hrejected⟩ | ⟨value, ts, rfl, hs, he⟩ | ⟨ts, rfl, hs, he⟩
        · rw [respond_of_next_eq_none hnext]
          show PlainEntry.Change _ _ _ (Event.acceptedSet? k _ (.operated (.ok _))) _
          rw [Event.acceptedSet?_of_rejected k _ hrejected]
          exact .same
        · have hset : Event.acceptedSet? k ⟨now, .access k (.operate (.set value ts))⟩
              (.operated (.ok ⟨.accepted, none⟩)) = some (value, ts) := if_pos ⟨rfl, rfl⟩
          obtain ⟨hanswer, hentry⟩ := respond_of_accept kept he
          rw [hanswer, hentry, hset]
          exact .set value ts hs
        · rw [respond_invalidate kept hs]
          exact .invalidate ts hs
    · rw [respond_other hk, Event.acceptedSet?_other hk]
      exact .same

end PlainStore

namespace MemoryStore

open PlainEntry (Change Guarded Lasting Traced)

variable {retention : UInt64} {m : MemoryStore} {s : PlainStore} {now later : Instant} {key : Bytes}
  {b : Timestamp} {events : List Event} {last : Option (Bytes × Timestamp)}

theorem acceptedSet?_eq {e : Event} (h : Agrees retention e.now m s key) (kept : Int) :
    e.acceptedSet? key (m.respond e).1 = e.acceptedSet? key (s.respond kept e).1 := by
  obtain ⟨now, act⟩ := e
  cases act with
  | sweep => rfl
  | access k a =>
    by_cases hk : k = key
    · subst hk
      cases a with
      | inspect => rfl
      | overwrite fields => rfl
      | operate op => rw [respond_operate_eq h op kept]
    · rw [Event.acceptedSet?_other hk, Event.acceptedSet?_other hk]

/-- What every change of the entry of a key preserves, a run preserves.  The property may speak of
the last set that was accepted. -/
theorem after_induction {motive : Option (Bytes × Timestamp) → Option PlainEntry → Prop}
    (last : Option (Bytes × Timestamp))
    (h : Agrees retention now m s key) (hrun : Orderly key retention now events)
    (hstep : ∀ e ∈ events, ∀ last x accepted x', motive last x →
      Change e.now.toInt (Instant.stretch retention) x accepted x' →
      motive (accepted.or last) x')
    (hinit : motive last (s key)) :
    motive ((m.acceptedSets key events).getLast?.or last)
      ((s.after (Instant.stretch retention) events) key) := by
  induction events generalizing m s now last with
  | nil => exact hinit
  | cons e rest ih =>
    obtain ⟨hle, hplain⟩ := hrun.head
    have hnow := h.mono hle
    have hchange := PlainStore.respond_change s (Instant.stretch retention) e key
    rw [← acceptedSet?_eq hnow] at hchange
    rw [getLast?_acceptedSets_cons]
    exact ih _ (respond_agrees hnow hplain) hrun.tail
      (fun e' he' => hstep e' (List.mem_cons_of_mem _ he'))
      (hstep e (List.mem_cons_self ..) _ _ _ _ hinit hchange)

/-- All through a run, a value is that of the last accepted set. -/
theorem after_traced (last : Option (Bytes × Timestamp)) (h : Agrees retention now m s key)
    (hrun : Orderly key retention now events) (ht : Traced last (s key)) :
    Traced ((m.acceptedSets key events).getLast?.or last)
      ((s.after (Instant.stretch retention) events) key) :=
  after_induction last h hrun (motive := Traced) (fun _ _ _ _ _ _ ht hc => hc.traced ht) ht

/-- A guard stays for as long as it was set, and lasts for good once a set is accepted. -/
theorem after_guarded {start : Instant} (h : Agrees retention now m s key)
    (hrun : Orderly key retention now events) (hle : start ≤ now)
    (hbelow : ∀ e ∈ events, e.now.toInt < start.toInt + Instant.stretch retention)
    (hg : Guarded b (start.toInt + Instant.stretch retention) (s key)) :
    Guarded b (start.toInt + Instant.stretch retention)
        ((s.after (Instant.stretch retention) events) key) ∧
      (m.acceptedSets key events ≠ [] →
        Lasting b ((s.after (Instant.stretch retention) events) key)) := by
  let horizon := start.toInt + Instant.stretch retention
  -- Once a set is accepted the guard lasts for good, so the invariant has to remember whether one was.
  have hinvariant := after_induction none h hrun
    (motive := fun last x => Guarded b horizon x ∧ (last.isSome → Lasting b x)) ?_
    ⟨hg, fun hnone => absurd hnone (by decide)⟩
  · refine ⟨hinvariant.1, fun hne => hinvariant.2 ?_⟩
    rw [Option.or_none]
    exact List.getLast?_isSome.2 hne
  · rintro e he last x accepted x' ⟨hgx, hlx⟩ hc
    have hstart : start.toInt ≤ e.now.toInt :=
      Int.le_trans (Instant.le_iff.1 hle) (Instant.le_iff.1 (hrun.start e he))
    refine ⟨hc.guarded hgx (hbelow e he) (by omega), fun hsome => ?_⟩
    cases accepted with
    | none => exact hc.lasting (hlx hsome)
    | some p => exact hc.lasting_of_set hgx (hbelow e he)

/-- A guard that lasts for good stays all through a run. -/
theorem after_lasting (h : Agrees retention now m s key) (hrun : Orderly key retention now events)
    (hl : Lasting b (s key)) :
    Lasting b ((s.after (Instant.stretch retention) events) key) :=
  after_induction none h hrun (motive := fun _ => Lasting b)
    (fun _ _ _ _ _ _ hl hc => hc.lasting hl) hl

/-! ### After an accepted invalidation -/

/-- What an accepted invalidation leaves: a guard until the deadline of a new tombstone, or for good
if the key has a value. -/
theorem guarded_of_accepted (h : Agrees retention now m s key) (kept : Int) (ht : Traced last (s key))
    (haccepted : (m.execute now key (.invalidate b)).1 = .ok ⟨.accepted, none⟩) :
    let left := (s.respond kept ⟨now, .access key (.operate (.invalidate b))⟩).2 key
    Guarded b (now.toInt + kept) left ∧
      ((PlainEntry.recordAt now.toInt (s key)).value.isSome → Lasting b left) := by
  have hanswer : Response.operated (.ok ⟨.accepted, none⟩) =
      (s.respond kept ⟨now, .access key (.operate (.invalidate b))⟩).1 := by
    rw [← respond_operate_eq h (.invalidate b) kept, ← haccepted]
    rfl
  have hb : (PlainEntry.recordAt now.toInt (s key)).invalidated ≤ b := by
    intro hlt
    have hrejected := Operation.effect_invalidate_of_lt hlt
    simp only [PlainStore.respond, PlainStore.live?, hrejected] at hanswer
    cases hanswer
  have hleft := PlainStore.respond_invalidate kept hb
  intro left
  by_cases hsome : (PlainEntry.recordAt now.toInt (s key)).value.isSome
  · -- A value has no deadline, and an invalidation does not give it one.
    obtain ⟨value, hv⟩ := Option.isSome_iff_exists.1 hsome
    obtain ⟨entry, he, hl, hr⟩ := PlainEntry.exists_of_mem_value hv
    have hnever : entry.deadline = none := (ht entry he value (hr ▸ hv)).1
    rw [if_pos hsome, hl] at hleft
    refine ⟨⟨_, hleft, le_refl _, fun d hd => ?_⟩, fun _ => ⟨_, hleft, le_refl _, hsome, hnever⟩⟩
    rw [show d ∈ entry.deadline from hd] at hnever
    cases hnever
  · -- A tombstone is left, and its deadline is the end of the guard.
    rw [if_neg hsome] at hleft
    refine ⟨⟨_, hleft, le_refl _, fun d hd => ?_⟩, fun hsome' => absurd hsome' hsome⟩
    cases hd
    exact Int.le_refl _

theorem execute_set_of_lt {a : Timestamp} (h : Agrees retention now m s key)
    (ha : a < (PlainEntry.recordAt now.toInt (s key)).invalidated) (value : Bytes) :
    (m.execute now key (.set value a)).1 = .ok ⟨.rejected, none⟩ := by
  have hanswer := respond_operate_eq h (.set value a) 0
  have hrejected : (Operation.set value a).effect
      ((s.live? now.toInt key).map PlainEntry.record) = .reject :=
    Operation.effect_set_of_stale (Or.inl ha)
  simp only [PlainStore.respond, hrejected] at hanswer
  exact Response.operated.inj hanswer

/-- A value that is served is that of the last accepted set, and not older than the last
invalidation. -/
theorem exists_of_execute_get {answer : Answer} {value : Bytes} (h : Agrees retention now m s key)
    (ht : Traced last (s key)) (hget : (m.execute now key .get).1 = .ok answer)
    (hvalue : answer.value = some value) :
    ∃ a, (PlainEntry.recordAt now.toInt (s key)).invalidated ≤ a ∧ last = some (value, a) := by
  have hanswer := respond_operate_eq h .get 0
  have hvisible : (PlainEntry.recordAt now.toInt (s key)).visibleValue = some value := by
    rw [← hvalue]
    have heq : Response.operated (.ok answer) =
        .operated (.ok ⟨.rejected, (PlainEntry.recordAt now.toInt (s key)).visibleValue⟩) := by
      rw [← hget]
      exact hanswer
    cases heq
    rfl
  unfold Record.visibleValue at hvisible
  split at hvisible
  · next hv =>
    obtain ⟨entry, he, -, hr⟩ := PlainEntry.exists_of_mem_value hvisible
    refine ⟨entry.record.written, ?_, (ht entry he value (hr ▸ hvisible)).2⟩
    rw [hr] at hv ⊢
    exact hv.2
  · cases hvisible

/-! ### The guarantee -/

/-- When the clock shows `later`, the guarantee of an invalidation at the reading `t` is in force:
a tombstone made then has not expired, or the key held a value, or it was given one before such a
tombstone would have expired. -/
def InForce (m : MemoryStore) (key : Bytes) (b : Timestamp) (t : Instant) (events : List Event)
    (later : Instant) : Prop :=
  let due := t.toInt + Instant.stretch m.config.retention
  later.toInt < due ∨
    (∃ shown, (m.inspect t key).1 = .ok (some shown) ∧ shown.record.value.isSome) ∨
    ∃ early rest, events = early ++ rest ∧ (∀ e ∈ early, e.now.toInt < due) ∧
      (m.execute t key (.invalidate b)).2.acceptedSets key early ≠ []

theorem record_of_inspect {shown : Snapshot} (h : Agrees retention now m s key)
    (hshown : (m.inspect now key).1 = .ok (some shown)) :
    PlainEntry.recordAt now.toInt (s key) = shown.record := by
  have hanswer : Response.inspected (.ok (some shown)) =
      (s.respond 0 ⟨now, .access key .inspect⟩).1 := by
    rw [← (respond_inspect_agrees h 0).1, ← hshown]
    rfl
  simp only [PlainStore.respond, PlainStore.live?] at hanswer
  cases hl : PlainEntry.live now.toInt (s key) with
  | none => rw [hl] at hanswer; cases hanswer
  | some entry =>
    rw [hl] at hanswer
    cases hanswer
    rw [PlainEntry.recordAt, hl]
    rfl

/-- As long as the guarantee of an accepted invalidation is in force, the key remembers it. -/
theorem le_invalidated_of_inForce {t : Instant} (h : Agrees retention t m s key) (ht : Traced last (s key))
    (hrun : Orderly key retention t
      (⟨t, .access key (.operate (.invalidate b))⟩ :: events))
    (hlater : ∀ e ∈ events, e.now ≤ later)
    (haccepted : (m.execute t key (.invalidate b)).1 = .ok ⟨.accepted, none⟩)
    (hforce : InForce m key b t events later) :
    b ≤ (PlainEntry.recordAt later.toInt
      ((s.after (Instant.stretch retention)
        (⟨t, .access key (.operate (.invalidate b))⟩ :: events)) key)).invalidated := by
  let kept := Instant.stretch retention
  let event : Event := ⟨t, .access key (.operate (.invalidate b))⟩
  obtain ⟨hguarded, hlasting⟩ := guarded_of_accepted h kept ht haccepted
  have hagrees : Agrees retention t (m.respond event).2 (s.respond kept event).2 key :=
    respond_agrees h hrun.head.2
  simp only [InForce, h.retention_eq] at hforce
  rcases hforce with hsoon | hkept
  · have hbelow : ∀ e ∈ events, e.now.toInt < t.toInt + kept := fun e he =>
      Int.lt_of_le_of_lt (Instant.le_iff.1 (hlater e he)) hsoon
    have hg := (after_guarded hagrees hrun.tail t.le_refl hbelow hguarded).1
    obtain ⟨entry, -, -, hr, hb, -⟩ := hg.not_due hsoon
    exact hr ▸ hb
  · have hl : Lasting b (((s.respond kept event).2.after kept events) key) := by
      rcases hkept with ⟨shown, hshown, hvalue⟩ | ⟨early, rest, rfl, hearly, hset⟩
      · rw [← record_of_inspect h hshown] at hvalue
        exact after_lasting hagrees hrun.tail (hlasting hvalue)
      · have hl := (after_guarded hagrees hrun.tail.left t.le_refl hearly hguarded).2 hset
        have hrest := after_agrees hagrees hrun.tail.left
        rw [PlainStore.after_append]
        exact after_lasting hrest hrun.tail.right hl
    obtain ⟨entry, -, -, hr, hb, -⟩ := hl.not_due later.toInt
    exact hr ▸ hb

/-- **No stale value.**  In a run whose clock never goes backward, let an invalidation at `b` be
accepted.  While its guarantee is in force, every older value is refused, and a value that is served
was set at `b` or later.  The guarantee is in force for the retention time, and for good if the key
held a value or was given one within that time. -/
theorem no_stale_value (config : Config) {t : Instant} {before between : List Event}
    (hordered : Ordered (before ++ ⟨t, .access key (.operate (.invalidate b))⟩ :: between))
    (hplain : ∀ e ∈ before ++ ⟨t, .access key (.operate (.invalidate b))⟩ :: between,
      e.PlainOn key config.retention)
    (hlater : ∀ e ∈ before ++ ⟨t, .access key (.operate (.invalidate b))⟩ :: between,
      e.now ≤ later)
    (haccepted : (((empty config).after before).execute t key (.invalidate b)).1 =
      .ok ⟨.accepted, none⟩)
    (hforce : InForce ((empty config).after before) key b t between later) :
    let run := before ++ ⟨t, .access key (.operate (.invalidate b))⟩ :: between
    (∀ value a, a < b →
      (((empty config).after run).execute later key (.set value a)).1 = .ok ⟨.rejected, none⟩) ∧
    (∀ answer value, (((empty config).after run).execute later key .get).1 = .ok answer →
      answer.value = some value →
      ∃ a, b ≤ a ∧ ((empty config).acceptedSets key run).getLast? = some (value, a)) := by
  intro run
  let kept := Instant.stretch config.retention
  have hrun : Orderly key config.retention .first run :=
    ⟨fun e _ => e.now.first_le, hordered, hplain⟩
  have hempty := agrees_empty config .first key
  have hend : clockAfter .first run ≤ later := clockAfter_le later.first_le hlater
  have hagrees := (after_agrees hempty hrun).mono hend
  have htraced : Traced _ _ := after_traced none hempty hrun (by rintro _ ⟨⟩)
  rw [Option.or_none] at htraced
  have hb : b ≤ (PlainEntry.recordAt later.toInt
      ((PlainStore.empty.after kept run) key)).invalidated := by
    -- the store when the invalidation comes
    have hbefore : clockAfter .first before ≤ t := clockAfter_le t.first_le fun e he =>
      (List.pairwise_append.1 hordered).2.2 e he _ (List.mem_cons_self ..)
    have hmid := (after_agrees hempty hrun.left).mono hbefore
    have htmid : Traced _ _ := after_traced none hempty hrun.left (by rintro _ ⟨⟩)
    have hright : Orderly key config.retention t
        (⟨t, .access key (.operate (.invalidate b))⟩ :: between) := hrun.right.fromHead
    rw [PlainStore.after_append]
    exact le_invalidated_of_inForce hmid htmid hright
      (fun e he => hlater e (List.mem_append_right _ (List.mem_cons_of_mem _ he))) haccepted hforce
  refine ⟨fun value a ha => execute_set_of_lt hagrees (lt_of_lt_of_le ha hb) value,
    fun answer value hget hvalue => ?_⟩
  obtain ⟨a, ha, hlast⟩ := exists_of_execute_get hagrees htraced hget hvalue
  exact ⟨a, le_trans hb ha, hlast⟩

/-- A value is set and invalidated; long after the retention time, and after a sweep, it is gone and
an old value is still refused. -/
theorem no_stale_value_long_after :
    let before : List Event := [⟨⟨0⟩, .access [1] (.operate (.set [7] ⟨3, 0⟩))⟩]
    let between : List Event := [⟨⟨9000000⟩, .sweep⟩, ⟨⟨9000000⟩, .access [1] (.operate .get)⟩]
    let run := before ++ ⟨⟨1⟩, .access [1] (.operate (.invalidate ⟨5, 0⟩))⟩ :: between
    InForce ((empty { retention := 2 }).after before) [1] ⟨5, 0⟩ ⟨1⟩ between ⟨9000000⟩ ∧
      (((empty { retention := 2 }).after run).execute ⟨9000000⟩ [1] (.set [8] ⟨4, 0⟩)).1 =
        .ok ⟨.rejected, none⟩ := by
  intro before between run
  have hordered : Ordered run := by decide
  have hplain : ∀ e ∈ run, e.PlainOn [1] 2 := by decide
  have hlater : ∀ e ∈ run, e.now ≤ ⟨9000000⟩ := by decide
  have haccepted : (((empty { retention := 2 }).after before).execute ⟨1⟩ [1]
      (.invalidate ⟨5, 0⟩)).1 = .ok ⟨.accepted, none⟩ := by decide +kernel
  have hforce : InForce ((empty { retention := 2 }).after before) [1] ⟨5, 0⟩ ⟨1⟩ between
      ⟨9000000⟩ :=
    Or.inr (Or.inl ⟨⟨⟨some [7], ⟨3, 0⟩, .zero⟩, none⟩, by decide +kernel, rfl⟩)
  refine ⟨hforce, ?_⟩
  exact (no_stale_value { retention := 2 } hordered hplain hlater haccepted hforce).1 [8] ⟨4, 0⟩
    (by decide)

end MemoryStore

end CoherentCache
