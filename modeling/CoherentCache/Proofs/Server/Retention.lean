import CoherentCache.Proofs.Cache.Readback
import CoherentCache.Proofs.MemoryStore.Visible
import CoherentCache.Proofs.Settings.Bounds
import CoherentCache.Server.CommandLine

/-!
# Deadlines and the end of the clock

The clock counts nanoseconds in a signed word of 64 bits.  A deadline is a clock reading with the
retention time added, and it is exact as long as the sum lies within the word.  Settings files keep
the retention time within a day, which never takes a deadline out of the word.  The option of the
command line does not, and a retention time of more than `Instant.longest` milliseconds does.

* `Instant.reaches_of_le`, `Instant.exists_not_reaches` : which retention times are short enough.
* `Settings.Tame` : the retention time is one that a settings file can give.
* `CommandLine.givenRetention?`, `CommandLine.retention_of_parse` : where the retention time of a
  server comes from.
* `Slot.operate_invalidate` : what an accepted invalidation leaves.
* `CommandLine.deadlines_fit` : **tombstones outlast the clock reading at which they are made.**
-/

namespace CoherentCache

/-! ### How far the clock reaches -/

namespace Instant

/-- A clock reading far in the future, more than a hundred years after the epoch. -/
def horizon : Int := 4611686018427387904

/-- The most milliseconds that can be added to every clock reading up to the horizon. -/
def longest : Nat := 4611686018427

variable {t : Instant} {ms : UInt64}

theorem reaches_of_le (ht : t.toInt ≤ horizon) (hms : ms.toNat ≤ longest) : t.Reaches ms := by
  unfold Reaches stretch lastNanos nanosPerMilli horizon longest at *
  omega

/-- **A longer time does not fit**: at the horizon, the end of it lies outside the clock's word. -/
theorem exists_not_reaches (hms : longest < ms.toNat) :
    ∃ t : Instant, t.toInt = horizon ∧ lastNanos < t.toInt + stretch ms := by
  have hlast : (⟨Int64.ofInt horizon⟩ : Instant).toInt = horizon := by decide
  refine ⟨⟨Int64.ofInt horizon⟩, hlast, ?_⟩
  rw [hlast]
  unfold stretch lastNanos nanosPerMilli horizon longest at *
  omega

theorem lt_addMillis (h : t.Reaches ms) (hms : 1 ≤ ms.toNat) : t < t.addMillis ms := by
  rw [lt_iff, toInt_addMillis h]
  unfold stretch nanosPerMilli
  omega

end Instant

/-! ### What retention times a server can have -/

namespace Settings

/-- The retention time is one that a settings file can give: at least a millisecond, and at most a
day. -/
def Tame (s : Settings) : Prop :=
  1 ≤ s.memory.retention.toNat ∧ s.memory.retention.toNat ≤ 86400000

variable {s t : Settings}

theorem InRange.tame (h : s.InRange) : s.Tame := by
  obtain ⟨hlow, hhigh⟩ := h.number
    ⟨"tombstone_ttl_ms", 1, 86400000, fun s => s.memory.retention.toNat⟩ (by simp [numberSettings])
  exact ⟨Int.ofNat_le.1 hlow, Int.ofNat_le.1 hhigh⟩

theorem InRange.loads (h : s.InRange) {files : Files} {paths : List Bytes}
    (ht : paths.foldlM (fun s path => Settings.load s files path) s = .ok t) : t.InRange := by
  induction paths generalizing s with
  | nil =>
    cases ht
    exact h
  | cons path rest ih =>
    rw [List.foldlM_cons] at ht
    cases hload : s.load files path with
    | error fault =>
      rw [hload] at ht
      cases ht
    | ok s' =>
      rw [hload] at ht
      exact ih (h.load hload) ht

end Settings

namespace CommandLine

/-- The option for the retention time. -/
def retentionOption : Bytes := Bytes.ofString "--tombstone-ttl-ms"

/-- The retention time that the options give, if one of them gives it: the last one. -/
def givenRetention? : List Bytes → Option UInt64
  | option :: value :: rest =>
    givenRetention? rest <|>
      if option = retentionOption then Decimal.readUInt64? value else none
  | _ => none

variable {s t : Settings}

theorem retention_override {option value : Bytes} (h : override s option value = some t) :
    t.memory.retention =
      (if option = retentionOption then Decimal.readUInt64? value else none).getD
        s.memory.retention := by
  unfold override at h
  by_cases hoption : option = retentionOption
  · subst hoption
    rw [if_neg (by decide), if_neg (by decide), if_neg (by decide), if_neg (by decide),
      if_neg (by decide), if_neg (by decide), if_pos (by decide)] at h
    obtain ⟨n, hn, rfl⟩ := Option.map_eq_some_iff.1 h
    rw [if_pos rfl, hn]
    rfl
  · -- Every other option leaves the retention time as it is.
    rw [if_neg hoption, Option.getD_none]
    split_ifs at h with _ _ _ _ _ _ hretention
    · cases h
      rfl
    · obtain ⟨n, -, rfl⟩ := Option.map_eq_some_iff.1 h
      rfl
    · cases h
      rfl
    · cases h
      rfl
    · obtain ⟨n, -, rfl⟩ := Option.map_eq_some_iff.1 h
      rfl
    · obtain ⟨n, -, rfl⟩ := Option.map_eq_some_iff.1 h
      rfl
    · exact absurd hretention hoption

theorem retention_overrideAll {arguments : List Bytes} (h : overrideAll s arguments = some t) :
    t.memory.retention = (givenRetention? arguments).getD s.memory.retention := by
  induction arguments using givenRetention?.induct generalizing s with
  | case1 option value rest ih =>
    rw [overrideAll] at h
    cases hfirst : override s option value with
    | none =>
      rw [hfirst] at h
      cases h
    | some s' =>
      rw [hfirst] at h
      rw [ih h, retention_override hfirst, givenRetention?]
      cases givenRetention? rest <;> rfl
  | case2 arguments hshort =>
    cases arguments with
    | nil =>
      cases h
      rfl
    | cons option rest =>
      cases rest with
      | nil => cases h
      | cons value rest => exact absurd rfl (hshort option value rest)

/-- **Where the retention time comes from**: the last option that gives it, or else the files, which
keep it within a day. -/
theorem retention_of_parse {files : Settings.Files} {arguments : List Bytes}
    (h : parse files arguments = .ok s) :
    ∃ loaded : Settings, loaded.Tame ∧
      s.memory.retention = (givenRetention? arguments).getD loaded.memory.retention := by
  unfold parse at h
  split at h
  · cases h
  · next loaded hloaded =>
    split at h
    · cases h
    · next s' hs' =>
      cases h
      exact ⟨loaded, (Settings.inRange_default.loads hloaded).tame, retention_overrideAll hs'⟩

end CommandLine

/-! ### What an accepted invalidation leaves -/

/-- A record that is read back shows the invalidation that it was written with. -/
theorem Record.invalidated_of_ofFields_toFields {r r' : Record}
    (h : ofFields r.toFields = .ok r') : r'.invalidated = r.invalidated := by
  rw [ofFields_toFields_eq] at h
  split at h
  · cases h
  · split at h
    · cases h
    · cases h
      rfl

namespace Slot

variable {key value : Bytes} {due now : Instant} {ts older : Timestamp} {slot : Option Slot}
  {answer : Answer}

/-- **An accepted invalidation leaves a tombstone with the new deadline, or a value without one.**
The record carries its timestamp. -/
theorem operate_invalidate (hvalue : ValueStays slot)
    (h : (operate key due (.invalidate ts) (live now slot)).1 = .ok answer)
    (haccepted : answer.outcome = .accepted) :
    ∃ r : Record, r.invalidated = ts ∧ (ts.Normal → r.Storable) ∧
      (operate key due (.invalidate ts) (live now slot)).2 =
        some ⟨r.toFields, if r.value.isSome then none else some due⟩ := by
  unfold operate at h ⊢
  cases hrecord : record (live now slot) with
  | error fault =>
    rw [hrecord] at h
    cases h
  | ok found =>
    rw [hrecord] at h
    by_cases hnewer : ts < (found.getD .blank).invalidated
    · simp only [Operation.effect_invalidate_of_lt hnewer] at h
      cases h
      cases haccepted
    · have hle : (found.getD .blank).invalidated ≤ ts := Timestamp.le_iff_not_lt.2 hnewer
      have heffect := Operation.effect_invalidate_of_le hle
      refine ⟨{ found.getD .blank with invalidated := ts }, rfl, fun hts => ?_, ?_⟩
      · have hnormal : (Operation.invalidate ts).Normal := hts
        exact Operation.storable_of_effect hnormal (storable_of_record hrecord)
          (congrArg Effect.next heffect)
      · simp only [heffect, Effect.accept]
        cases hsome : (found.getD .blank).value.isSome with
        | true =>
          -- The value was there before, and had no deadline to keep.
          obtain ⟨s, hs, hfield⟩ := exists_of_value hrecord hsome
          have hdeadline : s.deadline = none := hvalue s (mem_of_mem_live hs) hfield
          rw [Option.mem_def.1 hs]
          simp only [if_true, Retention.deadline, Option.bind_some, hdeadline]
        | false => rfl

/-- **A set that is older than the invalidation is not accepted**: it is rejected, or the record
cannot be read. -/
theorem operate_older {r : Record} {deadline : Option Instant} (h : older < r.invalidated) :
    let run := operate key due (.set value older) (some ⟨r.toFields, deadline⟩)
    (∀ answer, run.1 = .ok answer → answer.outcome = .rejected) ∧
      (r.Storable → run.1 = .ok ⟨.rejected, none⟩) := by
  intro run
  have herror (fault : Record.Fault) (hread : Record.ofFields r.toFields = .error fault) :
      run.1 = .error (.corruptRecord key fault) := by
    simp only [run, operate, record, hread]
    rfl
  have hreject (r' : Record) (hread : Record.ofFields r.toFields = .ok r') :
      run.1 = .ok ⟨.rejected, none⟩ := by
    have hsame := Record.invalidated_of_ofFields_toFields hread
    have heffect : (Operation.set value older).effect (some r') = .reject :=
      Operation.effect_set_of_stale (.inl (hsame ▸ h : older < r'.invalidated))
    simp only [run, operate, record, hread]
    exact congrArg (fun effect : Effect => Except.ok effect.answer) heffect
  refine ⟨fun answer hanswer => ?_, fun hstorable => ?_⟩
  · cases hread : Record.ofFields r.toFields with
    | error fault =>
      rw [herror fault hread] at hanswer
      cases hanswer
    | ok r' =>
      rw [hreject r' hread] at hanswer
      cases hanswer
      rfl
  · exact hreject r (Record.ofFields_toFields hstorable)

end Slot

namespace MemoryStore

variable {m : MemoryStore} {now : Instant} {key value : Bytes} {ts older : Timestamp}
  {answer : Answer}

/-- What a tombstone is good for at the clock reading at which it is made. -/
theorem Steady.invalidate (hm : m.Steady) (hreach : now.Reaches m.config.retention)
    (hpos : 1 ≤ m.config.retention.toNat)
    (h : (m.execute now key (.invalidate ts)).1 = .ok answer)
    (haccepted : answer.outcome = .accepted) :
    let m' := (m.execute now key (.invalidate ts)).2
    ∃ slot, m'.slot? key = some slot ∧
      (slot.deadline = if slot.fields[Record.valueField]?.isSome then none
        else some (now.addMillis m.config.retention)) ∧
      ∀ value older, older < ts →
        (∀ answer, (m'.execute now key (.set value older)).1 = .ok answer →
          answer.outcome = .rejected) ∧
        (ts.Normal → (m'.execute now key (.set value older)).1 = .ok ⟨.rejected, none⟩) := by
  intro m'
  obtain ⟨hanswer, hupdated⟩ := execute_eq hm.wellFormed now key (.invalidate ts)
  rw [hanswer] at h
  obtain ⟨r, hinvalidated, hstorable, hslot⟩ :=
    Slot.operate_invalidate (hm.valueStays key) h haccepted
  have hleft : m'.slot? key = _ := hupdated.self.trans hslot
  refine ⟨_, hleft, ?_, fun value older holder => ?_⟩
  · rw [Record.getElem?_toFields_value]
  · -- The deadline has not passed yet, so that the set meets the record.
    have hlive : m'.live? now key = m'.slot? key := by
      rw [live?, hleft]
      cases hsome : r.value.isSome with
      | true => exact Slot.live_of_deadline_eq_none rfl now
      | false =>
        refine Slot.live_of_not_lapsed ?_
        exact decide_eq_false (Int64.not_le.2 (Instant.lt_addMillis hreach hpos))
    rw [(execute_eq hupdated.wellFormed now key (.set value older)).1, hlive, hleft]
    have holder' : older < r.invalidated := hinvalidated ▸ holder
    obtain ⟨hnot, hrejected⟩ := Slot.operate_older holder'
    exact ⟨hnot, fun hts => hrejected (hstorable hts)⟩

end MemoryStore

namespace CommandLine

open Instant (horizon longest stretch lastNanos)

/-- **Tombstones outlast the clock reading at which they are made**, for retention times that the
clock can count.  Without the option for it the retention time is at most a day.  It can be added to
every clock reading up to the horizon exactly if it is at most `longest`.  And then, in every store
that any events lead to, an accepted invalidation leaves a tombstone with the exact deadline, which
is later than the clock reading, or a value that has none; and no older set is accepted at the same
clock reading. -/
theorem deadlines_fit (files : Settings.Files) (arguments : List Bytes) {s : Settings}
    (h : parse files arguments = .ok s)
    (hgiven : ∀ n, givenRetention? arguments = some n → 1 ≤ n.toNat) :
    let n := s.memory.retention
    (givenRetention? arguments = none → n.toNat ≤ 86400000) ∧
      ((∀ now : Instant, 0 ≤ now.toInt → now.toInt ≤ horizon →
          now.toInt + stretch n ≤ lastNanos) ↔ n.toNat ≤ longest) ∧
      (n.toNat ≤ longest → ∀ (events : List MemoryStore.Event) (now : Instant) (key : Bytes)
        (ts : Timestamp) (answer : Answer), now.toInt ≤ horizon →
        let m := (MemoryStore.empty s.memory).after events
        let m' := (m.execute now key (.invalidate ts)).2
        (m.execute now key (.invalidate ts)).1 = .ok answer → answer.outcome = .accepted →
        ∃ slot, m'.slot? key = some slot ∧
          (slot.fields[Record.valueField]? = none → ∃ due, slot.deadline = some due ∧
            due.toInt = now.toInt + stretch n ∧ now < due) ∧
          (slot.fields[Record.valueField]?.isSome → slot.deadline = none) ∧
          ∀ value older, older < ts →
            (∀ answer, (m'.execute now key (.set value older)).1 = .ok answer →
              answer.outcome = .rejected) ∧
            (ts.Normal → (m'.execute now key (.set value older)).1 = .ok ⟨.rejected, none⟩)) := by
  intro n
  obtain ⟨loaded, ⟨hlow, hhigh⟩, hretention⟩ := retention_of_parse h
  have hn : n = (givenRetention? arguments).getD loaded.memory.retention := hretention
  have hpos : 1 ≤ n.toNat := by
    rw [hn]
    cases hsome : givenRetention? arguments with
    | none => exact hlow
    | some given => exact hgiven given hsome
  refine ⟨fun hnone => ?_, ⟨fun hfits => ?_, fun hshort now _ hnow => ?_⟩, ?_⟩
  · rw [hn, hnone]
    exact hhigh
  · refine Nat.le_of_not_lt fun hlong => ?_
    obtain ⟨now, hnow, hpast⟩ := Instant.exists_not_reaches hlong
    have hfit := hfits now (hnow ▸ (by decide)) (Int.le_of_eq hnow)
    omega
  · exact (Instant.reaches_of_le hnow hshort).2
  · intro hshort events now key ts answer hnow m m' hanswer haccepted
    have hsteady : m.Steady := (MemoryStore.steady_empty s.memory).after events
    have hconfig : m.config = s.memory :=
      MemoryStore.config_after (MemoryStore.wellFormed_empty s.memory) events
    have hreach : now.Reaches n := Instant.reaches_of_le hnow hshort
    obtain ⟨slot, hslot, hdeadline, hsets⟩ :=
      hsteady.invalidate (hconfig ▸ hreach) (hconfig ▸ hpos) hanswer haccepted
    refine ⟨slot, hslot, fun hnone => ?_, fun hsome => ?_, hsets⟩
    · rw [hnone, hconfig] at hdeadline
      exact ⟨_, hdeadline, Instant.toInt_addMillis hreach, Instant.lt_addMillis hreach hpos⟩
    · rw [hdeadline, if_pos hsome]

/-- A command line that gives the retention time and nothing else. -/
theorem parse_retention (files : Settings.Files) {value : Bytes} {n : UInt64}
    (h : Decimal.readUInt64? value = some n) :
    parse files [retentionOption, value] =
      .ok { memory.retention := n, remote.retention := n } := by
  have hpaths : paths [retentionOption, value] = [] := if_neg (by decide)
  have hoverride : override {} retentionOption value =
      some { memory.retention := n, remote.retention := n } := by
    unfold override
    rw [if_neg (by decide), if_neg (by decide), if_neg (by decide), if_neg (by decide),
      if_neg (by decide), if_neg (by decide), if_pos (by decide), h]
    rfl
  have hall : overrideAll {} [retentionOption, value] =
      some { memory.retention := n, remote.retention := n } := by
    rw [overrideAll, hoverride]
    rfl
  simp only [parse, hpaths, List.foldlM_nil, pure, Except.pure, hall]

/-- The longest retention time fits.  A key is invalidated at the last clock reading for which that
is so: the tombstone is due at the sum of both, and a set with an older timestamp is rejected. -/
theorem deadlines_fit_longest :
    ∃ s, parse (fun _ => none) [retentionOption, Bytes.ofString "4611686018427"] = .ok s ∧
      (∀ now : Instant, 0 ≤ now.toInt → now.toInt ≤ horizon →
        now.toInt + stretch s.memory.retention ≤ lastNanos) ∧
      let now : Instant := ⟨4611686018427387904⟩
      let m := MemoryStore.empty s.memory
      let m' := (m.execute now [107] (.invalidate ⟨5, 0⟩)).2
      (m.execute now [107] (.invalidate ⟨5, 0⟩)).1 = .ok ⟨.accepted, none⟩ ∧
        (∃ slot due, m'.slot? [107] = some slot ∧ slot.deadline = some due ∧
          due.toInt = 9223372036854387904 ∧ now < due) ∧
        (m'.execute now [107] (.set [118] ⟨4, 0⟩)).1 = .ok ⟨.rejected, none⟩ := by
  have hread : Decimal.readUInt64? (Bytes.ofString "4611686018427") = some 4611686018427 := by
    decide +kernel
  have hparse := parse_retention (fun _ => none) hread
  obtain ⟨-, hfits, htombstone⟩ := deadlines_fit (fun _ => none) _ hparse fun n hn => by
    obtain rfl : 4611686018427 = n := Option.some.inj (hread.symm.trans hn)
    decide
  refine ⟨_, hparse, hfits.2 (by decide), ?_⟩
  intro now m m'
  have haccepted : (m.execute now [107] (.invalidate ⟨5, 0⟩)).1 = .ok ⟨.accepted, none⟩ := by
    decide +kernel
  have hvalue : (m'.slot? [107]).bind (·.fields[Record.valueField]?) = none := by decide +kernel
  obtain ⟨slot, hslot, hdue, -, hsets⟩ :=
    htombstone (by decide) [] now [107] ⟨5, 0⟩ _ (by decide) haccepted rfl
  have hslot : m'.slot? [107] = some slot := hslot
  rw [hslot] at hvalue
  obtain ⟨due, hdeadline, hexact, hlater⟩ := hdue hvalue
  refine ⟨haccepted, ⟨slot, due, hslot, hdeadline, hexact.trans (by decide), hlater⟩, ?_⟩
  exact (hsets [118] ⟨4, 0⟩ (by decide)).2 (by decide)

/-- With the largest number that the option takes, the deadline of a tombstone lies before the clock
reading at which it is made, and an older set is accepted. -/
theorem older_set_accepted :
    ∃ s, parse (fun _ => none) [retentionOption, Bytes.ofString "18446744073709551615"] = .ok s ∧
      let now : Instant := ⟨1700000000000000000⟩
      let m := MemoryStore.empty s.memory
      let m' := (m.execute now [107] (.invalidate ⟨5, 0⟩)).2
      0 ≤ now.toInt ∧ now.toInt ≤ horizon ∧ 1 ≤ s.memory.retention.toNat ∧
        lastNanos < now.toInt + stretch s.memory.retention ∧
        now.addMillis s.memory.retention < now ∧
        (m.execute now [107] (.invalidate ⟨5, 0⟩)).1 = .ok ⟨.accepted, none⟩ ∧
        (m'.execute now [107] (.set [118] ⟨4, 0⟩)).1 = .ok ⟨.accepted, none⟩ := by
  have hread : Decimal.readUInt64? (Bytes.ofString "18446744073709551615") =
      some 18446744073709551615 := by decide +kernel
  refine ⟨_, parse_retention (fun _ => none) hread, ?_⟩
  decide +kernel

end CommandLine

end CoherentCache
