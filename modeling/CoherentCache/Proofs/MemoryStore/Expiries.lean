import CoherentCache.Proofs.MemoryStore.Sweep

/-!
# The expiry index of a shard

A shard finds its lapsed slots by a heap of entries and by the generations of its keys.  The heap
gives an entry with the earliest deadline, and does not say which of several.  Where the generation
of a key is looked up that has none, a blank one is left behind.  Neither is seen in the answers of
the shard, so here a sweep is taken entry by entry, with the entries chosen freely and the blank
generations kept, and related to the sweep that goes down the agenda.

The index is sound in every state that a shard can reach, at any clock readings: generations start
over when a slot is dropped while its entries stay on the heap, so an entry may be taken for that of
a later slot; but a deadline never lacks an entry of its own, and only the slot's own deadline
decides whether it is dropped.

* `Shard.workOff`, `Shard.Sweeps` : a sweep, entry by entry.
* `Shard.Reachable` : the states of a shard.
* `Shard.Numbered` : generations belong to slots, and deadlines to generations.
* `Shard.Matches` : one shard is the other but for blank generations.
* `MemoryStore.expiries_indexed` : **every deadline has its entry, so that a sweep with something
  left to spend leaves no lapsed slot, and none that has not lapsed is dropped.**
-/

namespace CoherentCache

namespace Shard

/-! ### Sweeps, entry by entry -/

/-- Looks up the generation of a key.  One that has none is given the blank one. -/
def touch (s : Shard) (key : Bytes) : Shard :=
  { s with generations := s.generations.insert key (s.generation key) }

/-- Takes an entry off the heap. -/
def take (s : Shard) (e : Expiry) : Shard := { s with agenda := s.agenda.erase e }

/-- Takes an entry off the heap and does what it calls for.  The number is what that costs. -/
def workOff (s : Shard) (now : Instant) (e : Expiry) : Shard × Nat :=
  let s := s.take e
  match s.slots[e.key]? with
  | none => (s, 0)
  | some slot =>
    let s := s.touch e.key
    if s.generation e.key ≠ e.generation then (s, 0)
    else if slot.isLapsed now then (s.erase e.key, 1)
    else (s, 1)

/-- A sweep at the clock reading `now` that may spend `budget` leads from `s` to `s'` and leaves
`left` of the budget.  Entries are worked off as long as there is something to spend and one is due,
each time one with the earliest deadline. -/
inductive Sweeps (now : Instant) : Shard → Nat → Shard → Nat → Prop where
  /-- Nothing is left to spend, or no entry is due. -/
  | stop {s : Shard} {budget : Nat} (hstop : budget = 0 ∨ ∀ e ∈ s.agenda, now < e.deadline) :
    Sweeps now s budget s budget
  /-- An entry is worked off. -/
  | work {s s' : Shard} {budget left : Nat} {e : Expiry} (hbudget : budget ≠ 0)
    (hmem : e ∈ s.agenda) (hfirst : ∀ later ∈ s.agenda, e.deadline ≤ later.deadline)
    (hdue : e.deadline ≤ now)
    (hrest : Sweeps now (s.workOff now e).1 (budget - (s.workOff now e).2) s' left) :
    Sweeps now s budget s' left

/-- The states that a shard can reach, at any clock readings. -/
inductive Reachable : Shard → Prop where
  /-- A shard without keys. -/
  | empty : Reachable empty
  /-- A key was looked up. -/
  | settle {s : Shard} (h : Reachable s) (now : Instant) (key : Bytes) :
    Reachable (s.settle now key)
  /-- An operation on a key was accepted. -/
  | commit {s : Shard} (h : Reachable s) (now : Instant) (key : Bytes) (record : Record)
    (retention : Retention) (due : Instant) :
    Reachable ((s.settle now key).commit key record retention due)
  /-- Fields were put in the place of those of a key. -/
  | overwrite {s : Shard} (h : Reachable s) (key : Bytes) (fields : Fields) :
    Reachable (s.overwrite key fields)
  /-- The shard was swept. -/
  | sweep {s s' : Shard} {now : Instant} {budget left : Nat} (h : Reachable s)
    (hsweep : Sweeps now s budget s' left) : Reachable s'

/-! ### Looking up a generation -/

variable {s s' t t' : Shard} {key k : Bytes} {now d : Instant} {e : Expiry} {entries : List Expiry}
  {budget left : Nat}

theorem generation_touch (s : Shard) (key k : Bytes) :
    (s.touch key).generation k = s.generation k := by
  simp only [generation, touch, Std.TreeMap.getD_insert, Std.compare_eq_iff_eq]
  split
  · next hk => rw [hk]
  · rfl

theorem getElem?_generations (h : key ∈ s.generations) :
    s.generations[key]? = some (s.generation key) := by
  obtain ⟨g, hg⟩ := Option.isSome_iff_exists.1 (Std.TreeMap.isSome_getElem?_iff_mem.2 h)
  rw [generation, Std.TreeMap.getD_eq_getD_getElem?, hg]
  rfl

theorem deadline_of_slot {slot : Slot} (hslot : s.slots[key]? = some slot)
    (hd : slot.deadline = some d) : s.deadline key = some d := by
  rw [deadline, hslot]
  exact hd

/-! ### One entry -/

theorem workOff_of_none (h : s.slots[e.key]? = none) : s.workOff now e = (s.take e, 0) := by
  have hslots : (s.take e).slots[e.key]? = none := h
  rw [workOff, hslots]

theorem workOff_of_ne (hslot : s.slots[e.key]?.isSome)
    (h : s.generation e.key ≠ e.generation) :
    s.workOff now e = ((s.take e).touch e.key, 0) := by
  obtain ⟨slot, hslot⟩ := Option.isSome_iff_exists.1 hslot
  have hslots : (s.take e).slots[e.key]? = some slot := hslot
  have hne : ((s.take e).touch e.key).generation e.key ≠ e.generation := by
    rw [generation_touch]
    exact h
  rw [workOff, hslots]
  exact if_pos hne

theorem workOff_of_eq (now : Instant) (hslot : s.slots[e.key]?.isSome)
    (h : s.generation e.key = e.generation) :
    s.workOff now e =
      if s.isLapsed now e.key then (((s.take e).touch e.key).erase e.key, 1)
      else ((s.take e).touch e.key, 1) := by
  obtain ⟨slot, hslot⟩ := Option.isSome_iff_exists.1 hslot
  have hslots : (s.take e).slots[e.key]? = some slot := hslot
  have heq : ¬ ((s.take e).touch e.key).generation e.key ≠ e.generation := by
    rw [generation_touch]
    exact not_not.2 h
  rw [workOff, hslots, isLapsed, hslot]
  exact if_neg heq

/-- All that working off an entry can come to. -/
theorem workOff_cases (s : Shard) (now : Instant) (e : Expiry) :
    (s.slots[e.key]? = none ∧ s.workOff now e = (s.take e, 0)) ∨
      (s.slots[e.key]?.isSome ∧ s.generation e.key ≠ e.generation ∧
        s.workOff now e = ((s.take e).touch e.key, 0)) ∨
      (s.isLapsed now e.key = true ∧
        s.workOff now e = (((s.take e).touch e.key).erase e.key, 1)) ∨
      (s.slots[e.key]?.isSome ∧ s.isLapsed now e.key = false ∧
        s.workOff now e = ((s.take e).touch e.key, 1)) := by
  by_cases hnone : s.slots[e.key]? = none
  · exact .inl ⟨hnone, workOff_of_none hnone⟩
  · have hslot : s.slots[e.key]?.isSome := Option.isSome_iff_ne_none.2 hnone
    by_cases hgeneration : s.generation e.key = e.generation
    · have hw := workOff_of_eq now hslot hgeneration
      cases hlapsed : s.isLapsed now e.key with
      | true => exact .inr (.inr (.inl ⟨rfl, by rw [hw, if_pos hlapsed]⟩))
      | false => exact .inr (.inr (.inr ⟨hslot, rfl, by rw [hw, hlapsed]; rfl⟩))
    · exact .inr (.inl ⟨hslot, hgeneration, workOff_of_ne hslot hgeneration⟩)

/-! ### Deadlines and their entries -/

theorem Lists.touch (h : s.Lists entries) (key : Bytes) : (s.touch key).Lists entries := by
  intro k d hd
  rw [generation_touch]
  exact h k d hd

theorem Lists.eraseEntry (h : s.Lists entries)
    (hother : s.deadline e.key = some e.deadline → s.generation e.key ≠ e.generation) :
    s.Lists (entries.erase e) := by
  intro key d hd
  refine (List.mem_erase_of_ne ?_).2 (h key d hd)
  rintro rfl
  exact hother hd rfl

/-- Once a slot is gone, no entry of its key is needed. -/
theorem Lists.eraseKey (h : s.Lists entries) : (s.erase e.key).Lists (entries.erase e) := by
  refine Lists.eraseEntry (fun key d hd => ?_) fun hd => ?_
  · rw [deadline_erase] at hd
    split at hd
    · cases hd
    · next hk =>
      rw [generation_erase_of_ne s hk]
      exact h key d hd
  · rw [deadline_erase, if_pos rfl] at hd
    cases hd

/-- **Working off a due entry takes no deadline its entry away.** -/
theorem Indexed.workOff (h : s.Indexed) (hdue : e.deadline ≤ now) :
    (s.workOff now e).1.Indexed := by
  have horder : InOrder (s.agenda.erase e) := h.inOrder.sublist List.erase_sublist
  rcases workOff_cases s now e with ⟨hnone, hw⟩ | ⟨-, hold, hw⟩ | ⟨-, hw⟩ | ⟨-, hnot, hw⟩ <;>
    rw [hw]
  · refine ⟨horder, h.lists.eraseEntry fun hd => ?_⟩
    rw [deadline, hnone] at hd
    cases hd
  · exact ⟨horder, (h.lists.eraseEntry fun _ => hold).touch e.key⟩
  · exact ⟨horder, (h.lists.touch e.key).eraseKey⟩
  · -- The entry is due and the slot has not lapsed, so the deadline is a later one.
    refine ⟨horder, (h.lists.eraseEntry fun hd => ?_).touch e.key⟩
    have hlapsed := (isLapsed_iff s now e.key).2 ⟨_, hd, hdue⟩
    rw [hnot] at hlapsed
    cases hlapsed

theorem Sweeps.indexed (h : Sweeps now s budget s' left) (hs : s.Indexed) : s'.Indexed := by
  induction h with
  | stop => exact hs
  | work _ _ _ hdue _ ih => exact ih (hs.workOff hdue)

/-! ### Generations and their slots -/

/-- Generations belong to slots, and deadlines to generations. -/
structure Numbered (s : Shard) : Prop where
  /-- A key that has a generation has a slot. -/
  hasSlot : ∀ key ∈ s.generations, key ∈ s.slots
  /-- A key that has a deadline has a generation. -/
  hasGeneration : ∀ key d, s.deadline key = some d → key ∈ s.generations

theorem numbered_empty : empty.Numbered := by
  refine ⟨fun key h => absurd h Std.TreeMap.not_mem_emptyc, fun key d h => ?_⟩
  have hnone : (∅ : Std.TreeMap Bytes Slot compare)[key]? = none := Std.TreeMap.getElem?_emptyc
  rw [deadline, empty, hnone] at h
  cases h

theorem mem_put (s : Shard) (key : Bytes) (slot : Slot) :
    k ∈ (s.put key slot).slots ↔ key = k ∨ k ∈ s.slots := by
  simp only [put, Std.TreeMap.mem_insert, Std.compare_eq_iff_eq]

theorem mem_renew (s : Shard) (key : Bytes) :
    k ∈ (s.renew key).generations ↔ key = k ∨ k ∈ s.generations := by
  simp only [renew, Std.TreeMap.mem_insert, Std.compare_eq_iff_eq]

theorem mem_touch (s : Shard) (key : Bytes) :
    k ∈ (s.touch key).generations ↔ key = k ∨ k ∈ s.generations := by
  simp only [touch, Std.TreeMap.mem_insert, Std.compare_eq_iff_eq]

theorem Numbered.erase (h : s.Numbered) (key : Bytes) : (s.erase key).Numbered := by
  refine ⟨fun k hk => ?_, fun k d hd => ?_⟩
  · simp only [Shard.erase, Std.TreeMap.mem_erase] at hk ⊢
    exact ⟨hk.1, h.hasSlot k hk.2⟩
  · rw [deadline_erase] at hd
    split at hd
    · cases hd
    · next hne =>
      simp only [Shard.erase, Std.TreeMap.mem_erase]
      exact ⟨by simpa [Std.compare_eq_iff_eq] using hne, h.hasGeneration k d hd⟩

theorem Numbered.touch (h : s.Numbered) (hslot : key ∈ s.slots) : (s.touch key).Numbered := by
  refine ⟨fun k hk => ?_, fun k d hd => (mem_touch s key).2 (.inr (h.hasGeneration k d hd))⟩
  rcases (mem_touch s key).1 hk with rfl | hk
  · exact hslot
  · exact h.hasSlot k hk

theorem Numbered.settle (h : s.Numbered) (now : Instant) (key : Bytes) :
    (s.settle now key).Numbered := by
  unfold Shard.settle
  split
  · exact h.erase key
  · exact h

/-- A slot is written that has no deadline, or has one together with a generation. -/
theorem Numbered.put (h : s.Numbered) (key : Bytes) (slot : Slot)
    (hgeneration : slot.deadline.isSome → key ∈ s.generations) : (s.put key slot).Numbered := by
  refine ⟨fun k hk => (mem_put s key slot).2 (.inr (h.hasSlot k hk)), fun k d hd => ?_⟩
  rw [deadline_put] at hd
  split at hd
  · next hk => exact hk ▸ hgeneration (hd ▸ rfl)
  · exact h.hasGeneration k d hd

/-- A slot is written and its key goes to the next generation. -/
theorem Numbered.putRenew (h : s.Numbered) (key : Bytes) (slot : Slot) :
    ((s.put key slot).renew key).Numbered := by
  refine ⟨fun k hk => (mem_put s key slot).2 ?_, fun k d hd => (mem_renew _ key).2 ?_⟩
  · exact ((mem_renew _ key).1 hk).imp_right (h.hasSlot k)
  · have hd : (s.put key slot).deadline k = some d := hd
    rw [deadline_put] at hd
    split at hd
    · next hk => exact .inl hk
    · exact .inr (h.hasGeneration k d hd)

theorem Numbered.commit (h : s.Numbered) (key : Bytes) (record : Record) (retention : Retention)
    (due : Instant) : (s.commit key record retention due).Numbered := by
  cases retention with
  | keep =>
    refine h.put key _ fun hsome => ?_
    obtain ⟨d, hd⟩ := Option.isSome_iff_exists.1 hsome
    exact h.hasGeneration key d hd
  | arm =>
    obtain ⟨hslot, hgeneration⟩ := h.putRenew key ⟨record.toFields, some due⟩
    exact ⟨hslot, hgeneration⟩
  | clear =>
    simp only [Shard.commit]
    split
    · exact h.putRenew key _
    · exact h.put key _ fun hsome => absurd hsome Bool.false_ne_true

theorem Numbered.workOff (h : s.Numbered) (e : Expiry) : (s.workOff now e).1.Numbered := by
  have htaken : (s.take e).Numbered := ⟨h.hasSlot, h.hasGeneration⟩
  have htouched (hslot : s.slots[e.key]?.isSome) : ((s.take e).touch e.key).Numbered :=
    htaken.touch (Std.TreeMap.isSome_getElem?_iff_mem.1 hslot)
  rcases workOff_cases s now e with ⟨-, hw⟩ | ⟨hslot, -, hw⟩ | ⟨hlapsed, hw⟩ | ⟨hslot, -, hw⟩ <;>
    rw [hw]
  · exact htaken
  · exact htouched hslot
  · exact (htouched (isSome_of_isLapsed hlapsed)).erase e.key
  · exact htouched hslot

theorem Sweeps.numbered (h : Sweeps now s budget s' left) (hs : s.Numbered) : s'.Numbered := by
  induction h with
  | stop => exact hs
  | work _ _ _ _ _ ih => exact ih (hs.workOff _)

/-! ### The states of a shard -/

theorem Reachable.indexed (h : s.Reachable) : s.Indexed := by
  induction h with
  | empty => exact indexed_empty
  | settle _ now key ih => exact ih.settle now key
  | commit _ now key record retention due ih =>
    exact (ih.settle now key).commit key record retention due
  | overwrite _ key fields ih => exact ih.overwrite key fields
  | sweep _ hsweep ih => exact hsweep.indexed ih

theorem Reachable.numbered (h : s.Reachable) : s.Numbered := by
  induction h with
  | empty => exact numbered_empty
  | settle _ now key ih => exact ih.settle now key
  | commit _ now key record retention due ih =>
    exact (ih.settle now key).commit key record retention due
  | overwrite _ key fields ih => exact ih.putRenew key ⟨fields, none⟩
  | sweep _ hsweep ih => exact hsweep.numbered ih

/-! ### What a sweep leaves -/

theorem not_lapsed_of_slot {slot : Slot} (hslot : s.slots[key]? = some slot)
    (hlater : ∀ d, slot.deadline = some d → now < d) : s.isLapsed now key = false := by
  refine Bool.eq_false_iff.2 fun hlapsed => ?_
  obtain ⟨d, hd, hdue⟩ := (isLapsed_iff s now key).1 hlapsed
  rw [deadline, hslot] at hd
  exact Int64.not_lt.2 hdue (hlater d hd)

/-- A sweep that does not spend all it may has worked off all that was due. -/
theorem Sweeps.nothing_due (h : Sweeps now s budget s' left) (hleft : left ≠ 0) :
    ∀ e ∈ s'.agenda, now < e.deadline := by
  induction h with
  | stop hstop => exact hstop.resolve_left hleft
  | work _ _ _ _ _ ih => exact ih hleft

/-- Every deadline that has passed has an entry that is due, so none is left. -/
theorem Sweeps.lt_deadline (h : Sweeps now s budget s' left) (hs : s.Indexed) (hleft : left ≠ 0)
    (hd : s'.deadline key = some d) : now < d :=
  h.nothing_due hleft _ ((h.indexed hs).lists key d hd)

theorem getElem?_workOff (h : s.isLapsed now key = false) :
    (s.workOff now e).1.slots[key]? = s.slots[key]? := by
  rcases workOff_cases s now e with ⟨-, hw⟩ | ⟨-, -, hw⟩ | ⟨hlapsed, hw⟩ | ⟨-, -, hw⟩ <;> rw [hw]
  · rfl
  · rfl
  · have hk : e.key ≠ key := by
      rintro rfl
      rw [h] at hlapsed
      cases hlapsed
    exact (getElem?_erase ..).trans (if_neg hk)
  · rfl

/-- **A sweep leaves every key alone that has not lapsed.** -/
theorem Sweeps.getElem?_eq (h : Sweeps now s budget s' left) (hkey : s.isLapsed now key = false) :
    s'.slots[key]? = s.slots[key]? := by
  induction h with
  | stop => rfl
  | @work s _ _ _ e _ _ _ _ _ ih =>
    have hsame := getElem?_workOff (e := e) hkey
    rw [isLapsed_eq, ← hsame, ← isLapsed_eq] at hkey
    exact (ih hkey).trans hsame

/-! ### The agenda as a heap -/

/-- The shard is the other one, but for blank generations that looking them up left behind. -/
structure Matches (s t : Shard) : Prop where
  /-- The slots are the same. -/
  slots_eq : s.slots = t.slots
  /-- The entries are the same. -/
  agenda_eq : s.agenda = t.agenda
  /-- A generation is the same, or it is blank. -/
  generations_eq : ∀ key : Bytes, s.generations[key]? = t.generations[key]? ∨
    t.generations[key]? = none ∧ s.generations[key]? = some 0

namespace Matches

theorem refl (s : Shard) : s.Matches s := ⟨rfl, rfl, fun _ => .inl rfl⟩

theorem generation_eq (h : s.Matches t) (key : Bytes) : s.generation key = t.generation key := by
  simp only [generation, Std.TreeMap.getD_eq_getD_getElem?]
  rcases h.generations_eq key with hsame | ⟨hnone, hblank⟩
  · rw [hsame]
  · rw [hnone, hblank]
    rfl

theorem deadline_eq (h : s.Matches t) (key : Bytes) : s.deadline key = t.deadline key := by
  unfold deadline
  rw [h.slots_eq]

theorem isLapsed_eq (h : s.Matches t) (now : Instant) (key : Bytes) :
    s.isLapsed now key = t.isLapsed now key := by
  unfold isLapsed
  rw [h.slots_eq]

theorem touch (h : s.Matches t) (key : Bytes) : (s.touch key).Matches t := by
  refine ⟨h.slots_eq, h.agenda_eq, fun k => ?_⟩
  simp only [Shard.touch, Std.TreeMap.getElem?_insert, Std.compare_eq_iff_eq]
  split
  · next hk =>
    subst hk
    rw [h.generation_eq, generation, Std.TreeMap.getD_eq_getD_getElem?]
    cases t.generations[key]? with
    | none => exact .inr ⟨rfl, rfl⟩
    | some g => exact .inl rfl
  · exact h.generations_eq k

theorem erase (h : s.Matches t) (key : Bytes) : (s.erase key).Matches (t.erase key) := by
  refine ⟨congrArg (·.erase key) h.slots_eq, h.agenda_eq, fun k => ?_⟩
  simp only [Shard.erase, Std.TreeMap.getElem?_erase, Std.compare_eq_iff_eq]
  split
  · exact .inl rfl
  · exact h.generations_eq k

theorem put (h : s.Matches t) (key : Bytes) (slot : Slot) :
    (s.put key slot).Matches (t.put key slot) :=
  ⟨congrArg (·.insert key slot) h.slots_eq, h.agenda_eq, h.generations_eq⟩

theorem renew (h : s.Matches t) (key : Bytes) : (s.renew key).Matches (t.renew key) := by
  refine ⟨h.slots_eq, h.agenda_eq, fun k => ?_⟩
  simp only [Shard.renew, Std.TreeMap.getElem?_insert, Std.compare_eq_iff_eq, h.generation_eq]
  split
  · exact .inl rfl
  · exact h.generations_eq k

theorem settle (h : s.Matches t) (now : Instant) (key : Bytes) :
    (s.settle now key).Matches (t.settle now key) := by
  unfold Shard.settle
  rw [h.isLapsed_eq]
  split
  · exact h.erase key
  · exact h

theorem commit (h : s.Matches t) (key : Bytes) (record : Record) (retention : Retention)
    (due : Instant) :
    (s.commit key record retention due).Matches (t.commit key record retention due) := by
  cases retention with
  | keep =>
    simp only [Shard.commit, h.deadline_eq]
    exact h.put key _
  | arm =>
    have hrenewed := (h.put key ⟨record.toFields, some due⟩).renew key
    refine ⟨hrenewed.slots_eq, ?_, hrenewed.generations_eq⟩
    simp only [Shard.commit, hrenewed.generation_eq, hrenewed.agenda_eq]
  | clear =>
    simp only [Shard.commit, h.deadline_eq]
    split
    · exact (h.put key _).renew key
    · exact h.put key _

theorem overwrite (h : s.Matches t) (key : Bytes) (fields : Fields) :
    (s.overwrite key fields).Matches (t.overwrite key fields) :=
  (h.put key ⟨fields, none⟩).renew key

/-- Going down the agenda takes the entries off the heap as they come. -/
theorem sweepEntries (h : s.Matches { t with agenda := entries }) (horder : InOrder entries)
    (now : Instant) (budget dropped : Nat) :
    ∃ s' left, Sweeps now s budget s' left ∧
      s'.Matches (Shard.sweepEntries now entries budget t dropped).1 := by
  -- The induction is on the agenda, which is the heap in order: its head is a first entry.
  induction entries generalizing s t budget dropped with
  | nil => exact ⟨s, budget, .stop (.inr (by rw [h.agenda_eq]; exact nofun)), h⟩
  | cons e rest ih =>
    obtain ⟨hfirst, hrest⟩ := List.pairwise_cons.1 horder
    have hagenda : s.agenda = e :: rest := h.agenda_eq
    have hslots : s.slots = t.slots := h.slots_eq
    have hgeneration : s.generation e.key = t.generation e.key := h.generation_eq e.key
    have hlapsed : s.isLapsed now e.key = t.isLapsed now e.key := h.isLapsed_eq now e.key
    have hahead : ∀ later ∈ s.agenda, e.deadline ≤ later.deadline := by
      rw [hagenda]
      exact List.forall_mem_cons.2 ⟨e.deadline.le_refl, hfirst⟩
    have htaken : (s.take e).Matches { t with agenda := rest } :=
      ⟨hslots, by rw [take, hagenda, List.erase_cons_head], h.generations_eq⟩
    rw [Shard.sweepEntries]
    split
    · next hstop =>
      refine ⟨s, budget, .stop (hstop.imp_right fun hearly later hlater => ?_), h⟩
      exact Int64.lt_of_lt_of_le hearly (hahead later hlater)
    · next hgo =>
      obtain ⟨hbudget, hdue⟩ := not_or.1 hgo
      replace hdue : e.deadline ≤ now := Int64.not_lt.1 hdue
      have hmem : e ∈ s.agenda := hagenda ▸ List.mem_cons_self ..
      have hstep {s₁ s' : Shard} {cost left : Nat} (hw : s.workOff now e = (s₁, cost))
          (h : Sweeps now s₁ (budget - cost) s' left) : Sweeps now s budget s' left :=
        .work hbudget hmem hahead hdue (by rw [hw]; exact h)
      split
      · next hnone =>
        obtain ⟨s', left, hsweeps, hmatches⟩ := ih htaken hrest budget dropped
        exact ⟨s', left, hstep (workOff_of_none (hslots ▸ hnone)) hsweeps, hmatches⟩
      · next slot hslot =>
        have hsome : s.slots[e.key]?.isSome := by rw [hslots, hslot]; rfl
        have htouched := htaken.touch e.key
        split
        · next hold =>
          obtain ⟨s', left, hsweeps, hmatches⟩ := ih htouched hrest budget dropped
          exact ⟨s', left, hstep (workOff_of_ne hsome (hgeneration ▸ hold)) hsweeps, hmatches⟩
        · next hsame =>
          have hw := workOff_of_eq now hsome (hgeneration.trans (not_not.1 hsame))
          rw [hlapsed, isLapsed, hslot] at hw
          split
          · next hl =>
            rw [if_pos hl] at hw
            obtain ⟨s', left, hsweeps, hmatches⟩ :=
              ih (t := t.erase e.key) (htouched.erase e.key) hrest (budget - 1) (dropped + 1)
            exact ⟨s', left, hstep hw hsweeps, hmatches⟩
          · next hl =>
            rw [if_neg hl] at hw
            obtain ⟨s', left, hsweeps, hmatches⟩ := ih htouched hrest (budget - 1) dropped
            exact ⟨s', left, hstep hw hsweeps, hmatches⟩

/-- **A sweep down the agenda is one of the sweeps of the heap.** -/
theorem sweep (h : s.Matches t) (ht : t.Indexed) (now : Instant) (budget : Nat) :
    ∃ s' left, Sweeps now s budget s' left ∧ s'.Matches (t.sweep now budget).1 :=
  Matches.sweepEntries (t := t) h ht.inOrder now budget 0

end Matches

/-- What one event does to a shard, a reachable shard can do as well. -/
theorem Turn.reachable (h : Turn now t t') (ht : t.Indexed) (hs : s.Reachable)
    (hmatches : s.Matches t) : ∃ s' : Shard, s'.Reachable ∧ s'.Matches t' := by
  cases h with
  | same => exact ⟨s, hs, hmatches⟩
  | settle key => exact ⟨_, hs.settle now key, hmatches.settle now key⟩
  | commit key record retention due =>
    exact ⟨_, hs.commit now key record retention due,
      (hmatches.settle now key).commit key record retention due⟩
  | overwrite key fields => exact ⟨_, hs.overwrite key fields, hmatches.overwrite key fields⟩
  | sweep budget =>
    obtain ⟨s', left, hsweeps, hmatches⟩ := hmatches.sweep ht now budget
    exact ⟨s', hs.sweep hsweeps, hmatches⟩

end Shard

namespace MemoryStore

variable {m : MemoryStore} {i : Nat}

/-- Every shard of a store is in a state that a shard can reach, but for blank generations. -/
theorem reachable_after (hm : m.WellFormed) (h : ∀ i, (m.shardAt i).Indexed)
    (hs : ∃ s : Shard, s.Reachable ∧ s.Matches (m.shardAt i)) (events : List Event) :
    ∃ s : Shard, s.Reachable ∧ s.Matches ((m.after events).shardAt i) := by
  induction events generalizing m with
  | nil => exact hs
  | cons e rest ih =>
    obtain ⟨s, hreachable, hmatches⟩ := hs
    have hturn (j : Nat) := turn_respond hm e j
    exact ih (wellFormed_respond hm e) (fun j => (hturn j).indexed (h j))
      ((hturn i).reachable (h i) hreachable hmatches)

/-- **The expiry index of a shard is sound.**  In every state that a shard can reach:

* A slot with a deadline has an entry of that deadline and of the generation that its key has, and a
  key that has a generation has a slot.
* A sweep that stops with something left to spend leaves no deadline that has passed.
* A sweep leaves every slot alone that has no deadline or a later one.

The shards of a store are in such states after any run, and a sweep of the store does to each of
them what one of these sweeps does. -/
theorem expiries_indexed :
    (∀ s : Shard, s.Reachable →
      (∀ (key : Bytes) (slot : Slot) (d : Instant), s.slots[key]? = some slot →
        slot.deadline = some d → ∃ g, s.generations[key]? = some g ∧ ⟨d, key, g⟩ ∈ s.agenda) ∧
      (∀ key ∈ s.generations, key ∈ s.slots) ∧
      ∀ now budget s' left, Shard.Sweeps now s budget s' left →
        (left ≠ 0 → ∀ (key : Bytes) (slot : Slot) (d : Instant), s'.slots[key]? = some slot →
          slot.deadline = some d → now < d) ∧
        ∀ (key : Bytes) (slot : Slot), s.slots[key]? = some slot →
          (∀ d, slot.deadline = some d → now < d) → s'.slots[key]? = some slot) ∧
    ∀ (config : Config) (events : List Event) (i : Nat),
      let m := (empty config).after events
      ∃ s : Shard, s.Reachable ∧ s.Matches (m.shardAt i) ∧
        ∀ now, ∃ s' left, Shard.Sweeps now s config.sweepLimit s' left ∧
          s'.Matches ((m.sweep now).shardAt i) := by
  refine ⟨fun s hs => ⟨fun key slot d hslot hd => ?_, hs.numbered.hasSlot,
    fun now budget s' left hsweep => ⟨fun hleft key slot d hslot hd => ?_,
      fun key slot hslot hlater => ?_⟩⟩, fun config events i => ?_⟩
  · have hdeadline : s.deadline key = some d := Shard.deadline_of_slot hslot hd
    have hmem := hs.numbered.hasGeneration key d hdeadline
    exact ⟨s.generation key, Shard.getElem?_generations hmem,
      hs.indexed.lists key d hdeadline⟩
  · exact hsweep.lt_deadline hs.indexed hleft (Shard.deadline_of_slot hslot hd)
  · rw [hsweep.getElem?_eq (Shard.not_lapsed_of_slot hslot hlater), hslot]
  · intro m
    have hindexed : ∀ i, (m.shardAt i).Indexed := indexed_reached config events
    have hconfig : m.config = config := config_after (wellFormed_empty config) events
    have hempty : ∀ i, (empty config).shardAt i = .empty := shardAt_empty config
    obtain ⟨s, hs, hmatches⟩ := reachable_after (i := i) (wellFormed_empty config)
      (fun j => hempty j ▸ Shard.indexed_empty)
      ⟨.empty, .empty, hempty i ▸ Shard.Matches.refl _⟩ events
    refine ⟨s, hs, hmatches, fun now => ?_⟩
    rw [shardAt_sweep, hconfig]
    exact hmatches.sweep (hindexed i) now config.sweepLimit

/-- The first key was given a value after its tombstone had lapsed: it has no generation, and an
entry of the one that it had is left.  The tombstones of two more keys lapse at 20 and at 40. -/
def revived : Shard :=
  let tombstone : Record := ⟨none, .zero, ⟨1, 0⟩⟩
  let s := (Shard.empty.settle ⟨0⟩ [1]).commit [1] tombstone .arm ⟨10⟩
  let s := (s.settle ⟨12⟩ [1]).commit [1] ⟨some [118], ⟨2, 0⟩, .zero⟩ .clear ⟨22⟩
  let s := (s.settle ⟨12⟩ [2]).commit [2] tombstone .arm ⟨20⟩
  (s.settle ⟨12⟩ [3]).commit [3] tombstone .arm ⟨40⟩

theorem reachable_revived : revived.Reachable := by
  unfold revived
  exact (((Shard.Reachable.empty.commit ..).commit ..).commit ..).commit ..

/-- A sweep at 30 that may spend two works off what is left of the first key and drops the
second. -/
theorem sweeps_revived : ∃ s' left, Shard.Sweeps ⟨30⟩ revived 2 s' left ∧ left ≠ 0 ∧
    [1] ∈ s'.generations ∧ s'.slots[([2] : Bytes)]?.isNone :=
  ⟨_, _, .work (e := ⟨⟨10⟩, [1], 1⟩) (by decide) (by decide +kernel) (by decide +kernel) (by decide)
      (.work (e := ⟨⟨20⟩, [2], 1⟩) (by decide +kernel) (by decide +kernel) (by decide +kernel)
        (by decide) (.stop (.inr (by decide +kernel)))),
    by decide +kernel, by decide +kernel, by decide +kernel⟩

/-- Looking up the generation of the first key leaves a blank one, which belongs to its slot; the
deadline of the second had its entry, none that has passed is left, and the third keeps its slot. -/
theorem expiries_indexed_revived :
    ∃ s' left, revived.Reachable ∧ Shard.Sweeps ⟨30⟩ revived 2 s' left ∧ left ≠ 0 ∧
      (∃ g, revived.generations[([2] : Bytes)]? = some g ∧ ⟨⟨20⟩, [2], g⟩ ∈ revived.agenda) ∧
      ([1] ∈ s'.generations ∧ [1] ∈ s'.slots) ∧
      (∀ (key : Bytes) (slot : Slot) (d : Instant), s'.slots[key]? = some slot →
        slot.deadline = some d → ⟨30⟩ < d) ∧
      ∃ slot : Slot, slot.deadline = some ⟨40⟩ ∧ s'.slots[([3] : Bytes)]? = some slot := by
  obtain ⟨s', left, hsweep, hleft, hblank, -⟩ := sweeps_revived
  have hsound := expiries_indexed.1 revived reachable_revived
  have hswept := expiries_indexed.1 s' (reachable_revived.sweep hsweep)
  obtain ⟨hdone, hkept⟩ := hsound.2.2 _ _ _ _ hsweep
  have hsecond : (revived.slots[([2] : Bytes)]?.bind (·.deadline)) = some ⟨20⟩ := by decide +kernel
  have hthird : (revived.slots[([3] : Bytes)]?.bind (·.deadline)) = some ⟨40⟩ := by decide +kernel
  obtain ⟨second, hslot, hd⟩ := Option.bind_eq_some_iff.1 hsecond
  obtain ⟨third, hslot', hd'⟩ := Option.bind_eq_some_iff.1 hthird
  refine ⟨s', left, reachable_revived, hsweep, hleft, hsound.1 _ second _ hslot hd,
    ⟨hblank, hswept.2.1 _ hblank⟩, hdone hleft, third, hd', hkept _ third hslot' fun d hd => ?_⟩
  rw [hd'] at hd
  cases hd
  decide

end MemoryStore

end CoherentCache
