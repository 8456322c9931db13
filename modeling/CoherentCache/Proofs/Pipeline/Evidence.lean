import CoherentCache.Proofs.MemoryStore.Slot
import CoherentCache.Proofs.Operation
import CoherentCache.Proofs.Pipeline.Recorded

/-!
# What a history is evidence of

A history is lawful if every write in it carries a timestamp that was read for it and every value
that was served had been set before, no earlier than the key was invalidated.  **In a lawful history
a value that is served after an invalidation was set with a timestamp that was read after it**; this
is a fact about the list alone.  A record is backed by a history if the history has the set that
left its value and no answered invalidation that the record does not know of.

* `Happening.Lawful` : the rules of a history.
* `Happening.read_after_invalidation` : values served after an invalidation.
* `Record.Backed`, `Slot.Backed` : the history bears out what is stored for a key.
* `Slot.operate_backed` : an operation that is put on record is borne out afterwards.
-/

namespace CoherentCache

/-! ### Lawful histories -/

namespace Happening

/-- The timestamps that were read, newest first. -/
def readings (history : List Happening) : List Timestamp :=
  history.filterMap fun
    | .reading ts => some ts
    | .executed .. | .marked _ => none

/-- The timestamp was read, and nothing was invalidated with it. -/
def Unspent (before : List Happening) (ts : Timestamp) : Prop :=
  .reading ts ∈ before ∧ ∀ key result, .executed key (.invalidate ts) result ∉ before

/-- The timestamp of a write was read in time.  That of a set is not that of an invalidation, and
that of an invalidation is the newest there is and not that of a set. -/
def Timely (before : List Happening) : Operation → Prop
  | .get => True
  | .set _ ts => Unspent before ts
  | .invalidate ts =>
    .reading ts ∈ before ∧ (∀ earlier, .reading earlier ∈ before → earlier ≤ ts) ∧
      ∀ key value result, .executed key (.set value ts) result ∉ before

/-- A value in an answer was set with a timestamp that no answered invalidation of the key is newer
than. -/
def Sourced (before : List Happening) (key : Bytes) (result : Except StoreError Answer) : Prop :=
  ∀ answer value, result = .ok answer → answer.value = some value →
    ∃ ts, .executed key (.set value ts) (.ok ⟨.accepted, none⟩) ∈ before ∧
      ∀ bound told, .executed key (.invalidate bound) (.ok told) ∈ before → bound ≤ ts

/-- Everything in the history, newest first, is accounted for by what was before it. -/
def Lawful : List Happening → Prop
  | [] => True
  | .reading _ :: before | .marked _ :: before => Lawful before
  | .executed key op result :: before =>
    Timely before op ∧ Sourced before key result ∧ Lawful before

variable {before history : List Happening} {key value : Bytes} {ts bound : Timestamp}
  {result : Except StoreError Answer}

theorem mem_readings : ts ∈ readings history ↔ .reading ts ∈ history := by
  simp only [readings, List.mem_filterMap]
  constructor
  · rintro ⟨e, he, hts⟩
    cases e with
    | reading t => cases hts; exact he
    | executed | marked => cases hts
  · intro h
    exact ⟨.reading ts, h, rfl⟩

theorem Lawful.right {later : List Happening} (h : Lawful (later ++ before)) : Lawful before := by
  induction later with
  | nil => exact h
  | cons e rest ih =>
    cases e with
    | reading | marked => exact ih h
    | executed k op result => exact ih h.2.2

theorem Unspent.cons (h : Unspent before ts) {e : Happening}
    (he : ∀ key result, e ≠ .executed key (.invalidate ts) result) : Unspent (e :: before) ts := by
  refine ⟨List.mem_cons_of_mem _ h.1, fun key result hmem => ?_⟩
  rcases List.mem_cons.1 hmem with hmem | hmem
  · exact he key result hmem.symm
  · exact h.2 key result hmem

/-- Several keys may be invalidated with the same timestamp. -/
theorem Timely.cons_invalidate (h : Timely before (.invalidate ts)) :
    Timely (.executed key (.invalidate ts) result :: before) (.invalidate ts) := by
  obtain ⟨hread, hnewest, hunset⟩ := h
  refine ⟨List.mem_cons_of_mem _ hread, fun earlier hmem => ?_, fun k value result' hmem => ?_⟩
  · rcases List.mem_cons.1 hmem with hmem | hmem
    · cases hmem
    · exact hnewest earlier hmem
  · rcases List.mem_cons.1 hmem with hmem | hmem
    · cases hmem
    · exact hunset k value result' hmem

theorem Lawful.reading_of_set (h : Lawful history)
    (hmem : .executed key (.set value ts) result ∈ history) : .reading ts ∈ history := by
  obtain ⟨later, before, rfl⟩ := List.append_of_mem hmem
  have hread : Happening.reading ts ∈ before := h.right.1.1
  exact List.mem_append_right _ (List.mem_cons_of_mem _ hread)

theorem Lawful.reading_of_invalidate (h : Lawful history)
    (hmem : .executed key (.invalidate ts) result ∈ history) : .reading ts ∈ history := by
  obtain ⟨later, before, rfl⟩ := List.append_of_mem hmem
  have hread : Happening.reading ts ∈ before := h.right.1.1
  exact List.mem_append_right _ (List.mem_cons_of_mem _ hread)

/-- **A value that is served after an invalidation was set after it**, with a timestamp that was
read after it. -/
theorem read_after_invalidation {later between earlier : List Happening} {op : Operation}
    {served told : Answer}
    (h : Lawful (later ++ .executed key op (.ok served) ::
      (between ++ .executed key (.invalidate bound) (.ok told) :: earlier)))
    (hvalue : served.value = some value) :
    ∃ ts newer middle older, between = newer ++
      .executed key (.set value ts) (.ok ⟨.accepted, none⟩) ::
        (middle ++ .reading ts :: older) := by
  obtain ⟨-, hsourced, hrest⟩ := h.right
  obtain ⟨⟨-, hnewest, hunset⟩, -, -⟩ := hrest.right
  obtain ⟨ts, hset, hbounds⟩ := hsourced served value rfl hvalue
  have hle : bound ≤ ts := hbounds bound told (by simp)
  rcases List.mem_append.1 hset with hset | hset
  · -- The set came after the invalidation, and so it cannot carry the same timestamp.
    obtain ⟨newer, rest, rfl⟩ := List.append_of_mem hset
    rw [List.append_assoc] at hrest
    obtain ⟨⟨hread, hspent⟩, -, -⟩ := hrest.right
    have hne : bound ≠ ts := by
      rintro rfl
      exact hspent key (.ok told) (by simp)
    have hread' : Happening.reading ts ∈ rest := by
      rcases List.mem_append.1 hread with hread | hread
      · exact hread
      · rcases List.mem_cons.1 hread with hread | hread
        · cases hread
        · exact absurd (le_antisymm hle (hnewest ts hread)) hne
    obtain ⟨middle, older, rfl⟩ := List.append_of_mem hread'
    exact ⟨ts, newer, middle, older, rfl⟩
  · -- A set from before the invalidation carries an older timestamp.
    rcases List.mem_cons.1 hset with hset | hset
    · cases hset
    · have hearlier : Lawful earlier := hrest.right.2.2
      have hge : ts ≤ bound := hnewest ts (hearlier.reading_of_set hset)
      obtain rfl := le_antisymm hle hge
      exact absurd hset (hunset key value _)

end Happening

/-! ### Backed records -/

open Happening (Sourced)

namespace Record

/-- The history has the set that left the value of the record, and the record knows of every
invalidation of its key that was answered. -/
structure Backed (history : List Happening) (key : Bytes) (r : Record) : Prop where
  /-- Without a value there is no timestamp of a write. -/
  written_eq : r.value = none → r.written = .zero
  /-- The value was set and accepted. -/
  set_mem : ∀ value ∈ r.value,
    .executed key (.set value r.written) (.ok ⟨.accepted, none⟩) ∈ history
  /-- No answered invalidation is newer. -/
  le_invalidated : ∀ ts told, .executed key (.invalidate ts) (.ok told) ∈ history →
    ts ≤ r.invalidated

variable {history : List Happening} {key : Bytes} {r : Record} {current : Option Record}

theorem backed_blank (key : Bytes) : Backed [] key blank where
  written_eq _ := rfl
  set_mem _ h := by cases h
  le_invalidated _ _ h := by cases h

/-- What is put on record besides answered invalidations of the key does no harm. -/
theorem Backed.cons (h : Backed history key r) {e : Happening}
    (he : ∀ ts told, e ≠ .executed key (.invalidate ts) (.ok told)) :
    Backed (e :: history) key r where
  written_eq := h.written_eq
  set_mem value hv := List.mem_cons_of_mem _ (h.set_mem value hv)
  le_invalidated ts told hmem := by
    rcases List.mem_cons.1 hmem with hmem | hmem
    · exact absurd hmem.symm (he ts told)
    · exact h.le_invalidated ts told hmem

theorem backed_effect (h : Backed history key (current.getD .blank)) (op : Operation) :
    Backed (.executed key op (.ok (op.effect current).answer) :: history) key
      ((op.effect current).next.getD (current.getD .blank)) := by
  cases op with
  | get => exact h.cons fun ts told he => by cases he
  | set value ts =>
    by_cases hs : Operation.Stale (current.getD .blank) ts
    · rw [Operation.effect_set_of_stale hs]
      exact h.cons fun ts told he => by cases he
    · -- The record on top of the history is the very set that left this value.
      rw [Operation.effect_set_of_not_stale hs]
      have hcons : Backed (.executed key (.set value ts) (.ok ⟨.accepted, none⟩) :: history) key _ :=
        h.cons fun ts told he => by cases he
      refine ⟨fun hnone => ?_, fun v hv => ?_, hcons.le_invalidated⟩
      · cases hnone
      · obtain rfl := Option.some.inj hv
        exact List.mem_cons_self ..
  | invalidate ts =>
    by_cases hs : ts < (current.getD .blank).invalidated
    · -- A refused invalidation is answered too: the record has a newer one.
      rw [Operation.effect_invalidate_of_lt hs]
      refine ⟨h.written_eq, fun v hv => List.mem_cons_of_mem _ (h.set_mem v hv), ?_⟩
      intro ts' told hmem
      rcases List.mem_cons.1 hmem with hmem | hmem
      · cases hmem
        exact le_of_lt hs
      · exact h.le_invalidated ts' told hmem
    · have hle : (current.getD .blank).invalidated ≤ ts := hs
      rw [Operation.effect_invalidate_of_le hle]
      refine ⟨h.written_eq, fun v hv => List.mem_cons_of_mem _ (h.set_mem v hv), ?_⟩
      intro ts' told hmem
      rcases List.mem_cons.1 hmem with hmem | hmem
      · cases hmem
        exact le_refl ts
      · exact le_trans (h.le_invalidated ts' told hmem) hle

/-- What an operation answers for a record that is borne out has its source in the history. -/
theorem sourced_effect (h : Backed history key (current.getD .blank)) (op : Operation) :
    Sourced history key (.ok (op.effect current).answer) := by
  rintro answer value heq hvalue
  obtain rfl := Except.ok.inj heq
  cases op with
  | get =>
    rw [Operation.effect_get] at hvalue
    simp only [visibleValue] at hvalue
    split at hvalue
    · next hvisible =>
      refine ⟨(current.getD .blank).written, h.set_mem value hvalue, fun bound told hmem => ?_⟩
      exact le_trans (h.le_invalidated bound told hmem) hvisible.2
    · cases hvalue
  | set v ts =>
    by_cases hs : Operation.Stale (current.getD .blank) ts
    · rw [Operation.effect_set_of_stale hs] at hvalue; cases hvalue
    · rw [Operation.effect_set_of_not_stale hs] at hvalue; cases hvalue
  | invalidate ts =>
    by_cases hs : ts < (current.getD .blank).invalidated
    · rw [Operation.effect_invalidate_of_lt hs] at hvalue; cases hvalue
    · rw [Operation.effect_invalidate_of_le hs] at hvalue; cases hvalue

end Record

namespace Slot

/-- The slot of a key persists a record that the history bears out.  It need not be one that can be
read back. -/
def Backed (history : List Happening) (key : Bytes) (slot : Option Slot) : Prop :=
  ∃ r : Option Record,
    slot.map Slot.fields = r.map Record.toFields ∧ (r.getD .blank).Backed history key

variable {history : List Happening} {key : Bytes} {slot : Option Slot}

theorem backed_none (key : Bytes) : Backed [] key none := ⟨none, rfl, Record.backed_blank key⟩

theorem Backed.cons (h : Backed history key slot) {e : Happening}
    (he : ∀ ts told, e ≠ .executed key (.invalidate ts) (.ok told)) :
    Backed (e :: history) key slot := by
  obtain ⟨r, hfields, hr⟩ := h
  exact ⟨r, hfields, hr.cons he⟩

/-- What is read back from the slot is the record that it persists, and is borne out. -/
theorem Backed.of_record (h : Backed history key slot) {found : Option Record}
    (hfound : record slot = .ok found) :
    slot.map Slot.fields = found.map Record.toFields ∧
      (found.getD .blank).Backed history key := by
  obtain ⟨r, hfields, hr⟩ := h
  cases slot with
  | none =>
    cases r with
    | some r => cases hfields
    | none => cases hfound; exact ⟨rfl, hr⟩
  | some slot =>
    cases r with
    | none => cases hfields
    | some r =>
      have hf : slot.fields = r.toFields := Option.some.inj hfields
      simp only [record, hf] at hfound
      cases hread : Record.ofFields r.toFields with
      | error fault => rw [hread] at hfound; cases hfound
      | ok r' =>
        rw [hread] at hfound
        cases hfound
        obtain rfl := Record.eq_of_ofFields_toFields hr.written_eq hread
        exact ⟨hfields, hr⟩

/-- **An operation that is put on record is borne out afterwards**, and its answer has its source in
the history. -/
theorem operate_backed (h : Backed history key slot) (due : Instant) (op : Operation) :
    Sourced history key (operate key due op slot).1 ∧
      Backed (.executed key op (operate key due op slot).1 :: history) key
        (operate key due op slot).2 := by
  unfold operate
  cases hread : record slot with
  | error fault =>
    -- A record that cannot be read back is left alone, and the answer is an error.
    exact ⟨fun answer value heq => (by cases heq), h.cons fun ts told he => (by cases he)⟩
  | ok found =>
    obtain ⟨hfields, hfound⟩ := h.of_record hread
    refine ⟨Record.sourced_effect hfound op, ?_⟩
    have hnext := Record.backed_effect hfound op
    simp only
    cases he : (op.effect found).next with
    | none =>
      rw [he] at hnext
      exact ⟨found, hfields, hnext⟩
    | some next =>
      rw [he] at hnext
      exact ⟨some next, rfl, hnext⟩

end Slot

end CoherentCache
