import CoherentCache.Proofs.Instant
import CoherentCache.Proofs.MemoryStore.Shard
import Mathlib.Data.List.Nodup

/-!
# What a sweep gets done

The agenda of a shard lists the deadlines that were ever set, so it holds entries that speak for no
slot any more.  Most of them show it by their generation and are removed for free.  But the
generation of a key is forgotten together with its slot, and when the key gets a new slot it counts
from the start again; so an entry left over from a dropped slot may be taken for an entry of the new
one.  Such a stray entry uses up some of what a sweep may spend, though there is nothing to drop.

* `Shard.Indexed` : the agenda is in order, and every deadline has its entry.
* `Shard.Turn` : all that one event can do to a shard, and `Shard.Turn.indexed` : it stays indexed.
* `Shard.sweep_spec` : **a sweep drops as many lapsed slots as it may, less one for each stray entry
  that it meets.**
* `Shard.Turn.faithful` : as long as a key does not lapse, none of its entries goes astray.
-/

namespace CoherentCache

namespace Shard

variable {s s' : Shard} {key k : Bytes} {now d : Instant} {e : Expiry} {entries : List Expiry}
  {budget : Nat}

/-! ### Deadlines and generations -/

theorem deadline_erase (s : Shard) (key k : Bytes) :
    (s.erase key).deadline k = if key = k then none else s.deadline k := by
  unfold deadline
  rw [getElem?_erase]
  split <;> rfl

theorem generation_erase_of_ne (s : Shard) (h : key ≠ k) :
    (s.erase key).generation k = s.generation k := by
  simp only [generation, erase, Std.TreeMap.getD_erase, Std.compare_eq_iff_eq, if_neg h]

theorem deadline_put (s : Shard) (key : Bytes) (slot : Slot) (k : Bytes) :
    (s.put key slot).deadline k = if key = k then slot.deadline else s.deadline k := by
  unfold deadline
  rw [getElem?_put]
  split <;> rfl

theorem generation_renew (s : Shard) (key k : Bytes) :
    (s.renew key).generation k = if key = k then s.generation key + 1 else s.generation k := by
  simp only [generation, renew, Std.TreeMap.getD_insert, Std.compare_eq_iff_eq]

theorem isLapsed_iff (s : Shard) (now : Instant) (key : Bytes) :
    s.isLapsed now key = true ↔ ∃ d, s.deadline key = some d ∧ d ≤ now := by
  unfold isLapsed deadline
  cases s.slots[key]? with
  | none => simp
  | some slot =>
    simp only [Slot.isLapsed, Option.bind_some]
    cases slot.deadline <;> simp

theorem isLapsed_erase_of_ne (s : Shard) (h : key ≠ k) (now : Instant) :
    (s.erase key).isLapsed now k = s.isLapsed now k := by
  rw [isLapsed_eq, isLapsed_eq, getElem?_erase, if_neg h]

/-! ### The agenda -/

/-- The entries are in the order of their deadlines. -/
def InOrder (entries : List Expiry) : Prop :=
  entries.Pairwise fun e later => e.deadline ≤ later.deadline

/-- Every deadline of the shard has its entry, of the generation that its key has now. -/
def Lists (s : Shard) (entries : List Expiry) : Prop :=
  ∀ key d, s.deadline key = some d → ⟨d, key, s.generation key⟩ ∈ entries

/-- The agenda is in order, and every deadline has its entry. -/
structure Indexed (s : Shard) : Prop where
  /-- The earliest deadline comes first. -/
  inOrder : InOrder s.agenda
  /-- Every deadline has its entry. -/
  lists : s.Lists s.agenda

theorem indexed_empty : empty.Indexed := by
  refine ⟨List.Pairwise.nil, fun key d h => ?_⟩
  have hnone : (∅ : Std.TreeMap Bytes Slot compare)[key]? = none := Std.TreeMap.getElem?_emptyc
  rw [deadline, empty, hnone] at h
  cases h

theorem mem_schedule {new : Expiry} : e ∈ schedule new entries ↔ e = new ∨ e ∈ entries := by
  induction entries with
  | nil => simp [schedule]
  | cons x rest ih =>
    rw [schedule]
    split
    · exact List.mem_cons
    · rw [List.mem_cons, ih, List.mem_cons]
      exact or_left_comm

theorem inOrder_schedule (h : InOrder entries) (new : Expiry) : InOrder (schedule new entries) := by
  induction entries with
  | nil => exact List.pairwise_singleton ..
  | cons x rest ih =>
    obtain ⟨hx, hrest⟩ := List.pairwise_cons.1 h
    rw [schedule]
    split
    · next hlt =>
      refine List.pairwise_cons.2 ⟨fun later hlater => ?_, h⟩
      rcases List.mem_cons.1 hlater with rfl | hlater
      · exact Int64.le_of_lt hlt
      · exact Int64.le_trans (Int64.le_of_lt hlt) (hx later hlater)
    · next hnot =>
      refine List.pairwise_cons.2 ⟨fun later hlater => ?_, ih hrest⟩
      rcases mem_schedule.1 hlater with rfl | hlater
      · exact Int64.not_lt.1 hnot
      · exact hx later hlater

/-- The agenda stays an index of the shard when one key changes and gets the entry that it needs. -/
theorem Indexed.change (h : s.Indexed) (key : Bytes) (horder : InOrder s'.agenda)
    (hkeeps : ∀ e ∈ s.agenda, e ∈ s'.agenda)
    (hother : ∀ k, key ≠ k → s'.deadline k = s.deadline k ∧ s'.generation k = s.generation k)
    (hself : ∀ d, s'.deadline key = some d → ⟨d, key, s'.generation key⟩ ∈ s'.agenda) :
    s'.Indexed := by
  refine ⟨horder, fun k d hd => ?_⟩
  by_cases hk : key = k
  · subst hk
    exact hself d hd
  · obtain ⟨hdeadline, hgeneration⟩ := hother k hk
    rw [hgeneration]
    exact hkeeps _ (h.lists k d (hdeadline ▸ hd))

theorem Indexed.erase (h : s.Indexed) (key : Bytes) : (s.erase key).Indexed := by
  refine h.change key h.inOrder (fun e he => he) (fun k hk => ?_) fun d hd => ?_
  · rw [deadline_erase, if_neg hk]
    exact ⟨rfl, generation_erase_of_ne s hk⟩
  · rw [deadline_erase, if_pos rfl] at hd
    cases hd

theorem Indexed.settle (h : s.Indexed) (now : Instant) (key : Bytes) :
    (s.settle now key).Indexed := by
  unfold Shard.settle
  split
  · exact h.erase key
  · exact h

/-- A slot without a deadline needs no entry, and its entries so far do no harm. -/
theorem Indexed.lift (h : s.Indexed) (key : Bytes) (hagenda : s'.agenda = s.agenda)
    (hself : s'.deadline key = none)
    (hother : ∀ k, key ≠ k → s'.deadline k = s.deadline k ∧ s'.generation k = s.generation k) :
    s'.Indexed := by
  refine h.change key (hagenda ▸ h.inOrder) (fun e he => hagenda ▸ he) hother fun d hd => ?_
  rw [hself] at hd
  cases hd

theorem Indexed.commit (h : s.Indexed) (key : Bytes) (record : Record) (retention : Retention)
    (due : Instant) : (s.commit key record retention due).Indexed := by
  cases retention with
  | keep =>
    refine ⟨h.inOrder, fun k d hd => h.lists k d ?_⟩
    rw [Shard.commit, deadline_put] at hd
    split at hd
    · next hk => exact hk ▸ hd
    · exact hd
  | arm =>
    refine h.change key (inOrder_schedule h.inOrder _)
      (fun e he => mem_schedule.2 (.inr he)) (fun k hk => ⟨?_, ?_⟩) fun d hd => ?_
    · exact (deadline_put ..).trans (if_neg hk)
    · exact (generation_renew ..).trans (if_neg hk)
    · have hdue : some due = some d := ((deadline_put ..).trans (if_pos rfl)).symm.trans hd
      cases hdue
      exact mem_schedule.2 (.inl rfl)
  | clear =>
    simp only [Shard.commit]
    split
    · refine h.lift key rfl ((deadline_put ..).trans (if_pos rfl)) fun k hk => ⟨?_, ?_⟩
      · exact (deadline_put ..).trans (if_neg hk)
      · exact (generation_renew ..).trans (if_neg hk)
    · refine h.lift key rfl ((deadline_put ..).trans (if_pos rfl)) fun k hk => ⟨?_, rfl⟩
      exact (deadline_put ..).trans (if_neg hk)

theorem Indexed.overwrite (h : s.Indexed) (key : Bytes) (fields : Fields) :
    (s.overwrite key fields).Indexed := by
  refine h.lift key rfl ((deadline_put ..).trans (if_pos rfl)) fun k hk => ⟨?_, ?_⟩
  · exact (deadline_put ..).trans (if_neg hk)
  · exact (generation_renew ..).trans (if_neg hk)

/-! ### Lapsed slots -/

/-- The keys whose slots have lapsed. -/
def lapsedKeys (s : Shard) (now : Instant) : List Bytes := s.slots.keys.filter (s.isLapsed now)

theorem isSome_of_isLapsed (h : s.isLapsed now key = true) : s.slots[key]?.isSome := by
  unfold isLapsed at h
  cases hs : s.slots[key]? with
  | none => rw [hs] at h; cases h
  | some slot => rfl

theorem mem_lapsedKeys : key ∈ s.lapsedKeys now ↔ s.isLapsed now key = true := by
  rw [lapsedKeys, List.mem_filter, Std.TreeMap.mem_keys, and_iff_right_iff_imp]
  intro h
  exact Std.TreeMap.isSome_getElem?_iff_mem.1 (isSome_of_isLapsed h)

theorem nodup_lapsedKeys (s : Shard) (now : Instant) : (s.lapsedKeys now).Nodup :=
  Std.TreeMap.nodup_keys.filter _

/-- Dropping a lapsed slot makes one lapsed slot fewer. -/
theorem length_lapsedKeys_erase (h : s.isLapsed now key = true) :
    (s.lapsedKeys now).length = ((s.erase key).lapsedKeys now).length + 1 := by
  have hmem : key ∈ s.lapsedKeys now := mem_lapsedKeys.2 h
  have hperm : ((s.erase key).lapsedKeys now).Perm ((s.lapsedKeys now).erase key) := by
    refine (List.perm_ext_iff_of_nodup (nodup_lapsedKeys ..)
      ((nodup_lapsedKeys s now).erase key)).2 fun k => ?_
    rw [mem_lapsedKeys, (nodup_lapsedKeys s now).mem_erase_iff, mem_lapsedKeys]
    by_cases hk : key = k
    · subst hk
      simp [isLapsed, getElem?_erase]
    · rw [isLapsed_erase_of_ne s hk]
      exact (and_iff_right (Ne.symm hk)).symm
  rw [hperm.length_eq, List.length_erase_of_mem hmem]
  exact (Nat.sub_add_cancel (List.length_pos_of_mem hmem)).symm

theorem size_erase (h : s.slots[key]?.isSome) : s.size = (s.erase key).size + 1 := by
  have hmem : key ∈ s.slots := Std.TreeMap.isSome_getElem?_iff_mem.1 h
  have hpos : 0 < s.slots.size := by
    rw [← Std.TreeMap.length_keys]
    exact List.length_pos_of_mem (Std.TreeMap.mem_keys.2 hmem)
  simp only [size, erase, Std.TreeMap.size_erase, Std.TreeMap.contains_iff_mem, if_pos hmem]
  omega

/-! ### Stray entries -/

/-- The entry is taken for that of a slot which has not lapsed.  If it is due, it was left behind by
an earlier slot of the key, and the generation of the key has come to be the same again. -/
def isStray (s : Shard) (now : Instant) (e : Expiry) : Bool :=
  s.slots[e.key]?.isSome && s.generation e.key == e.generation && !s.isLapsed now e.key

theorem isStray_of_none (h : s.slots[e.key]? = none) : s.isStray now e = false := by
  simp [isStray, h]

theorem isStray_of_ne (h : s.generation e.key ≠ e.generation) : s.isStray now e = false := by
  simp [isStray, h]

theorem isStray_of_lapsed (h : s.isLapsed now e.key = true) : s.isStray now e = false := by
  simp [isStray, h]

/-- Dropping a lapsed slot leads no entry astray. -/
theorem isStray_erase (h : s.isLapsed now key = true) (e : Expiry) :
    (s.erase key).isStray now e = s.isStray now e := by
  by_cases hk : key = e.key
  · subst hk
    rw [isStray_of_lapsed h, isStray_of_none]
    rw [getElem?_erase, if_pos rfl]
  · unfold isStray
    rw [getElem?_erase, if_neg hk, generation_erase_of_ne s hk, isLapsed_erase_of_ne s hk]

/-! ### Sweeping -/

/-- What working off the entries leads to, if at most `budget` of them may concern a slot: the shard
that is left, and the number of slots dropped. -/
structure WorkedOff (s : Shard) (now : Instant) (budget : Nat) (entries : List Expiry)
    (left : Shard) (dropped : Nat) : Prop where
  /-- The entries are worked off from the front, and each that was is due.  Dropped slots and stray
  entries use up the budget; if that is not all of it, all that is due was worked off. -/
  front : ∃ worked, entries = worked ++ left.agenda ∧ (∀ e ∈ worked, e.deadline ≤ now) ∧
    dropped + worked.countP (s.isStray now) ≤ budget ∧
    (dropped + worked.countP (s.isStray now) = budget ∨ ∀ e ∈ left.agenda, now < e.deadline)
  /-- What is left lists every deadline. -/
  lists : left.Lists left.agenda
  /-- As many slots are gone as were dropped. -/
  size_eq : s.size = left.size + dropped
  /-- They had lapsed. -/
  lapsed_eq : (s.lapsedKeys now).length = (left.lapsedKeys now).length + dropped
  /-- Other keys keep their generation. -/
  generation_eq : ∀ k, s.isLapsed now k = false → left.generation k = s.generation k

/-- An entry that neither speaks for a slot nor costs anything may come before the others. -/
theorem WorkedOff.cons {left : Shard} {dropped : Nat}
    (h : WorkedOff s now budget entries left dropped) (hdue : e.deadline ≤ now)
    (hstray : s.isStray now e = false) :
    WorkedOff s now budget (e :: entries) left dropped := by
  obtain ⟨worked, hworked, hall, hspent⟩ := h.front
  refine ⟨⟨e :: worked, by rw [hworked]; rfl, ?_, ?_⟩, h.lists, h.size_eq, h.lapsed_eq,
    h.generation_eq⟩
  · exact List.forall_mem_cons.2 ⟨hdue, hall⟩
  · rw [List.countP_cons_of_neg (by simp [hstray])]
    exact hspent

/-- A stray entry may come before the others and costs one. -/
theorem WorkedOff.consStray {left : Shard} {dropped : Nat}
    (h : WorkedOff s now budget entries left dropped) (hdue : e.deadline ≤ now)
    (hstray : s.isStray now e = true) :
    WorkedOff s now (budget + 1) (e :: entries) left dropped := by
  obtain ⟨worked, hworked, hall, hle, hend⟩ := h.front
  refine ⟨⟨e :: worked, by rw [hworked]; rfl, ?_, ?_⟩, h.lists, h.size_eq, h.lapsed_eq,
    h.generation_eq⟩
  · exact List.forall_mem_cons.2 ⟨hdue, hall⟩
  · rw [List.countP_cons_of_pos hstray]
    exact ⟨by omega, hend.imp_left fun hall => by omega⟩

/-- An entry whose slot has lapsed may come before the others, drops the slot and costs one. -/
theorem WorkedOff.consLapsed {left : Shard} {dropped : Nat}
    (h : WorkedOff (s.erase e.key) now budget entries left dropped) (hdue : e.deadline ≤ now)
    (hlapsed : s.isLapsed now e.key = true) :
    WorkedOff s now (budget + 1) (e :: entries) left (dropped + 1) := by
  obtain ⟨worked, hworked, hall, hle, hend⟩ := h.front
  have hsize := size_erase (isSome_of_isLapsed hlapsed)
  have hlength := length_lapsedKeys_erase hlapsed
  have hsame : (s.erase e.key).isStray now = s.isStray now := funext (isStray_erase hlapsed)
  rw [hsame] at hle hend
  refine ⟨⟨e :: worked, by rw [hworked]; rfl, ?_, ?_⟩, h.lists, ?_, ?_, fun k hk => ?_⟩
  · exact List.forall_mem_cons.2 ⟨hdue, hall⟩
  · rw [List.countP_cons_of_neg (by simp [isStray_of_lapsed hlapsed])]
    exact ⟨by omega, hend.imp_left fun hall => by omega⟩
  · rw [hsize, h.size_eq, Nat.add_assoc]
  · rw [hlength, h.lapsed_eq, Nat.add_assoc]
  · have hne : e.key ≠ k := by
      rintro rfl
      rw [hlapsed] at hk
      cases hk
    rw [h.generation_eq k (by rw [isLapsed_erase_of_ne s hne, hk]), generation_erase_of_ne s hne]

/-- An entry that is not the one of a deadline is not missed. -/
theorem Lists.tail (h : s.Lists (e :: entries))
    (hother : s.deadline e.key = some e.deadline → s.generation e.key ≠ e.generation) :
    s.Lists entries := by
  intro key d hd
  rcases List.mem_cons.1 (h key d hd) with rfl | hmem
  · exact absurd rfl (hother hd)
  · exact hmem

theorem Lists.erase (h : s.Lists (e :: entries)) : (s.erase e.key).Lists entries := by
  intro key d hd
  rw [deadline_erase] at hd
  split at hd
  · cases hd
  · next hk =>
    rw [generation_erase_of_ne s hk]
    rcases List.mem_cons.1 (h key d hd) with rfl | hmem
    · exact absurd rfl hk
    · exact hmem

theorem workedOff_sweepEntries (hlists : s.Lists entries) (horder : InOrder entries) (now : Instant)
    (budget dropped : Nat) :
    ∃ n, (sweepEntries now entries budget s dropped).2 = dropped + n ∧
      WorkedOff s now budget entries (sweepEntries now entries budget s dropped).1 n := by
  -- The induction is on the agenda.  What lists the deadlines is always the part still to be looked
  -- at, together with slots that are still there.
  induction entries generalizing budget s dropped with
  | nil =>
    exact ⟨0, rfl, ⟨[], rfl, by simp, by simp, .inr fun _ he => by cases he⟩, hlists, rfl, rfl,
      fun _ _ => rfl⟩
  | cons e rest ih =>
    obtain ⟨hfirst, hrest⟩ := List.pairwise_cons.1 horder
    rw [sweepEntries]
    split
    · next hstop =>
      refine ⟨0, rfl, ⟨[], rfl, by simp, by simp, ?_⟩, hlists, rfl, rfl, fun _ _ => rfl⟩
      rcases hstop with hspent | hearly
      · exact .inl hspent.symm
      · -- The first entry is not due, so none is.
        refine .inr fun e' he' => ?_
        rcases List.mem_cons.1 he' with rfl | he'
        · exact hearly
        · exact Int64.lt_of_lt_of_le hearly (hfirst e' he')
    · next hgo =>
      obtain ⟨hbudget, hdue⟩ := not_or.1 hgo
      replace hdue : e.deadline ≤ now := Int64.not_lt.1 hdue
      obtain ⟨budget, rfl⟩ := Nat.exists_eq_succ_of_ne_zero hbudget
      split
      · next hnone =>
        have htail : s.Lists rest := hlists.tail fun hd => by
          rw [deadline, hnone] at hd
          cases hd
        obtain ⟨n, hn, hworked⟩ := ih htail hrest (budget + 1) dropped
        exact ⟨n, hn, hworked.cons hdue (isStray_of_none hnone)⟩
      · next slot hslot =>
        split
        · next hold =>
          obtain ⟨n, hn, hworked⟩ := ih (hlists.tail fun _ => hold) hrest (budget + 1) dropped
          exact ⟨n, hn, hworked.cons hdue (isStray_of_ne hold)⟩
        · next hsame =>
          have hlapsed : s.isLapsed now e.key = slot.isLapsed now := by rw [isLapsed, hslot]
          split
          · next hl =>
            obtain ⟨n, hn, hworked⟩ := ih hlists.erase hrest budget (dropped + 1)
            refine ⟨n + 1, ?_, hworked.consLapsed hdue (hlapsed.trans hl)⟩
            exact hn.trans (Nat.add_right_comm dropped 1 n)
          · next hl =>
            have hnot : s.isLapsed now e.key = false := by rw [hlapsed]; simpa using hl
            have htail : s.Lists rest := hlists.tail fun hd => by
              have := (isLapsed_iff s now e.key).2 ⟨_, hd, hdue⟩
              rw [hnot] at this
              cases this
            have hstray : s.isStray now e = true := by
              simp [isStray, hslot, hnot, not_not.1 hsame]
            obtain ⟨n, hn, hworked⟩ := ih htail hrest budget dropped
            exact ⟨n, hn, hworked.consStray hdue hstray⟩

theorem lapsedKeys_eq_nil (hlists : s.Lists s.agenda) (h : ∀ e ∈ s.agenda, now < e.deadline) :
    s.lapsedKeys now = [] := by
  refine List.eq_nil_iff_forall_not_mem.2 fun key hkey => ?_
  obtain ⟨d, hd, hdue⟩ := (isLapsed_iff s now key).1 (mem_lapsedKeys.1 hkey)
  exact absurd (h _ (hlists key d hd)) (Int64.not_lt.2 hdue)

/-- **A sweep drops as many lapsed slots as it may**, less one for each stray entry among those that
it works off. -/
theorem sweep_spec (h : s.Indexed) (now : Instant) (budget : Nat) :
    ∃ worked, s.agenda = worked ++ (s.sweep now budget).1.agenda ∧
      (∀ e ∈ worked, e.deadline ≤ now) ∧
      (s.sweep now budget).2 =
        min (budget - worked.countP (s.isStray now)) (s.lapsedKeys now).length ∧
      s.size = (s.sweep now budget).1.size + (s.sweep now budget).2 := by
  obtain ⟨n, hn, hworkedOff⟩ := workedOff_sweepEntries h.lists h.inOrder now budget 0
  obtain rfl : (s.sweep now budget).2 = n := hn.trans (Nat.zero_add n)
  obtain ⟨worked, hworked, hdue, hle, hend⟩ := hworkedOff.front
  refine ⟨worked, hworked, hdue, ?_, hworkedOff.size_eq⟩
  have hlapsed := hworkedOff.lapsed_eq
  rcases hend with hspent | hdone
  · rw [sweep] at hlapsed ⊢
    omega
  · -- Nothing on the agenda is due any more, so that no slot has lapsed.
    rw [lapsedKeys_eq_nil hworkedOff.lists hdone, List.length_nil] at hlapsed
    rw [sweep] at hlapsed ⊢
    omega

theorem Indexed.sweep (h : s.Indexed) (now : Instant) (budget : Nat) :
    (s.sweep now budget).1.Indexed := by
  obtain ⟨n, -, hworkedOff⟩ := workedOff_sweepEntries h.lists h.inOrder now budget 0
  obtain ⟨worked, hworked, -⟩ := hworkedOff.front
  have horder : InOrder (worked ++ (s.sweep now budget).1.agenda) := hworked ▸ h.inOrder
  exact ⟨(List.pairwise_append.1 horder).2.1, hworkedOff.lists⟩

/-! ### One event -/

/-- All that one event at the clock reading `now` can do to a shard. -/
inductive Turn (now : Instant) (s : Shard) : Shard → Prop where
  /-- The event concerns other shards. -/
  | same : Turn now s s
  /-- A key was looked up. -/
  | settle (key : Bytes) : Turn now s (s.settle now key)
  /-- An operation on a key was accepted. -/
  | commit (key : Bytes) (record : Record) (retention : Retention) (due : Instant) :
    Turn now s ((s.settle now key).commit key record retention due)
  /-- Fields were put in the place of those of a key. -/
  | overwrite (key : Bytes) (fields : Fields) : Turn now s (s.overwrite key fields)
  /-- The shard was swept. -/
  | sweep (budget : Nat) : Turn now s (s.sweep now budget).1

theorem Turn.indexed (h : Turn now s s') (hs : s.Indexed) : s'.Indexed := by
  cases h with
  | same => exact hs
  | settle key => exact hs.settle now key
  | commit key record retention due => exact (hs.settle now key).commit key record retention due
  | overwrite key fields => exact hs.overwrite key fields
  | sweep budget => exact hs.sweep now budget

/-- The entries of a key that have its generation are those of its deadline. -/
def Faithful (s : Shard) (key : Bytes) : Prop :=
  ∀ e ∈ s.agenda, e.key = key → e.generation ≤ s.generation key ∧
    (e.generation = s.generation key → s.deadline key = some e.deadline)

theorem faithful_empty (key : Bytes) : empty.Faithful key := by
  rintro e ⟨⟩

/-- A due entry of such a key is no stray one. -/
theorem Faithful.isStray_eq (h : s.Faithful e.key) (he : e ∈ s.agenda) (hdue : e.deadline ≤ now) :
    s.isStray now e = false := by
  by_cases hsame : s.generation e.key = e.generation
  · have hdeadline := (h e he rfl).2 hsame.symm
    exact isStray_of_lapsed ((isLapsed_iff s now e.key).2 ⟨_, hdeadline, hdue⟩)
  · exact isStray_of_ne hsame

namespace Faithful

/-- A key is not concerned if it keeps its deadline and its generation and gets no entry. -/
theorem frame (h : s.Faithful key) (hdeadline : s'.deadline key = s.deadline key)
    (hgeneration : s'.generation key = s.generation key)
    (hagenda : ∀ e ∈ s'.agenda, e.key = key → e ∈ s.agenda) : s'.Faithful key := by
  intro e he hk
  rw [hdeadline, hgeneration]
  exact h e (hagenda e he hk) hk

/-- All entries so far are out of date once the key has a new generation. -/
theorem renewed (h : s.Faithful key) (hgeneration : s'.generation key = s.generation key + 1)
    (hagenda : ∀ e ∈ s'.agenda, e.key = key → e ∈ s.agenda ∨
      e.generation = s.generation key + 1 ∧ s'.deadline key = some e.deadline) :
    s'.Faithful key := by
  intro e he hk
  rw [hgeneration]
  rcases hagenda e he hk with hold | ⟨hnew, hdeadline⟩
  · have hle := (h e hold hk).1
    exact ⟨by omega, fun heq => by omega⟩
  · exact ⟨Nat.le_of_eq hnew, fun _ => hdeadline⟩

theorem settle (h : s.Faithful key) (hl : s.isLapsed now key = false) (k : Bytes) :
    (s.settle now k).Faithful key := by
  unfold Shard.settle
  split
  · next hlapsed =>
    have hk : k ≠ key := by
      rintro rfl
      rw [hl] at hlapsed
      cases hlapsed
    exact h.frame (by rw [deadline_erase, if_neg hk]) (generation_erase_of_ne s hk)
      fun e he _ => he
  · exact h

theorem commit (h : s.Faithful key) (k : Bytes) (record : Record) (retention : Retention)
    (due : Instant) : (s.commit k record retention due).Faithful key := by
  by_cases hk : k = key
  · subst hk
    cases retention with
    | keep =>
      refine h.frame ?_ rfl fun e he _ => he
      exact (deadline_put ..).trans (if_pos rfl)
    | arm =>
      refine h.renewed ((generation_renew ..).trans (if_pos rfl)) fun e he _ => ?_
      rcases mem_schedule.1 he with rfl | he
      · exact .inr ⟨(generation_renew ..).trans (if_pos rfl),
          (deadline_put ..).trans (if_pos rfl)⟩
      · exact .inl he
    | clear =>
      simp only [Shard.commit]
      split
      · exact h.renewed ((generation_renew ..).trans (if_pos rfl)) fun e he _ => .inl he
      · next hnone =>
        -- There was no deadline, so that no entry has the generation of the key.
        intro e he hek
        obtain ⟨hle, hdeadline⟩ := h e he hek
        refine ⟨hle, fun heq => absurd ?_ hnone⟩
        rw [hdeadline heq]
        rfl
  · have hdeadline : (s.commit k record retention due).deadline key = s.deadline key := by
      unfold deadline
      rw [getElem?_commit, if_neg hk]
    cases retention with
    | keep => exact h.frame hdeadline rfl fun e he _ => he
    | arm =>
      refine h.frame hdeadline ((generation_renew ..).trans (if_neg hk)) fun e he hek => ?_
      rcases mem_schedule.1 he with rfl | he
      · exact absurd hek hk
      · exact he
    | clear =>
      simp only [Shard.commit] at hdeadline ⊢
      split at hdeadline
      · next hsome =>
        rw [if_pos hsome]
        exact h.frame hdeadline ((generation_renew ..).trans (if_neg hk)) fun e he _ => he
      · next hnone =>
        rw [if_neg hnone]
        exact h.frame hdeadline rfl fun e he _ => he

theorem overwrite (h : s.Faithful key) (k : Bytes) (fields : Fields) :
    (s.overwrite k fields).Faithful key := by
  by_cases hk : k = key
  · subst hk
    exact h.renewed ((generation_renew ..).trans (if_pos rfl)) fun e he _ => .inl he
  · exact h.frame ((deadline_put ..).trans (if_neg hk)) ((generation_renew ..).trans (if_neg hk))
      fun e he _ => he

theorem sweep (h : s.Faithful key) (hs : s.Indexed) (hl : s.isLapsed now key = false)
    (budget : Nat) : (s.sweep now budget).1.Faithful key := by
  obtain ⟨n, -, hworkedOff⟩ := workedOff_sweepEntries hs.lists hs.inOrder now budget 0
  obtain ⟨worked, hworked, -⟩ := hworkedOff.front
  refine h.frame ?_ (hworkedOff.generation_eq key hl) fun e he _ => ?_
  · rcases sweep_cases s now budget key with hsame | ⟨-, hlapsed, -⟩
    · rw [deadline, hsame, deadline]
    · rw [hl] at hlapsed
      cases hlapsed
  · rw [hworked]
    exact List.mem_append_right _ he

end Faithful

/-- **As long as a key does not lapse, none of its entries goes astray.** -/
theorem Turn.faithful (h : Turn now s s') (hs : s.Indexed) (hl : s.isLapsed now key = false)
    (hf : s.Faithful key) : s'.Faithful key := by
  cases h with
  | same => exact hf
  | settle k => exact hf.settle hl k
  | commit k record retention due => exact (hf.settle hl k).commit k record retention due
  | overwrite k fields => exact hf.overwrite k fields
  | sweep budget => exact hf.sweep hs hl budget

end Shard

end CoherentCache
