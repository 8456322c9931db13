import CoherentCache.Proofs.Pipeline.Evidence
import CoherentCache.Proofs.Pipeline.Order
import Mathlib.Data.List.Basic

/-!
# Reads that race updates

A row that was read from the source while an update was under way must not be served once the update
has invalidated its key.  The pipeline has only the order of its clock readings to see to that.

The history of a run on a site is lawful, and what is stored for every key is borne out by it, as
long as the readings of the clock increase and no key expires.  The invariant is carried along the
sequence that a run comes down to (`Pipeline.Course.leads`): one lemma for a reading of the clock,
one for an operation, one for keys that are invalidated with the newest timestamp.  So a value that
is served after an update was set with a timestamp that was read after it.  No two readings are the
same, and the history is orderly (`Pipeline.Course.keepsOrder`), so this is the reading of the call
that cached the value, and that call has asked the source since.

* `Recorded.Sound` : the invariant.
* `Recorded.sound_of_reached` : it holds in every run.
* `Pipeline.served_after_update` : **a row served after an update was fetched after it.**
-/

namespace CoherentCache

open Cache (Ask)
open Happening (Unspent Timely Sourced Lawful Updating Orderly readings)

variable {ρ : Type}

namespace Recorded

/-! ### Sites -/

/-- A site where nothing has happened. -/
def fresh (config : MemoryStore.Config) (now : Instant)
    (schedule : Option (List (Option StoreError))) (timepiece : Timepiece) : Recorded Site :=
  ⟨⟨⟨⟨.empty config, now⟩, schedule⟩, timepiece⟩, []⟩

/-- The in-memory store at a recorded site. -/
def memory (r : Recorded Site) : MemoryStore := r.inner.store.inner.store

/-- What the clock of the store shows. -/
def now (r : Recorded Site) : Instant := r.inner.store.inner.now

/-- Slots that were dropped because their deadline had passed. -/
def expired (r : Recorded Site) : Nat := r.memory.counters.expirations

variable {r r' r'' : Recorded Site} {clock : Site → Timestamp × Site} {taken : List Timestamp}
  {key : Bytes} {op : Operation} {ts : Timestamp}

/-- The schedule makes an operation fail, or it reaches the in-memory store. -/
theorem run_execute (r : Recorded Site) (key : Bytes) (op : Operation) :
    (∃ e, (Ask.run r (.execute key op)).history = .executed key op (.error e) :: r.history ∧
      (Ask.run r (.execute key op)).memory = r.memory) ∨
    ((Ask.run r (.execute key op)).history =
        .executed key op (r.memory.execute r.now key op).1 :: r.history ∧
      (Ask.run r (.execute key op)).memory = (r.memory.execute r.now key op).2) := by
  obtain ⟨⟨⟨store, schedule⟩, timepiece⟩, history⟩ := r
  rcases schedule with _ | _ | ⟨_ | e, rest⟩
  · exact Or.inr ⟨rfl, rfl⟩
  · exact Or.inr ⟨rfl, rfl⟩
  · exact Or.inr ⟨rfl, rfl⟩
  · exact Or.inl ⟨e, rfl, rfl⟩

theorem memory_inspect (r : Recorded Site) (key : Bytes) :
    (Ask.run r (.inspect key)).memory = (r.memory.inspect r.now key).2 := rfl

theorem memory_read (hclock : ∀ s, (clock s).2.store = s.store) (r : Recorded Site) :
    (r.read clock).2.memory = r.memory := by
  show (clock r.inner).2.store.inner.store = _
  rw [hclock]
  rfl

/-! ### Calm runs -/

/-- The readings of the clock increase, and no key has expired. -/
structure Calm (r : Recorded Site) : Prop where
  /-- Each reading is later than those before it. -/
  rising : (readings r.history).Pairwise fun newer older => older < newer
  /-- Nothing was dropped because of its deadline. -/
  expired_eq : r.expired = 0

/-- `r` may have come before `r'`. -/
structure Precedes (r r' : Recorded Site) : Prop where
  /-- The history went on. -/
  history : r.history <:+ r'.history
  /-- The count did not go back. -/
  expired_le : r.expired ≤ r'.expired

theorem Precedes.trans (h : Precedes r r') (h' : Precedes r' r'') : Precedes r r'' :=
  ⟨h.history.trans h'.history, Nat.le_trans h.expired_le h'.expired_le⟩

/-- A run that is calm was calm all along. -/
theorem Calm.of_precedes (h : Calm r') (hp : Precedes r r') : Calm r where
  rising := h.rising.sublist (hp.history.filterMap _).sublist
  expired_eq := Nat.le_zero.1 (h.expired_eq ▸ hp.expired_le)

theorem precedes_run (r : Recorded Site) (ask : Ask) : Precedes r (ask.run r) := by
  cases ask with
  | execute key op =>
    rcases run_execute r key op with ⟨e, hhistory, hmemory⟩ | ⟨hhistory, hmemory⟩
    · refine ⟨hhistory ▸ List.suffix_cons .., ?_⟩
      exact Nat.le_of_eq (congrArg (·.counters.expirations) hmemory.symm)
    · refine ⟨hhistory ▸ List.suffix_cons .., ?_⟩
      unfold expired
      rw [hmemory, MemoryStore.expirations_execute]
      omega
  | inspect key =>
    refine ⟨List.suffix_refl _, ?_⟩
    unfold expired
    rw [memory_inspect, MemoryStore.expirations_inspect]
    omega

theorem precedes_foldl (r : Recorded Site) (asks : List Ask) :
    Precedes r (asks.foldl Ask.run r) := by
  induction asks generalizing r with
  | nil => exact ⟨List.suffix_refl _, Nat.le_refl _⟩
  | cons ask rest ih => exact (precedes_run r ask).trans (ih (ask.run r))

theorem precedes_read (hclock : ∀ s, (clock s).2.store = s.store) (r : Recorded Site) :
    Precedes r (r.read clock).2 := by
  refine ⟨List.suffix_cons .., ?_⟩
  exact Nat.le_of_eq (congrArg (·.counters.expirations) (memory_read hclock r).symm)

theorem precedes_mark (r : Recorded Site) (m : Mark) : Precedes r (r.mark m) :=
  ⟨List.suffix_cons .., Nat.le_refl _⟩

theorem precedes_sweep (r : Recorded Site) :
    Precedes r (MemoryBacked.mapMemory MemoryStore.Clocked.sweep r) :=
  ⟨List.suffix_refl _, Nat.le_add_right ..⟩

theorem Calm.lt_newest (h : Calm (r.read clock).2) (hts : .reading ts ∈ r.history) :
    ts < (r.read clock).1 :=
  (List.pairwise_cons.1 h.rising).1 ts (Happening.mem_readings.2 hts)

/-! ### The invariant -/

/-- The history is lawful and bears out what is stored, and the timestamps that were taken for rows
may still be used. -/
structure Sound (taken : List Timestamp) (r : Recorded Site) : Prop where
  /-- The store has all of its shards. -/
  wellFormed : r.memory.WellFormed
  /-- What is stored for a key is borne out. -/
  backed : ∀ key, Slot.Backed r.history key (r.memory.slot? key)
  /-- The history is lawful. -/
  lawful : Lawful r.history
  /-- Nothing was invalidated with a timestamp that was taken for rows. -/
  unspent : ∀ ts ∈ taken, Unspent r.history ts

theorem sound_fresh (config : MemoryStore.Config) (now : Instant)
    (schedule : Option (List (Option StoreError))) (timepiece : Timepiece) :
    Sound [] (fresh config now schedule timepiece) where
  wellFormed := MemoryStore.wellFormed_empty config
  backed key := by
    show Slot.Backed [] key ((MemoryStore.empty config).slot? key)
    rw [MemoryStore.slot?_empty]
    exact Slot.backed_none key
  lawful := trivial
  unspent _ h := by cases h

theorem Sound.of_slots (h : Sound taken r) (hhistory : r'.history = r.history)
    (hwf : r'.memory.WellFormed) (hslots : ∀ key, r'.memory.slot? key = r.memory.slot? key) :
    Sound taken r' where
  wellFormed := hwf
  backed key := by rw [hhistory, hslots]; exact h.backed key
  lawful := hhistory ▸ h.lawful
  unspent := hhistory ▸ h.unspent

theorem Sound.record (h : Sound taken r) {result : Except StoreError Answer}
    (hhistory : r'.history = .executed key op result :: r.history) (htimely : Timely r.history op)
    (hfree : ∀ ts ∈ taken, op ≠ .invalidate ts) (hsourced : Sourced r.history key result)
    (hwf : r'.memory.WellFormed) (hbacked : ∀ k, Slot.Backed r'.history k (r'.memory.slot? k)) :
    Sound taken r' where
  wellFormed := hwf
  backed := hbacked
  lawful := hhistory ▸ ⟨htimely, hsourced, h.lawful⟩
  unspent ts hts := by
    rw [hhistory]
    refine (h.unspent ts hts).cons ?_
    rintro k result' he
    cases he
    exact hfree ts hts rfl

theorem Sound.mark (h : Sound taken r) (m : Mark) : Sound taken (r.mark m) where
  wellFormed := h.wellFormed
  backed key := (h.backed key).cons fun ts told he => by cases he
  lawful := h.lawful
  unspent ts hts := (h.unspent ts hts).cons fun key result he => by cases he

/-- **An operation with a timely timestamp keeps the invariant** while no key expires. -/
theorem Sound.execute (h : Sound taken r) (htimely : Timely r.history op)
    (hfree : ∀ ts ∈ taken, op ≠ .invalidate ts)
    (hkept : (Ask.run r (.execute key op)).expired = 0) :
    Sound taken (Ask.run r (.execute key op)) := by
  rcases run_execute r key op with ⟨e, hhistory, hmemory⟩ | ⟨hhistory, hmemory⟩
  · refine h.record hhistory htimely hfree (fun answer value heq => by cases heq)
      (hmemory ▸ h.wellFormed) fun k => ?_
    rw [hhistory, hmemory]
    exact (h.backed k).cons fun ts told he => by cases he
  · have hlive : r.memory.live? r.now key = r.memory.slot? key := by
      unfold expired at hkept
      rw [hmemory, MemoryStore.expirations_execute] at hkept
      exact MemoryStore.live?_of_not_counted hkept
    obtain ⟨hanswer, hupdated⟩ := MemoryStore.execute_eq h.wellFormed r.now key op
    rw [hlive] at hanswer hupdated
    -- The slot of the key is borne out by the longer history, those of other keys by either.
    obtain ⟨hsourced, hbacked⟩ := Slot.operate_backed (h.backed key)
      (r.now.addMillis r.memory.config.retention) op
    rw [← hanswer] at hsourced hbacked
    refine h.record hhistory htimely hfree hsourced (hmemory ▸ hupdated.wellFormed) fun k => ?_
    rw [hhistory, hmemory]
    by_cases hk : key = k
    · subst hk
      rw [hupdated.self]
      exact hbacked
    · rw [hupdated.other hk]
      refine (h.backed k).cons fun ts told he => ?_
      injection he with hkey
      exact hk hkey

theorem Sound.inspect (h : Sound taken r) (hkept : (Ask.run r (.inspect key)).expired = 0) :
    Sound taken (Ask.run r (.inspect key)) := by
  have hlive : r.memory.live? r.now key = r.memory.slot? key := by
    unfold expired at hkept
    rw [memory_inspect, MemoryStore.expirations_inspect] at hkept
    exact MemoryStore.live?_of_not_counted hkept
  obtain ⟨-, hupdated⟩ := MemoryStore.inspect_eq h.wellFormed r.now key
  rw [hlive] at hupdated
  refine h.of_slots rfl (memory_inspect r key ▸ hupdated.wellFormed) fun k => ?_
  rw [memory_inspect, hupdated.slot?_eq]
  split
  · next hk => rw [hk]
  · rfl

theorem Sound.sweep (h : Sound taken r)
    (hkept : (MemoryBacked.mapMemory MemoryStore.Clocked.sweep r).expired = 0) :
    Sound taken (MemoryBacked.mapMemory MemoryStore.Clocked.sweep r) := by
  have hswept : r.memory.counters.expirations + r.memory.swept r.now = 0 :=
    (MemoryStore.expirations_sweep r.memory r.now).symm.trans hkept
  have hnone : r.memory.swept r.now = 0 := (Nat.add_eq_zero_iff.1 hswept).2
  exact h.of_slots rfl (MemoryStore.wellFormed_sweep h.wellFormed r.now)
    (MemoryStore.slot?_sweep_of_swept_eq_zero h.wellFormed hnone)

/-- A timestamp that is read now may be taken for rows. -/
theorem Sound.read (h : Sound taken r) (hclock : ∀ s, (clock s).2.store = s.store)
    (hcalm : Calm (r.read clock).2) : Sound ((r.read clock).1 :: taken) (r.read clock).2 where
  wellFormed := by rw [memory_read hclock]; exact h.wellFormed
  backed key := by
    rw [memory_read hclock]
    exact (h.backed key).cons fun ts told he => by cases he
  lawful := h.lawful
  unspent ts hts := by
    rcases List.mem_cons.1 hts with rfl | hts
    · refine ⟨List.mem_cons_self .., fun key result hmem => ?_⟩
      rcases List.mem_cons.1 hmem with hmem | hmem
      · cases hmem
      · exact lt_irrefl _ (hcalm.lt_newest (h.lawful.reading_of_invalidate hmem))
    · exact (h.unspent ts hts).cons fun key result he => by cases he

theorem Sound.of_subset {fewer : List Timestamp} (h : Sound taken r) (hsub : fewer ⊆ taken) :
    Sound fewer r :=
  ⟨h.wellFormed, h.backed, h.lawful, fun ts hts => h.unspent ts (hsub hts)⟩

/-- Keys may be invalidated with a timestamp that is read now. -/
theorem Sound.timely_invalidate (h : Sound taken r) (hcalm : Calm (r.read clock).2) :
    Timely (r.read clock).2.history (.invalidate (r.read clock).1) ∧
      ∀ ts ∈ taken, Operation.invalidate (r.read clock).1 ≠ .invalidate ts := by
  refine ⟨⟨List.mem_cons_self .., fun earlier hmem => ?_, fun key value result hmem => ?_⟩,
    fun ts hts heq => ?_⟩
  · rcases List.mem_cons.1 hmem with hmem | hmem
    · cases hmem
      exact le_refl _
    · exact le_of_lt (hcalm.lt_newest hmem)
  · rcases List.mem_cons.1 hmem with hmem | hmem
    · cases hmem
    · exact lt_irrefl _ (hcalm.lt_newest (h.lawful.reading_of_set hmem))
  · obtain rfl := Operation.invalidate.inj heq
    exact lt_irrefl _ (hcalm.lt_newest (h.unspent _ hts).1)

/-- Keys that are invalidated with one timestamp keep the invariant, one after another. -/
theorem Sound.invalidate {keys : List Bytes} (h : Sound taken r)
    (htimely : Timely r.history (.invalidate ts))
    (hfree : ∀ t ∈ taken, Operation.invalidate ts ≠ .invalidate t)
    (hkept : ((keys.map fun key => Ask.execute key (.invalidate ts)).foldl Ask.run r).expired = 0) :
    Sound taken ((keys.map fun key => Ask.execute key (.invalidate ts)).foldl Ask.run r) := by
  induction keys generalizing r with
  | nil => exact h
  | cons key rest ih =>
    have hfirst : (Ask.run r (.execute key (.invalidate ts))).expired = 0 :=
      Nat.le_zero.1 (hkept ▸ (precedes_foldl _ _).expired_le)
    have hsound := h.execute htimely hfree hfirst
    refine ih hsound ?_ hkept
    -- The next key is as timely: nothing was read or set in between.
    rcases run_execute r key (.invalidate ts) with ⟨e, hhistory, -⟩ | ⟨hhistory, -⟩
    · rw [hhistory]; exact htimely.cons_invalidate
    · rw [hhistory]; exact htimely.cons_invalidate

/-- **The invariant holds in every calm run** in which only the pipeline writes. -/
theorem sound_of_reached {start : Recorded Site} (hstart : Sound [] start)
    (hclock : ∀ s, (clock s).2.store = s.store) (h : Reached clock start taken r)
    (hcalm : Calm r) : Sound taken r := by
  induction h with
  | start => exact hstart
  | mark m _ ih => exact (ih (hcalm.of_precedes (precedes_mark _ m))).mark m
  | take _ ih => exact (ih (hcalm.of_precedes (precedes_read hclock _))).read hclock hcalm
  | look ask hread _ ih =>
    have hsound := ih (hcalm.of_precedes (precedes_run _ ask))
    cases ask with
    | execute key op =>
      obtain rfl : op = .get := hread
      exact hsound.execute trivial (fun ts _ he => by cases he) hcalm.expired_eq
    | inspect key => exact hsound.inspect hcalm.expired_eq
  | set key value hts _ ih =>
    have hsound := ih (hcalm.of_precedes (precedes_run _ _))
    exact hsound.execute (hsound.unspent _ hts) (fun ts _ he => by cases he) hcalm.expired_eq
  | @invalidate taken r keys _ ih =>
    -- The reading comes first; it is newer than every timestamp that was taken for rows.
    have hread : Calm (r.read clock).2 := hcalm.of_precedes (precedes_foldl _ _)
    have hsound := ih (hread.of_precedes (precedes_read hclock r))
    obtain ⟨htimely, hfree⟩ := hsound.timely_invalidate hread
    exact ((hsound.read hclock hread).of_subset (List.subset_cons_self ..)).invalidate htimely hfree
      hcalm.expired_eq
  | sweep _ ih => exact (ih (hcalm.of_precedes (precedes_sweep _))).sweep hcalm.expired_eq
  | advance nanos _ ih =>
    have hsound := ih (hcalm.of_precedes ⟨List.suffix_refl _, Nat.le_refl _⟩)
    exact hsound.of_slots rfl hsound.wellFormed fun _ => rfl

end Recorded

/-! ### Rows that are served -/

namespace Happening

theorem exists_of_append_eq {left right newer rest : List Happening} {e : Happening}
    (h : left ++ right = newer ++ e :: rest) (he : e ∉ right) :
    ∃ older, left = newer ++ e :: older := by
  rcases List.append_eq_append_iff.1 h with ⟨between, -, hright⟩ | ⟨between, hleft, hrest⟩
  · exact absurd (hright ▸ by simp) he
  · cases between with
    | nil => exact absurd (show e ∈ right from (show e :: rest = right from hrest) ▸ by simp) he
    | cons e' older =>
      obtain rfl := (List.cons.inj hrest).1
      exact ⟨older, hleft⟩

/-- **A value that is served after an update was set after it**, with a timestamp that was read
after it. -/
theorem read_after_update {later between own rest : List Happening} {keys : List Bytes}
    {key value : Bytes} {change : Nat} {served : Answer}
    (h : Lawful (later ++ .executed key .get (.ok served) :: (between ++
      .marked (.updated keys) :: (own ++ .marked (.answered change (some [])) :: rest))))
    (hupdating : Updating keys (own ++ .marked (.answered change (some [])) :: rest))
    (hown : ∀ m, .marked m ∉ own) (hkey : key ∈ keys)
    (hinvalidated : ∀ ts e, .executed key (.invalidate ts) (.error e) ∉ own)
    (hvalue : served.value = some value) :
    ∃ ts newer middle older, between = newer ++
      .executed key (.set value ts) (.ok ⟨.accepted, none⟩) ::
        (middle ++ .reading ts :: older) := by
  obtain ⟨bound, invalidations, rfl, hinvalidates, hall⟩ := hupdating.own_eq hown
  obtain ⟨result, hresult⟩ := hall key hkey
  obtain ⟨told, rfl⟩ : ∃ told, result = .ok told := by
    rcases result with e | told
    · exact absurd (List.mem_append_left _ hresult) (hinvalidated bound e)
    · exact ⟨told, rfl⟩
  obtain ⟨after, earlier, rfl⟩ := List.append_of_mem hresult
  have hcut : Lawful (later ++ .executed key .get (.ok served) ::
      ((between ++ .marked (.updated keys) :: after) ++
        .executed key (.invalidate bound) (.ok told) ::
          (earlier ++ .reading bound :: .marked (.answered change (some [])) :: rest))) := by
    simpa using h
  obtain ⟨ts, newer, middle, older, hsplit⟩ := read_after_invalidation hcut hvalue
  -- What the update did after it had invalidated the key was to invalidate others.
  have hnot : .reading ts ∉ .marked (.updated keys) :: after := by
    intro hmem
    rcases List.mem_cons.1 hmem with hmem | hmem
    · cases hmem
    · exact hinvalidates _ (List.mem_append_left _ hmem)
  have hread : between ++ .marked (.updated keys) :: after =
      (newer ++ .executed key (.set value ts) (.ok ⟨.accepted, none⟩) :: middle) ++
        .reading ts :: older := by
    rw [hsplit]
    simp
  obtain ⟨older', hbetween⟩ := exists_of_append_eq hread hnot
  exact ⟨ts, newer, middle, older', hbetween.trans (by simp)⟩

end Happening

/-- No timestamp is read twice, and so a history can be cut at a reading in one way only. -/
theorem Recorded.Calm.cut_unique {r : Recorded Site} (hcalm : r.Calm)
    {later newer older newer' older' : List Happening} {ts : Timestamp}
    (hhistory : r.history = later ++ (newer ++ .reading ts :: older))
    (h : newer ++ .reading ts :: older = newer' ++ .reading ts :: older') :
    newer = newer' ∧ older = older' := by
  have hrising := hcalm.rising
  rw [hhistory, h, readings, List.filterMap_append, List.filterMap_append,
    List.filterMap_cons] at hrising
  obtain ⟨-, hcut, -⟩ := List.pairwise_append.1 hrising
  obtain ⟨-, holder, hnewer⟩ := List.pairwise_append.1 hcut
  have hnotNewer : .reading ts ∉ newer' := fun hmem =>
    lt_irrefl ts (hnewer ts (Happening.mem_readings.2 hmem) ts (List.mem_cons_self ..))
  have hnotOlder : .reading ts ∉ older' := fun hmem =>
    lt_irrefl ts ((List.pairwise_cons.1 holder).1 ts (Happening.mem_readings.2 hmem))
  obtain ⟨hn, -, ho⟩ := (List.append_cons_inj_of_notMem hnotNewer hnotOlder).1 h.symm
  exact ⟨hn.symm, ho.symm⟩

namespace Pipeline

/-- A value was set by the call that read its timestamp, and that call has asked the source
since. -/
theorem fetched_of_set {r : Recorded Site} (hcalm : r.Calm) (horderly : Orderly r.history)
    {later middle older : List Happening} {key value : Bytes} {ts : Timestamp}
    {result : Except StoreError Answer}
    (hhistory : r.history =
      later ++ .executed key (.set value ts) result :: (middle ++ .reading ts :: older)) :
    ∃ forms call sets during looks, value ∈ forms ∧
      middle = sets ++ .marked (.answered call (some forms)) ::
        (during ++ .marked (.asked call) :: looks) ∧
      call = (looks ++ .reading ts :: older).length ∧
      (∀ e ∈ sets, e.Caches forms ts) ∧ ∀ e ∈ looks, e.IsLook := by
  rw [hhistory] at horderly
  obtain ⟨begun, forms, ⟨call, sets, during, looks, hcall, hbefore, hsets, hlooks⟩, hvalue⟩ :=
    horderly.right.1
  -- The reading that the call made is the one that the set carries.
  have hcut : middle ++ .reading ts :: older = (sets ++ .marked (.answered call (some forms)) ::
      (during ++ .marked (.asked call) :: looks)) ++ .reading ts :: begun := by
    rw [hbefore]
    simp
  obtain ⟨hmiddle, holder⟩ := hcalm.cut_unique (hhistory.trans (List.append_cons ..)) hcut
  exact ⟨forms, call, sets, during, looks, hvalue, hmiddle, holder ▸ hcall, hsets, hlooks⟩

/-- **A row served after an update was fetched after it.**  Let calls be made on a site where
nothing has happened, one after another and nested in the callbacks of each other in any way, with
keys written by these calls only; let the readings of the clock increase and let no key expire.  Let
an update be over whose change of the source had returned and which has not failed to invalidate the
key, and let a row be served under the key later.  Then the row was cached in between by a call that
the source had answered it to, and in between that call had read the clock, looked keys up and asked
the source, in this order.  A read that returns the row was served it by one of its lookups, or else
the source answered it to that very read. -/
theorem served_after_update (policy : Policy Site ρ)
    (hclock : ∀ s, (policy.clock s).2.store = s.store) (config : MemoryStore.Config) (now : Instant)
    (schedule : Option (List (Option StoreError))) (timepiece : Timepiece)
    {p : Pipeline (Recorded Site)}
    (hcourse : Course policy (.ofStore (.fresh config now schedule timepiece)) p)
    (hcalm : p.store.Calm) {later between own rest : List Happening} {hit : Happening}
    {keys : List Bytes} {key : Bytes} {row : ρ} {change : Nat}
    (hhistory : p.store.history = later ++ hit :: (between ++ .marked (.updated keys) ::
      (own ++ .marked (.answered change (some [])) :: rest)))
    (hown : ∀ m, .marked m ∉ own) (hkey : key ∈ keys)
    (hinvalidated : ∀ ts e, .executed key (.invalidate ts) (.error e) ∉ own)
    (hserves : hit.Serves policy key row) :
    (∃ value ts forms call newer sets during looks older,
      policy.decode value = .ok row ∧ value ∈ forms ∧
      between = newer ++ .executed key (.set value ts) (.ok ⟨.accepted, none⟩) ::
        (sets ++ .marked (.answered call (some forms)) ::
          (during ++ .marked (.asked call) :: (looks ++ .reading ts :: older))) ∧
      call = (looks ++ .reading ts :: (older ++ .marked (.updated keys) ::
        (own ++ .marked (.answered change (some [])) :: rest))).length ∧
      (∀ e ∈ sets, e.Caches forms ts) ∧ ∀ e ∈ looks, e.IsLook) ∧
    (∀ q keep fetch, (q.readThrough policy.recorded key keep fetch).1 = .ok (some row) →
      let begun := q.beginRead policy.recorded key keep
      ServedSince policy q begun.2 key row ∨ ∃ rows, (fetch begun.2).1 = .ok (row :: rows)) ∧
    ∀ q keyOf keep fetch asked rows,
      (q.readThroughMany (policy.keyedBy keyOf).recorded asked keep fetch).1 = .ok rows →
      (key, some row) ∈ asked.zip rows →
      let begun := q.beginReadMany (policy.keyedBy keyOf).recorded asked keep
      ServedSince policy q begun.2 key row ∨
        ∃ ticket fetched, begun.1 = .waiting ticket ∧
          (fetch ticket.missing begun.2).1 = .ok fetched ∧
          fetched.find? (fun row => keyOf row = key) = some row := by
  refine ⟨?_, fun q keep fetch => readThrough_row,
    fun q keyOf keep fetch asked rows h hrow => readThroughMany_row h hrow⟩
  obtain ⟨more, -, hreached⟩ := hcourse.leads [] Recorded.Reached.start
  have hlawful : Lawful p.store.history := (Recorded.sound_of_reached
    (Recorded.sound_fresh config now schedule timepiece) hclock hreached hcalm).lawful
  obtain ⟨-, horderly⟩ := hcourse.keepsOrder trivial
  have hupdating : Updating keys (own ++ .marked (.answered change (some [])) :: rest) := by
    rw [hhistory] at horderly
    exact (Orderly.right (Orderly.right horderly).2).1
  -- The value was set with a timestamp that was read since then, and so by a call that began then.
  obtain ⟨answer, value, rfl, hvalue, hdecode⟩ := hserves
  obtain ⟨ts, newer, middle, older, rfl⟩ :=
    Happening.read_after_update (hhistory ▸ hlawful) hupdating hown hkey hinvalidated hvalue
  have hset : p.store.history = (later ++ .executed key .get (.ok answer) :: newer) ++
      .executed key (.set value ts) (.ok ⟨.accepted, none⟩) :: (middle ++ .reading ts :: (older ++
        .marked (.updated keys) :: (own ++ .marked (.answered change (some [])) :: rest))) := by
    rw [hhistory]
    simp
  obtain ⟨forms, call, sets, during, looks, hform, rfl, hcall, hsets, hlooks⟩ :=
    fetched_of_set hcalm horderly hset
  exact ⟨value, ts, forms, call, newer, sets, during, looks, older, hdecode, hform, by simp, hcall,
    hsets, hlooks⟩

/-- A source that answers with one row, after what happens meanwhile. -/
def answering (name : Bytes) (meanwhile : Pipeline (Recorded Site) → Pipeline (Recorded Site)) :
    Source (Recorded Site) (List Row) :=
  fun p => (.ok [⟨[49], name⟩], meanwhile p)

/-- An update of the key, with nothing else happening meanwhile. -/
def changing (p : Pipeline (Recorded Site)) : Pipeline (Recorded Site) :=
  (p.update (Row.policy true true).recorded [[1]]
    (Source.tracked (fun _ => []) fun q => (.ok (), q))).2.mark (.updated [[1]])

/-- The key is populated, and the source waits for an update of it. -/
def populating (p : Pipeline (Recorded Site)) : Pipeline (Recorded Site) :=
  (p.populate ((Row.policy true true).keyedBy fun _ => [1]).recorded
    ((answering [5] changing).tracked (List.map (Row.policy true true).encode))).2

/-- The key and another one are read together. -/
def readingBoth (p : Pipeline (Recorded Site)) : Pipeline (Recorded Site) :=
  (p.readThroughMany ((Row.policy true true).keyedBy fun _ => [1]).recorded [[1], [2]] true
    fun _ => (answering [6] id).tracked (List.map (Row.policy true true).encode)).2

/-- The key is read alone. -/
def readingOne (p : Pipeline (Recorded Site)) : Pipeline (Recorded Site) :=
  (p.readThrough (Row.policy true true).recorded [1] true
    ((answering [7] id).tracked (List.map (Row.policy true true).encode))).2

/-- One after another, on a site where nothing has happened. -/
def raced : Pipeline (Recorded Site) :=
  readingOne (readingBoth (populating (.ofStore (.fresh {} ⟨0⟩ none (.stepping 1)))))

/-- The row that was populated was refused, and the last read was served the one that the batched
read had cached. -/
theorem served_after_update_raced :
    let hit : Happening := .executed [1] .get (.ok ⟨.rejected, some [49, 124, 6]⟩)
    let between : List Happening :=
      [.reading ⟨4, 0⟩, .executed [1] (.set [49, 124, 6] ⟨3, 0⟩) (.ok ⟨.accepted, none⟩),
        .marked (.answered 12 (some [[49, 124, 6]])), .marked (.asked 12),
        .executed [2] .get (.ok ⟨.rejected, none⟩), .executed [1] .get (.ok ⟨.rejected, none⟩),
        .reading ⟨3, 0⟩, .executed [1] (.set [49, 124, 5] ⟨1, 0⟩) (.ok ⟨.rejected, none⟩),
        .marked (.answered 1 (some [[49, 124, 5]]))]
    let own : List Happening :=
      [.executed [1] (.invalidate ⟨2, 0⟩) (.ok ⟨.accepted, none⟩), .reading ⟨2, 0⟩]
    raced.store.history = hit :: (between ++ .marked (.updated [[1]]) ::
        (own ++ .marked (.answered 2 (some [])) ::
          [.marked (.asked 2), .marked (.asked 1), .reading ⟨1, 0⟩])) ∧
      ∃ value ts forms call newer sets during looks older,
        Row.decode value = .ok ⟨[49], [6]⟩ ∧ value ∈ forms ∧
        between = newer ++ .executed [1] (.set value ts) (.ok ⟨.accepted, none⟩) ::
          (sets ++ .marked (.answered call (some forms)) ::
            (during ++ .marked (.asked call) :: (looks ++ .reading ts :: older))) ∧
        (∀ e ∈ sets, e.Caches forms ts) ∧ ∀ e ∈ looks, e.IsLook := by
  intro hit between own
  have hpopulating (p) : Course (Row.policy true true) p (populating p) :=
    .populate p _ _ fun q => .update q [[1]] _ .idle
  have hboth (p) : Course (Row.policy true true) p (readingBoth p) :=
    .readThroughMany p _ [[1], [2]] true (fun _ => answering [6] id) fun _ => .idle
  have hone (p) : Course (Row.policy true true) p (readingOne p) :=
    .readThrough p [1] true (answering [7] id) .idle
  have hcourse : Course (Row.policy true true) _ raced :=
    ((hpopulating (.ofStore (.fresh {} ⟨0⟩ none (.stepping 1)))).andThen (hboth _)).andThen (hone _)
  have hcalm : raced.store.Calm := ⟨by decide +kernel, by decide +kernel⟩
  have hhistory : raced.store.history = [] ++ hit :: (between ++ .marked (.updated [[1]]) ::
      (own ++ .marked (.answered 2 (some [])) ::
        [.marked (.asked 2), .marked (.asked 1), .reading ⟨1, 0⟩])) := by decide +kernel
  have hserves : hit.Serves (Row.policy true true) [1] ⟨[49], [6]⟩ :=
    ⟨_, [49, 124, 6], rfl, rfl, by decide +kernel⟩
  obtain ⟨⟨value, ts, forms, call, newer, sets, during, looks, older, hdecode, hform, hbetween, -,
    hsets, hlooks⟩, -⟩ := served_after_update (Row.policy true true) (fun _ => rfl) {} ⟨0⟩ none
      (.stepping 1) hcourse hcalm hhistory (by simp [own]) (by simp) (by simp [own]) hserves
  exact ⟨hhistory, value, ts, forms, call, newer, sets, during, looks, older, hdecode, hform,
    hbetween, hsets, hlooks⟩

end Pipeline

end CoherentCache
