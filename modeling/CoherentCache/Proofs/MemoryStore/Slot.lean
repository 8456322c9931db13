import CoherentCache.MemoryStore
import CoherentCache.Proofs.MemoryStore.Shard
import CoherentCache.Proofs.Record

/-!
# The slots of the in-memory store

The store is seen as a map from keys to slots, with the shards forgotten.  What an operation
answers, and what it makes of the slot of its key, depends on that slot alone (`Slot.operate`), and
the slots of other keys stay as they are.

* `MemoryStore.slot?`, `MemoryStore.live?` : the slot of a key, and the same if it has not lapsed.
* `MemoryStore.WellFormed` : there are as many shards as there should be.
* `MemoryStore.shardAt` : the shards by their places.
* `MemoryStore.execute_eq`, `MemoryStore.inspect_eq`, `MemoryStore.updated_overwrite` : **an access
  concerns the slot of its key alone.**
* `MemoryStore.slot?_sweep` : a sweep drops lapsed slots only.
* `MemoryStore.expirations_execute`, `MemoryStore.expirations_inspect`,
  `MemoryStore.expirations_sweep` : what is counted when slots are dropped.
-/

namespace CoherentCache

/-! ### One slot on its own -/

namespace Slot

/-- What counts as the slot of a key at the clock reading `now`: a slot whose deadline has passed
counts as absent. -/
def live (now : Instant) (slot : Option Slot) : Option Slot := slot.filter (!·.isLapsed now)

@[simp] theorem live_none (now : Instant) : live now none = none := rfl

theorem live_of_lapsed {now : Instant} {slot : Slot} (h : slot.isLapsed now = true) :
    live now (some slot) = none := by
  simp [live, Option.filter, h]

theorem live_of_not_lapsed {now : Instant} {slot : Slot} (h : slot.isLapsed now = false) :
    live now (some slot) = some slot := by
  simp [live, Option.filter, h]

theorem isLapsed_mono {now later : Instant} (h : now ≤ later) {slot : Slot}
    (hs : slot.isLapsed now = true) : slot.isLapsed later = true := by
  unfold isLapsed at *
  cases hd : slot.deadline with
  | none => rw [hd] at hs; cases hs
  | some d =>
    rw [hd] at hs
    exact decide_eq_true (Int64.le_trans (of_decide_eq_true hs) h)

/-- A slot that has lapsed stays lapsed. -/
theorem live_live {now later : Instant} (h : now ≤ later) (slot : Option Slot) :
    live later (live now slot) = live later slot := by
  cases slot with
  | none => rfl
  | some slot =>
    by_cases hs : slot.isLapsed now = true
    · rw [live_of_lapsed hs, live_of_lapsed (isLapsed_mono h hs), live_none]
    · rw [live_of_not_lapsed (Bool.eq_false_iff.2 hs)]

/-- A live slot is not due yet. -/
theorem lt_of_mem_live {now d : Instant} {slot : Option Slot}
    (h : d ∈ (live now slot).bind Slot.deadline) : now < d := by
  obtain ⟨s, hs, hd⟩ := Option.mem_bind_iff.1 h
  obtain ⟨-, hlive⟩ := Option.mem_filter_iff.1 hs
  rw [isLapsed, Option.mem_def.1 hd] at hlive
  have hnot : ¬ d ≤ now := by simpa using hlive
  exact Int64.not_le.1 hnot

/-- The record of a key whose live slot is given. -/
def record (current : Option Slot) : Except Record.Fault (Option Record) :=
  match current with
  | none => .ok none
  | some slot => (Record.ofFields slot.fields).map some

/-- The slot of a key persists the record of the key, and the record can be read back. -/
def Keeps (slot : Option Slot) (r : Option Record) : Prop :=
  slot.map Slot.fields = r.map Record.toFields ∧ (r.getD .blank).Storable

theorem keeps_none : Keeps none none := ⟨rfl, Record.storable_blank⟩

theorem record_of_keeps {slot : Option Slot} {r : Option Record} (h : Keeps slot r) :
    record slot = .ok r := by
  obtain ⟨hfields, hstorable⟩ := h
  cases slot with
  | none =>
    cases r with
    | none => rfl
    | some r => cases hfields
  | some slot =>
    cases r with
    | none => cases hfields
    | some r =>
      have hf : slot.fields = r.toFields := Option.some.inj hfields
      have hr : r.Storable := hstorable
      simp only [record, hf, Record.ofFields_toFields hr]
      rfl

/-- What an operation answers when it meets the live slot `current`, and what it leaves in its
place; `due` is the deadline that it would set. -/
def operate (key : Bytes) (due : Instant) (op : Operation) (current : Option Slot) :
    Except StoreError Answer × Option Slot :=
  match record current with
  | .error fault => (.error (.corruptRecord key fault), current)
  | .ok found =>
    let effect := op.effect found
    (.ok effect.answer,
      match effect.next with
      | none => current
      | some next =>
        some ⟨next.toFields, effect.retention.deadline due (current.bind (·.deadline))⟩)

/-- What an observer at the clock reading `now` is shown of the live slot `current`. -/
def inspect (key : Bytes) (now : Instant) (current : Option Slot) :
    Except StoreError (Option Snapshot) :=
  match record current with
  | .error fault => .error (.corruptRecord key fault)
  | .ok none => .ok none
  | .ok (some found) =>
    .ok (some ⟨found, (current.bind (·.deadline)).map now.millisUntil⟩)

end Slot

namespace MemoryStore

/-! ### Shards forgotten -/

/-- The slot of a key. -/
def slot? (m : MemoryStore) (key : Bytes) : Option Slot := (m.shardOf key).slots[key]?

/-- The slot of a key, unless its deadline has passed. -/
def live? (m : MemoryStore) (now : Instant) (key : Bytes) : Option Slot :=
  Slot.live now (m.slot? key)

/-- There are as many shards as there should be. -/
def WellFormed (m : MemoryStore) : Prop := m.shards.length = m.config.shardCount

theorem wellFormed_empty (config : Config) : (empty config).WellFormed := List.length_replicate

theorem shardCount_pos (config : Config) : 0 < config.shardCount := Nat.lt_of_lt_of_le
  Nat.zero_lt_one (Nat.le_max_left _ _)

theorem index_lt (m : MemoryStore) (hm : m.WellFormed) (key : Bytes) :
    m.index key < m.shards.length := by
  rw [hm]; exact Nat.mod_lt _ (shardCount_pos _)

/-- The shard at a place. -/
def shardAt (m : MemoryStore) (i : Nat) : Shard := m.shards.getD i .empty

theorem shardAt_index (m : MemoryStore) (key : Bytes) :
    m.shardAt (m.index key) = m.shardOf key := rfl

theorem shardAt_empty (config : Config) (i : Nat) : (empty config).shardAt i = .empty := by
  simp only [shardAt, empty, List.getD_eq_getElem?_getD, List.getElem?_replicate]
  split <;> rfl

@[simp] theorem slot?_empty (config : Config) (key : Bytes) : (empty config).slot? key = none := by
  rw [slot?, ← shardAt_index, shardAt_empty]
  exact Std.TreeMap.getElem?_emptyc

theorem wellFormed_withShard {m : MemoryStore} (hm : m.WellFormed) (key : Bytes) (s : Shard) :
    (m.withShard key s).WellFormed := by
  unfold WellFormed withShard
  rw [List.length_set]; exact hm

theorem shardAt_withShard {m : MemoryStore} (hm : m.WellFormed) (key : Bytes) (s : Shard)
    (i : Nat) :
    (m.withShard key s).shardAt i = if m.index key = i then s else m.shardAt i := by
  have hk := m.index_lt hm key
  unfold shardAt
  rw [withShard, List.getD_eq_getElem?_getD, List.getElem?_set]
  split
  · rfl
  · rw [List.getD_eq_getElem?_getD]

theorem shardOf_withShard {m : MemoryStore} (hm : m.WellFormed) (key : Bytes) (s : Shard)
    (k : Bytes) :
    (m.withShard key s).shardOf k = if m.index key = m.index k then s else m.shardOf k :=
  shardAt_withShard hm key s (m.index k)

/-! ### One slot replaced -/

/-- `m'` is `m` with `slot` in the place of the slot of a key. -/
structure Updated (m : MemoryStore) (key : Bytes) (slot : Option Slot) (m' : MemoryStore) :
    Prop where
  /-- The store is set up as before. -/
  config_eq : m'.config = m.config
  /-- There are still as many shards as there should be. -/
  wellFormed : m'.WellFormed
  /-- The slots of all keys. -/
  slot?_eq : ∀ k, m'.slot? k = if key = k then slot else m.slot? k

theorem Updated.self {m m' : MemoryStore} {key : Bytes} {slot : Option Slot}
    (h : Updated m key slot m') : m'.slot? key = slot := by
  rw [h.slot?_eq, if_pos rfl]

theorem Updated.other {m m' : MemoryStore} {key k : Bytes} {slot : Option Slot}
    (h : Updated m key slot m') (hk : key ≠ k) : m'.slot? k = m.slot? k := by
  rw [h.slot?_eq, if_neg hk]

theorem Updated.trans {m m' m'' : MemoryStore} {key : Bytes} {slot slot' : Option Slot}
    (h : Updated m key slot m') (h' : Updated m' key slot' m'') : Updated m key slot' m'' := by
  refine ⟨h'.config_eq.trans h.config_eq, h'.wellFormed, fun k => ?_⟩
  rw [h'.slot?_eq, h.slot?_eq]
  split <;> rfl

theorem updated_withShard {m : MemoryStore} (hm : m.WellFormed) {key : Bytes} {s : Shard}
    {slot : Option Slot}
    (h : ∀ k, s.slots[k]? = if key = k then slot else (m.shardOf key).slots[k]?) :
    Updated m key slot (m.withShard key s) := by
  refine ⟨rfl, wellFormed_withShard hm key s, fun k => ?_⟩
  unfold slot?
  rw [shardOf_withShard hm]
  by_cases hi : m.index key = m.index k
  · have hs : m.shardOf key = m.shardOf k := by unfold shardOf; rw [hi]
    rw [if_pos hi, h, hs]
  · have hne : key ≠ k := by rintro rfl; exact hi rfl
    rw [if_neg hi, if_neg hne]

theorem Updated.counters {m m' : MemoryStore} {key : Bytes} {slot : Option Slot}
    (h : Updated m key slot m') (c : Counters) : Updated m key slot { m' with counters := c } :=
  ⟨h.config_eq, h.wellFormed, h.slot?_eq⟩

theorem live?_eq_slot? {m : MemoryStore} {now : Instant} {key : Bytes}
    (h : (m.shardOf key).isLapsed now key = false) : m.live? now key = m.slot? key := by
  rw [Shard.isLapsed_eq] at h
  unfold live? slot?
  cases hs : (m.shardOf key).slots[key]? with
  | none => rfl
  | some slot =>
    rw [hs] at h
    exact Slot.live_of_not_lapsed h

theorem updated_settle {m : MemoryStore} (hm : m.WellFormed) (now : Instant) (key : Bytes) :
    Updated m key (m.live? now key) (m.settle now key) := by
  simp only [settle]
  split
  · refine (updated_withShard hm fun k => ?_).counters _
    rw [Shard.getElem?_settle]
    split
    · next hk => subst hk; rfl
    · rfl
  · next hl =>
    refine ⟨rfl, hm, fun k => ?_⟩
    rw [live?_eq_slot? (Bool.not_eq_true _ ▸ hl)]
    split
    · next hk => rw [hk]
    · rfl

/-! ### Operations -/

theorem record_shardOf (m : MemoryStore) (key : Bytes) :
    (m.shardOf key).record key = Slot.record (m.slot? key) := rfl

theorem deadline_shardOf (m : MemoryStore) (key : Bytes) :
    (m.shardOf key).deadline key = (m.slot? key).bind (·.deadline) := rfl

variable {m : MemoryStore}

/-- **An operation concerns the slot of its key alone.** -/
theorem execute_eq (hm : m.WellFormed) (now : Instant) (key : Bytes) (op : Operation) :
    (m.execute now key op).1 =
        (Slot.operate key (now.addMillis m.config.retention) op (m.live? now key)).1 ∧
      Updated m key (Slot.operate key (now.addMillis m.config.retention) op (m.live? now key)).2
        (m.execute now key op).2 := by
  -- Counting comes first, then a lapsed slot is dropped, and only then is the record read.
  let started : MemoryStore := { m with counters.operations := m.counters.operations + 1 }
  have hs : Updated m key (m.live? now key) (started.settle now key) := by
    obtain ⟨hc, hw, h⟩ := updated_settle (m := started) hm now key
    exact ⟨hc, hw, h⟩
  have hrec : ((started.settle now key).shardOf key).record key =
      Slot.record (m.live? now key) := by
    rw [record_shardOf, hs.self]
  simp only [execute, Slot.operate]
  rw [hrec]
  cases Slot.record (m.live? now key) with
  | error fault => exact ⟨rfl, hs.counters _⟩
  | ok found =>
    dsimp only
    cases (op.effect found).next with
    | none => exact ⟨rfl, hs⟩
    | some next =>
      refine ⟨rfl, hs.trans (updated_withShard hs.wellFormed fun k => ?_)⟩
      rw [Shard.getElem?_commit, deadline_shardOf, hs.self, hs.config_eq]

/-- An observer is shown the slot of the key, and changes nothing but to drop a lapsed one. -/
theorem inspect_eq (hm : m.WellFormed) (now : Instant) (key : Bytes) :
    (m.inspect now key).1 = Slot.inspect key now (m.live? now key) ∧
      Updated m key (m.live? now key) (m.inspect now key).2 := by
  have hs := updated_settle hm now key
  have hrec : ((m.settle now key).shardOf key).record key = Slot.record (m.live? now key) := by
    rw [record_shardOf, hs.self]
  simp only [inspect, Slot.inspect]
  rw [hrec]
  cases Slot.record (m.live? now key) with
  | error fault => exact ⟨rfl, hs.counters _⟩
  | ok found =>
    cases found with
    | none => exact ⟨rfl, hs⟩
    | some r => exact ⟨by rw [deadline_shardOf, hs.self], hs⟩

theorem updated_overwrite (hm : m.WellFormed) (key : Bytes) (fields : Fields) :
    Updated m key (some ⟨fields, none⟩) (m.overwrite key fields) :=
  updated_withShard hm fun k => Shard.getElem?_overwrite _ key fields k

theorem shardAt_sweep (m : MemoryStore) (now : Instant) (i : Nat) :
    (m.sweep now).shardAt i = ((m.shardAt i).sweep now m.config.sweepLimit).1 := by
  simp only [shardAt, sweep, List.getD_eq_getElem?_getD, List.getElem?_map]
  cases m.shards[i]? <;> rfl

theorem shardOf_sweep (m : MemoryStore) (now : Instant) (k : Bytes) :
    (m.sweep now).shardOf k = ((m.shardOf k).sweep now m.config.sweepLimit).1 :=
  shardAt_sweep m now (m.index k)

theorem wellFormed_sweep (hm : m.WellFormed) (now : Instant) : (m.sweep now).WellFormed := by
  unfold WellFormed
  simp only [sweep, List.length_map]
  exact hm

/-- **A sweep drops lapsed slots only.** -/
theorem slot?_sweep (m : MemoryStore) (now : Instant) (k : Bytes) :
    (m.sweep now).slot? k = m.slot? k ∨
      (m.sweep now).slot? k = none ∧ m.live? now k = none := by
  have hcases := Shard.sweep_cases (m.shardOf k) now m.config.sweepLimit k
  rw [Shard.isLapsed_eq] at hcases
  simp only [slot?, live?, shardOf_sweep]
  rcases hcases with hsame | ⟨hgone, hlapsed, -⟩
  · exact Or.inl hsame
  · refine Or.inr ⟨hgone, ?_⟩
    cases hs : (m.shardOf k).slots[k]? with
    | none => rfl
    | some slot =>
      rw [hs] at hlapsed
      exact Slot.live_of_lapsed hlapsed

/-! ### Counting what expired -/

theorem expirations_settle (m : MemoryStore) (now : Instant) (key : Bytes) :
    (m.settle now key).counters.expirations =
      m.counters.expirations + if (m.shardOf key).isLapsed now key then 1 else 0 := by
  simp only [settle]
  split <;> rfl

theorem expirations_execute (m : MemoryStore) (now : Instant) (key : Bytes) (op : Operation) :
    (m.execute now key op).2.counters.expirations =
      m.counters.expirations + if (m.shardOf key).isLapsed now key then 1 else 0 := by
  simp only [execute]
  split
  · exact expirations_settle ..
  · split
    · exact expirations_settle ..
    · exact expirations_settle ..

theorem expirations_inspect (m : MemoryStore) (now : Instant) (key : Bytes) :
    (m.inspect now key).2.counters.expirations =
      m.counters.expirations + if (m.shardOf key).isLapsed now key then 1 else 0 := by
  simp only [inspect]
  split <;> exact expirations_settle ..

/-- A key whose slot was not counted has not lapsed. -/
theorem live?_of_not_counted {now : Instant} {key : Bytes}
    (h : m.counters.expirations + (if (m.shardOf key).isLapsed now key then 1 else 0) = 0) :
    m.live? now key = m.slot? key := by
  refine live?_eq_slot? (Bool.eq_false_iff.2 fun hlapsed => ?_)
  rw [if_pos hlapsed] at h
  omega

/-- The slots dropped by a sweep of all shards. -/
def swept (m : MemoryStore) (now : Instant) : Nat :=
  ((m.shards.map fun s => s.sweep now m.config.sweepLimit).map (·.2)).foldr (· + ·) 0

theorem expirations_sweep (m : MemoryStore) (now : Instant) :
    (m.sweep now).counters.expirations = m.counters.expirations + m.swept now := rfl

theorem le_foldr_add {n : Nat} {ns : List Nat} (h : n ∈ ns) : n ≤ ns.foldr (· + ·) 0 := by
  induction ns with
  | nil => cases h
  | cons x ns ih =>
    simp only [List.foldr_cons]
    rcases List.mem_cons.1 h with rfl | h
    · omega
    · have := ih h; omega

/-- A sweep that counts nothing drops nothing. -/
theorem slot?_sweep_of_swept_eq_zero (hm : m.WellFormed) {now : Instant} (h : m.swept now = 0)
    (k : Bytes) : (m.sweep now).slot? k = m.slot? k := by
  have hmem : m.shardOf k ∈ m.shards := by
    have hk := m.index_lt hm k
    simp only [shardOf, List.getD_eq_getElem?_getD, List.getElem?_eq_getElem hk, Option.getD_some]
    exact List.getElem_mem hk
  have hle : ((m.shardOf k).sweep now m.config.sweepLimit).2 ≤ m.swept now :=
    le_foldr_add (List.mem_map.2 ⟨_, List.mem_map.2 ⟨_, hmem, rfl⟩, rfl⟩)
  simp only [slot?, shardOf_sweep]
  rcases Shard.sweep_cases (m.shardOf k) now m.config.sweepLimit k with hs | ⟨-, -, hpos⟩
  · exact hs
  · omega

end MemoryStore

end CoherentCache
