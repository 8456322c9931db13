import CoherentCache.Proofs.MemoryStore.Sweep
import CoherentCache.Proofs.Operation

/-!
# Slots are conserved

A slot comes into being when a write is accepted, or fields are put, for a key that has none.  It
goes when its deadline has passed and an access or a sweep finds that out, and only then is it
counted.  So the slots that a run has made are the slots that it has dropped and counted, together
with those that are still there: as lists of keys the two sides are the same up to their order.  It
does not matter how many stray entries of the agenda speak for the same key, since the account is
kept of slots and not of entries.

* `MemoryStore.keys` : the keys that have a slot, and `MemoryStore.Placed` : each is in its shard.
* `MemoryStore.creates`, `MemoryStore.drops` : the slots that an event makes and drops.
* `MemoryStore.expirations_respond` : what an event drops is counted.
* `MemoryStore.perm_respond` : **the account of one event.**
* `MemoryStore.perm_after` : **the account of a run.**
-/

namespace CoherentCache

/-! ### One shard -/

namespace Shard

variable {s : Shard} {key : Bytes}

theorem mem_keys : key ∈ s.slots.keys ↔ (s.slots[key]?).isSome := by
  rw [Std.TreeMap.mem_keys, ← Std.TreeMap.isSome_getElem?_iff_mem]

end Shard

namespace MemoryStore

variable {m : MemoryStore} {now : Instant} {key : Bytes}

/-! ### The keys of a store -/

/-- The keys that have a slot, shard by shard. -/
def keys (m : MemoryStore) : List Bytes := m.shards.flatMap fun s => s.slots.keys

/-- The slot of every key is in the shard of the key. -/
def Placed (m : MemoryStore) : Prop :=
  ∀ i key, ((m.shardAt i).slots[key]?).isSome → m.index key = i

theorem length_keys (m : MemoryStore) : m.keys.length = m.size := by
  unfold keys size
  induction m.shards with
  | nil => rfl
  | cons s rest ih =>
    rw [List.flatMap_cons, List.length_append, ih, Std.TreeMap.length_keys]
    rfl

theorem getElem_shards {i : Nat} (hi : i < m.shards.length) : m.shards[i] = m.shardAt i := by
  rw [shardAt, List.getD_eq_getElem?_getD, List.getElem?_eq_getElem hi]
  rfl

theorem mem_keys_of_placed (hm : m.WellFormed) (h : m.Placed) :
    key ∈ m.keys ↔ (m.slot? key).isSome := by
  rw [keys, List.mem_flatMap]
  constructor
  · rintro ⟨s, hs, hkey⟩
    obtain ⟨i, rfl⟩ := exists_shardAt hs
    have hslot := Shard.mem_keys.1 hkey
    rw [slot?, ← shardAt_index, h i key hslot]
    exact hslot
  · intro hslot
    have hi := m.index_lt hm key
    refine ⟨m.shards[m.index key], List.getElem_mem hi, ?_⟩
    rw [getElem_shards hi]
    exact Shard.mem_keys.2 hslot

theorem nodup_keys_of_placed (h : m.Placed) : m.keys.Nodup := by
  refine List.nodup_flatMap.2 ⟨fun s _ => Std.TreeMap.nodup_keys, ?_⟩
  refine List.pairwise_iff_getElem.2 fun i j hi hj hij => ?_
  -- A key of both shards would belong to both places.
  intro key hfirst hsecond
  rw [getElem_shards hi] at hfirst
  rw [getElem_shards hj] at hsecond
  have hsame : i = j := by
    rw [← h i key (Shard.mem_keys.1 hfirst), h j key (Shard.mem_keys.1 hsecond)]
  omega

/-- A key that has a slot is listed once, and no other key is listed. -/
theorem count_keys (hm : m.WellFormed) (h : m.Placed) (key : Bytes) :
    m.keys.count key = if (m.slot? key).isSome then 1 else 0 := by
  rw [(nodup_keys_of_placed h).count]
  simp only [mem_keys_of_placed hm h]

/-! ### Slots stay in their shards -/

theorem placed_empty (config : Config) : (empty config).Placed := by
  intro i key hslot
  rw [shardAt_empty, Shard.empty, Std.TreeMap.getElem?_emptyc] at hslot
  cases hslot

/-- A shard that gets no key but its own may be put in its place. -/
theorem Placed.withShard (h : m.Placed) (hm : m.WellFormed) {s : Shard}
    (hs : ∀ k, (s.slots[k]?).isSome → k = key ∨ ((m.shardOf key).slots[k]?).isSome) :
    (m.withShard key s).Placed := by
  intro i k hslot
  show m.index k = i
  rw [shardAt_withShard hm] at hslot
  split at hslot
  · next hi =>
    rcases hs k hslot with rfl | hold
    · exact hi
    · rw [← hi]
      exact h _ k hold
  · exact h i k hslot

theorem Placed.settle (h : m.Placed) (hm : m.WellFormed) (now : Instant) (key : Bytes) :
    (m.settle now key).Placed := by
  simp only [MemoryStore.settle]
  split
  · refine h.withShard hm fun k (hslot : (((m.shardOf key).settle now key).slots[k]?).isSome) =>
      .inr ?_
    rw [Shard.getElem?_settle] at hslot
    split at hslot
    · obtain ⟨slot, hkept⟩ := Option.isSome_iff_exists.1 hslot
      exact Option.isSome_iff_exists.2 ⟨slot, (Option.mem_filter_iff.1 hkept).1⟩
    · exact hslot
  · exact h

theorem Placed.execute (h : m.Placed) (hm : m.WellFormed) (now : Instant) (key : Bytes)
    (op : Operation) : (m.execute now key op).2.Placed := by
  let started : MemoryStore := { m with counters.operations := m.counters.operations + 1 }
  have hsettled : (started.settle now key).Placed := Placed.settle (m := started) h hm now key
  have hwell := (updated_settle (m := started) hm now key).wellFormed
  simp only [MemoryStore.execute]
  split
  · exact hsettled
  · split
    · exact hsettled
    · refine hsettled.withShard hwell fun k hslot => ?_
      rw [Shard.getElem?_commit] at hslot
      split at hslot
      · next hk => exact .inl hk.symm
      · exact .inr hslot

theorem Placed.respond (h : m.Placed) (hm : m.WellFormed) (e : Event) :
    (m.respond e).2.Placed := by
  obtain ⟨now, act⟩ := e
  cases act with
  | sweep =>
    intro i key hslot
    show m.index key = i
    have hslot' : (((m.sweep now).shardAt i).slots[key]?).isSome := hslot
    rw [shardAt_sweep] at hslot'
    rcases Shard.sweep_cases (m.shardAt i) now m.config.sweepLimit key with hsame | ⟨hgone, -⟩
    · exact h i key (hsame ▸ hslot')
    · rw [hgone] at hslot'
      cases hslot'
  | access key a =>
    cases a with
    | operate op => exact h.execute hm now key op
    | inspect =>
      show (m.inspect now key).2.Placed
      simp only [MemoryStore.inspect]
      split <;> exact h.settle hm now key
    | overwrite fields =>
      refine h.withShard hm fun k hslot => ?_
      rw [Shard.getElem?_overwrite] at hslot
      split at hslot
      · next hk => exact .inl hk.symm
      · exact .inr hslot

theorem placed_after (hm : m.WellFormed) (h : m.Placed) (events : List Event) :
    (m.after events).Placed := by
  induction events generalizing m with
  | nil => exact h
  | cons e rest ih => exact ih (wellFormed_respond hm e) (h.respond hm e)

theorem keys_empty (config : Config) : (empty config).keys = [] := by
  refine List.eq_nil_iff_forall_not_mem.2 fun key hkey => ?_
  rw [mem_keys_of_placed (wellFormed_empty config) (placed_empty config), slot?_empty] at hkey
  cases hkey

/-! ### What events make and drop -/

/-- The slot of the key has lapsed. -/
def hasLapsed (m : MemoryStore) (now : Instant) (key : Bytes) : Bool :=
  (m.slot? key).any (·.isLapsed now)

/-- A write was accepted. -/
def Response.isAccepted : Response → Bool
  | .operated (.ok answer) => answer.outcome = .accepted
  | _ => false

/-- The keys for which an event makes a slot: a write was accepted, or fields were put, and there
was none.  A slot that an access finds lapsed is dropped first, so that it does not count as one. -/
def creates (m : MemoryStore) (e : Event) : List Bytes :=
  match e.act with
  | .access key (.operate _) =>
    if (m.live? e.now key).isNone ∧ (m.respond e).1.isAccepted then [key] else []
  | .access key (.overwrite _) => if (m.slot? key).isNone then [key] else []
  | .access _ .inspect | .sweep => []

/-- The keys whose slots an event drops: an access drops that of its key if it has lapsed, and a
sweep drops those that are not there afterwards. -/
def drops (m : MemoryStore) (e : Event) : List Bytes :=
  match e.act with
  | .access key (.operate _) | .access key .inspect =>
    if m.hasLapsed e.now key then [key] else []
  | .access _ (.overwrite _) => []
  | .sweep => m.keys.filter fun key => ((m.sweep e.now).slot? key).isNone

theorem isLapsed_shardOf (m : MemoryStore) (now : Instant) (key : Bytes) :
    (m.shardOf key).isLapsed now key = m.hasLapsed now key := Shard.isLapsed_eq ..

theorem live?_of_hasLapsed (h : m.hasLapsed now key = true) : m.live? now key = none := by
  unfold hasLapsed at h
  unfold live?
  cases hs : m.slot? key with
  | none => rfl
  | some slot =>
    rw [hs] at h
    exact Slot.live_of_lapsed h

theorem live?_of_not_hasLapsed (h : m.hasLapsed now key = false) :
    m.live? now key = m.slot? key :=
  live?_eq_slot? ((isLapsed_shardOf ..).trans h)

/-- **Only slots that have lapsed are dropped.** -/
theorem hasLapsed_of_mem_drops {e : Event} (hm : m.WellFormed) (hp : m.Placed)
    (h : key ∈ m.drops e) : m.hasLapsed e.now key = true := by
  obtain ⟨now, act⟩ := e
  have honly (k : Bytes) (hk : key ∈ if m.hasLapsed now k then [k] else []) :
      m.hasLapsed now key = true := by
    split at hk
    · next hlapsed => rwa [List.mem_singleton.1 hk]
    · cases hk
  cases act with
  | sweep =>
    obtain ⟨hmem, hgone⟩ := List.mem_filter.1 h
    obtain ⟨slot, hslot⟩ := Option.isSome_iff_exists.1 ((mem_keys_of_placed hm hp).1 hmem)
    rcases slot?_sweep m now key with hsame | ⟨-, hdead⟩
    · rw [hsame, hslot] at hgone
      cases hgone
    · cases hl : m.hasLapsed now key with
      | true => rfl
      | false =>
        rw [live?_of_not_hasLapsed hl, hslot] at hdead
        cases hdead
  | access k a =>
    cases a with
    | operate op => exact honly k h
    | inspect => exact honly k h
    | overwrite fields => cases h

/-! ### One event -/

/-- An operation leaves a slot where there was one, and where a write was accepted. -/
theorem isSome_operate (key : Bytes) (due : Instant) (op : Operation) (current : Option Slot) :
    (Slot.operate key due op current).2.isSome =
      (current.isSome || (Response.operated (Slot.operate key due op current).1).isAccepted) := by
  unfold Slot.operate
  cases Slot.record current with
  | error fault => exact (Bool.or_false _).symm
  | ok found =>
    rcases Operation.effect_cases op found with
      ⟨hnext, hrejected⟩ | ⟨value, ts, -, -, heffect⟩ | ⟨ts, -, -, heffect⟩
    · simp [hnext, Response.isAccepted, hrejected]
    · simp [heffect, Effect.accept, Response.isAccepted]
    · simp [heffect, Effect.accept, Response.isAccepted]

theorem eq_of_mem_creates {k : Bytes} {a : Access}
    (h : key ∈ m.creates ⟨now, .access k a⟩) : key = k := by
  cases a with
  | operate op =>
    simp only [creates] at h
    split at h
    · exact List.mem_singleton.1 h
    · cases h
  | inspect => cases h
  | overwrite fields =>
    simp only [creates] at h
    split at h
    · exact List.mem_singleton.1 h
    · cases h

theorem eq_of_mem_drops {k : Bytes} {a : Access}
    (h : key ∈ m.drops ⟨now, .access k a⟩) : key = k := by
  have honly (h : key ∈ if m.hasLapsed now k then [k] else []) : key = k := by
    split at h
    · exact List.mem_singleton.1 h
    · cases h
  cases a with
  | operate op => exact honly h
  | inspect => exact honly h
  | overwrite fields => cases h

/-- The account of one key, for an access to it. -/
theorem count_access (hm : m.WellFormed) (now : Instant) (key : Bytes) (a : Access) :
    let e : Event := ⟨now, .access key a⟩
    (m.creates e).count key + (if (m.slot? key).isSome then 1 else 0) =
      (m.drops e).count key + if ((m.respond e).2.slot? key).isSome then 1 else 0 := by
  intro e
  obtain ⟨hanswer, hupdated⟩ := respond_access hm now key a
  have hlapsed : m.hasLapsed now key = true → (m.slot? key).isSome := by
    intro h
    unfold hasLapsed at h
    cases hs : m.slot? key with
    | none => rw [hs] at h; cases h
    | some slot => rfl
  rw [hupdated.self]
  cases a with
  | overwrite fields =>
    simp only [creates, drops, e, Access.onSlot]
    cases m.slot? key <;> simp
  | inspect =>
    simp only [creates, drops, e, Access.onSlot]
    cases hl : m.hasLapsed now key with
    | true => simp [live?_of_hasLapsed hl, hlapsed hl]
    | false => simp [live?_of_not_hasLapsed hl]
  | operate op =>
    simp only [creates, drops, e, hanswer, Access.onSlot, isSome_operate]
    generalize (Response.operated _).isAccepted = accepted
    cases hl : m.hasLapsed now key with
    | true => cases accepted <;> simp [live?_of_hasLapsed hl, hlapsed hl]
    | false =>
      rw [live?_of_not_hasLapsed hl]
      cases accepted <;> cases m.slot? key <;> simp

/-- The account of one key. -/
theorem count_respond (hm : m.WellFormed) (hp : m.Placed) (e : Event) (key : Bytes) :
    (m.creates e).count key + m.keys.count key =
      (m.drops e).count key + (m.respond e).2.keys.count key := by
  rw [count_keys hm hp, count_keys (wellFormed_respond hm e) (hp.respond hm e)]
  obtain ⟨now, act⟩ := e
  cases act with
  | access k a =>
    by_cases hk : key = k
    · subst hk
      exact count_access hm now key a
    · rw [List.count_eq_zero.2 fun h => hk (eq_of_mem_creates h),
        List.count_eq_zero.2 fun h => hk (eq_of_mem_drops h),
        (respond_access hm now k a).2.other (Ne.symm hk)]
  | sweep =>
    show ([] : List Bytes).count key + _ = List.count key (m.keys.filter _) +
      if ((m.sweep now).slot? key).isSome then 1 else 0
    rw [((nodup_keys_of_placed hp).filter _).count]
    simp only [List.mem_filter, mem_keys_of_placed hm hp]
    rcases slot?_sweep m now key with hsame | ⟨hgone, -⟩
    · rw [hsame]
      cases m.slot? key <;> rfl
    · rw [hgone]
      cases m.slot? key <;> rfl

/-- **The account of one event**: what there was, with what it makes, is what it drops, with what
there is afterwards. -/
theorem perm_respond (hm : m.WellFormed) (hp : m.Placed) (e : Event) :
    (m.creates e ++ m.keys).Perm (m.drops e ++ (m.respond e).2.keys) := by
  refine List.perm_iff_count.2 fun key => ?_
  rw [List.count_append, List.count_append]
  exact count_respond hm hp e key

/-- **What an event drops is counted**, each slot once. -/
theorem expirations_respond (hm : m.WellFormed) (hp : m.Placed)
    (h : ∀ s ∈ m.shards, s.Indexed) (e : Event) :
    (m.respond e).2.counters.expirations = m.counters.expirations + (m.drops e).length := by
  have hperm := (perm_respond hm hp e).length_eq
  rw [List.length_append, List.length_append, length_keys, length_keys] at hperm
  obtain ⟨now, act⟩ := e
  have honly (key : Bytes) :
      (if (m.shardOf key).isLapsed now key then 1 else 0) =
        (if m.hasLapsed now key then [key] else []).length := by
    rw [isLapsed_shardOf]
    split <;> rfl
  cases act with
  | sweep =>
    have hsize := size_sweep h now
    have hcounted := expirations_sweep m now
    simp only [creates, respond, List.length_nil] at hperm ⊢
    omega
  | access key a =>
    cases a with
    | operate op => exact (expirations_execute m now key op).trans (by rw [honly]; rfl)
    | inspect => exact (expirations_inspect m now key).trans (by rw [honly]; rfl)
    | overwrite fields => rfl

/-! ### Runs -/

/-- The keys for which slots were made in the course of a run, in order. -/
def created (m : MemoryStore) : List Event → List Bytes
  | [] => []
  | e :: rest => m.creates e ++ (m.respond e).2.created rest

/-- The keys whose slots were dropped in the course of a run, in order. -/
def dropped (m : MemoryStore) : List Event → List Bytes
  | [] => []
  | e :: rest => m.drops e ++ (m.respond e).2.dropped rest

/-- **The account of a run.**  What there was, with what was made, is what was dropped, with what
is there at the end. -/
theorem perm_after (hm : m.WellFormed) (hp : m.Placed) (events : List Event) :
    (m.created events ++ m.keys).Perm (m.dropped events ++ (m.after events).keys) := by
  induction events generalizing m with
  | nil => exact .refl _
  | cons e rest ih =>
    have hfirst := perm_respond hm hp e
    have hrest := ih (wellFormed_respond hm e) (hp.respond hm e)
    refine List.perm_iff_count.2 fun key => ?_
    have hfirst' := hfirst.count_eq key
    have hrest' := hrest.count_eq key
    simp only [created, dropped, List.count_append] at hfirst' hrest' ⊢
    show _ = _ + _ + ((m.respond e).2.after rest).keys.count key
    omega

theorem indexed_shards (h : ∀ i, (m.shardAt i).Indexed) : ∀ s ∈ m.shards, s.Indexed := by
  intro s hs
  obtain ⟨i, rfl⟩ := exists_shardAt hs
  exact h i

theorem expirations_after (hm : m.WellFormed) (hp : m.Placed)
    (h : ∀ i, (m.shardAt i).Indexed) (events : List Event) :
    (m.after events).counters.expirations =
      m.counters.expirations + (m.dropped events).length := by
  induction events generalizing m with
  | nil => rfl
  | cons e rest ih =>
    have hrest := ih (wellFormed_respond hm e) (hp.respond hm e) fun i =>
      (turn_respond hm e i).indexed (h i)
    rw [expirations_respond hm hp (indexed_shards h) e] at hrest
    rw [dropped, List.length_append, ← Nat.add_assoc]
    exact hrest

end MemoryStore

end CoherentCache
