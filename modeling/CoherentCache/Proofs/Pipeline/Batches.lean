import CoherentCache.Proofs.MemoryStore.Visible
import CoherentCache.Proofs.Pipeline.ReadThrough

/-!
# Reads in one batch and reads one by one

A batched read looks all keys up before the source is asked, and matches the rows of the source to
the keys afterwards.  Reads one by one ask the source for each key in turn and cache the row in
between, so that a later read of the key may be served what an earlier one cached.  The rows are the
same: what a read gives (`Policy.outcome`) is the row that the key shows, or else the first row of
the source, and a row that is cached does not change that.

* `Pipeline.Policy.outcome` : what a read of a key gives.
* `Pipeline.Follows` : the pipeline went on, and every read gives what it gave before.
* `Pipeline.readThrough_follows` : a read gives its outcome and changes no other.
* `Pipeline.endReadMany_outcome` : rows that are matched to keys are the outcomes of the keys.
* `Pipeline.readThroughMany_eq_readEach` : **a batch gives the rows that reads one by one give**,
  and asks the source for the keys that show no value.
-/

namespace CoherentCache

namespace Site

/-- The in-memory store at a site. -/
def memory (s : Site) : MemoryStore := s.store.inner.store

/-- What the clock of the store shows. -/
def now (s : Site) : Instant := s.store.inner.now

/-- No call fails on schedule, and values have no deadlines. -/
structure Steady (s : Site) : Prop where
  /-- There is no schedule of failures. -/
  unscheduled : s.store.schedule = none
  /-- No value in the store has a deadline. -/
  memory : s.memory.Steady

/-- Without a schedule every operation reaches the in-memory store. -/
theorem execute_of_unscheduled {s : Site} (h : s.store.schedule = none) (key : Bytes)
    (op : Operation) :
    (RecordStore.execute s key op).1 = (s.memory.execute s.now key op).1 ∧
      (RecordStore.execute s key op).2.memory = (s.memory.execute s.now key op).2 ∧
      (RecordStore.execute s key op).2.store.schedule = none := by
  obtain ⟨⟨⟨store, now⟩, schedule⟩, timepiece⟩ := s
  cases h
  exact ⟨rfl, rfl, rfl⟩

theorem Steady.execute {s : Site} (h : s.Steady) (key : Bytes) (op : Operation) :
    (RecordStore.execute s key op).2.Steady := by
  obtain ⟨-, hmemory, hschedule⟩ := execute_of_unscheduled h.unscheduled key op
  exact ⟨hschedule, hmemory ▸ h.memory.execute s.now key op⟩

end Site

namespace Pipeline

variable {ρ : Type}

/-- The row that a key shows, if it shows a value that is one. -/
def Policy.rowOf (policy : Policy Site ρ) (p : Pipeline Site) (key : Bytes) : Option ρ :=
  (p.store.memory.visible key).bind fun value => (policy.decode value).toOption

/-- What a read of a key gives: the row that it shows, or else the first row of the source. -/
def Policy.outcome (policy : Policy Site ρ) (source : Bytes → List ρ) (p : Pipeline Site)
    (key : Bytes) : Option ρ := policy.rowOf p key <|> (source key).head?

/-- Reading the clock concerns neither the records nor the schedule of failures. -/
def Policy.ClockApart (policy : Policy Site ρ) : Prop :=
  ∀ s, (policy.clock s).2.memory = s.memory ∧
    (policy.clock s).2.store.schedule = s.store.schedule

/-- The source says these rows, and nothing else happens meanwhile. -/
def saying {σ α : Type} (rows : α) : Source σ α := fun p => (.ok rows, p)

/-- Reads keys one after another. -/
def readEach (p : Pipeline Site) (policy : Policy Site ρ) (keep : Bool) (source : Bytes → List ρ) :
    List Bytes → List (Except Failure (Option ρ)) × Pipeline Site
  | [] => ([], p)
  | key :: rest =>
    let (result, p) := p.readThrough policy key keep (saying (source key))
    let (results, p) := p.readEach policy keep source rest
    (result :: results, p)

/-- The pipeline went on, and keys show what they showed before. -/
structure Alike (p q : Pipeline Site) : Prop where
  /-- No call fails on schedule, and values have no deadlines. -/
  steady : q.store.Steady
  /-- Keys show what they showed. -/
  visible_eq : ∀ key, q.store.memory.visible key = p.store.memory.visible key

/-- The pipeline went on, and every read gives what it gave before. -/
structure Follows (policy : Policy Site ρ) (source : Bytes → List ρ) (p q : Pipeline Site) :
    Prop where
  /-- No call fails on schedule, and values have no deadlines. -/
  steady : q.store.Steady
  /-- Reads give what they gave. -/
  outcome_eq : ∀ key, policy.outcome source q key = policy.outcome source p key

variable {policy : Policy Site ρ} {source : Bytes → List ρ} {p q : Pipeline Site} {key : Bytes}
  {keys : List Bytes} {keep : Bool}

theorem Alike.rowOf_eq (h : Alike p q) (key : Bytes) : policy.rowOf q key = policy.rowOf p key := by
  rw [Policy.rowOf, h.visible_eq]
  rfl

theorem Alike.follows (h : Alike p q) : Follows policy source p q where
  steady := h.steady
  outcome_eq key := by
    rw [Policy.outcome, h.rowOf_eq]
    rfl

theorem alike_readClock (hclock : policy.ClockApart) (h : p.store.Steady) :
    Alike p (p.readClock policy).2 := by
  obtain ⟨hmemory, hschedule⟩ := hclock p.store
  refine ⟨⟨hschedule.trans h.unscheduled, ?_⟩, fun key => ?_⟩
  · show (policy.clock p.store).2.memory.Steady
    rw [hmemory]
    exact h.memory
  · show (policy.clock p.store).2.memory.visible key = _
    rw [hmemory]

/-! ### Lookups -/

/-- **With the bypass, a lookup gives the row that the key shows**, and changes nothing that keys
show. -/
theorem lookup_steady (hbypass : policy.bypass = true) (h : p.store.Steady) (key : Bytes) :
    (∃ cacheable, (p.lookup policy key).1 = .ok ⟨policy.rowOf p key, cacheable⟩) ∧
      Alike p (p.lookup policy key).2 := by
  obtain ⟨hanswer, hmemory, -⟩ := Site.execute_of_unscheduled h.unscheduled key .get
  have hvisible := h.memory.get_eq p.store.now key
  have hget : (p.cache.get key).1 = (RecordStore.execute p.store key .get).1.map Answer.value :=
    Cache.perform_fst ..
  rw [hanswer] at hget
  constructor
  · rw [fst_lookup, hget, Policy.rowOf, ← hvisible]
    rcases (p.store.memory.execute p.store.now key .get).1 with e | ⟨outcome, _ | value⟩
    · exact ⟨false, if_pos hbypass⟩
    · exact ⟨true, rfl⟩
    · simp only [Except.map, Policy.shown]
      cases hdecode : policy.decode value with
      | error why => exact ⟨true, by simp [hbypass, hdecode, Except.toOption, Except.isOk,
          Except.toBool]⟩
      | ok row => exact ⟨true, by simp [hdecode, Except.toOption]⟩
  · have hstore : (p.lookup policy key).2.store = (RecordStore.execute p.store key .get).2 :=
      store_lookup policy p key
    rw [← hstore] at hmemory
    refine ⟨hstore ▸ h.execute key .get, fun k => ?_⟩
    rw [hmemory]
    exact h.memory.visible_get p.store.now key k

/-! ### Reads one by one -/

theorem Follows.refl (h : p.store.Steady) : Follows policy source p p := ⟨h, fun _ => rfl⟩

theorem Follows.trans {r : Pipeline Site} (h : Follows policy source p q)
    (g : Follows policy source q r) : Follows policy source p r :=
  ⟨g.steady, fun key => (g.outcome_eq key).trans (h.outcome_eq key)⟩

/-- The first half of a read ends it with the row that the key shows, and asks the source
otherwise. -/
theorem beginRead_steady (hbypass : policy.bypass = true) (hclock : policy.ClockApart)
    (h : p.store.Steady) (key : Bytes) (keep : Bool) :
    (match policy.rowOf p key with
      | some row => (p.beginRead policy key keep).1 = .finished (.ok (some row))
      | none => ∃ store, (p.beginRead policy key keep).1 =
          .waiting ⟨key, (p.readClock policy).1, store⟩) ∧
      Alike p (p.beginRead policy key keep).2 := by
  have hread := alike_readClock hclock h
  obtain ⟨⟨cacheable, hlookup⟩, halike⟩ := lookup_steady hbypass hread.steady key
  rw [hread.rowOf_eq] at hlookup
  have halike' : Alike p ((p.readClock policy).2.lookup policy key).2 :=
    ⟨halike.steady, fun k => (halike.visible_eq k).trans (hread.visible_eq k)⟩
  simp only [beginRead]
  generalize (p.readClock policy).2.lookup policy key = run at hlookup halike' ⊢
  obtain ⟨result, q⟩ := run
  cases hlookup
  cases policy.rowOf p key with
  | some row => exact ⟨rfl, halike'⟩
  | none => exact ⟨⟨_, rfl⟩, halike'⟩

/-- **A row of the source that is cached under its key changes no outcome**: the key shows it, if
the set was accepted and the record can be read back, and shows no row otherwise. -/
theorem follows_set (hcodec : ∀ row, policy.decode (policy.encode row) = .ok row) {row : ρ}
    {rest : List ρ} (hsource : source key = row :: rest) (h : p.store.Steady)
    (hnone : policy.rowOf p key = none) (ts : Timestamp)
    (hq : q.store = (RecordStore.execute p.store key (.set (policy.encode row) ts)).2) :
    Follows policy source p q := by
  obtain ⟨-, hmemory, -⟩ :=
    Site.execute_of_unscheduled h.unscheduled key (.set (policy.encode row) ts)
  rw [← hq] at hmemory
  refine ⟨hq ▸ h.execute key _, fun k => ?_⟩
  rw [Policy.outcome, Policy.outcome, Policy.rowOf, hmemory]
  rcases h.memory.visible_set p.store.now key (policy.encode row) ts k with hsame | ⟨rfl, hset⟩
  · rw [hsame]
    rfl
  · rw [hnone, hsource]
    cases hshown : (p.store.memory.execute p.store.now k
        (.set (policy.encode row) ts)).2.visible k with
    | none => rfl
    | some value =>
      obtain rfl := hset value hshown
      simp [hcodec, Except.toOption]

theorem follows_endRead (hcodec : ∀ row, policy.decode (policy.encode row) = .ok row)
    (h : p.store.Steady) (hnone : policy.rowOf p key = none) (ts : Timestamp) (store : Bool) :
    Follows policy source p (p.endRead policy ⟨key, ts, store⟩ (.ok (source key))).2 := by
  cases store with
  | false =>
    rw [endRead_of_not_store policy p rfl]
    exact .refl h
  | true =>
    cases hsource : source key with
    | nil => exact .refl h
    | cons row rest =>
      exact follows_set hcodec hsource h hnone ts
        (store_storeRows policy p [(key, policy.encode row)] ts)

/-- **A read gives the outcome of its key and changes no outcome.** -/
theorem readThrough_follows (source : Bytes → List ρ) (hbypass : policy.bypass = true)
    (hclock : policy.ClockApart) (hcodec : ∀ row, policy.decode (policy.encode row) = .ok row)
    (h : p.store.Steady) (key : Bytes) (keep : Bool) :
    (p.readThrough policy key keep (saying (source key))).1 =
        .ok (policy.outcome source p key) ∧
      Follows policy source p (p.readThrough policy key keep (saying (source key))).2 := by
  obtain ⟨hfirst, halike⟩ := beginRead_steady hbypass hclock h key keep
  cases hrow : policy.rowOf p key with
  | some row =>
    rw [hrow] at hfirst
    rw [readThrough_of_finished policy p key keep _ hfirst, Policy.outcome, hrow]
    exact ⟨rfl, halike.follows⟩
  | none =>
    rw [hrow] at hfirst
    obtain ⟨store, hwaiting⟩ := hfirst
    rw [readThrough_of_waiting policy p key keep _ hwaiting, Policy.outcome, hrow]
    rw [← halike.rowOf_eq] at hrow
    exact ⟨fst_endRead .., halike.follows.trans (follows_endRead hcodec halike.steady hrow ..)⟩

theorem fst_readEach (hbypass : policy.bypass = true) (hclock : policy.ClockApart)
    (hcodec : ∀ row, policy.decode (policy.encode row) = .ok row) (h : p.store.Steady)
    (keep : Bool) (keys : List Bytes) :
    (p.readEach policy keep source keys).1 =
      keys.map fun key => .ok (policy.outcome source p key) := by
  induction keys generalizing p with
  | nil => rfl
  | cons key rest ih =>
    obtain ⟨hresult, hfollows⟩ :=
      readThrough_follows source hbypass hclock hcodec h key keep
    simp only [readEach, List.map_cons]
    rw [hresult, ih hfollows.steady]
    simp only [hfollows.outcome_eq]

/-! ### Reads in one batch -/

/-- Lookups in a row give the rows that the keys show. -/
theorem lookupAll_steady (hbypass : policy.bypass = true) (h : p.store.Steady) (keep : Bool)
    (keys : List Bytes) :
    ∃ wanted, (p.lookupAll policy keep keys).1 = .ok wanted ∧
      wanted.map (fun w => (w.key, w.row)) = keys.map fun key => (key, policy.rowOf p key) := by
  induction keys generalizing p with
  | nil => exact ⟨[], rfl, rfl⟩
  | cons key rest ih =>
    obtain ⟨⟨cacheable, hlookup⟩, halike⟩ := lookup_steady hbypass h key
    obtain ⟨wanted, hrest, hrows⟩ := ih halike.steady
    simp only [halike.rowOf_eq] at hrows
    simp only [lookupAll]
    generalize p.lookup policy key = run at hlookup halike hrest ⊢
    obtain ⟨result, q⟩ := run
    cases hlookup
    dsimp only at hrest ⊢
    generalize q.lookupAll policy keep rest = run at hrest ⊢
    obtain ⟨result, q'⟩ := run
    cases hrest
    refine ⟨⟨key, policy.rowOf p key, keep && cacheable⟩ :: wanted, rfl, ?_⟩
    rw [List.map_cons, List.map_cons, hrows]

/-- The first row with a key, of those that the source has for some keys. -/
theorem find?_flatMap (hsource : ∀ key, ∀ row ∈ source key, policy.keyOf row = key) (key : Bytes)
    (keys : List Bytes) :
    (keys.flatMap source).find? (fun row => policy.keyOf row = key) =
      if key ∈ keys then (source key).head? else none := by
  induction keys with
  | nil => rfl
  | cons k rest ih =>
    rw [List.flatMap_cons, List.find?_append, ih]
    by_cases hk : k = key
    · subst hk
      cases hrows : source k with
      | nil => simp
      | cons row more =>
        have hrow : policy.keyOf row = k := hsource k row (hrows ▸ List.mem_cons_self ..)
        simp [hrow]
    · have hnone : (source k).find? (fun row => policy.keyOf row = key) = none := by
        rw [List.find?_eq_none]
        intro row hrow
        simpa [hsource k row hrow] using hk
      simp [hnone, Ne.symm hk]

/-- The keys of a batch that are looked up with these rows. -/
def Shows (rows : Bytes → Option ρ) (keys : List Bytes) (wanted : List (Wanted ρ)) : Prop :=
  wanted.map (fun w => (w.key, w.row)) = keys.map fun key => (key, rows key)

theorem Shows.missing {rows : Bytes → Option ρ} {ticket : ManyTicket ρ}
    (h : Shows rows keys ticket.wanted) :
    ticket.missing = keys.filter fun key => (rows key).isNone := by
  have hpairs := congrArg (fun pairs => (pairs.filter fun w => w.2.isNone).map Prod.fst) h
  simp only [List.filter_map, List.map_map] at hpairs
  simpa [ManyTicket.missing, Function.comp_def] using hpairs

theorem Shows.mem_missing {rows : Bytes → Option ρ} {ticket : ManyTicket ρ}
    (h : Shows rows keys ticket.wanted) (hkey : key ∈ keys) (hrow : rows key = none) :
    key ∈ ticket.missing := by
  rw [h.missing]
  exact List.mem_filter.2 ⟨hkey, by rw [hrow]; rfl⟩

theorem Shows.rows {rows : Bytes → Option ρ} {wanted : List (Wanted ρ)}
    (h : Shows rows keys wanted) : wanted.map (·.row) = keys.map rows := by
  have hpairs := congrArg (List.map Prod.snd) h
  simpa [Function.comp_def] using hpairs

/-- **Rows that are matched to keys are the outcomes of the keys**, when the source said what it has
for those that show no row. -/
theorem endReadMany_outcome (hsource : ∀ key, ∀ row ∈ source key, policy.keyOf row = key)
    {ticket : ManyTicket ρ} (h : Shows (policy.rowOf p) keys ticket.wanted) (q : Pipeline Site) :
    (q.endReadMany policy ticket (.ok (ticket.missing.flatMap source))).1 =
      .ok (keys.map (policy.outcome source p)) := by
  have hresolved := congrArg (List.map fun w : Bytes × Option ρ =>
    w.2 <|> (ticket.missing.flatMap source).find? fun row => policy.keyOf row = w.1) h
  simp only [List.map_map, Function.comp_def] at hresolved
  show Except.ok (ticket.wanted.map (Wanted.resolve policy _)) = _
  unfold Wanted.resolve
  rw [hresolved]
  refine congrArg Except.ok (List.map_congr_left fun key hkey => ?_)
  rw [Policy.outcome]
  cases hrow : policy.rowOf p key with
  | some row => rfl
  | none => rw [find?_flatMap hsource, if_pos (h.mem_missing hkey hrow)]

/-- A batch ends when every key shows a row, and asks the source otherwise. -/
theorem readThroughMany_steady (hbypass : policy.bypass = true) (hclock : policy.ClockApart)
    (h : p.store.Steady) (keys : List Bytes) (keep : Bool) :
    ∃ (q : Pipeline Site) (ticket : ManyTicket ρ),
      Shows (policy.rowOf p) keys ticket.wanted ∧ ∀ fetch : List Bytes → Source Site (List ρ),
        p.readThroughMany policy keys keep fetch =
          if ticket.missing = [] then (.ok (keys.map (policy.rowOf p)), q)
          else (fetch ticket.missing q).2.endReadMany policy ticket (fetch ticket.missing q).1 := by
  have hread := alike_readClock hclock h
  obtain ⟨wanted, hlookups, hshows⟩ := lookupAll_steady hbypass hread.steady keep keys
  simp only [hread.rowOf_eq] at hshows
  refine ⟨((p.readClock policy).2.lookupAll policy keep keys).2, ⟨wanted, (p.readClock policy).1⟩,
    hshows, fun fetch => ?_⟩
  simp only [readThroughMany, beginReadMany]
  generalize (p.readClock policy).2.lookupAll policy keep keys = run at hlookups ⊢
  obtain ⟨result, q⟩ := run
  cases hlookups
  dsimp only
  by_cases hnone : (ManyTicket.mk wanted (p.readClock policy).1).missing = []
  · rw [if_pos hnone, if_pos (List.isEmpty_iff.2 hnone), Shows.rows hshows]
  · rw [if_neg hnone, if_neg (mt List.isEmpty_iff.1 hnone)]

/-- **A batch gives the rows that reads one by one give.**  Let the source be fixed, and let the
rows that it has for a key have that key.  On a store that was reached by whatever events, where
every visible value is that of a row, a batch comes off, and so do reads of its keys one after
another on the same pipeline, with the same rows.  Nothing in the batch depends on the source but
what it says of the keys without a visible value, in order and with repetitions, and nothing at all
does when there are none. -/
theorem readThroughMany_eq_readEach (hbypass : policy.bypass = true) (hclock : policy.ClockApart)
    (hcodec : ∀ row, policy.decode (policy.encode row) = .ok row)
    (hsource : ∀ key, ∀ row ∈ source key, policy.keyOf row = key)
    (config : MemoryStore.Config) (events : List MemoryStore.Event)
    (hmemory : p.store.memory = (MemoryStore.empty config).after events)
    (hunscheduled : p.store.store.schedule = none)
    (hrows : ∀ key value, p.store.memory.visibleAt p.store.now key = some value →
      ∃ row, policy.decode value = .ok row)
    (keys : List Bytes) (keep : Bool) :
    let missing := keys.filter fun key => (p.store.memory.visibleAt p.store.now key).isNone
    ∃ rows : List (Option ρ),
      (p.readThroughMany policy keys keep fun asked => saying (asked.flatMap source)).1 = .ok rows ∧
      (p.readEach policy keep source keys).1 = rows.map .ok ∧
      ∃ (q : Pipeline Site) (ticket : ManyTicket ρ), ∀ fetch : List Bytes → Source Site (List ρ),
        p.readThroughMany policy keys keep fetch =
          if missing = [] then (.ok rows, q)
          else (fetch missing q).2.endReadMany policy ticket (fetch missing q).1 := by
  intro missing
  have h : p.store.Steady :=
    ⟨hunscheduled, hmemory ▸ (MemoryStore.steady_empty config).after events⟩
  obtain ⟨q, ticket, hshows, hbatch⟩ := readThroughMany_steady hbypass hclock h keys keep
  have hmissing : ticket.missing = missing := by
    rw [hshows.missing]
    refine List.filter_congr fun key _ => ?_
    rw [h.memory.visibleAt_eq, Policy.rowOf]
    cases hvisible : p.store.memory.visible key with
    | none => rfl
    | some value =>
      obtain ⟨row, hrow⟩ := hrows key value (by rw [h.memory.visibleAt_eq, hvisible])
      simp [hrow, Except.toOption]
  have houtcome : ticket.missing = [] →
      keys.map (policy.rowOf p) = keys.map (policy.outcome source p) := by
    intro hnone
    refine List.map_congr_left fun key hkey => ?_
    rw [Policy.outcome]
    cases hrow : policy.rowOf p key with
    | some row => rfl
    | none =>
      have hmem := hshows.mem_missing hkey hrow
      rw [hnone] at hmem
      cases hmem
  refine ⟨keys.map (policy.outcome source p), ?_, ?_, q, ticket, fun fetch => ?_⟩
  · rw [hbatch]
    split
    · next hnone => rw [houtcome hnone]
    · exact endReadMany_outcome hsource hshows q
  · rw [fst_readEach hbypass hclock hcodec h, List.map_map]
    rfl
  · rw [hbatch, hmissing]
    split
    · next hnone => rw [houtcome (hmissing.trans hnone)]
    · rfl

/-- Rows that are cached as they are, under their first byte. -/
def plain : Policy Site Bytes where
  encode := id
  decode := .ok
  keyOf row := row.take 1
  clock := Site.clock

/-- A source that has one row for each key of one byte. -/
def oneByte (key : Bytes) : List Bytes := if key.length = 1 then [key ++ [7]] else []

/-- One key has a value, one is invalidated in the future, so that nothing can be cached under it,
and what is stored under a third is no record.  The source has no row for the empty key. -/
theorem readThroughMany_eq_readEach_mixed :
    let events : List MemoryStore.Event :=
      [⟨⟨0⟩, .access [1] (.operate (.set [1, 9] ⟨1, 0⟩))⟩,
        ⟨⟨0⟩, .access [2] (.operate (.invalidate ⟨50, 0⟩))⟩,
        ⟨⟨0⟩, .access [3] (.overwrite ((∅ : Fields).insert Record.valueField [9]))⟩]
    let p : Pipeline Site :=
      .ofStore ⟨⟨⟨(MemoryStore.empty {}).after events, ⟨0⟩⟩, none⟩, .stepping 4⟩
    let keys : List Bytes := [[1], [2], [4], [2], [3], [], [4]]
    ∃ rows, (p.readThroughMany plain keys true fun asked => saying (asked.flatMap oneByte)).1 =
        .ok rows ∧
      (p.readEach plain true oneByte keys).1 = rows.map .ok := by
  intro events p keys
  have hsource : ∀ key, ∀ row ∈ oneByte key, plain.keyOf row = key := by
    intro key row hrow
    unfold oneByte at hrow
    split at hrow
    · next hlength =>
      obtain rfl := List.mem_singleton.1 hrow
      exact List.take_left' hlength
    · cases hrow
  obtain ⟨rows, hbatch, heach, -⟩ := readThroughMany_eq_readEach rfl (fun s => ⟨rfl, rfl⟩)
    (fun row => rfl) hsource {} events (p := p) rfl rfl (fun key value _ => ⟨value, rfl⟩) keys true
  exact ⟨rows, hbatch, heach⟩

end Pipeline

end CoherentCache
