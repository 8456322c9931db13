import CoherentCache.Proofs.Pipeline.ReadThrough
import CoherentCache.Proofs.Pipeline.Recorded

/-!
# What a run of a pipeline does to its store

Calls of a pipeline are made one after another, and while one of them asks the source, the source
may make others.  A call that asks for rows reads the clock and looks keys up before it asks, and
what it caches afterwards carries what the clock had shown.  An update reads the clock when its
change of the source has returned.  So, however deep its calls are nested, a run is one sequence of
readings of the clock, reads, sets with timestamps taken earlier and keys that are invalidated with
a timestamp at once.  What these preserve one by one, every run preserves.

* `Pipeline.Fetches` : what a call does that asks the source for rows.
* `Pipeline.fetches_populate`, `Pipeline.fetches_readThrough`, `Pipeline.fetches_readThroughMany` :
  populating and the two kinds of reads do just that, or look keys up and nothing else.
* `Pipeline.store_update` : what an update does.
* `Pipeline.Course` : runs in which keys are written through the pipeline only.
* `Pipeline.Course.relates` : what single calls relate, runs relate.
* `Recorded.Reached` : the stores that a sequence leads to, with the timestamps taken for rows.
* `Pipeline.Course.leads` : **the store after a run is one of these.**
-/

namespace CoherentCache

open Cache (Ask)

variable {σ ρ : Type}

/-! ### Whole calls -/

namespace Pipeline

variable [RecordStore σ] (policy : Policy σ ρ) (p : Pipeline σ)

/-- From the one pipeline to the other the clock was read and then keys were looked up. -/
def LooksUp (p q : Pipeline σ) : Prop :=
  ∃ keys : List Bytes, q.store =
    (keys.map fun key => Ask.execute key .get).foldl Ask.run (policy.clock p.store).2

/-- From the one pipeline to the other the source was asked for rows.  Before that the clock was
read and keys were looked up.  Afterwards forms of what the source answered were cached, with what
the clock had shown. -/
def Fetches (fetch : Source σ (List ρ)) (p q : Pipeline σ) : Prop :=
  ∃ (asking : Pipeline σ) (items : List (Bytes × Bytes)), LooksUp policy p asking ∧
    (∀ item ∈ items, item.2 ∈ policy.forms (fetch asking).1) ∧
    q.store = (items.map fun item =>
      Ask.execute item.1 (.set item.2 (policy.clock p.store).1)).foldl Ask.run
        (fetch asking).2.store

theorem looksUp_beginRead (key : Bytes) (keep : Bool) :
    LooksUp policy p (p.beginRead policy key keep).2 :=
  ⟨[key], (store_beginRead policy p key keep).1⟩

theorem looksUp_beginReadMany (keys : List Bytes) (keep : Bool) :
    LooksUp policy p (p.beginReadMany policy keys keep).2 := by
  obtain ⟨⟨asked, -, hstore⟩, -⟩ := store_beginReadMany policy p keys keep
  exact ⟨asked, hstore⟩

/-- Populating asks the source, and looks nothing up. -/
theorem fetches_populate (fetch : Source σ (List ρ)) :
    Fetches policy fetch p (p.populate policy fetch).2 := by
  obtain ⟨items, hforms, hstore⟩ := store_endPopulate policy
    (fetch (p.beginPopulate policy).2).2 (p.beginPopulate policy).1
    (fetch (p.beginPopulate policy).2).1
  exact ⟨(p.beginPopulate policy).2, items, ⟨[], rfl⟩, hforms, hstore⟩

/-- A read looks its key up, and it does nothing else or asks the source. -/
theorem fetches_readThrough (key : Bytes) (keep : Bool) (fetch : Source σ (List ρ)) :
    LooksUp policy p (p.readThrough policy key keep fetch).2 ∨
      Fetches policy fetch p (p.readThrough policy key keep fetch).2 := by
  cases hhalf : (p.beginRead policy key keep).1 with
  | finished result =>
    rw [readThrough_of_finished policy p key keep fetch hhalf]
    exact Or.inl (looksUp_beginRead policy p key keep)
  | waiting ticket =>
    rw [readThrough_of_waiting policy p key keep fetch hhalf]
    obtain ⟨items, hforms, hstore⟩ := store_endRead policy
      (fetch (p.beginRead policy key keep).2).2 ticket (fetch (p.beginRead policy key keep).2).1
    rw [(store_beginRead policy p key keep).2 ticket hhalf] at hstore
    exact Or.inr ⟨_, items, looksUp_beginRead policy p key keep, hforms, hstore⟩

section Batched

variable (keys : List Bytes) (keep : Bool) (fetch : List Bytes → Source σ (List ρ))

theorem readThroughMany_of_finished {result : Except Failure (List (Option ρ))}
    (h : (p.beginReadMany policy keys keep).1 = .finished result) :
    p.readThroughMany policy keys keep fetch = (result, (p.beginReadMany policy keys keep).2) := by
  rcases hrun : p.beginReadMany policy keys keep with ⟨half, q⟩
  rw [hrun] at h
  cases h
  simp only [readThroughMany, hrun]

theorem readThroughMany_of_waiting {ticket : ManyTicket ρ}
    (h : (p.beginReadMany policy keys keep).1 = .waiting ticket) :
    p.readThroughMany policy keys keep fetch =
      (fetch ticket.missing (p.beginReadMany policy keys keep).2).2.endReadMany policy ticket
        (fetch ticket.missing (p.beginReadMany policy keys keep).2).1 := by
  rcases hrun : p.beginReadMany policy keys keep with ⟨half, q⟩
  rw [hrun] at h
  cases h
  simp only [readThroughMany, hrun]

/-- A batched read looks its keys up, and it does nothing else or asks the source for those that
are missing. -/
theorem fetches_readThroughMany :
    LooksUp policy p (p.readThroughMany policy keys keep fetch).2 ∨
      ∃ missing, Fetches policy (fetch missing) p (p.readThroughMany policy keys keep fetch).2 := by
  cases hhalf : (p.beginReadMany policy keys keep).1 with
  | finished result =>
    rw [readThroughMany_of_finished policy p keys keep fetch hhalf]
    exact Or.inl (looksUp_beginReadMany policy p keys keep)
  | waiting ticket =>
    rw [readThroughMany_of_waiting policy p keys keep fetch hhalf]
    obtain ⟨items, hforms, hstore⟩ := store_endReadMany policy
      (fetch ticket.missing (p.beginReadMany policy keys keep).2).2 ticket
      (fetch ticket.missing (p.beginReadMany policy keys keep).2).1
    rw [(store_beginReadMany policy p keys keep).2 ticket hhalf] at hstore
    exact Or.inr ⟨ticket.missing, _, items, looksUp_beginReadMany policy p keys keep, hforms,
      hstore⟩

end Batched

/-- An update reads the clock when its change of the source has returned, and invalidates its keys
with what it read.  When the change has failed it does nothing more. -/
theorem store_update (keys : List Bytes) (mutate : Source σ Unit) :
    (p.update policy keys mutate).2.store =
      match (mutate p).1 with
      | .error _ => (mutate p).2.store
      | .ok () => (keys.map fun key =>
          Ask.execute key (.invalidate (policy.clock (mutate p).2.store).1)).foldl Ask.run
            (policy.clock (mutate p).2.store).2 := by
  simp only [update]
  rcases mutate p with ⟨text | _, q⟩
  · rfl
  · exact store_endUpdate policy q keys

end Pipeline

/-! ### Runs -/

/-- The store is asked for nothing but a look. -/
def Cache.Ask.IsRead : Ask → Prop
  | .execute _ op => op = .get
  | .inspect _ => True

/-- A step on the store or on the cache that writes no key. -/
def MemoryStore.Step.Writeless : MemoryStore.Step → Prop
  | .call q => ∀ ask ∈ q.asks, ask.IsRead
  | .overwrite _ _ => False
  | .sweep | .advance _ | .counters => True

/-- The run leads from the one pipeline to the other.  Calls are made one after another, and while
one of them asks the source or changes it, the source may make others, in any way and wherever it is
asked.  Keys are written by these calls only.  The history tells when the source is asked and when
it has answered, and when an update is over. -/
inductive Pipeline.Course [MemoryBacked σ] (policy : Policy σ ρ) :
    Pipeline (Recorded σ) → Pipeline (Recorded σ) → Prop where
  /-- Nothing happens. -/
  | idle (p) : Course policy p p
  /-- One run follows another. -/
  | andThen {p q r} (first : Course policy p q) (rest : Course policy q r) : Course policy p r
  /-- Others look at the cache, expired keys are dropped or time passes. -/
  | others (p) (s : MemoryStore.Step) (h : s.Writeless) :
      Course policy p { p with cache := (MemoryStore.step p.cache s).2 }
  /-- Rows are populated under any keys. -/
  | populate (p) (keyOf : ρ → Bytes) (fetch : Source (Recorded σ) (List ρ))
      (during : ∀ q, Course policy q (fetch q).2) :
      Course policy p (p.populate (policy.keyedBy keyOf).recorded
        (fetch.tracked (List.map policy.encode))).2
  /-- A row is read. -/
  | readThrough (p) (key : Bytes) (keep : Bool) (fetch : Source (Recorded σ) (List ρ))
      (during : ∀ q, Course policy q (fetch q).2) :
      Course policy p (p.readThrough policy.recorded key keep
        (fetch.tracked (List.map policy.encode))).2
  /-- Rows are read. -/
  | readThroughMany (p) (keyOf : ρ → Bytes) (keys : List Bytes) (keep : Bool)
      (fetch : List Bytes → Source (Recorded σ) (List ρ))
      (during : ∀ missing q, Course policy q (fetch missing q).2) :
      Course policy p (p.readThroughMany (policy.keyedBy keyOf).recorded keys keep
        fun missing => (fetch missing).tracked (List.map policy.encode)).2
  /-- The source is changed and keys are invalidated. -/
  | update (p) (keys : List Bytes) (mutate : Source (Recorded σ) Unit)
      (during : ∀ q, Course policy q (mutate q).2) :
      Course policy p ((p.update policy.recorded keys (mutate.tracked fun _ => [])).2.mark
        (.updated keys))

/-- **What every kind of call relates, every run relates**, whichever of the calls that ask for rows
these are. -/
theorem Pipeline.Course.relates [MemoryBacked σ] {policy : Policy σ ρ}
    {R : Pipeline (Recorded σ) → Pipeline (Recorded σ) → Prop} (hidle : ∀ p, R p p)
    (htrans : ∀ {p q r}, R p q → R q r → R p r)
    (hothers : ∀ p (s : MemoryStore.Step), s.Writeless →
      R p { p with cache := (MemoryStore.step p.cache s).2 })
    (hlooksUp : ∀ {p q}, LooksUp policy.recorded p q → R p q)
    (hfetches : ∀ {p q} {fetch : Source (Recorded σ) (List ρ)}, (∀ q, R q (fetch q).2) →
      Fetches policy.recorded (fetch.tracked (List.map policy.encode)) p q → R p q)
    (hupdate : ∀ {mutate : Source (Recorded σ) Unit}, (∀ q, R q (mutate q).2) → ∀ keys p,
      R p ((p.update policy.recorded keys (mutate.tracked fun _ => [])).2.mark (.updated keys)))
    {p q : Pipeline (Recorded σ)} (h : Course policy p q) : R p q := by
  induction h with
  | idle p => exact hidle p
  | andThen first rest ihfirst ihrest => exact htrans ihfirst ihrest
  | others p s hs => exact hothers p s hs
  | populate p keyOf fetch during ih =>
    exact hfetches ih (fetches_populate (policy.keyedBy keyOf).recorded p _)
  | readThrough p key keep fetch during ih =>
    rcases fetches_readThrough policy.recorded p key keep
      (fetch.tracked (List.map policy.encode)) with h | h
    · exact hlooksUp h
    · exact hfetches ih h
  | readThroughMany p keyOf keys keep fetch during ih =>
    rcases fetches_readThroughMany (policy.keyedBy keyOf).recorded p keys keep
      (fun missing => (fetch missing).tracked (List.map policy.encode)) with h | ⟨missing, h⟩
    · exact hlooksUp h
    · exact hfetches (ih missing) h
  | update p keys mutate during ih => exact hupdate ih keys p

/-! ### Sequences -/

namespace Recorded

variable [MemoryBacked σ]

/-- Invalidates keys with a timestamp taken now. -/
def invalidateNow (clock : σ → Timestamp × σ) (r : Recorded σ) (keys : List Bytes) : Recorded σ :=
  (keys.map fun key => Ask.execute key (.invalidate (r.read clock).1)).foldl Ask.run
    (r.read clock).2

/-- The stores that a pipeline can make of `start`, with the timestamps that it took for rows. -/
inductive Reached (clock : σ → Timestamp × σ) (start : Recorded σ) :
    List Timestamp → Recorded σ → Prop where
  /-- Nothing has happened. -/
  | start : Reached clock start [] start
  /-- Something is marked. -/
  | mark {taken r} (m : Mark) : Reached clock start taken r → Reached clock start taken (r.mark m)
  /-- A timestamp is taken for rows. -/
  | take {taken r} : Reached clock start taken r →
      Reached clock start ((r.read clock).1 :: taken) (r.read clock).2
  /-- A key is read or looked at. -/
  | look {taken r} (ask : Ask) (h : ask.IsRead) : Reached clock start taken r →
      Reached clock start taken (ask.run r)
  /-- A row is cached with a timestamp that was taken for it. -/
  | set {taken r ts} (key value : Bytes) (h : ts ∈ taken) : Reached clock start taken r →
      Reached clock start taken (Ask.run r (.execute key (.set value ts)))
  /-- Keys are invalidated. -/
  | invalidate {taken r} (keys : List Bytes) : Reached clock start taken r →
      Reached clock start taken (r.invalidateNow clock keys)
  /-- Expired keys are dropped. -/
  | sweep {taken r} : Reached clock start taken r →
      Reached clock start taken (MemoryBacked.mapMemory MemoryStore.Clocked.sweep r)
  /-- Time passes. -/
  | advance {taken r} (nanos : Int64) : Reached clock start taken r →
      Reached clock start taken (MemoryBacked.mapMemory (fun m => m.advance nanos) r)

namespace Reached

variable {clock : σ → Timestamp × σ} {start r : Recorded σ} {taken : List Timestamp}

theorem looks (h : Reached clock start taken r) {asks : List Ask}
    (hasks : ∀ ask ∈ asks, ask.IsRead) :
    Reached clock start taken (asks.foldl Ask.run r) := by
  induction asks generalizing r with
  | nil => exact h
  | cons ask rest ih =>
    exact ih (h.look ask (hasks ask (List.mem_cons_self ..)))
      fun ask' h' => hasks ask' (List.mem_cons_of_mem _ h')

theorem gets (h : Reached clock start taken r) (keys : List Bytes) :
    Reached clock start taken ((keys.map fun key => Ask.execute key .get).foldl Ask.run r) := by
  apply h.looks
  intro ask hask
  obtain ⟨key, -, rfl⟩ := List.mem_map.1 hask
  rfl

theorem sets (h : Reached clock start taken r) {ts : Timestamp} (hts : ts ∈ taken)
    (items : List (Bytes × Bytes)) :
    Reached clock start taken
      ((items.map fun item => Ask.execute item.1 (.set item.2 ts)).foldl Ask.run r) := by
  induction items generalizing r with
  | nil => exact h
  | cons item rest ih => exact ih (h.set item.1 item.2 hts)

end Reached

/-- A sequence leads on from the one store to the other.  Timestamps that were taken before may
still be used. -/
def Leads (clock : σ → Timestamp × σ) (start r r' : Recorded σ) : Prop :=
  ∀ taken, Reached clock start taken r → ∃ more, taken ⊆ more ∧ Reached clock start more r'

variable {clock : σ → Timestamp × σ} {start r r' r'' : Recorded σ}

theorem leads_of_reached (h : ∀ taken, Reached clock start taken r → Reached clock start taken r') :
    Leads clock start r r' :=
  fun taken hr => ⟨taken, List.Subset.refl _, h taken hr⟩

theorem Leads.trans (h : Leads clock start r r') (h' : Leads clock start r' r'') :
    Leads clock start r r'' := by
  intro taken hr
  obtain ⟨some, hsome, hmid⟩ := h taken hr
  obtain ⟨more, hmore, hend⟩ := h' some hmid
  exact ⟨more, List.Subset.trans hsome hmore, hend⟩

end Recorded

namespace Pipeline

open Recorded (Reached Leads leads_of_reached)

variable [MemoryBacked σ] {policy : Policy σ ρ} {start : Recorded σ}
  {p q : Pipeline (Recorded σ)}

theorem leads_storeStep {s : MemoryStore.Step} (hs : s.Writeless) (c : Cache (Recorded σ)) :
    Leads policy.clock start c.store (MemoryStore.step c s).2.store := by
  refine leads_of_reached fun taken h => ?_
  cases s with
  | call q =>
    simp only [MemoryStore.step]
    rw [Cache.store_call]
    exact h.looks hs
  | overwrite key fields => exact hs.elim
  | sweep => exact h.sweep
  | advance nanos => exact h.advance nanos
  | counters => exact h

theorem LooksUp.leads (h : LooksUp policy.recorded p q) :
    Leads policy.clock start p.store q.store := by
  obtain ⟨keys, hstore⟩ := h
  intro taken hp
  rw [hstore]
  exact ⟨_, List.subset_cons_self .., hp.take.gets keys⟩

/-- A source that is tracked leads on if the source does. -/
theorem leads_tracked {α : Type} {source : Source (Recorded σ) α}
    (h : ∀ q, Leads policy.clock start q.store (source q).2.store) (forms : α → List Bytes)
    (p : Pipeline (Recorded σ)) :
    Leads policy.clock start p.store (source.tracked forms p).2.store := by
  have hasked : Leads policy.clock start p.store
      (p.mark (.asked p.cache.store.history.length)).store :=
    leads_of_reached fun taken hp => hp.mark _
  exact (hasked.trans (h _)).trans (leads_of_reached fun taken hq => hq.mark _)

/-- The timestamp that was taken before the source was asked is still there for the rows. -/
theorem Fetches.leads {fetch : Source (Recorded σ) (List ρ)}
    (h : Fetches policy.recorded fetch p q)
    (hfetch : ∀ q, Leads policy.clock start q.store (fetch q).2.store) :
    Leads policy.clock start p.store q.store := by
  obtain ⟨asking, items, ⟨keys, hasking⟩, -, hq⟩ := h
  intro taken hp
  have hbefore : Reached policy.clock start ((p.store.read policy.clock).1 :: taken)
      asking.store := by
    rw [hasking]
    exact hp.take.gets keys
  obtain ⟨more, hmore, hafter⟩ := hfetch asking _ hbefore
  obtain ⟨hts, hrest⟩ := List.cons_subset.1 hmore
  rw [hq]
  exact ⟨more, hrest, hafter.sets hts items⟩

theorem leads_update {mutate : Source (Recorded σ) Unit}
    (hmutate : ∀ q, Leads policy.clock start q.store (mutate q).2.store) (keys : List Bytes)
    (p : Pipeline (Recorded σ)) :
    Leads policy.clock start p.store ((p.update policy.recorded keys
      (mutate.tracked fun _ => [])).2.mark (.updated keys)).store := by
  suffices Leads policy.clock start p.store
      (p.update policy.recorded keys (mutate.tracked fun _ => [])).2.store from
    this.trans (leads_of_reached fun taken hq => hq.mark _)
  have hafter := leads_tracked hmutate (fun _ => []) p
  rw [store_update]
  rcases hrun : mutate.tracked (fun _ => []) p with ⟨text | _, q⟩
  · rw [hrun] at hafter
    exact hafter
  · rw [hrun] at hafter
    exact hafter.trans (leads_of_reached fun taken hq => hq.invalidate keys)

/-- **A run is one sequence of readings, reads, sets and invalidations**, however deep its calls are
nested. -/
theorem Course.leads (h : Course policy p q) : Leads policy.clock start p.store q.store :=
  h.relates (fun _ => leads_of_reached fun _ hp => hp) (fun h h' => h.trans h')
    (fun p _ hs => leads_storeStep hs p.cache) (fun h => h.leads)
    (fun hfetch h => h.leads (leads_tracked hfetch _)) fun hmutate keys p =>
      leads_update hmutate keys p

end Pipeline

end CoherentCache
