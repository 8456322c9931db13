import CoherentCache.Proofs.Cache.Batches
import CoherentCache.Proofs.Server.ReportValues
import CoherentCache.Proofs.Server.Sequential

/-!
# A store in memory never fails

A server that keeps its records in memory writes every one of them itself, with timestamps that it
found normal.  So each of them can be read back, no operation fails, and no client is ever told of a
failure, whatever bytes the clients send.

* `MemoryStore.Faultless`, `Cache.Faultless` : every record can be read back, and nothing failed
  yet.
* `Reply.errors` : the refusals and failures in a reply.
* `Service.run_faultless` : **a command does not fail, and the next one will not either.**
* `Server.never_fails` : **no client is told of a failure of the store, and reports count none.**
-/

namespace CoherentCache

/-! ### The store -/

namespace MemoryStore

variable {m : MemoryStore} {op : Operation}

theorem corrupt_settle (m : MemoryStore) (now : Instant) (key : Bytes) :
    (m.settle now key).counters.corrupt = m.counters.corrupt := by
  unfold settle
  dsimp only
  split <;> rfl

/-- An operation that comes off has met no corrupt record. -/
theorem corrupt_execute {now : Instant} {key : Bytes} {answer : Answer}
    (h : (m.execute now key op).1 = .ok answer) :
    (m.execute now key op).2.counters.corrupt = m.counters.corrupt := by
  revert h
  unfold execute
  dsimp only
  split
  · intro h
    cases h
  · intro _
    split <;> exact corrupt_settle _ now key

/-- Nor has an observer who is shown a record. -/
theorem corrupt_inspect {now : Instant} {key : Bytes} {shown : Option Snapshot}
    (h : (m.inspect now key).1 = .ok shown) :
    (m.inspect now key).2.counters.corrupt = m.counters.corrupt := by
  revert h
  unfold inspect
  dsimp only
  split
  · intro h
    cases h
  · intro _
    exact corrupt_settle m now key
  · intro _
    exact corrupt_settle m now key

/-- Every record can be read back, and no access ever met one that could not. -/
structure Faultless (m : MemoryStore) : Prop where
  /-- The records. -/
  tidy : m.Tidy fun _ => True
  /-- The count of corrupt records. -/
  corrupt : m.counters.corrupt = 0

theorem faultless_empty (config : Config) : (empty config).Faultless := ⟨tidy_empty config, rfl⟩

theorem faultless_execute (h : m.Faultless) (hnormal : op.Normal) (now : Instant) (key : Bytes) :
    (∃ answer, (m.execute now key op).1 = .ok answer) ∧ (m.execute now key op).2.Faultless := by
  have hcarries : op.Carries fun _ => True := by cases op <;> trivial
  obtain ⟨⟨answer, hok, -⟩, htidy⟩ := execute_of_tidy h.tidy hnormal hcarries now key
  exact ⟨⟨answer, hok⟩, htidy, (corrupt_execute hok).trans h.corrupt⟩

theorem faultless_inspect (h : m.Faultless) (now : Instant) (key : Bytes) :
    (∃ shown, (m.inspect now key).1 = .ok shown) ∧ (m.inspect now key).2.Faultless := by
  obtain ⟨⟨shown, hok, -⟩, htidy⟩ := inspect_of_tidy h.tidy now key
  exact ⟨⟨shown, hok⟩, htidy, (corrupt_inspect hok).trans h.corrupt⟩

theorem faultless_sweep (h : m.Faultless) (now : Instant) : (m.sweep now).Faultless :=
  ⟨tidy_sweep h.tidy now, h.corrupt⟩

end MemoryStore

namespace Host

variable {h : Host} {op : Operation}

/-- The records are in memory, and nothing is wrong with them. -/
def Faultless (h : Host) : Prop := ∃ m, h.repository = .memory m ∧ m.Faultless

theorem faultless_mapNetwork (hh : h.Faultless) (f : Network → Network) :
    (h.mapNetwork f).Faultless := hh

theorem faultless_sweep (hh : h.Faultless) : h.sweep.Faultless := by
  obtain ⟨repository, network⟩ := h
  obtain ⟨m, rfl, hm⟩ := hh
  exact ⟨_, rfl, MemoryStore.faultless_sweep hm network.now⟩

theorem faultless_execute (hh : h.Faultless) (hnormal : op.Normal) (key : Bytes) :
    (∃ answer, (RecordStore.execute h key op).1 = .ok answer) ∧
      (RecordStore.execute h key op).2.Faultless := by
  obtain ⟨repository, network⟩ := h
  obtain ⟨m, rfl, hm⟩ := hh
  obtain ⟨hok, hafter⟩ := MemoryStore.faultless_execute hm hnormal network.now key
  exact ⟨hok, _, rfl, hafter⟩

theorem faultless_inspect (hh : h.Faultless) (key : Bytes) :
    (∃ shown, (RecordStore.inspect h key).1 = .ok shown) ∧
      (RecordStore.inspect h key).2.Faultless := by
  obtain ⟨repository, network⟩ := h
  obtain ⟨m, rfl, hm⟩ := hh
  obtain ⟨hok, hafter⟩ := MemoryStore.faultless_inspect hm network.now key
  exact ⟨hok, _, rfl, hafter⟩

theorem faultless_ofSettings {s : Settings} {n : Network} (hok : ofSettings s n = .ok h)
    (hmemory : Backend.ofWord? s.backend = some .memory) : h.Faultless := by
  rw [ofSettings, hmemory] at hok
  cases hok
  exact ⟨_, rfl, MemoryStore.faultless_empty s.memory⟩

theorem faultless_ping (hh : h.Faultless) : h.ping.2.Faultless := by
  obtain ⟨repository, network⟩ := h
  obtain ⟨m, rfl, hm⟩ := hh
  exact ⟨m, rfl, hm⟩

end Host

/-! ### The cache -/

namespace Cache

variable {c : Cache Host}

/-- Nothing is wrong with the records, and no operation failed. -/
structure Faultless (c : Cache Host) : Prop where
  /-- The store. -/
  store : c.store.Faultless
  /-- The count of failures. -/
  storeErrors : c.counters.storeErrors = 0

theorem faultless_perform {α : Type} (hc : c.Faultless) (key : Bytes) (op : Operation)
    (hnormal : op.Normal) (pick : Answer → α) {count : Counters → α → Counters}
    (hcount : ∀ k a, (count k a).storeErrors = k.storeErrors) :
    (∃ result, (c.perform key op pick count).1 = .ok result) ∧
      (c.perform key op pick count).2.Faultless := by
  obtain ⟨⟨answer, hok⟩, hstore⟩ := Host.faultless_execute hc.store hnormal key
  unfold perform
  split
  · next heq =>
    rw [heq] at hok
    cases hok
  · next heq =>
    rw [heq] at hstore
    exact ⟨⟨_, rfl⟩, hstore, (hcount _ _).trans hc.storeErrors⟩

theorem faultless_set (hc : c.Faultless) (key value : Bytes) {ts : Timestamp} (hts : ts.Normal) :
    (∃ outcome, (c.set key value ts).1 = .ok outcome) ∧ (c.set key value ts).2.Faultless :=
  faultless_perform hc key (.set value ts) hts _ fun _ outcome => by cases outcome <;> rfl

theorem faultless_invalidate (hc : c.Faultless) (key : Bytes) {ts : Timestamp} (hts : ts.Normal) :
    (∃ outcome, (c.invalidate key ts).1 = .ok outcome) ∧ (c.invalidate key ts).2.Faultless :=
  faultless_perform hc key (.invalidate ts) hts _ fun _ outcome => by cases outcome <;> rfl

theorem faultless_get (hc : c.Faultless) (key : Bytes) :
    (∃ found, (c.get key).1 = .ok found) ∧ (c.get key).2.Faultless :=
  faultless_perform hc key .get trivial _ fun _ found => by cases found <;> rfl

theorem faultless_inspect (hc : c.Faultless) (key : Bytes) :
    (∃ shown, (c.inspect key).1 = .ok shown) ∧ (c.inspect key).2.Faultless := by
  obtain ⟨hok, hstore⟩ := Host.faultless_inspect hc.store key
  exact ⟨hok, hstore, hc.storeErrors⟩

theorem faultless_setAll (hc : c.Faultless) (items : List (Bytes × Bytes)) {ts : Timestamp}
    (hts : ts.Normal) :
    (∀ result ∈ (c.setAll items ts).1, ∃ outcome, result = .ok outcome) ∧
      (c.setAll items ts).2.Faultless := by
  refine forEach_keeps ?_ hc
  intro c item _ hc
  exact faultless_set hc item.1 item.2 hts

end Cache

/-! ### Replies -/

namespace Reply

mutual

/-- The texts of the refusals and failures in a reply. -/
def errors : Reply → List Bytes
  | .error text => [text]
  | .array items => errorsAll items
  | .simple _ | .integer _ | .bulk _ | .null => []

/-- The texts of the refusals and failures in replies. -/
def errorsAll : List Reply → List Bytes
  | [] => []
  | reply :: rest => reply.errors ++ errorsAll rest

end

theorem errors_array_eq_nil {items : List Reply} (h : ∀ reply ∈ items, reply.errors = []) :
    (array items).errors = [] := by
  rw [errors]
  induction items with
  | nil => rfl
  | cons reply items ih =>
    obtain ⟨hreply, hitems⟩ := List.forall_mem_cons.1 h
    rw [errorsAll, hreply, ih hitems, List.append_nil]

end Reply

namespace Service

variable {s : Service} {command : Command}

theorem errors_writeReply {result : Except StoreError Outcome}
    (h : ∃ outcome, result = .ok outcome) : (writeReply result).errors = [] := by
  obtain ⟨outcome, rfl⟩ := h
  cases outcome <;> rfl

theorem errors_readReply {result : Except StoreError (Option Bytes)}
    (h : ∃ found, result = .ok found) : (readReply result).errors = [] := by
  obtain ⟨found, rfl⟩ := h
  cases found <;> rfl

theorem errors_recordReply {result : Except StoreError (Option Snapshot)}
    (h : ∃ shown, result = .ok shown) : (recordReply result).errors = [] := by
  obtain ⟨_ | ⟨⟨value, written, invalidated⟩, retention⟩, rfl⟩ := h
  · rfl
  · cases value <;> rfl

theorem errors_newest (log : SlowLog) (count : Nat) : (SlowLog.newest log count).errors = [] := by
  refine Reply.errors_array_eq_nil fun reply hreply => ?_
  obtain ⟨entry, -, rfl⟩ := List.mem_map.1 hreply
  rfl

/-- **A command does not fail**, and the next one will not either. -/
theorem run_faultless (hs : s.cache.Faultless) (hcommand : command.Proper) (connected : Nat) :
    (s.run connected command).1.errors = [] ∧ (s.run connected command).2.cache.Faultless := by
  cases command with
  | ping => exact ⟨rfl, hs⟩
  | set key value ts =>
    obtain ⟨hok, hafter⟩ := Cache.faultless_set hs key value hcommand.1
    exact ⟨errors_writeReply hok, hafter⟩
  | invalidate key ts =>
    obtain ⟨hok, hafter⟩ := Cache.faultless_invalidate hs key hcommand
    exact ⟨errors_writeReply hok, hafter⟩
  | get key =>
    obtain ⟨hok, hafter⟩ := Cache.faultless_get hs key
    exact ⟨errors_readReply hok, hafter⟩
  | setAll items ts =>
    obtain ⟨hresults, hafter⟩ := Cache.faultless_setAll hs items hcommand.1
    refine ⟨Reply.errors_array_eq_nil fun reply hreply => ?_, hafter⟩
    obtain ⟨result, hresult, rfl⟩ := List.mem_map.1 hreply
    exact errors_writeReply (hresults result hresult)
  | inspect key =>
    obtain ⟨hok, hafter⟩ := Cache.faultless_inspect hs key
    exact ⟨errors_recordReply hok, hafter⟩
  | info => exact ⟨rfl, hs⟩
  | slowLog count => exact ⟨errors_newest s.slowLog count, hs⟩
  | clearSlowLog => exact ⟨rfl, hs⟩

/-- Whatever happens to a server with its records in memory, nothing goes wrong with them. -/
theorem invariant_faultless : Invariant fun s => s.cache.Faultless where
  answer {s} connected request hs hrequest := by
    have hcounted : s.counted.cache.Faultless := hs
    unfold answer
    dsimp only
    rw [cache_noteLatency]
    cases hparse : Command.parse request.words with
    | error refusal =>
      dsimp only
      rw [cache_refuse]
      exact hs
    | ok command =>
      exact (run_faultless hcounted (Command.proper_of_parse hrequest hparse) connected).2
  received _ hs := hs
  reject hs := hs
  network f hs := ⟨Host.faultless_mapNetwork hs.store f, hs.storeErrors⟩
  sweep hs := ⟨Host.faultless_sweep hs.store, hs.storeErrors⟩

/-- A refusal does not read like a failure of the store. -/
theorem not_isPrefix_refusal (kind : ErrorKind) (message : Bytes) :
    ¬ kind.name ++ [32] <+: Bytes.ofString "ERR " ++ message := by
  rw [← List.isPrefixOf_iff_prefix]
  cases kind <;> exact Bool.false_ne_true

/-- The report counts no failure and no corrupt record. -/
theorem info_faultless (hs : s.cache.Faultless) (connected : Nat) :
    Bytes.valuesOf "store_errors" (s.info connected) = [Decimal.ofNat 0] ∧
      Bytes.valuesOf "corrupt_records" (s.info connected) = [Decimal.ofNat 0] := by
  obtain ⟨m, hstore, hm⟩ := hs.store
  have herrors : ("store_errors", s.cache.counters.storeErrors) ∈ s.allCounts m connected := by
    simp [allCounts, Cache.Counters.counts]
  have hcorrupt : ("corrupt_records", m.counters.corrupt) ∈ s.allCounts m connected := by
    simp [allCounts, MemoryStore.counts]
  rw [hs.storeErrors] at herrors
  rw [hm.corrupt] at hcorrupt
  exact ⟨valuesOf_info hstore herrors, valuesOf_info hstore hcorrupt⟩

end Service

namespace Server

variable {settings : Settings} {n : Network} {host : Host} {acts : List Act} {log : List Visit}
  {notices : Notices} {server : Server}

/-- **No client is told of a failure of the store**, whatever bytes the clients send to a server
that keeps its records in memory, and its reports count no failure and no corrupt record. -/
theorem never_fails (hhost : Host.ofSettings settings n = .ok host)
    (hmemory : Backend.ofWord? settings.backend = some .memory)
    (hrun : Runs (start settings host) acts log notices server) :
    ∀ v ∈ log, ∀ e ∈ v.exchanges,
      (∀ text ∈ e.reply.errors, ∀ kind : ErrorKind, ¬ kind.name ++ [32] <+: text) ∧
      (Command.parse e.request.words = .ok .info →
        ∃ report, e.reply = .bulk report ∧
          Bytes.valuesOf "store_errors" report = [Bytes.ofString "0"] ∧
          Bytes.valuesOf "corrupt_records" report = [Bytes.ofString "0"]) := by
  have hstore := Host.faultless_ping (Host.faultless_ofSettings hhost hmemory)
  have hstart : (start settings host).service.cache.Faultless := ⟨hstore, rfl⟩
  have htracks := tracks_runs Service.invariant_faultless (tracks_ofHost settings hstart) hrun
  intro v hv e he
  obtain ⟨hservice, hbounded⟩ := (htracks.visit v hv).exchange e he
  have hcounted : e.service.counted.cache.Faultless := hservice
  unfold Exchange.reply Service.answer
  dsimp only
  cases hparse : Command.parse e.request.words with
  | error refusal =>
    refine ⟨?_, fun hinfo => by cases hinfo⟩
    intro text htext kind
    obtain rfl := List.mem_singleton.1 htext
    exact Service.not_isPrefix_refusal kind refusal.message
  | ok command =>
    have hproper := Command.proper_of_parse hbounded hparse
    refine ⟨?_, ?_⟩
    · intro text htext
      change text ∈ (e.service.counted.run e.connected command).1.errors at htext
      rw [(Service.run_faultless hcounted hproper e.connected).1] at htext
      cases htext
    · rintro ⟨⟩
      exact ⟨_, rfl, Service.info_faultless hcounted e.connected⟩

/-- A client sends a timestamp that is not normal, and the report that it asks for next is as
always. -/
theorem never_fails_overfull :
    let sent := Wire.command [Bytes.ofString "TS.SET", Bytes.ofString "k", Bytes.ofString "v",
      Bytes.ofString "1", Bytes.ofString "1000000000"] ++ Wire.command [Bytes.ofString "INFO"]
    let log := (inMemory {}).history (sends sent)
    ∃ e ∈ exchangesWith 0 log, e.request = .command [Bytes.ofString "INFO"] ∧
      ∃ report, e.reply = .bulk report ∧
        Bytes.valuesOf "store_errors" report = [Bytes.ofString "0"] ∧
        Bytes.valuesOf "corrupt_records" report = [Bytes.ofString "0"] := by
  intro sent log
  have hmem : Request.command [Bytes.ofString "INFO"] ∈ requestsOf 0 log := by decide +kernel
  obtain ⟨e, he, hrequest⟩ := List.mem_map.1 hmem
  obtain ⟨v, hv, hexchange⟩ := List.mem_flatMap.1 he
  have hinfo : Command.parse e.request.words = .ok .info := by
    rw [hrequest]
    rfl
  have hhost : Host.ofSettings {} (RemoteStore.Linked.networkOf []) = .ok (memoryHost {}) := rfl
  obtain ⟨-, hreport⟩ := never_fails hhost (by decide) (runs_after (inMemory {}) (sends sent)) v
    (List.mem_of_mem_filter hv) e hexchange
  exact ⟨e, he, hrequest, hreport hinfo⟩

end Server

end CoherentCache
