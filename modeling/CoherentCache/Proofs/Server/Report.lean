import CoherentCache.Proofs.Decimal.Significant
import CoherentCache.Proofs.Resp.RoundTrip
import CoherentCache.Server.Service

/-!
# The size of a report

A report is a list of lines, nearly all of which hold a count.  As long as the counts are words of
64 bits, the report is short, whatever was counted; only the name of the host can make it long.

* `Bytes.countLines` : the lines of counts.
* `Service.Countable` : the counts are words of 64 bits, and the name of the host is not too long.
* `Service.small_info` : **such a report can be put in a reply.**
-/

namespace CoherentCache

namespace Bytes

/-- Lines of counts, each with its name. -/
def countLines (counts : List (String × Nat)) : Bytes :=
  counts.flatMap fun count => reportLine count.1 (Decimal.ofNat count.2)

/-- The longest name of a line in a report. -/
def maxName : Nat := 32

theorem length_reportLine (name : String) (value : Bytes) :
    (reportLine name value).length = name.toList.length + value.length + 2 := by
  simp only [reportLine, ofString, List.length_append, List.length_map, List.length_cons,
    List.length_nil]
  omega

theorem length_ofNat_le {n : Nat} (h : n < 2 ^ 64) : (Decimal.ofNat n).length ≤ 20 :=
  Decimal.length_ofNat_le (by decide) (by omega)

theorem length_countLines_le {counts : List (String × Nat)}
    (hnames : ∀ count ∈ counts, count.1.toList.length ≤ maxName)
    (hcounts : ∀ count ∈ counts, count.2 < 2 ^ 64) :
    (countLines counts).length ≤ 54 * counts.length := by
  -- A line has a name of 32 bytes at most, a number of 20 at most, a colon and a line feed.
  induction counts with
  | nil => exact Nat.le_refl 0
  | cons count counts ih =>
    obtain ⟨hname, hnames⟩ := List.forall_mem_cons.1 hnames
    obtain ⟨hcount, hcounts⟩ := List.forall_mem_cons.1 hcounts
    have hrest := ih hnames hcounts
    have hline := length_reportLine count.1 (Decimal.ofNat count.2)
    have hdigits := length_ofNat_le hcount
    unfold maxName at hname
    unfold countLines at hrest ⊢
    rw [List.flatMap_cons, List.length_append, List.length_cons]
    omega

end Bytes

open Bytes (countLines maxName reportLine length_reportLine length_ofNat_le length_countLines_le)

/-! ### What is counted -/

/-- The counts of a store in memory. -/
def MemoryStore.counts (m : MemoryStore) : List (String × Nat) :=
  [("shards", m.config.shardCount), ("keys", m.size),
    ("tombstone_ttl_ms", m.config.retention.toNat), ("ops", m.counters.operations),
    ("expirations", m.counters.expirations), ("corrupt_records", m.counters.corrupt)]

theorem MemoryStore.info_eq (m : MemoryStore) :
    m.info = reportLine "store" name ++ countLines m.counts := by
  simp [info, counts, countLines]

/-- The counts of a remote store. -/
def RemoteStore.counts (r : RemoteStore) : List (String × Nat) :=
  [("tombstone_ttl_ms", r.settings.retention.toNat), ("calls", r.counters.calls),
    ("retries", r.counters.retries), ("reconnects", r.counters.reconnects),
    ("script_loads", r.counters.loads), ("transport_errors", r.counters.transportErrors),
    ("corrupt_records", r.counters.corrupt)]

theorem RemoteStore.info_eq (r : RemoteStore) :
    r.info = reportLine "store" name ++
      reportLine "redis_endpoint" (r.settings.host ++ 58 :: Decimal.ofInt r.settings.port) ++
      countLines r.counts := by
  simp [info, counts, countLines]

namespace Host

/-- The counts of the store. -/
def counts (h : Host) : List (String × Nat) :=
  match h.repository with
  | .memory m => m.counts
  | .remote r => r.counts

/-- The number of bytes that the host name and the port of a remote store take. -/
def endpointLength (h : Host) : Nat :=
  match h.repository with
  | .memory _ => 0
  | .remote r => r.settings.host.length + (Decimal.ofInt r.settings.port).length

theorem length_info_le {h : Host} (hcounts : ∀ count ∈ h.counts, count.2 < 2 ^ 64) :
    (RecordStore.info h).length ≤ h.endpointLength + 500 := by
  obtain ⟨repository, network⟩ := h
  cases repository with
  | memory m =>
    have hlines : (countLines m.counts).length ≤ 54 * 6 :=
      length_countLines_le (by simp only [MemoryStore.counts, List.forall_mem_cons]; decide) hcounts
    have hname : (reportLine "store" MemoryStore.name).length = 12 := by decide
    change m.info.length ≤ 0 + 500
    rw [MemoryStore.info_eq, List.length_append]
    omega
  | remote r =>
    have hlines : (countLines r.counts).length ≤ 54 * 7 :=
      length_countLines_le (by simp only [RemoteStore.counts, List.forall_mem_cons]; decide) hcounts
    have hname : (reportLine "store" RemoteStore.name).length = 12 := by decide
    have hendpoint := length_reportLine "redis_endpoint"
      (r.settings.host ++ 58 :: Decimal.ofInt r.settings.port)
    have hlabel : "redis_endpoint".toList.length = 14 := by decide
    rw [List.length_append, List.length_cons] at hendpoint
    change r.info.length ≤ r.settings.host.length + (Decimal.ofInt r.settings.port).length + 500
    rw [RemoteStore.info_eq, List.length_append, List.length_append]
    omega

end Host

/-- The counts of a cache. -/
def Cache.Counters.counts (c : Counters) : List (String × Nat) :=
  [("sets_accepted", c.setsAccepted), ("sets_rejected", c.setsRejected),
    ("invalidations_accepted", c.invalidationsAccepted),
    ("invalidations_rejected", c.invalidationsRejected), ("hits", c.hits), ("misses", c.misses),
    ("store_errors", c.storeErrors)]

namespace Service

/-- The counts of a server, with so many clients connected. -/
def counts (s : Service) (connected : Nat) : List (String × Nat) :=
  [("connected_clients", connected), ("rejected_requests", s.rejected)]

theorem info_eq (s : Service) (connected : Nat) :
    s.info connected = RecordStore.info s.cache.store ++ countLines s.cache.counters.counts ++
      countLines (s.counts connected) ++
      reportLine "avg_request_bytes" (Decimal.average s.receivedBytes s.requests) := by
  simp [info, Cache.info, counts, Cache.Counters.counts, countLines]

/-- All that is counted are words of 64 bits, and the name of the host leaves room for the rest of
the report. -/
structure Countable (s : Service) (connected : Nat) : Prop where
  /-- The counts of the store. -/
  store : ∀ count ∈ s.cache.store.counts, count.2 < 2 ^ 64
  /-- The counts of the cache. -/
  cache : ∀ count ∈ s.cache.counters.counts, count.2 < 2 ^ 64
  /-- The counts of the server. -/
  server : ∀ count ∈ s.counts connected, count.2 < 2 ^ 64
  /-- The bytes received. -/
  received : s.receivedBytes < 2 ^ 64
  /-- The requests received. -/
  requests : s.requests < 2 ^ 64
  /-- The name of the host. -/
  endpoint : (s.cache.store.endpointLength : Int) + 2048 ≤ Reply.maxBulk

/-- **The report is no longer than a bulk string may be.** -/
theorem small_info {s : Service} {connected : Nat} (h : s.Countable connected) :
    (s.info connected).Small := by
  have hstore := Host.length_info_le h.store
  have hcache : (countLines s.cache.counters.counts).length ≤ 54 * 7 :=
    length_countLines_le (by simp only [Cache.Counters.counts, List.forall_mem_cons]; decide)
      h.cache
  have hserver : (countLines (s.counts connected)).length ≤ 54 * 2 :=
    length_countLines_le (by simp only [counts, List.forall_mem_cons]; decide) h.server
  have haverage := Decimal.length_average_le h.received h.requests
  have hline := length_reportLine "avg_request_bytes"
    (Decimal.average s.receivedBytes s.requests)
  have hlabel : "avg_request_bytes".toList.length = 17 := by decide
  have hendpoint := h.endpoint
  unfold Bytes.Small
  rw [info_eq, List.length_append, List.length_append, List.length_append]
  omega

end Service

end CoherentCache
