import CoherentCache.Proofs.Cache.Batches
import CoherentCache.Proofs.Remote.Wording
import CoherentCache.Proofs.Server.Report

/-!
# Replies of a server

Whatever a request asks for, the reply to it can be read back: the store keeps what it answers in
bounds, and a command brings nothing that is out of bounds.  Two commands ask for texts that nothing
bounds, the report and the record of a key.

* `Host.Sound` : what holds of the store all the time, whichever kind it is.
* `Command.Proper`, `Command.proper_of_parse` : what holds of every command that is parsed.
* `Service.Sound`, `Service.sound_answer` : **serving a request keeps what the clients share
  sound.**
* `Service.fits_answer` : **the reply to a request can be read back.**
-/

namespace CoherentCache

open StoreError (Reportable)

/-! ### The store -/

namespace Host

/-- Values in memory are short enough for a reply, or what was read of a remote store is. -/
def Sound (h : Host) : Prop :=
  match h.repository with
  | .memory m => m.Tidy Bytes.Small
  | .remote r => RemoteStore.Linked.Sound ⟨r, h.network⟩

/-- What an observer is told of the key can be put in a reply. -/
def Showable (h : Host) (key : Bytes) : Prop :=
  match h.repository with
  | .memory _ => True
  | .remote r => RemoteStore.Linked.Showable ⟨r, h.network⟩ key

variable {h : Host}

theorem sound_ofSettings {s : Settings} {n : Network} (hok : ofSettings s n = .ok h)
    (hname : Backend.ofWord? s.backend = some .remote → s.remote.host.OneLine) : h.Sound := by
  unfold ofSettings at hok
  split at hok
  · cases hok
    exact MemoryStore.tidy_empty s.memory
  · next hremote =>
    cases hok
    exact ⟨ReplyStream.sound_empty, hname hremote⟩
  · cases hok

theorem sound_mapNetwork (hs : h.Sound) (f : Network → Network) : (h.mapNetwork f).Sound := by
  obtain ⟨repository, network⟩ := h
  cases repository with
  | memory m => exact hs
  | remote r => exact ⟨hs.replies, hs.host⟩

theorem sound_sweep (hs : h.Sound) : h.sweep.Sound := by
  obtain ⟨repository, network⟩ := h
  cases repository with
  | memory m => exact MemoryStore.tidy_sweep hs _
  | remote r => exact hs

theorem sound_ping (hs : h.Sound) : h.ping.2.Sound := by
  obtain ⟨repository, network⟩ := h
  cases repository with
  | memory m => exact hs
  | remote r =>
    have hping : RemoteStore.Linked.Sound ⟨r, network⟩ := hs
    exact (RemoteStore.Linked.reaches_ping ⟨r, network⟩).sound hping

/-- **An operation gives a result that can be put in a reply.** -/
theorem sound_execute (hs : h.Sound) (key : Bytes) {op : Operation} (hnormal : op.Normal)
    (hcarries : op.Carries Bytes.Small) :
    Reportable (fun answer => ∀ value ∈ answer.value, value.Small)
        (RecordStore.execute h key op).1 ∧
      (RecordStore.execute h key op).2.Sound := by
  obtain ⟨repository, network⟩ := h
  cases repository with
  | memory m =>
    obtain ⟨⟨answer, hanswer, hvalue⟩, htidy⟩ :=
      MemoryStore.execute_of_tidy (m := m) hs hnormal hcarries network.now key
    refine ⟨?_, htidy⟩
    change Reportable _ (m.execute network.now key op).1
    rw [hanswer]
    exact hvalue
  | remote r =>
    have hl : RemoteStore.Linked.Sound ⟨r, network⟩ := hs
    exact ⟨RemoteStore.Linked.reportable_execute hl key op,
      (RemoteStore.Linked.reaches_execute ⟨r, network⟩ key op).sound hl⟩

theorem sound_inspect (hs : h.Sound) (key : Bytes) : (RecordStore.inspect h key).2.Sound := by
  obtain ⟨repository, network⟩ := h
  cases repository with
  | memory m => exact (MemoryStore.inspect_of_tidy (m := m) hs network.now key).2
  | remote r =>
    have hl : RemoteStore.Linked.Sound ⟨r, network⟩ := hs
    exact (RemoteStore.Linked.reaches_inspect ⟨r, network⟩ key).sound hl

theorem reportable_inspect (hs : h.Sound) {key : Bytes} (hkey : h.Showable key) :
    Reportable
      (fun shown => ∀ snapshot ∈ shown,
        snapshot.record.Storable ∧ snapshot.record.Carries Bytes.Small)
      (RecordStore.inspect h key).1 := by
  obtain ⟨repository, network⟩ := h
  cases repository with
  | memory m =>
    obtain ⟨⟨shown, hshown, hrecord⟩, -⟩ :=
      MemoryStore.inspect_of_tidy (m := m) hs network.now key
    change Reportable _ (m.inspect network.now key).1
    rw [hshown]
    exact hrecord
  | remote r =>
    have hl : RemoteStore.Linked.Sound ⟨r, network⟩ := hs
    exact RemoteStore.Linked.reportable_inspect hl hkey

end Host

/-! ### Commands -/

namespace Command

/-- The timestamps of the command are normal, and what it brings can be put in a reply. -/
def Proper : Command → Prop
  | .set _ value ts => ts.Normal ∧ value.Small
  | .invalidate _ ts => ts.Normal
  | .setAll items ts =>
    ts.Normal ∧ (items.length : Int) ≤ Reply.maxItems ∧ ∀ item ∈ items, item.2.Small
  | .slowLog count => count ≤ maxEntries
  | .ping | .get _ | .inspect _ | .info | .clearSlowLog => True

theorem normal_of_readTimestamp? {sec nsec : Bytes} {ts : Timestamp}
    (h : readTimestamp? sec nsec = some ts) : ts.Normal := by
  unfold readTimestamp? at h
  split at h
  · dsimp only at h
    split at h
    · next hnormal =>
      cases h
      exact hnormal
    · cases h
  · cases h

theorem mem_of_pairs? : {words : List Bytes} → {items : List (Bytes × Bytes)} →
    pairs? words = some items →
      items.length ≤ words.length ∧ ∀ item ∈ items, item.2 ∈ words
  | [], items, h => by
    cases h
    simp
  | [_], _, h => by cases h
  | key :: value :: rest, items, h => by
    obtain ⟨others, hothers, rfl⟩ := Option.map_eq_some_iff.1 h
    obtain ⟨hlength, hmem⟩ := mem_of_pairs? hothers
    refine ⟨?_, ?_⟩
    · simp only [List.length_cons]
      omega
    · intro item hitem
      rcases List.mem_cons.1 hitem with rfl | hitem
      · simp
      · exact List.mem_cons_of_mem _ (List.mem_cons_of_mem _ (hmem item hitem))

theorem proper_of_parseSlowLog {words : List Bytes} {command : Command}
    (h : parseSlowLog words = some command) : command.Proper := by
  unfold parseSlowLog at h
  split at h
  · cases h
  · split at h
    · cases h
      trivial
    · split at h
      · cases h
        exact Nat.min_le_right _ _
      · cases h

theorem proper_of_parseArguments {verb : Verb} {words : List Bytes} {command : Command}
    (hlength : (words.length : Int) ≤ Request.maxArguments) (hsmall : ∀ word ∈ words, word.Small)
    (h : parseArguments verb words = some command) : command.Proper := by
  unfold parseArguments at h
  split at h
  · cases h
    trivial
  · obtain ⟨ts, hts, rfl⟩ := Option.map_eq_some_iff.1 h
    exact ⟨normal_of_readTimestamp? hts, hsmall _ (by simp)⟩
  · obtain ⟨ts, hts, rfl⟩ := Option.map_eq_some_iff.1 h
    exact normal_of_readTimestamp? hts
  · cases h
    trivial
  · split at h
    · next ts items hts hitems =>
      cases h
      obtain ⟨hcount, hmem⟩ := mem_of_pairs? hitems
      refine ⟨normal_of_readTimestamp? hts, ?_, ?_⟩
      · have hmax : Request.maxArguments ≤ Reply.maxItems := by decide
        simp only [List.length_cons] at hlength hcount
        omega
      · intro item hitem
        refine hsmall _ ?_
        exact List.mem_cons_of_mem _ (List.mem_cons_of_mem _ (hmem item hitem))
    · cases h
  · cases h
    trivial
  · cases h
    trivial
  · exact proper_of_parseSlowLog h
  · cases h

end Command

theorem Request.small_of_bounded {request : Request} (h : request.Bounded) :
    (request.words.length : Int) ≤ maxArguments ∧ ∀ word ∈ request.words, word.Small := by
  cases request with
  | malformed =>
    refine ⟨by decide, ?_⟩
    intro word hword
    obtain rfl := List.mem_singleton.1 hword
    exact (by decide : malformedWord.Small)
  | command arguments =>
    refine ⟨h.1, fun word hword => ?_⟩
    exact Int.le_trans (h.2 word hword) (by decide)

/-- **A request that is in bounds asks for nothing that is not.** -/
theorem Command.proper_of_parse {request : Request} (hrequest : request.Bounded)
    {command : Command} (h : parse request.words = .ok command) : command.Proper := by
  obtain ⟨hlength, hsmall⟩ := Request.small_of_bounded hrequest
  unfold parse at h
  split at h
  · cases h
  · split at h
    · cases h
    · next name arguments hwords =>
      rw [hwords, List.length_cons] at hlength
      rw [hwords] at hsmall
      split at h
      · cases h
      · split at h
        · cases h
        · next hcommand =>
          cases h
          refine proper_of_parseArguments (by omega) ?_ hcommand
          exact fun word hword => hsmall word (List.mem_cons_of_mem _ hword)

/-! ### Single replies -/

theorem Timestamp.small_text {ts : Timestamp} (h : ts.Normal) : ts.text.Small := by
  have hsec : ts.seconds.toInt.natAbs < 10 ^ 20 := by
    have hlow := ts.seconds.minValue_le_toInt
    have hhigh := ts.seconds.toInt_le
    have hmin : Int64.minValue.toInt = -9223372036854775808 := by decide
    have hmax : Int64.maxValue.toInt = 9223372036854775807 := by decide
    omega
  have hnsec : ts.nanoseconds.toInt.natAbs < 10 ^ 10 := by
    obtain ⟨hlow, hhigh⟩ := h
    unfold nanosPerSecond at hhigh
    omega
  have hsecText := Decimal.length_ofNat_le (by decide) hsec
  have hnsecText := Decimal.length_ofNat_le (by decide) hnsec
  have hseconds : (Decimal.ofInt ts.seconds.toInt).length ≤ 21 := by
    unfold Decimal.ofInt
    split
    · rw [List.length_cons]
      omega
    · omega
  have hpadded : (Decimal.padded 9 ts.nanoseconds.toInt).length ≤ 11 := by
    unfold Decimal.padded
    split
    · rw [List.length_cons, List.length_leftpad]
      omega
    · rw [List.length_leftpad]
      omega
  have hbulk : Reply.maxBulk = 67108864 := by decide
  simp only [Bytes.Small, text, List.length_append, List.length_cons, hbulk]
  omega

namespace Service

open Reply (Fits AllFit allFit_iff maxItems)

theorem oneLine_name (kind : ErrorKind) : kind.name.OneLine := by
  cases kind <;> decide

theorem fits_failure {e : StoreError} (h : e.message.OneLine) (depth : Nat) :
    (failure e).Fits depth := by
  have hlabel : Bytes.OneLine (e.kind.name ++ [32]) :=
    (oneLine_name e.kind).append (List.isChain_singleton 32) (.inr (by decide))
  have hmessage := hlabel.append h (.inl (by simp))
  simpa [failure, Reply.failure, Fits] using hmessage

theorem fits_writeReply {result : Except StoreError Outcome} (h : Reportable (fun _ => True) result)
    (depth : Nat) : (writeReply result).Fits depth := by
  rcases result with e | (_ | _)
  · exact fits_failure h depth
  · trivial
  · trivial

theorem fits_readReply {result : Except StoreError (Option Bytes)}
    (h : Reportable (fun found => ∀ value ∈ found, value.Small) result) (depth : Nat) :
    (readReply result).Fits depth := by
  rcases result with e | (_ | value)
  · exact fits_failure h depth
  · trivial
  · exact h value rfl

theorem fits_recordReply {result : Except StoreError (Option Snapshot)}
    (h : Reportable
      (fun shown => ∀ snapshot ∈ shown,
        snapshot.record.Storable ∧ snapshot.record.Carries Bytes.Small)
      result) :
    (recordReply result).Fits 0 := by
  rcases result with e | (_ | ⟨⟨value, written, invalidated⟩, retention⟩)
  · exact fits_failure h 0
  · simp [recordReply, Fits, AllFit, maxItems]
  · obtain ⟨⟨hwritten, hinvalidated⟩, hvalue⟩ := h _ rfl
    have hwrittenNormal : written.Normal := by
      cases value with
      | some value => exact hwritten
      | none =>
        obtain rfl : written = .zero := hwritten
        exact Timestamp.normal_zero
    have hvalueFits : ((value.map Reply.bulk).getD .null).Fits 1 := by
      cases value with
      | none => trivial
      | some value => exact hvalue value rfl
    have hname (name : String) (hlength : name.toList.length ≤ 20) :
        (Bytes.ofString name).Small := by
      have hbulk : Reply.maxBulk = 67108864 := by decide
      simp only [Bytes.Small, Bytes.ofString, List.length_map, hbulk]
      omega
    refine ⟨by simp [maxItems], fun _ => by decide, ?_⟩
    exact ⟨hname _ (by decide), Timestamp.small_text hwrittenNormal, hname _ (by decide),
      Timestamp.small_text hinvalidated, hname _ (by decide), hvalueFits, hname _ (by decide),
      trivial, trivial⟩

end Service

/-- The log is no longer than it may be, and the names in it can be put in a reply. -/
def SlowLog.Sound (log : SlowLog) : Prop :=
  log.length ≤ capacity ∧ ∀ entry ∈ log, entry.command.Small

namespace SlowLog

variable {log : SlowLog}

theorem sound_record (h : log.Sound) {command : Bytes} (hcommand : command.Small)
    (started finished : Instant) : (log.record command started finished).Sound := by
  unfold record
  dsimp only
  split
  · refine ⟨List.length_take_le _ _, ?_⟩
    intro entry hentry
    rcases List.mem_cons.1 (List.mem_of_mem_take hentry) with rfl | hentry
    · exact hcommand
    · exact h.2 entry hentry
  · exact h

theorem fits_newest (h : log.Sound) (count : Nat) : (newest log count).Fits 0 := by
  have hentry (entry : SlowLogEntry) (hsmall : entry.command.Small) :
      (entryReply entry).Fits 1 :=
    ⟨by simp [Reply.maxItems], fun _ => by decide, trivial, trivial, hsmall, trivial⟩
  refine ⟨?_, fun _ => by decide, ?_⟩
  · have hlength := h.1
    have hitems : Reply.maxItems = 1048576 := by decide
    simp only [List.length_map, List.length_take, capacity] at hlength ⊢
    omega
  · rw [Reply.allFit_iff]
    intro reply hreply
    obtain ⟨entry, hmem, rfl⟩ := List.mem_map.1 hreply
    exact hentry entry (h.2 entry (List.mem_of_mem_take hmem))

end SlowLog

/-! ### The cache -/

namespace Cache

variable {c : Cache Host}

theorem sound_perform {α : Type} {P : α → Prop} (hc : c.store.Sound) (key : Bytes) (op : Operation)
    (hnormal : op.Normal) (hcarries : op.Carries Bytes.Small) {pick : Answer → α}
    (count : Counters → α → Counters)
    (hpick : ∀ answer : Answer, (∀ value ∈ answer.value, value.Small) → P (pick answer)) :
    Reportable P (c.perform key op pick count).1 ∧ (c.perform key op pick count).2.store.Sound := by
  obtain ⟨hresult, hstore⟩ := Host.sound_execute hc key hnormal hcarries
  unfold perform
  split
  · next heq =>
    rw [heq] at hresult hstore
    exact ⟨hresult, hstore⟩
  · next heq =>
    rw [heq] at hresult hstore
    exact ⟨hpick _ hresult, hstore⟩

theorem sound_set (hc : c.store.Sound) (key : Bytes) {value : Bytes} {ts : Timestamp}
    (hts : ts.Normal) (hvalue : value.Small) :
    Reportable (fun _ => True) (c.set key value ts).1 ∧ (c.set key value ts).2.store.Sound :=
  sound_perform hc key (.set value ts) hts hvalue _ fun _ _ => trivial

theorem sound_invalidate (hc : c.store.Sound) (key : Bytes) {ts : Timestamp} (hts : ts.Normal) :
    Reportable (fun _ => True) (c.invalidate key ts).1 ∧ (c.invalidate key ts).2.store.Sound :=
  sound_perform hc key (.invalidate ts) hts trivial _ fun _ _ => trivial

theorem sound_get (hc : c.store.Sound) (key : Bytes) :
    Reportable (fun found => ∀ value ∈ found, value.Small) (c.get key).1 ∧
      (c.get key).2.store.Sound :=
  sound_perform hc key .get trivial trivial _ fun _ hvalue => hvalue

theorem sound_setAll (hc : c.store.Sound) {items : List (Bytes × Bytes)} {ts : Timestamp}
    (hts : ts.Normal) (hitems : ∀ item ∈ items, item.2.Small) :
    (c.setAll items ts).1.length = items.length ∧
      (∀ result ∈ (c.setAll items ts).1, Reportable (fun _ => True) result) ∧
      (c.setAll items ts).2.store.Sound := by
  refine ⟨length_forEach _ c items,
    forEach_keeps (P := fun c : Cache Host => c.store.Sound) ?_ hc⟩
  intro c item hitem hc
  exact sound_set hc item.1 hts (hitems item hitem)

end Cache

/-! ### The service -/

namespace Service

open Reply (Fits AllFit allFit_iff maxItems)

/-- What the clients share is in bounds. -/
structure Sound (s : Service) : Prop where
  /-- The store. -/
  store : s.cache.store.Sound
  /-- The log of slow commands. -/
  slowLog : SlowLog.Sound s.slowLog

variable {s : Service} {command : Command} {connected : Nat}

theorem sound_mapStore (hs : s.Sound) {f : Host → Host}
    (hf : ∀ h : Host, h.Sound → (f h).Sound) : (s.mapStore f).Sound :=
  ⟨hf _ hs.store, hs.slowLog⟩

theorem sound_reject (hs : s.Sound) : s.reject.Sound := ⟨hs.store, hs.slowLog⟩

theorem sound_refuse (hs : s.Sound) (r : Command.Refusal) : (s.refuse r).2.Sound := by
  unfold refuse
  dsimp only
  split
  · exact sound_reject hs
  · exact hs

theorem sound_run (hs : s.Sound) (hcommand : command.Proper) (connected : Nat) :
    (s.run connected command).2.Sound := by
  cases command with
  | ping => exact hs
  | set key value ts =>
    exact ⟨(Cache.sound_set hs.store key hcommand.1 hcommand.2).2, hs.slowLog⟩
  | invalidate key ts =>
    exact ⟨(Cache.sound_invalidate hs.store key hcommand).2, hs.slowLog⟩
  | get key =>
    exact ⟨(Cache.sound_get hs.store key).2, hs.slowLog⟩
  | setAll items ts =>
    exact ⟨(Cache.sound_setAll hs.store hcommand.1 hcommand.2.2).2.2, hs.slowLog⟩
  | inspect key => exact ⟨Host.sound_inspect hs.store key, hs.slowLog⟩
  | info => exact hs
  | slowLog count => exact hs
  | clearSlowLog => exact ⟨hs.store, Nat.zero_le _, by simp [run]⟩

/-- Nothing bounds the texts that the command asks for, but they can be put in a reply. -/
def Presentable (s : Service) (connected : Nat) : Command → Prop
  | .inspect key => s.cache.store.Showable key
  | .info => s.Countable connected
  | .ping | .set .. | .invalidate .. | .get _ | .setAll .. | .slowLog _ | .clearSlowLog => True

theorem fits_run (hs : s.Sound) (hcommand : command.Proper)
    (hshown : s.Presentable connected command) : (s.run connected command).1.Fits 0 := by
  cases command with
  | ping => exact (by decide : (Bytes.ofString "PONG").OneLine)
  | set key value ts =>
    exact fits_writeReply (Cache.sound_set hs.store key hcommand.1 hcommand.2).1 0
  | invalidate key ts =>
    exact fits_writeReply (Cache.sound_invalidate hs.store key hcommand).1 0
  | get key =>
    exact fits_readReply (Cache.sound_get hs.store key).1 0
  | setAll items ts =>
    obtain ⟨hlength, hresults, -⟩ := Cache.sound_setAll hs.store hcommand.1 hcommand.2.2
    have hcount : (((s.cache.setAll items ts).1.map writeReply).length : Int) ≤ maxItems := by
      rw [List.length_map, hlength]
      exact hcommand.2.1
    refine ⟨hcount, fun _ => by decide, ?_⟩
    rw [allFit_iff]
    intro reply hreply
    obtain ⟨result, hmem, rfl⟩ := List.mem_map.1 hreply
    exact fits_writeReply (hresults result hmem) 1
  | inspect key => exact fits_recordReply (Host.reportable_inspect hs.store hshown)
  | info => exact small_info hshown
  | slowLog count => exact SlowLog.fits_newest hs.slowLog count
  | clearSlowLog => exact (by decide : (Bytes.ofString "OK").OneLine)

theorem fits_refuse (s : Service) (r : Command.Refusal) : (s.refuse r).1.Fits 0 := by
  have hmessage : r.message.OneLine := by
    rcases r with _ | _ | _ | verb
    · decide
    · decide
    · decide
    · cases verb <;> decide
  exact Bytes.OneLine.append (by decide) hmessage (.inl (by decide))

/-! ### Requests -/

/-- The service as it meets the command of a request. -/
def counted (s : Service) : Service := { s with requests := s.requests + 1 }

/-- The command of the request, if it has one, asks for nothing that cannot be put in a reply. -/
def Answerable (s : Service) (connected : Nat) (words : List Bytes) : Prop :=
  ∀ command, Command.parse words = .ok command → s.counted.Presentable connected command

variable {request : Request}

theorem sound_noteLatency (hs : s.Sound) {words : List Bytes}
    (hwords : ∀ word ∈ words, word.Small) (started : Instant) :
    (s.noteLatency words started).Sound := by
  unfold noteLatency
  split
  · exact hs
  · next name hname =>
    refine ⟨hs.store, SlowLog.sound_record hs.slowLog ?_ _ _⟩
    have hsmall := hwords name (List.mem_of_mem_head? hname)
    simpa [Bytes.Small, Bytes.upper] using hsmall

/-- **Serving a request keeps what the clients share sound.** -/
theorem sound_answer (hs : s.Sound) (hrequest : request.Bounded) (connected : Nat) :
    (s.answer connected request.words).2.Sound := by
  have hcounted : s.counted.Sound := ⟨hs.store, hs.slowLog⟩
  refine sound_noteLatency ?_ (Request.small_of_bounded hrequest).2 _
  cases hparse : Command.parse request.words with
  | error refusal => exact sound_refuse hcounted refusal
  | ok command => exact sound_run hcounted (Command.proper_of_parse hrequest hparse) connected

/-- **The reply to a request can be read back.** -/
theorem fits_answer (hs : s.Sound) (hrequest : request.Bounded)
    (hanswerable : s.Answerable connected request.words) :
    (s.answer connected request.words).1.Fits 0 := by
  have hcounted : s.counted.Sound := ⟨hs.store, hs.slowLog⟩
  unfold answer
  dsimp only
  cases hparse : Command.parse request.words with
  | error refusal => exact fits_refuse s.counted refusal
  | ok command =>
    exact fits_run hcounted (Command.proper_of_parse hrequest hparse) (hanswerable command hparse)

end Service

end CoherentCache
