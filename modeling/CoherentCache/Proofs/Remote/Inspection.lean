import CoherentCache.Proofs.MemoryStore.Timeline
import CoherentCache.Proofs.Remote.Outcome
import CoherentCache.Proofs.Resp.RoundTrip

/-!
# What an observer is shown, near and far

The fields of a record lie in a map when the store is in memory, and arrive as a list of names and
texts when it is remote.  An observer is shown the same in both cases: the same record, or the same
error when there is none in the fields.  The list may be in any order and may hold fields of
others.  The remote store adds how long the record will be kept.

* `RemoteStore.Linked.listing` : the reply that lists fields.
* `RemoteStore.Linked.fieldsOf_names` : **the list gives back the fields.**
* `RemoteStore.Linked.Agree` : two answers to an observer agree.
* `Connection.wait_of_pieces`, `RemoteStore.Linked.run_of_hears` : a reply that arrives in pieces of
  any size is what a run of a procedure ends with.
* `RemoteStore.Linked.inspect_agrees` : **a remote store shows what one in memory shows.**
-/

namespace CoherentCache

/-! ### Fields in a list -/

namespace Record

/-- A list that has the fields of a map, each once, stands for the map. -/
theorem getElem?_ofList {pairs : List (Bytes × Bytes)} {fields : Fields}
    (hnames : (pairs.map Prod.fst).Nodup)
    (h : ∀ name text, (name, text) ∈ pairs ↔ fields[name]? = some text) (name : Bytes) :
    (Std.TreeMap.ofList pairs : Fields)[name]? = fields[name]? := by
  cases hfound : fields[name]? with
  | some text =>
    have hdistinct : pairs.Pairwise fun a b => ¬ compare a.1 b.1 = .eq := by
      refine (List.pairwise_map.1 hnames).imp fun hne => ?_
      rwa [Std.compare_eq_iff_eq]
    exact Std.TreeMap.getElem?_ofList_of_mem (Std.compare_eq_iff_eq.2 rfl) hdistinct
      ((h name text).2 hfound)
  | none =>
    have hmissing : name ∉ pairs.map Prod.fst := by
      intro hmem
      obtain ⟨⟨_, text⟩, hpair, rfl⟩ := List.mem_map.1 hmem
      rw [(h _ text).1 hpair] at hfound
      cases hfound
    exact Std.TreeMap.getElem?_ofList_of_contains_eq_false (by simpa using hmissing)

end Record

/-! ### Replies that arrive in pieces -/

namespace Connection

open Reply

variable {reader last : Reader} {reply : Reply} {ahead rest : Bytes} {pieces : List Bytes}

/-- **A reply is waited for however it is cut into pieces.**  The pieces go on from what was read
and what was received before; what comes after them does not matter. -/
theorem wait_of_pieces (n : Network) (later : List Receipt)
    (h : reader.read (ahead ++ pieces.flatten) = (some reply, last, rest)) :
    (wait n ⟨reader, ahead⟩ (pieces.map .data ++ later)).result = .ok reply := by
  induction pieces generalizing n reader ahead with
  | nil =>
    rw [List.flatten_nil, List.append_nil] at h
    unfold wait
    simp only [ReplyStream.next, h]
  | cons piece pieces ih =>
    rw [Reader.read_eq] at h
    unfold wait
    simp only [ReplyStream.next]
    rw [Reader.read_eq]
    cases hread : Framing.read Reader.step (.start []) reader ahead with
    | mk found state =>
      obtain ⟨reader', ahead'⟩ := state
      cases found with
      | some early =>
        -- The reply was complete before this piece.
        rw [Framing.read_append_of_some hread] at h
        cases h
        rfl
      | none =>
        obtain ⟨rfl, -⟩ := Framing.scan_of_read_none hread
        rw [Framing.read_append_of_none hread, ← Reader.read_eq] at h
        have hwell : ReplyStream.malformed ⟨reader', []⟩ = false := by
          cases reader' with
          | malformed =>
            rw [Reader.read_eq, Framing.read_of_fixed fun _ => rfl] at h
            cases h
          | start _ | line _ _ _ | bulk _ _ _ => rfl
        simp only [hwell]
        exact ih _ h

end Connection

namespace RemoteStore

namespace Linked

variable {l : Linked} {key bytes : Bytes} {pairs : List (Bytes × Bytes)} {left : Int64}

/-- The reply to an observer that lists names with their texts, and says how long the key will be
kept. -/
def listing (pairs : List (Bytes × Bytes)) (left : Int64) : Reply :=
  .array [.array (pairs.flatMap fun p => [.bulk p.1, .bulk p.2]), .integer left]

/-- The names and texts are no more and no longer than a reader of replies accepts. -/
def Listable (pairs : List (Bytes × Bytes)) : Prop :=
  2 * (pairs.length : Int) ≤ Reply.maxItems ∧ ∀ p ∈ pairs, p.1.Small ∧ p.2.Small

instance (pairs : List (Bytes × Bytes)) : Decidable (Listable pairs) := by
  unfold Listable
  infer_instance

theorem fits_listing (h : Listable pairs) (left : Int64) : (listing pairs left).Fits 0 := by
  obtain ⟨hcount, hsmall⟩ := h
  have hlength : (pairs.flatMap fun p => [Reply.bulk p.1, .bulk p.2]).length = 2 * pairs.length := by
    simp [List.length_flatMap, Nat.mul_comm]
  have hitems : Reply.AllFit 2 (pairs.flatMap fun p => [Reply.bulk p.1, .bulk p.2]) := by
    refine Reply.allFit_iff.2 fun item hitem => ?_
    obtain ⟨p, hp, hitem⟩ := List.mem_flatMap.1 hitem
    rcases List.mem_pair.1 hitem with rfl | rfl
    · exact (hsmall p hp).1
    · exact (hsmall p hp).2
  simp only [listing, Reply.Fits, Reply.AllFit, and_true]
  refine ⟨by simp [Reply.maxItems], fun _ => by decide, ?_, fun _ => by decide, hitems⟩
  rw [hlength]
  omega

/-- **The list gives back the fields** that it was made of. -/
theorem fieldsOf_names (pairs : List (Bytes × Bytes)) :
    fieldsOf (pairs.flatMap fun p => [.bulk p.1, .bulk p.2]) = .ofList pairs := by
  have hgo (fields : Fields) :
      fieldsOf.go fields (pairs.flatMap fun p => [.bulk p.1, .bulk p.2]) =
        fields.insertMany pairs := by
    induction pairs generalizing fields with
    | nil => exact Std.TreeMap.insertMany_nil.symm
    | cons p pairs ih =>
      rw [Std.TreeMap.insertMany_cons]
      exact ih _
  rw [Std.TreeMap.ofList_eq_insertMany_empty]
  exact hgo ∅

/-! ### Being told -/

/-- The store is connected and knows the procedures, nothing was received that is not used up, the
request to look at the key will be sent in full, and these bytes will be received then, in pieces of
any size. -/
def Hears (l : Linked) (key bytes : Bytes) : Prop :=
  ∃ (handles : Handles) (sendings : List Sending) (pieces : List Bytes) (later : List Receipt),
    l.store.handles = some handles ∧
    l.store.connection = ⟨some ⟨sendings, pieces.map .data ++ later⟩, .empty⟩ ∧
    (Connection.deliver l.network.lastFailure sendings
      (Wire.command (request handles.inspect key []))).failure = none ∧
    pieces.flatten = bytes

theorem callOnce_of_hears {reply : Reply} {rest : Bytes} (hfits : reply.Fits 0)
    (h : l.Hears key (reply.encode ++ rest)) : (l.callOnce .inspect key []).1 = .ok reply := by
  obtain ⟨handles, sendings, pieces, later, hhandles, hconnection, hsent, hbytes⟩ := h
  have hopen : l.store.connection.isOpen = true := by
    rw [hconnection]
    rfl
  have hready : l.ready = (.ok handles, l) := by
    simp only [ready, connect, hopen, if_true, Linked.handles, hhandles]
  have hread : (Reply.Reader.start []).read ([] ++ pieces.flatten) =
      (some reply, .start [], rest) := by
    rw [List.nil_append, hbytes, Reply.read_encode reply [] rest hfits]
    rfl
  have hcall : (l.call (request handles.inspect key [])).1 = .ok reply := by
    simp only [call, Connection.call, hconnection, hsent, ReplyStream.empty]
    split
    · next found heq =>
      rw [Connection.wait_of_pieces _ _ hread] at heq
      cases heq
      rfl
    · next failure heq =>
      rw [Connection.wait_of_pieces _ _ hread] at heq
      cases heq
  simp only [callOnce, hready, Handles.of, hcall, Except.mapError]

/-- **A run of a procedure ends with the reply that arrives.** -/
theorem run_of_hears {reply : Reply} {rest : Bytes} (hfits : reply.Fits 0)
    (hknown : isUnknownHandle (.ok reply) = false) (h : l.Hears key (reply.encode ++ rest)) :
    (l.run .inspect key []).1 = .ok reply := by
  have hstarted : l.started.Hears key (reply.encode ++ rest) := h
  have hcall := callOnce_of_hears hfits hstarted
  have hattempt : (l.started.attempt false .inspect key []).1 = .ok reply := by
    simp only [attempt, hcall, hknown, Bool.false_and, Bool.false_eq_true, if_false]
  rw [run_eq]
  unfold runFrom
  split
  · next found _ _ heq =>
    rw [heq] at hattempt
    cases hattempt
    rfl
  · next heq =>
    rw [heq] at hattempt
    cases hattempt

/-! ### Agreement -/

/-- A store in memory and a remote store tell an observer the same: a record, which the remote store
will keep for so many milliseconds, or for ever if the number is negative, and the other one for
ever; or that the record is corrupt. -/
def Agree (left : Int64) : (near far : Except StoreError (Option Snapshot)) → Prop
  | .ok (some shown), far => shown.retention = none ∧
    far = .ok (some ⟨shown.record, if 0 ≤ left then some left.toUInt64 else none⟩)
  | .ok none, _ => False
  | .error e, far => e.kind = .corrupt ∧ far = .error e

/-- What is shown of a key after fields were put there. -/
theorem inspect_overwrite {m : MemoryStore} (hm : m.WellFormed) (now : Instant) (key : Bytes)
    (fields : Fields) :
    ((m.overwrite key fields).inspect now key).1 =
      match Record.ofFields fields with
      | .error fault => .error (.corruptRecord key fault)
      | .ok record => .ok (some ⟨record, none⟩) := by
  have hupdated := MemoryStore.updated_overwrite hm key fields
  rw [(MemoryStore.inspect_eq hupdated.wellFormed now key).1, MemoryStore.live?, hupdated.self,
    Slot.live_of_not_lapsed rfl]
  simp only [Slot.inspect, Slot.record]
  cases Record.ofFields fields <;> rfl

/-- What is shown of a key whose fields are listed. -/
theorem inspect_of_listing (hpairs : pairs ≠ [])
    (h : (l.run .inspect key []).1 = .ok (listing pairs left)) :
    (l.inspect key).1 =
      match Record.ofFields (.ofList pairs) with
      | .error fault => .error (.corruptRecord key fault)
      | .ok record =>
        .ok (some ⟨record, if 0 ≤ left then some left.toUInt64 else none⟩) := by
  obtain ⟨p, pairs, rfl⟩ := List.exists_cons_of_ne_nil hpairs
  have hfields := fieldsOf_names (p :: pairs)
  rw [List.flatMap_cons] at hfields
  cases hrun : l.run .inspect key [] with
  | mk result m =>
    rw [hrun] at h
    cases h
    simp only [inspect, hrun, listing, List.flatMap_cons, List.cons_append, List.nil_append,
      hfields] at hfields ⊢
    cases Record.ofFields (.ofList (p :: pairs)) <;> rfl

/-- **A remote store shows what one in memory shows.**  Let the fields of a key be any list of names
and texts with something in it, put into a store in memory in any state, or listed in the reply of
the remote store in that order, with any time that is left.  An observer is told the same by both.
The remote store is told of the listing when its wire form arrives, in pieces of any size and with
anything behind it, as long as it is not too much for a reader of replies.  And when the fields are
those that a record is written in, the record is what is shown. -/
theorem inspect_agrees (config : MemoryStore.Config) (events : List MemoryStore.Event)
    (now : Instant) (key : Bytes) (pairs : List (Bytes × Bytes)) (left : Int64)
    (hpairs : pairs ≠ []) :
    let near := ((((MemoryStore.empty config).after events).overwrite key (.ofList pairs)).inspect
      now key).1
    (∀ l : Linked, (l.run .inspect key []).1 = .ok (listing pairs left) →
      Agree left near (l.inspect key).1) ∧
    (∀ (l : Linked) (rest : Bytes), Listable pairs →
      l.Hears key ((listing pairs left).encode ++ rest) →
        (l.run .inspect key []).1 = .ok (listing pairs left)) ∧
    ∀ r : Record, r.Storable → (pairs.map Prod.fst).Nodup →
      (∀ name text, (name, text) ∈ pairs ↔ r.toFields[name]? = some text) →
        near = .ok (some ⟨r, none⟩) := by
  have hm : ((MemoryStore.empty config).after events).WellFormed :=
    MemoryStore.wellFormed_after (MemoryStore.wellFormed_empty config) events
  dsimp only
  rw [inspect_overwrite hm]
  refine ⟨fun l hrun => ?_, fun l rest hlistable hhears => ?_, fun r hr hnames hfields => ?_⟩
  · rw [inspect_of_listing hpairs hrun]
    cases Record.ofFields (.ofList pairs) with
    | error fault => exact ⟨rfl, rfl⟩
    | ok record => exact ⟨rfl, rfl⟩
  · exact run_of_hears (fits_listing hlistable left) rfl hhears
  · have hback : Record.ofFields (.ofList pairs) = .ok r :=
      (Record.ofFields_congr fun name _ => Record.getElem?_ofList hnames hfields name).trans
        (Record.ofFields_toFields hr)
    rw [hback]

/-- A record whose value looks like a line end and a reply, with its fields listed backwards; the
reply arrives cut within a line end, and with the next one behind it. -/
theorem inspect_agrees_backwards :
    let r : Record := ⟨some (Bytes.ofString "\r\n+OK\r\n"), ⟨-7, 5⟩, ⟨-7, 4⟩⟩
    let pairs := r.toFields.toList.reverse
    let wire := (listing pairs 1500).encode ++ Bytes.ofString "+OK\r\n"
    let l : Linked :=
      ⟨⟨{}, ⟨some ⟨[.takes 9], [.data (wire.take 17), .data (wire.drop 17)]⟩, .empty⟩,
        some ⟨[48], [49], [50], [51]⟩, {}⟩, networkOf []⟩
    (((MemoryStore.empty {}).overwrite [107] (.ofList pairs)).inspect ⟨0⟩ [107]).1 =
        .ok (some ⟨r, none⟩) ∧
      (l.inspect [107]).1 = .ok (some ⟨r, some 1500⟩) := by
  intro r pairs wire l
  have hnonempty : pairs ≠ [] := by decide
  obtain ⟨hagree, hheard, hshown⟩ := inspect_agrees {} [] ⟨0⟩ [107] pairs 1500 hnonempty
  have hr : r.Storable := by decide
  have hnames : (pairs.map Prod.fst).Nodup := by decide
  have hfields (name text : Bytes) : (name, text) ∈ pairs ↔ r.toFields[name]? = some text :=
    List.mem_reverse.trans Std.TreeMap.mem_toList_iff_getElem?_eq_some
  have hlistable : Listable pairs := by decide
  have hhears : l.Hears [107] wire :=
    ⟨⟨[48], [49], [50], [51]⟩, [.takes 9], [wire.take 17, wire.drop 17], [], rfl, rfl, by decide,
      by simp⟩
  have hnear := hshown r hr hnames hfields
  have hfar := hagree l (hheard l (Bytes.ofString "+OK\r\n") hlistable hhears)
  rw [hnear] at hfar
  exact ⟨hnear, hfar.2⟩

end Linked

end RemoteStore

end CoherentCache
