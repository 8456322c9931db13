import CoherentCache.Proofs.MemoryStore.Tidy
import CoherentCache.Proofs.Remote.Reaches
import CoherentCache.Proofs.Resp.Bounds

/-!
# What a remote store says can be passed on

Failures are worded in one line, and what is read on a connection is no larger than a reader
accepts.  So all that a remote store answers can be put in a reply, except that a corrupt record is
reported with its key, in which anything may stand.

* `StoreError.Reportable` : a result that can be put in a reply.
* `RemoteStore.Linked.Sound` : the host name stands on one line, and so does what was read so far.
* `RemoteStore.Linked.Reaches.sound` : **steps keep it so.**
* `RemoteStore.Linked.reportable_execute` : **the result of every operation can be put in a reply.**
* `RemoteStore.Linked.reportable_inspect` : so can that of a look at a record that is `Showable`.
-/

namespace CoherentCache

/-! ### Texts on one line -/

/-- Two texts with a separator between them that has no part in a line end. -/
theorem Bytes.OneLine.join {s t : Bytes} (hs : s.OneLine) (separator : Bytes) (ht : t.OneLine)
    (hseparator : separator.OneLine) (hhead : separator.head? ≠ some 10)
    (hlast : ∃ b, b ≠ 13 ∧ separator.getLast? = some b) : (s ++ separator ++ t).OneLine := by
  obtain ⟨b, hb, hlast⟩ := hlast
  refine (hs.append hseparator (.inr hhead)).append ht (.inl ?_)
  rw [List.getLast?_append, hlast]
  simpa using hb

theorem SystemError.oneLine_message (e : SystemError) : e.message.OneLine := by
  cases e <;> decide

theorem ResolverError.oneLine_message (e : ResolverError) : e.message.OneLine := by
  cases e <;> decide

theorem Record.Fault.oneLine_message (f : Fault) : f.message.OneLine := by
  rcases f with ⟨⟨⟩⟩ | ⟨⟨⟩⟩ | ⟨⟨⟩⟩ | ⟨⟨⟩⟩ | _ | _ <;> decide

namespace StoreError

/-- The result can be put in a reply: a failure is worded in one line, and anything else has the
property. -/
def Reportable {α : Type} (P : α → Prop) : Except StoreError α → Prop
  | .error e => e.message.OneLine
  | .ok a => P a

theorem oneLine_corruptRecord {key : Bytes} (h : key.OneLine) (f : Record.Fault) :
    (corruptRecord key f).message.OneLine :=
  h.join (Bytes.ofString ": ") f.oneLine_message (by decide) (by decide) ⟨32, by decide, by decide⟩

end StoreError

/-! ### Connections -/

theorem Network.oneLine_reach {n : Network} {address : Bytes} {port : Int} {timeout : UInt64}
    {fault : ConnectFault} (h : (n.reach address port timeout).1 = .error fault) :
    fault.message.OneLine := by
  have hlabel (label : Bytes) (e : SystemError) (hline : label.OneLine)
      (hlast : label.getLast? ≠ some 13) : (label ++ e.message).OneLine :=
    hline.append e.oneLine_message (.inl hlast)
  unfold reach at h
  dsimp only at h
  split at h <;> cases h
  · exact hlabel _ _ (by decide) (by decide)
  · exact hlabel _ _ (by decide) (by decide)
  · exact hlabel _ _ (by decide) (by decide)
  · decide
  · exact hlabel _ _ (by decide) (by decide)
  · exact hlabel _ _ (by decide) (by decide)

theorem Network.oneLine_reachFirst (port : Int) (timeout : UInt64) (addresses : List Bytes)
    (n : Network) : ∀ fault ∈ (reachFirst port timeout addresses n).1.1, fault.message.OneLine := by
  induction addresses generalizing n with
  | nil => simp [reachFirst]
  | cons address rest ih =>
    rw [reachFirst]
    split
    · simp
    · next first n' hreach =>
      have herror : (n.reach address port timeout).1 = .error first := by rw [hreach]
      intro fault hfault
      rcases List.mem_cons.1 hfault with rfl | hrest
      · exact oneLine_reach herror
      · exact ih n' fault hrest

namespace Connection

theorem oneLine_faultsMessage {faults : List ConnectFault}
    (h : ∀ fault ∈ faults, fault.message.OneLine) : (faultsMessage faults).OneLine := by
  unfold faultsMessage
  cases hlast : faults.getLast? with
  | none => exact List.isChain_nil
  | some fault => exact h fault (List.mem_of_getLast? hlast)

theorem oneLine_connect (c : Connection) {target : RemoteSettings} (h : target.host.OneLine)
    (n : Network) : (faultsMessage (c.connect target n).1).OneLine := by
  refine oneLine_faultsMessage ?_
  have hreach := Network.oneLine_reachFirst target.port target.connectTimeout
  unfold connect
  dsimp only
  split
  · next e _ =>
    intro fault hfault
    obtain rfl := List.mem_singleton.1 hfault
    have hlabel : (Bytes.ofString "resolve " ++ target.host).OneLine :=
      Bytes.OneLine.append (by decide) h (.inl (by decide))
    exact hlabel.join (Bytes.ofString ": ") e.oneLine_message (by decide) (by decide)
      ⟨32, by decide, by decide⟩
  · next count _ =>
    have hfaults := hreach (Network.addressesOf count)
      ((c.close n).2.note (.resolve target.host.untilZero (Decimal.ofInt target.port)))
    split
    · next heq => rwa [heq] at hfaults
    · next heq => rwa [heq] at hfaults

theorem Failure.oneLine_message (f : Failure) : f.message.OneLine := by
  rcases f with _ | e | (_ | e) | _ | _ | e
  · decide
  · cases e <;> decide
  · decide
  · cases e <;> decide
  · decide
  · decide
  · cases e <;> decide

theorem sound_connect (c : Connection) (target : RemoteSettings) (n : Network) :
    (c.connect target n).2.1.replies.Sound := by
  unfold connect
  dsimp only
  split
  · exact ReplyStream.sound_empty
  · split <;> exact ReplyStream.sound_empty

/-- Waiting for a reply gives one that can be put on the wire. -/
theorem sound_wait (receipts : List Receipt) {replies : ReplyStream} (h : replies.Sound)
    (n : Network) :
    (wait n replies receipts).replies.Sound ∧
      ∀ reply, (wait n replies receipts).result = .ok reply → reply.Fits 0 := by
  induction receipts generalizing n replies with
  | nil =>
    unfold wait
    split
    · next reply replies' hnext =>
      obtain ⟨hsound, hfits⟩ := ReplyStream.fits_of_next h hnext
      refine ⟨hsound, ?_⟩
      rintro reply ⟨⟩
      exact hfits _ rfl
    · next replies' hnext =>
      have hsound := (ReplyStream.fits_of_next h hnext).1
      split <;> exact ⟨hsound, by rintro reply ⟨⟩⟩
  | cons receipt rest ih =>
    unfold wait
    split
    · next reply replies' hnext =>
      obtain ⟨hsound, hfits⟩ := ReplyStream.fits_of_next h hnext
      refine ⟨hsound, ?_⟩
      rintro reply ⟨⟩
      exact hfits _ rfl
    · next replies' hnext =>
      have hsound := (ReplyStream.fits_of_next h hnext).1
      split
      · exact ⟨hsound, by rintro reply ⟨⟩⟩
      · cases receipt with
        | data bytes => exact ih (hsound.feed bytes) _
        | pause micros => exact ih hsound _
        | ended => exact ⟨hsound, by rintro reply ⟨⟩⟩
        | fails e =>
          by_cases he : e = .interrupted
          · simp only [he, if_true]
            exact ih hsound _
          · simp only [he, if_false]
            exact ⟨hsound, by rintro reply ⟨⟩⟩

theorem sound_call {c : Connection} (h : c.replies.Sound) (n : Network) (request : List Bytes) :
    (c.call n request).2.1.replies.Sound ∧
      ∀ reply, (c.call n request).1 = .ok reply → reply.Fits 0 := by
  unfold call
  split
  · exact ⟨h, by rintro reply ⟨⟩⟩
  · next link _ =>
    dsimp only
    split
    · exact ⟨ReplyStream.sound_empty, by rintro reply ⟨⟩⟩
    · have hwait := sound_wait link.receipts h
      split
      · next reply hresult =>
        obtain ⟨hsound, hfits⟩ := hwait _
        refine ⟨hsound, ?_⟩
        rintro reply ⟨⟩
        exact hfits _ hresult
      · exact ⟨ReplyStream.sound_empty, by rintro reply ⟨⟩⟩

end Connection

/-! ### The store -/

namespace RemoteStore

/-- What came of calling a procedure can be put in a reply. -/
def Worded : Except Cause Reply → Prop
  | .error cause => cause.message.OneLine
  | .ok reply => reply.Fits 0

namespace Linked

/-- What was read so far is in bounds, and the host name stands on one line. -/
structure Sound (l : Linked) : Prop where
  /-- What was read of the next reply. -/
  replies : l.store.connection.replies.Sound
  /-- The host that failures to connect are reported with. -/
  host : l.store.settings.host.OneLine

variable {Q : List Bytes → Prop} {l m : Linked} {p : Procedure} {key : Bytes}
  {arguments request : List Bytes} {reply : Reply} {cause : Cause}

/-- **Steps keep what was read in bounds.** -/
theorem Reaches.sound (h : Reaches Q l m) (hl : l.Sound) : m.Sound := by
  refine ⟨?_, h.settings_eq ▸ hl.host⟩
  induction h with
  | refl => exact hl.replies
  | keep _ _ connection _ ih => rwa [connection]
  | connect _ _ ih => exact Connection.sound_connect ..
  | call _ _ ih => exact (Connection.sound_call ih _ _).1

theorem fits_call (hl : l.Sound) (h : (l.call request).1 = .ok reply) : reply.Fits 0 :=
  (Connection.sound_call hl.replies _ _).2 reply h

theorem oneLine_load (hl : l.Sound) (h : (l.load p).1 = .error cause) : cause.message.OneLine := by
  unfold load at h
  split at h
  · next failure m heq =>
    cases h
    exact failure.oneLine_message
  · cases h
  · next reply m _ heq =>
    cases h
    have hfits : reply.Fits 0 := fits_call hl (by rw [heq])
    cases reply with
    | error text =>
      simp only [Reply.Fits] at hfits
      exact Bytes.OneLine.append (by decide) hfits (.inl (by decide))
    | _ => exact (by decide : (Bytes.ofString "SCRIPT LOAD failed: bad reply").OneLine)

theorem oneLine_loadAll (hl : l.Sound) (h : l.loadAll.1 = .error cause) :
    cause.message.OneLine := by
  obtain ⟨k, p, hk, -, hcause⟩ := loadAll_spec l
  exact oneLine_load (hk.sound hl) (hcause cause h)

theorem oneLine_connect (hl : l.Sound) {faults : List ConnectFault}
    (h : l.connect.1 = .error faults) : (Connection.faultsMessage faults).OneLine := by
  unfold connect at h
  split at h
  · cases h
  · dsimp only at h
    split at h
    · cases h
    · cases h
      exact Connection.oneLine_connect _ hl.host _

theorem oneLine_ready (hl : l.Sound) (h : l.ready.1 = .error cause) : cause.message.OneLine := by
  have hconnect := (reaches_connect (Q := IsLoad) l).sound hl
  unfold ready at h
  split at h
  · next heq =>
    cases h
    exact oneLine_connect hl (by rw [heq])
  · next heq =>
    rw [heq] at hconnect
    unfold handles at h
    split at h
    · cases h
    · split at h
      · next heq =>
        cases h
        exact oneLine_loadAll hconnect (by rw [heq])
      · cases h

theorem worded_callOnce (hl : l.Sound) (p : Procedure) (key : Bytes) (arguments : List Bytes) :
    Worded (l.callOnce p key arguments).1 := by
  rcases callOnce_spec l p key arguments with ⟨cause, hready, heq⟩ | ⟨handle, heq⟩
  · rw [heq]
    exact oneLine_ready hl hready
  · have hready := l.reaches_ready.sound hl
    rw [heq]
    cases hresult : (l.ready.2.call (Linked.request handle key arguments)).1 with
    | error failure => exact failure.oneLine_message
    | ok reply => exact fits_call hready hresult

theorem worded_attempt (hl : l.Sound) (reloaded : Bool) (p : Procedure) (key : Bytes)
    (arguments : List Bytes) : Worded (l.attempt reloaded p key arguments).1 := by
  obtain ⟨m, hm, hresult, -⟩ := attempt_spec l reloaded p key arguments
  rw [hresult]
  refine worded_callOnce ?_ p key arguments
  rcases hm with rfl | ⟨-, rfl⟩
  · exact hl
  · have hcall := (reaches_callOnce l p key arguments).sound hl
    exact ⟨hcall.replies, hcall.host⟩

theorem oneLine_givenUp {target : RemoteSettings} (hhost : target.host.OneLine)
    (hcause : cause.message.OneLine) (unsure : Bool) :
    (givenUp target cause unsure).message.OneLine := by
  have hport : Bytes.OneLine (58 :: Decimal.ofInt target.port) :=
    Bytes.OneLine.append (List.isChain_singleton 58) (Reply.Reader.oneLine_ofInt _)
      (.inl (by decide))
  have hlabel : (Bytes.ofString "redis " ++ target.host).OneLine :=
    Bytes.OneLine.append (by decide) hhost (.inl (by decide))
  have htext := (hlabel.append hport (.inr (by simp))).join (Bytes.ofString ": ") hcause
    (by decide) (by decide) ⟨32, by decide, by decide⟩
  refine htext.append ?_ (.inr ?_) <;> cases unsure <;> decide

/-- **What comes of a run of a procedure can be put in a reply.** -/
theorem reportable_run (hl : l.Sound) (p : Procedure) (key : Bytes) (arguments : List Bytes) :
    StoreError.Reportable (Reply.Fits 0) (l.run p key arguments).1 := by
  rw [run_eq]
  obtain ⟨k, unsure, reloaded, hk, hend⟩ :=
    runFrom_spec l.store.settings.maxRetries false false l.started p key arguments
  have hsound := (l.reaches_started.trans hk.reaches).sound hl
  have hworded := worded_attempt hsound reloaded p key arguments
  have hreach := (reaches_attempt k reloaded p key arguments).sound hsound
  rcases hend with ⟨reply, r, m, hlast, heq⟩ | ⟨cause, r, m, hlast, heq⟩
  · rw [hlast] at hworded
    rw [heq]
    exact hworded
  · rw [hlast] at hworded hreach
    rw [heq, countCause_settings]
    exact oneLine_givenUp hreach.host hworded _

theorem oneLine_unavailable {text : Bytes} (h : text.OneLine) :
    (unavailable text).message.OneLine :=
  Bytes.OneLine.append (by decide) h (.inl (by decide))

theorem oneLine_refusal {text : Bytes} (h : text.OneLine) : (refusal text).message.OneLine := by
  unfold refusal
  split
  · exact h
  · exact oneLine_unavailable h

theorem reportable_answerOf (op : Operation) (h : reply.Fits 0) :
    StoreError.Reportable (fun answer => ∀ value ∈ answer.value, value.Small)
      (answerOf op reply) := by
  unfold answerOf
  split
  · intro value hvalue
    cases hvalue
    simpa only [Reply.Fits] using h
  · intro value hvalue
    cases hvalue
  · exact oneLine_unavailable (by decide)
  · intro value hvalue
    cases hvalue
  · exact oneLine_unavailable (by decide)

/-- **The result of every operation can be put in a reply.** -/
theorem reportable_execute (hl : l.Sound) (key : Bytes) (op : Operation) :
    StoreError.Reportable (fun answer => ∀ value ∈ answer.value, value.Small)
      (l.execute key op).1 := by
  have hrun := reportable_run hl (callOf l.store.settings.retention op).1 key
    (callOf l.store.settings.retention op).2
  unfold execute
  dsimp only
  split
  · next heq => rwa [heq] at hrun
  · next heq =>
    rw [heq] at hrun
    simp only [StoreError.Reportable, Reply.Fits] at hrun
    exact oneLine_refusal hrun
  · next heq =>
    rw [heq] at hrun
    exact reportable_answerOf op hrun

/-! ### Records that are shown -/

/-- A text among the fields of a record is one of the texts of the reply. -/
theorem exists_of_go (fields : Fields) (items : List Reply) {name text : Bytes}
    (h : (fieldsOf.go fields items)[name]? = some text) :
    fields[name]? = some text ∨ ∃ item ∈ items, item.text = text := by
  -- A later field takes the place of an earlier one of the same name.
  fun_induction fieldsOf.go fields items with
  | case1 fields key item rest ih =>
    rcases ih h with hinsert | ⟨found, hfound, htext⟩
    · rw [Std.TreeMap.getElem?_insert] at hinsert
      split at hinsert
      · exact .inr ⟨item, by simp, Option.some.inj hinsert⟩
      · exact .inl hinsert
    · exact .inr ⟨found, by simp [hfound], htext⟩
  | case2 fields items hshort => exact .inl h

/-- The reply holds no line that is longer than a bulk string may be. -/
def ShortLines (items : List Reply) : Prop :=
  ∀ text, .simple text ∈ items ∨ .error text ∈ items → text.Small

theorem carries_of_ofFields {items : List Reply} {depth : Nat} {record : Record}
    (hfits : Reply.AllFit depth items) (hlines : ShortLines items)
    (h : Record.ofFields (fieldsOf items) = .ok record) : record.Carries Bytes.Small := by
  intro value hvalue
  rw [Record.value_of_ofFields h] at hvalue
  rcases exists_of_go ∅ items hvalue with hempty | ⟨item, hitem, rfl⟩
  · simp at hempty
  · have hitemFits := Reply.allFit_iff.1 hfits item hitem
    cases item with
    | simple text => exact hlines text (.inl hitem)
    | error text => exact hlines text (.inr hitem)
    | bulk data => exact hitemFits
    | integer _ | null | array _ => exact (by decide : Bytes.Small [])

/-- What an observer is told of the key can be put in a reply: the key can if its record is corrupt,
and the lines among its fields are not too long. -/
structure Showable (l : Linked) (key : Bytes) : Prop where
  /-- The key is part of what is said of a corrupt record. -/
  corrupt : ∀ fault, (l.inspect key).1 = .error (.corruptRecord key fault) → key.OneLine
  /-- The remote store may word fields as lines, which nothing bounds. -/
  lines : ∀ items left, (l.run .inspect key []).1 = .ok (.array [.array items, .integer left]) →
    ShortLines items

/-- **What an observer is told can be put in a reply**, except for what is `Showable` or not. -/
theorem reportable_inspect (hl : l.Sound) (h : l.Showable key) :
    StoreError.Reportable
      (fun shown => ∀ snapshot ∈ shown,
        snapshot.record.Storable ∧ snapshot.record.Carries Bytes.Small)
      (l.inspect key).1 := by
  have hrun := reportable_run hl .inspect key []
  obtain ⟨hcorrupt, hlines⟩ := h
  unfold inspect at hcorrupt ⊢
  split
  · next heq => rwa [heq] at hrun
  · next heq =>
    rw [heq] at hrun
    simp only [StoreError.Reportable, Reply.Fits] at hrun
    exact oneLine_refusal hrun
  · rintro snapshot ⟨⟩
  · next items left m hnonempty heq =>
    rw [heq] at hrun
    simp only [heq] at hcorrupt
    split
    · next fault hfault =>
      simp only [hfault] at hcorrupt
      exact StoreError.oneLine_corruptRecord (hcorrupt fault rfl) fault
    · next record hrecord =>
      have hshort : ShortLines items := hlines items left (by rw [heq])
      simp only [StoreError.Reportable, Reply.Fits, Reply.AllFit] at hrun
      rintro snapshot ⟨⟩
      exact ⟨Record.storable_of_ofFields hrecord,
        carries_of_ofFields hrun.2.2.1.2.2 hshort hrecord⟩
  · exact oneLine_unavailable (by decide)

end Linked

end RemoteStore

end CoherentCache
