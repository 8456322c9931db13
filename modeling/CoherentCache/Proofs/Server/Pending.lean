import CoherentCache.Proofs.Server.Run
import Mathlib.Data.List.DropRight

/-!
# How much may wait for a client

The bytes that wait for a client are compared with the bound after a request that has a name, and
the client is dropped when they are too many.  They are not compared with it after a line that
starts no request, nor after a request without words.  So the bound is kept up to the refusals of
such requests, as many of them as came in a row, and nothing limits how many these are.

* `Exchange.isUnchecked`, `Server.surplus` : the exchanges that the bound is not heeded for.
* `Server.pending_le` : **what waits for a client stays within the bound and its latest unchecked
  replies.**
* `Server.outgrows_bound` : a client that reads nothing and for which more waits than the bound.
-/

namespace CoherentCache

/-- The bytes that wait for the client are not compared with the bound after the exchange. -/
def Exchange.isUnchecked (e : Exchange) : Bool :=
  e.request.words = Request.malformed.words || e.request.words = []

namespace Server

variable {settings : Settings} {maxPending left waiting : Nat} {requests : RequestStream}
  {s : Service} {es : List Exchange} {e : Exchange} {served : Served}

/-- How many bytes the replies have that were appended since the bound was heeded last. -/
def surplus (es : List Exchange) : Nat := (replyBytes (es.rtakeWhile Exchange.isUnchecked)).length

theorem surplus_concat_of_unchecked (es : List Exchange) (h : e.isUnchecked = true) :
    surplus (es ++ [e]) = surplus es + e.reply.encode.length := by
  rw [surplus, List.rtakeWhile_concat_pos _ _ _ h, replyBytes_append, List.length_append]
  simp [surplus, replyBytes]

theorem length_replyBytes_cons (e : Exchange) (es : List Exchange) :
    (replyBytes (e :: es)).length = e.reply.encode.length + (replyBytes es).length := by
  simp [replyBytes]

/-- A reply keeps to the bound if it is unchecked, or if it is found to. -/
theorem within_concat (h : waiting ≤ maxPending + surplus es)
    (he : e.isUnchecked = true ∨ waiting + e.reply.encode.length ≤ maxPending) :
    waiting + e.reply.encode.length ≤ maxPending + surplus (es ++ [e]) := by
  rcases he with he | he
  · rw [surplus_concat_of_unchecked es he]
    omega
  · exact Nat.le_trans he (Nat.le_add_right ..)

/-- **Serving requests keeps to the bound** and to what is unchecked, unless it drops the client. -/
theorem length_served_le (h : Serving maxPending left waiting requests s es served)
    {before : List Exchange} (hbefore : waiting ≤ maxPending + surplus before)
    (hopen : served.overflow = false) :
    waiting + (replyBytes es).length ≤ maxPending + surplus (before ++ es) := by
  -- The exchanges of the pass join those before it one by one, each with its reply.
  induction h generalizing before with
  | share | used => simpa [replyBytes] using hbefore
  | malformed e _ hwords =>
    have hunchecked : e.isUnchecked = true := by simp [Exchange.isUnchecked, hwords]
    simpa [replyBytes] using within_concat hbefore (.inl hunchecked)
  | overflow => cases hopen
  | more e _ hwithin _ ih =>
    have he := hwithin.imp_left fun hwords : e.request.words = [] =>
      (by simp [Exchange.isUnchecked, hwords] : e.isUnchecked = true)
    have hrest := ih (within_concat hbefore he) hopen
    rw [List.append_assoc, List.singleton_append] at hrest
    rwa [length_replyBytes_cons, ← Nat.add_assoc]

theorem pending_invariant (settings : Settings) :
    Client.Invariant settings
      (fun c es _ => c.pending.length ≤ settings.maxPending + surplus es) fun _ _ => True := by
  refine ⟨fun _ => Nat.zero_le _, ?_⟩
  intro c es sent connected ready s hc t es' sent'
  refine ⟨trivial, fun hopen => ?_⟩
  have hsplits : t.events.flatMap ServerEvent.data ++ t.client.pending = c.pending ++
      replyBytes (visit settings connected (ready.incoming c.number) c s).exchanges :=
    turn_splits settings connected ready c s
  have hlength := congrArg List.length hsplits
  rw [List.length_append, List.length_append] at hlength
  have hreceived := closing_receive hopen
  have hserved : c.pending.length +
      (replyBytes (visit settings connected (ready.incoming c.number) c s).exchanges).length ≤
        settings.maxPending + surplus es' := by
    unfold es'
    cases hincoming : ready.incoming c.number with
    | none => simpa [visit, replyBytes] using hc
    | some incoming =>
      cases incoming with
      | data bytes =>
        rw [hincoming] at hreceived
        exact length_served_le (serving ..) hc hreceived
      | ended => simpa [visit, replyBytes] using hc
      | broken => simpa [visit, replyBytes] using hc
  omega

variable {host : Host} {acts : List Act} {log : List Visit} {notices : Notices} {server : Server}
  {c : Client}

/-- **What waits for a client stays within the bound**, apart from the replies to the requests that
the client sent last without a name among them.  So it is for every client that is still connected,
after every act of every run. -/
theorem pending_le (hrun : Runs (start settings host) acts log notices server)
    (hc : c ∈ server.clients) :
    c.pending.length ≤ settings.maxPending + surplus (exchangesWith c.number log) :=
  (keeps_runs (pending_invariant settings) hrun).client c hc

/-! ### A client that reads nothing -/

/-- The settings of a server with the smallest bound that a settings file can ask for. -/
def tightSettings : Settings := { maxPending := 4096 }

/-- A client connects, sends 64 requests without words in each of four passes, and reads nothing. -/
def sendsEmpty : List Act :=
  .pass { Ready.idle with arrival := some .client } ::
    List.replicate 4 (.pass {
      arrival := none
      incoming := fun _ => some (.data (List.replicate 64 (Wire.command [])).flatten)
      writable := fun _ => false
      sending := fun _ => none })

/-- A server with these settings, after that. -/
def unread : Server := (inMemory tightSettings).after sendsEmpty

theorem exists_unread : ∃ c ∈ unread.clients, c.pending.length = 5120 := by
  have hlengths : unread.clients.map (·.pending.length) = [5120] := by decide +kernel
  rw [← List.mem_map, hlengths]
  exact List.mem_singleton_self 5120

/-- All that waits for it is unchecked. -/
theorem pending_le_unread :
    ∃ c ∈ unread.clients, c.pending.length = 5120 ∧
      c.pending.length ≤ tightSettings.maxPending +
        surplus (exchangesWith c.number ((inMemory tightSettings).history sendsEmpty)) := by
  obtain ⟨c, hc, hlength⟩ := exists_unread
  exact ⟨c, hc, hlength, pending_le (runs_after (inMemory tightSettings) sendsEmpty) hc⟩

/-- **More waits for a client than the bound**, and it is still connected. -/
theorem outgrows_bound :
    Host.ofSettings tightSettings (RemoteStore.Linked.networkOf []) =
        .ok (memoryHost tightSettings) ∧
      ∃ c ∈ unread.clients, tightSettings.maxPending < c.pending.length := by
  refine ⟨rfl, ?_⟩
  obtain ⟨c, hc, hlength⟩ := exists_unread
  refine ⟨c, hc, ?_⟩
  rw [hlength]
  decide

end Server

end CoherentCache
