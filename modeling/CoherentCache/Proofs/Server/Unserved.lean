import CoherentCache.Proofs.Server.Run

/-!
# Requests that wait to be served

A server takes requests of a client only in a pass in which it reads from that client.  What is
left over then, because the client had its share of the pass or because a malformed line ended it,
lies in the stream until the client sends something else, however often the server passes by.

* `Server.unserved` : the requests of a client that were received and not served.
* `Server.served_iff_fed` : **a client with such requests is served in a pass if and only if the
  pass reads from it.**
* `Server.strands_request` : a client that sent all it has to send, and waits for a reply.
-/

namespace CoherentCache

namespace Server

variable {settings : Settings} {host : Host} {acts : List Act} {log : List Visit}
  {notices : Notices} {server : Server} {c : Client} {connected left waiting : Nat}
  {requests : RequestStream} {s : Service}

/-- The requests of the client that are complete in what was read from it, less those that were
taken. -/
def unserved (number : Nat) (log : List Visit) : List Request :=
  (Request.completeIn (receivedFrom number log)).drop (requestsOf number log).length

/-- A request that can be taken is served, if any are. -/
theorem Serving.ne_nil {maxPending : Nat} {es : List Exchange} {served : Served}
    {request : Request} {requests' : RequestStream}
    (h : Serving maxPending (left + 1) waiting requests s es served)
    (hnext : requests.next = (some request, requests')) : es ≠ [] := by
  cases h with
  | used hnone =>
    rw [hnone] at hnext
    cases hnext
  | malformed | overflow | more => exact List.cons_ne_nil _ _

/-- Whoever is connected is so when the pass has accepted another client. -/
theorem mem_accept (hc : c ∈ server.clients) (ready : Ready) :
    c ∈ (server.accept ready).2.clients := by
  rcases accept_cases server ready with ⟨service, -, haccept⟩ | haccept | haccept
  · rwa [haccept]
  · rwa [haccept]
  · rw [haccept]
    exact List.mem_cons_of_mem _ hc

/-- **A client with requests to serve is served in a pass if and only if the pass reads from it**,
and takes requests at all. -/
theorem served_iff_fed (hrun : Runs (start settings host) acts log notices server)
    (hc : c ∈ server.clients) (hwaiting : unserved c.number log ≠ []) (ready : Ready) :
    exchangesWith c.number (server.visitsOf (.pass ready)) ≠ [] ↔
      0 < settings.maxRequestsPerPass ∧ ∃ bytes, ready.incoming c.number = some (.data bytes) := by
  have htracks := tracks_runs Service.invariant_true (tracks_ofHost settings trivial) hrun
  have hsettings : server.settings = settings := settings_runs hrun
  have haccepted := tracks_accept Service.invariant_true htracks ready
  obtain ⟨hall, -⟩ := takesTurn (server.accept ready).2.settings
    (server.accept ready).2.clients.length ready haccepted.nodup (server.accept ready).2.service
  obtain ⟨service, hturn⟩ := hall c (mem_accept hc ready)
  rw [visitsOf, hturn.exchanges, settings_accept, hsettings]
  cases hincoming : ready.incoming c.number with
  | none => simp [visit]
  | some incoming =>
    cases incoming with
    | ended => simp [visit]
    | broken => simp [visit]
    | data bytes =>
      -- The requests that were complete before are complete in what was read with these bytes.
      have hholds := (htracks.client c hc).feed bytes
      have hbefore : (requestsOf c.number log).length <
          (Request.completeIn (receivedFrom c.number log)).length := by
        simpa [unserved] using hwaiting
      have hmore := (Request.completeIn_isPrefix_append (receivedFrom c.number log) bytes).length_le
      obtain ⟨request, requests', hnext⟩ := hholds.exists_next (Nat.lt_of_lt_of_le hbefore hmore)
      cases hmax : settings.maxRequestsPerPass with
      | zero => simp [visit, hmax, exchanges]
      | succ left =>
        simpa [visit, hmax] using (serving ..).ne_nil hnext

/-! ### A client that waits for a reply -/

/-- A client connects and sends 65 requests for a sign of life in one go, one more than a pass
takes. -/
def sendsPings : List Act :=
  sends (List.replicate 65 (Wire.command [Bytes.ofString "PING"])).flatten

/-- A server with the settings that hold when none are given, after that. -/
def pinged : Server := (inMemory {}).after sendsPings

theorem exists_unserved :
    ∃ c ∈ pinged.clients, c.number = 0 ∧
      (unserved c.number ((inMemory {}).history sendsPings)).length = 1 := by
  have hnumbers : pinged.clients.map (·.number) = [0] := by decide +kernel
  have hmem : 0 ∈ pinged.clients.map (·.number) := hnumbers ▸ List.mem_singleton_self 0
  obtain ⟨c, hc, hnumber⟩ := List.mem_map.1 hmem
  refine ⟨c, hc, hnumber, ?_⟩
  rw [hnumber]
  decide +kernel

/-- When it sends one more, it is served again. -/
theorem served_iff_fed_pinging :
    let ready := { Ready.idle with
      incoming := fun _ => some (.data (Wire.command [Bytes.ofString "PING"])) }
    ∃ c ∈ pinged.clients, unserved c.number ((inMemory {}).history sendsPings) ≠ [] ∧
      exchangesWith c.number (pinged.visitsOf (.pass ready)) ≠ [] := by
  intro ready
  obtain ⟨c, hc, -, hlength⟩ := exists_unserved
  have hwaiting : unserved c.number ((inMemory {}).history sendsPings) ≠ [] :=
    List.ne_nil_of_length_eq_add_one hlength
  refine ⟨c, hc, hwaiting, ?_⟩
  exact (served_iff_fed (runs_after (inMemory {}) sendsPings) hc hwaiting ready).2
    ⟨by decide, _, rfl⟩

/-- **A client with a request to serve is passed by**, connected as it is: it has sent all that it
has to send, and waits for the last reply. -/
theorem strands_request :
    Host.ofSettings {} (RemoteStore.Linked.networkOf []) = .ok (memoryHost {}) ∧
      ∃ c ∈ pinged.clients, unserved c.number ((inMemory {}).history sendsPings) ≠ [] ∧
        (pinged.act (.pass .idle)).isConnected c.number = true ∧
        exchangesWith c.number (pinged.visitsOf (.pass .idle)) = [] := by
  refine ⟨rfl, ?_⟩
  obtain ⟨c, hc, hnumber, hlength⟩ := exists_unserved
  refine ⟨c, hc, List.ne_nil_of_length_eq_add_one hlength, ?_⟩
  rw [hnumber]
  refine ⟨by decide +kernel, ?_⟩
  have hnone : requestsOf 0 (pinged.visitsOf (.pass .idle)) = [] := by decide +kernel
  exact List.map_eq_nil_iff.1 hnone

end Server

end CoherentCache
