import CoherentCache.Proofs.Remote.Outcome
import CoherentCache.Proofs.Server.History
import CoherentCache.Proofs.Server.Replies

/-!
# One reply for each request

The bytes that a server appends to the output of a client are the replies to the requests of that
client, and whoever reads them finds as many replies as there were requests.  Two texts that nothing
bounds stand in replies: the name of the host in failures to reach it, and the key of a corrupt
record.  Where one of them holds the end of a line, it splits its reply in two.

* `Service.invariant_sound` : what the clients share stays sound, whatever happens.
* `Server.gives_replies` : **each request gets one reply that can be read back.**
* `Server.splits_reply` : a key that splits its reply.
-/

namespace CoherentCache

theorem Service.invariant_sound : Invariant Sound where
  answer connected _ hs hrequest := sound_answer hs hrequest connected
  received _ hs := ⟨hs.store, hs.slowLog⟩
  reject hs := sound_reject hs
  network f hs := sound_mapStore hs fun _ h => Host.sound_mapNetwork h f
  sweep hs := sound_mapStore hs fun _ => Host.sound_sweep

/-- The command of the request, if it has one, asks for nothing that cannot be put in a reply. -/
def Exchange.Answerable (e : Exchange) : Prop := e.service.Answerable e.connected e.request.words

theorem Exchange.fits_reply {e : Exchange} (hs : e.service.Sound) (hrequest : e.request.Bounded)
    (h : e.Answerable) : e.reply.Fits 0 := Service.fits_answer hs hrequest h

namespace Server

/-- A server when it begins to listen. -/
def start (settings : Settings) (host : Host) : Server :=
  .ofHost settings (host.ping.2.mapNetwork (·.note (.bind (UInt16.ofInt settings.port))))

variable {settings : Settings} {n : Network} {host : Host}

theorem tracks_history (hhost : Host.ofSettings settings n = .ok host)
    (hname : Backend.ofWord? settings.backend = some .remote → settings.remote.host.OneLine)
    (acts : List Act) :
    Tracks Service.Sound ((start settings host).history acts)
      ((start settings host).after acts) := by
  have hstore := Host.sound_mapNetwork (Host.sound_ping (Host.sound_ofSettings hhost hname))
    (·.note (.bind (UInt16.ofInt settings.port)))
  have hservice : Service.Sound { cache := .ofStore _ } := ⟨hstore, Nat.zero_le _, by simp⟩
  exact tracks_after Service.invariant_sound (tracks_ofHost settings hservice) acts

theorem appendedFor_eq {I : Service → Prop} {log : List Visit} (h : ∀ v ∈ log, v.Sound I)
    (number : Nat) :
    appendedFor number log =
      (((exchangesWith number log).map Exchange.reply).map Reply.encode).flatten := by
  induction log with
  | nil => rfl
  | cons v log ih =>
    have hrest := ih fun v' hv' => h v' (List.mem_cons_of_mem _ hv')
    unfold appendedFor exchangesWith at hrest ⊢
    by_cases hv : v.number = number
    · have happended := (h v List.mem_cons_self).appended_eq
      simp only [hv, decide_true, List.filter_cons_of_pos, List.flatMap_cons, List.map_append,
        List.flatten_append, hrest, happended, List.map_map]
      rfl
    · rw [List.filter_cons_of_neg (by simpa using hv)]
      exact hrest

/-- **Each request gets one reply that can be read back**, in the order of the requests.  The name
of the host of a remote store must stand on one line, and so must keys that are found corrupt
there; lines that it words fields as must not be too long, nor may counts leave 64 bits before they
are reported. -/
theorem gives_replies (hhost : Host.ofSettings settings n = .ok host)
    (hname : Backend.ofWord? settings.backend = some .remote → settings.remote.host.OneLine)
    (acts : List Act) (number : Nat)
    (hanswerable : ∀ e ∈ exchangesWith number ((start settings host).history acts),
      e.Answerable) :
    let log := (start settings host).history acts
    ReplyStream.Gives (ReplyStream.empty.feed (appendedFor number log))
        ((exchangesWith number log).map Exchange.reply) .empty ∧
      requestsOf number log <+: Request.completeIn (receivedFrom number log) := by
  intro log
  have htracks := tracks_history hhost hname acts
  refine ⟨?_, htracks.complete number⟩
  have hfits : ∀ reply ∈ (exchangesWith number log).map Exchange.reply, reply.Fits 0 := by
    intro reply hreply
    obtain ⟨e, he, rfl⟩ := List.mem_map.1 hreply
    obtain ⟨v, hv, hmem⟩ := List.mem_flatMap.1 he
    obtain ⟨hservice, hbounded⟩ := (htracks.visit v (List.mem_of_mem_filter hv)).exchange e hmem
    exact e.fits_reply hservice hbounded (hanswerable e he)
  have hgives := ReplyStream.gives_encode hfits []
  rw [List.append_nil, ← appendedFor_eq htracks.visit number] at hgives
  exact hgives

/-! ### A client of a remote store -/

/-- The settings of a server with a remote store. -/
def remoteSettings : Settings := { backend := Backend.remote.word }

/-- A client connects and sends the bytes. -/
def sends (bytes : Bytes) : List Act :=
  [.pass { Ready.idle with arrival := some .client },
    .pass { Ready.idle with incoming := fun _ => some (.data bytes) }]

/-- The remote store cannot be reached, and the client is told so twice. -/
theorem gives_replies_unreachable :
    let host : Host :=
      ⟨.remote (.ofSettings remoteSettings.remote), RemoteStore.Linked.networkOf []⟩
    let request := Wire.command [Bytes.ofString "TS.GET", Bytes.ofString "k"]
    let log := (start remoteSettings host).history (sends (request ++ request))
    (exchangesWith 0 log).length = 2 ∧
      ReplyStream.Gives (ReplyStream.empty.feed (appendedFor 0 log))
        ((exchangesWith 0 log).map Exchange.reply) .empty := by
  intro host request log
  have hrequests : requestsOf 0 log =
      [.command [Bytes.ofString "TS.GET", Bytes.ofString "k"],
        .command [Bytes.ofString "TS.GET", Bytes.ofString "k"]] := by decide +kernel
  have hlength : (exchangesWith 0 log).length = 2 := by
    rw [← List.length_map Exchange.request]
    exact congrArg List.length hrequests
  have hhost : Host.ofSettings remoteSettings (RemoteStore.Linked.networkOf []) = .ok host := by
    rfl
  refine ⟨hlength, (gives_replies hhost (fun _ => by decide) (sends (request ++ request)) 0 ?_).1⟩
  intro e he command hcommand
  have hmem : e.request ∈ requestsOf 0 log := List.mem_map_of_mem he
  have hwords : e.request.words = [Bytes.ofString "TS.GET", Bytes.ofString "k"] := by
    rw [hrequests] at hmem
    rcases List.mem_cons.1 hmem with heq | hmem
    · rw [heq]; rfl
    · rw [List.mem_singleton.1 hmem]; rfl
  have hget : Command.parse [Bytes.ofString "TS.GET", Bytes.ofString "k"] =
      .ok (.get (Bytes.ofString "k")) := by decide +kernel
  rw [hwords, hget] at hcommand
  cases hcommand
  trivial

/-- **A key that splits its reply.**  The remote store answers with a value that has no timestamp,
the client is told so, and reads an error and then a text. -/
theorem splits_reply :
    let network : Network := RemoteStore.Linked.networkOf
      [.opens false ⟨[], [.data (Bytes.ofString "+PONG\r\n"),
        .data (Bytes.ofString "$2\r\nh0\r\n$2\r\nh1\r\n$2\r\nh2\r\n$2\r\nh3\r\n"),
        .data (Bytes.ofString "*2\r\n*2\r\n$1\r\nv\r\n$1\r\nx\r\n:-1\r\n")]⟩]
    let host : Host := ⟨.remote (.ofSettings remoteSettings.remote), network⟩
    let request := Wire.command [Bytes.ofString "TS.RECORD", Bytes.ofString "a\r\n+b"]
    let log := (start remoteSettings host).history (sends request)
    Host.ofSettings remoteSettings network = .ok host ∧
      (exchangesWith 0 log).length = 1 ∧
      (Reply.completeIn (appendedFor 0 log)).map Reply.text =
        [Bytes.ofString "CORRUPT a", Bytes.ofString "b: value without write timestamp"] := by
  intro network host request log
  refine ⟨rfl, ?_, ?_⟩
  · decide +kernel
  · decide +kernel

end Server

end CoherentCache
