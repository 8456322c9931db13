import CoherentCache.Proofs.Resp.Rescan

/-!
# Replies however their stream is cut

The bytes of a connection arrive in pieces, and where one ends is up to the network.  Whoever takes
all replies that are complete after each piece must not see the difference, on streams that go wrong
as little as on proper ones.

* `ReplyStream.silent_malformed` : **a stream that went wrong gives no reply any more.**
* `ReplyStream.drainEach_eq_of_flatten_eq` : two cuts of the same bytes give the same replies, and
  the stream goes wrong either way or neither way.  The replies are those that parsing all the bytes
  at once finds.
-/

namespace CoherentCache

namespace ReplyStream

/-- **A stream that went wrong gives no reply any more**, whatever arrives. -/
theorem silent_malformed : Inlet.Silent fun s : ReplyStream => s.malformed = true where
  feed h _ := h
  next {s} h := by
    have hread : Framing.read Reply.Reader.step (.start []) .malformed s.ahead =
        (none, .malformed, []) := Framing.read_of_fixed (fun _ => rfl) s.ahead
    have hnext : Inlet.next s = (none, (⟨.malformed, []⟩ : ReplyStream)) := by
      simp only [Inlet.next, next, Reply.Reader.read_eq, malformed_iff.1 h, hread]
    rw [hnext]
    exact ⟨rfl, rfl⟩

variable {pieces pieces' : List Bytes}

/-- Two cuts of the same bytes leave the stream alike. -/
theorem alike_of_flatten_eq (h : pieces.flatten = pieces'.flatten) :
    let drained := Inlet.drainEach ReplyStream.empty pieces
    let drained' := Inlet.drainEach ReplyStream.empty pieces'
    drained.1 = drained'.1 ∧ drained.2.malformed = drained'.2.malformed := by
  intro drained drained'
  have hscan := reads.scan_drainEach (s := .empty) rfl rfl pieces
  have hscan' := reads.scan_drainEach (s := .empty) rfl rfl pieces'
  rw [h, hscan'] at hscan
  obtain ⟨hreplies, hreader⟩ := Prod.mk.inj hscan
  refine ⟨hreplies.symm, ?_⟩
  show malformed drained.2 = malformed drained'.2
  unfold malformed
  rw [hreader]

/-- A stream that is drained after each piece gives what parsing all the bytes at once finds. -/
theorem drainEach_eq_parsed (pieces : List Bytes) :
    let drained := Inlet.drainEach ReplyStream.empty pieces
    let parsed := Inlet.drain (⟨pieces.flatten, false⟩ : ReplyBuffer)
    drained.1 = parsed.1 ∧ drained.2.malformed = parsed.2.malformed := by
  intro drained parsed
  -- All the bytes at once are a cut of their own.
  have hone : pieces.flatten = [pieces.flatten].flatten := by simp
  have hwhole : Inlet.drainEach ReplyStream.empty [pieces.flatten] =
      Inlet.drain (Inlet.feed ReplyStream.empty pieces.flatten) := by simp [Inlet.drainEach]
  obtain ⟨hreplies, hmalformed⟩ := alike_of_flatten_eq hone
  obtain ⟨hparsed, -, hwrong⟩ :=
    ReplyBuffer.simulates.drain (ReplyBuffer.simulates.feed ReplyBuffer.follows_empty pieces.flatten)
  rw [hwhole] at hreplies hmalformed
  exact ⟨hreplies.trans hparsed.symm, hmalformed.trans hwrong.symm⟩

/-- **It makes no difference how the bytes are cut into pieces**, if all replies that are complete
are taken after each piece: not to the replies, nor to whether the stream goes wrong.  Either way
both are as if all the bytes were parsed at once.  And a stream that went wrong gives no further
reply, until it is replaced by an empty one. -/
theorem drainEach_eq_of_flatten_eq (h : pieces.flatten = pieces'.flatten) :
    let drained := Inlet.drainEach ReplyStream.empty pieces
    let drained' := Inlet.drainEach ReplyStream.empty pieces'
    let parsed := Inlet.drain (⟨pieces.flatten, false⟩ : ReplyBuffer)
    (drained.1 = drained'.1 ∧ drained.2.malformed = drained'.2.malformed) ∧
      (drained.1 = parsed.1 ∧ drained.2.malformed = parsed.2.malformed) ∧
      ∀ s : ReplyStream, s.malformed → ∀ moves,
        (Inlet.run s moves).1 = [] ∧ (Inlet.run s moves).2.malformed :=
  ⟨alike_of_flatten_eq h, drainEach_eq_parsed pieces,
    fun _ hmalformed moves => silent_malformed.run hmalformed moves⟩

/-- A list with a bulk string that holds a line end, cut within that line end and before it, and
then a line that is no reply, with a proper reply behind it. -/
theorem drainEach_eq_of_flatten_eq_goingWrong :
    let pieces : List Bytes := [Bytes.ofString "*2\r\n$4\r\na\r", Bytes.ofString "\nb\r\n:7\r\n?",
      Bytes.ofString "\r\n+PONG\r\n"]
    let pieces' : List Bytes := [Bytes.ofString "*2\r\n$4\r\na", [],
      Bytes.ofString "\r\nb\r\n:7\r\n?\r\n", Bytes.ofString "+PONG\r\n"]
    let drained := Inlet.drainEach ReplyStream.empty pieces
    let drained' := Inlet.drainEach ReplyStream.empty pieces'
    pieces.flatten = pieces'.flatten ∧
      drained.1 = [.array [.bulk (Bytes.ofString "a\r\nb"), .integer 7]] ∧
      drained'.1 = drained.1 ∧ drained.2.malformed ∧ drained'.2.malformed ∧
      ∀ moves, (Inlet.run drained.2 moves).1 = [] := by
  intro pieces pieces' drained drained'
  have hflatten : pieces.flatten = pieces'.flatten := by decide
  obtain ⟨⟨hreplies, hmalformed⟩, -, hsilent⟩ := drainEach_eq_of_flatten_eq hflatten
  have hscan := reads.scan_drainEach (s := .empty) rfl rfl pieces
  obtain ⟨hitems, hreader⟩ := Prod.mk.inj hscan
  have hwrong : drained.2.malformed = true := malformed_iff.2 hreader.symm
  exact ⟨hflatten, hitems.symm, hreplies.symm, hwrong, hmalformed ▸ hwrong,
    fun moves => (hsilent drained.2 hwrong moves).1⟩

end ReplyStream

end CoherentCache
