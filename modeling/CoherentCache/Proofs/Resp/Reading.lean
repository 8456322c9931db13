import CoherentCache.Resp.Request
import CoherentCache.Resp.Stream

/-!
# What was read of a stream

Requests and replies are read one byte at a time.  All that is ever received on a connection
determines the items that are complete in it.  Taking them off the stream one by one, while more
bytes arrive in between, gives those items in order.

* `Framing.scan` : reads all there is, for any reader that is given by its step.
* `Framing.Holds` : so many bytes arrived and so many items were taken.
* `ReplyStream.Holds`, `RequestStream.Holds` : the same for the two kinds of stream.
* `ReplyStream.Holds.next_some`, `ReplyStream.Holds.next_none`, `RequestStream.Holds.next_some`,
  `RequestStream.Holds.next_none` : what taking the next item keeps.
-/

namespace CoherentCache

/-! ### Readers in general -/

namespace Framing

variable {R A : Type} {step : R → UInt8 → R ⊕ A} {start : R}

section
variable (step start)

/-- Reads up to the end of an item, or all there is. -/
def read : R → Bytes → Option A × R × Bytes
  | r, [] => (none, r, [])
  | r, b :: rest =>
    match step r b with
    | .inl r => read r rest
    | .inr item => (some item, start, rest)

/-- Reads all there is, past the ends of items. -/
def scan : R → Bytes → List A × R
  | r, [] => ([], r)
  | r, b :: rest =>
    match step r b with
    | .inl r => scan r rest
    | .inr item =>
      let (items, r) := scan start rest
      (item :: items, r)

/-- The items that are complete in what was received. -/
def completeIn (received : Bytes) : List A := (scan step start start received).1

/-- The bytes were received in all, and the items were taken off them; what is left is a reader and
the bytes ahead of it. -/
def Holds (received : Bytes) (items : List A) (r : R) (ahead : Bytes) : Prop :=
  ∃ used, received = used ++ ahead ∧ scan step start start used = (items, r)

end

variable {r r' : R} {item : A} {items : List A} {bytes received ahead ahead' : Bytes}

theorem scan_append (r : R) (x y : Bytes) :
    scan step start r (x ++ y) =
      ((scan step start r x).1 ++ (scan step start (scan step start r x).2 y).1,
        (scan step start (scan step start r x).2 y).2) := by
  induction x generalizing r with
  | nil => rfl
  | cons b x ih =>
    simp only [List.cons_append, scan]
    cases step r b with
    | inl r => exact ih r
    | inr item => simp only [ih, List.cons_append]

theorem scan_of_read_none (h : read step start r bytes = (none, r', ahead)) :
    ahead = [] ∧ scan step start r bytes = ([], r') := by
  induction bytes generalizing r with
  | nil =>
    cases h
    exact ⟨rfl, rfl⟩
  | cons b bytes ih =>
    simp only [read] at h
    simp only [scan]
    cases hstep : step r b with
    | inl r =>
      rw [hstep] at h
      exact ih h
    | inr item =>
      rw [hstep] at h
      cases h

theorem scan_of_read_some (h : read step start r bytes = (some item, r', ahead)) :
    r' = start ∧ ∃ used, bytes = used ++ ahead ∧ scan step start r used = ([item], start) := by
  induction bytes generalizing r with
  | nil => cases h
  | cons b bytes ih =>
    simp only [read] at h
    cases hstep : step r b with
    | inl r =>
      rw [hstep] at h
      obtain ⟨hstart, used, hused, hscan⟩ := ih h
      exact ⟨hstart, b :: used, by rw [hused]; rfl, by simpa only [scan, hstep] using hscan⟩
    | inr item =>
      rw [hstep] at h
      cases h
      exact ⟨rfl, [b], rfl, by simp only [scan, hstep]⟩

/-- What is complete stays so when more bytes arrive. -/
theorem completeIn_isPrefix_append (x y : Bytes) :
    completeIn step start x <+: completeIn step start (x ++ y) := by
  simp only [completeIn, scan_append]
  exact List.prefix_append ..

namespace Holds

theorem feed (h : Holds step start received items r ahead) (data : Bytes) :
    Holds step start (received ++ data) items r (ahead ++ data) := by
  obtain ⟨used, rfl, hscan⟩ := h
  exact ⟨used, List.append_assoc .., hscan⟩

theorem read_some (h : Holds step start received items r ahead)
    (hread : read step start r ahead = (some item, r', ahead')) :
    Holds step start received (items ++ [item]) r' ahead' := by
  obtain ⟨used, rfl, hscan⟩ := h
  obtain ⟨rfl, more, hmore, hone⟩ := scan_of_read_some hread
  refine ⟨used ++ more, ?_, ?_⟩
  · rw [hmore, List.append_assoc]
  · rw [scan_append, hscan]
    simp only [hone]

theorem read_none (h : Holds step start received items r ahead)
    (hread : read step start r ahead = (none, r', ahead')) :
    Holds step start received items r' ahead' ∧ ahead' = [] := by
  obtain ⟨used, rfl, hscan⟩ := h
  obtain ⟨rfl, hnone⟩ := scan_of_read_none hread
  refine ⟨⟨used ++ ahead, (List.append_nil _).symm, ?_⟩, rfl⟩
  rw [scan_append, hscan]
  simp only [hnone, List.append_nil]

/-- What was taken is complete in what was received. -/
theorem isPrefix (h : Holds step start received items r ahead) :
    items <+: completeIn step start received := by
  obtain ⟨used, rfl, hscan⟩ := h
  simp only [completeIn, scan_append, hscan]
  exact List.prefix_append ..

/-- When nothing lies ahead, all that is complete was taken. -/
theorem completeIn_eq (h : Holds step start received items r []) :
    completeIn step start received = items := by
  obtain ⟨used, rfl, hscan⟩ := h
  rw [List.append_nil, completeIn, hscan]

theorem unique {items' : List A} (h : Holds step start received items r ahead)
    (g : Holds step start received items' r' ahead) : items = items' := by
  obtain ⟨used, hused, hscan⟩ := h
  obtain ⟨used', hused', hscan'⟩ := g
  -- What lies ahead is the same, so what was used up is the same too.
  obtain rfl : used = used' := List.append_cancel_right (hused.symm.trans hused')
  rw [hscan] at hscan'
  exact (Prod.mk.inj hscan').1

end Holds

end Framing

/-! ### Replies -/

namespace Reply

theorem Reader.read_eq (r : Reader) (bytes : Bytes) :
    r.read bytes = Framing.read Reader.step (.start []) r bytes := by
  induction bytes generalizing r with
  | nil => rfl
  | cons b bytes ih =>
    simp only [read, Framing.read]
    cases r.step b with
    | inl r => exact ih r
    | inr reply => rfl

/-- The replies that are complete in what was received on a connection. -/
def completeIn (received : Bytes) : List Reply :=
  Framing.completeIn Reader.step (.start []) received

end Reply

namespace ReplyStream

variable {s s' : ReplyStream} {reply : Reply} {received : Bytes} {replies : List Reply}

/-- The bytes were received on the stream in all, and the replies were taken off it. -/
def Holds (s : ReplyStream) (received : Bytes) (replies : List Reply) : Prop :=
  Framing.Holds Reply.Reader.step (.start []) received replies s.reader s.ahead

theorem holds_empty : empty.Holds [] [] := ⟨[], rfl, rfl⟩

theorem read_of_next {found : Option Reply} (h : s.next = (found, s')) :
    Framing.read Reply.Reader.step (.start []) s.reader s.ahead = (found, s'.reader, s'.ahead) := by
  simp only [next, Reply.Reader.read_eq, Prod.mk.injEq] at h
  obtain ⟨rfl, rfl⟩ := h
  rfl

theorem Holds.feed (h : s.Holds received replies) (data : Bytes) :
    (s.feed data).Holds (received ++ data) replies := Framing.Holds.feed h data

theorem Holds.next_some (h : s.Holds received replies) (hnext : s.next = (some reply, s')) :
    s'.Holds received (replies ++ [reply]) := Framing.Holds.read_some h (read_of_next hnext)

theorem Holds.next_none (h : s.Holds received replies) (hnext : s.next = (none, s')) :
    s'.Holds received replies ∧ s'.ahead = [] := Framing.Holds.read_none h (read_of_next hnext)

theorem Holds.replies_isPrefix (h : s.Holds received replies) :
    replies <+: Reply.completeIn received := h.isPrefix

/-- What was taken is at its position in what was received, then and ever after. -/
theorem Holds.getElem?_completeIn (h : s.Holds received replies) {i : Nat}
    (hi : replies[i]? = some reply) (more : Bytes) :
    (Reply.completeIn (received ++ more))[i]? = some reply := by
  obtain ⟨rest, hrest⟩ : replies <+: Reply.completeIn (received ++ more) :=
    h.replies_isPrefix.trans (Framing.completeIn_isPrefix_append received more)
  rw [← hrest, List.getElem?_append_left (List.getElem?_eq_some_iff.1 hi).1]
  exact hi

theorem Holds.completeIn_eq (h : s.Holds received replies) (hahead : s.ahead = []) :
    Reply.completeIn received = replies := by
  unfold Holds at h
  rw [hahead] at h
  exact Framing.Holds.completeIn_eq h

end ReplyStream

/-! ### Requests -/

namespace Request

theorem Reader.read_eq (r : Reader) (bytes : Bytes) :
    r.read bytes = Framing.read Reader.step .start r bytes := by
  induction bytes generalizing r with
  | nil => rfl
  | cons b bytes ih =>
    simp only [read, Framing.read]
    cases r.step b with
    | inl r => exact ih r
    | inr request => rfl

/-- The requests that are complete in what was received on a connection. -/
def completeIn (received : Bytes) : List Request := Framing.completeIn Reader.step .start received

theorem completeIn_isPrefix_append (x y : Bytes) : completeIn x <+: completeIn (x ++ y) :=
  Framing.completeIn_isPrefix_append x y

end Request

namespace RequestStream

variable {s s' : RequestStream} {request : Request} {received : Bytes} {requests : List Request}

/-- The bytes were received on the stream in all, and the requests were taken off it. -/
def Holds (s : RequestStream) (received : Bytes) (requests : List Request) : Prop :=
  Framing.Holds Request.Reader.step .start received requests s.reader s.ahead

theorem holds_empty : empty.Holds [] [] := ⟨[], rfl, rfl⟩

theorem read_of_next {found : Option Request} (h : s.next = (found, s')) :
    Framing.read Request.Reader.step .start s.reader s.ahead = (found, s'.reader, s'.ahead) := by
  simp only [next, Request.Reader.read_eq, Prod.mk.injEq] at h
  obtain ⟨rfl, rfl⟩ := h
  rfl

theorem Holds.feed (h : s.Holds received requests) (data : Bytes) :
    (s.feed data).Holds (received ++ data) requests := Framing.Holds.feed h data

theorem Holds.next_some (h : s.Holds received requests) (hnext : s.next = (some request, s')) :
    s'.Holds received (requests ++ [request]) := Framing.Holds.read_some h (read_of_next hnext)

theorem Holds.next_none (h : s.Holds received requests) (hnext : s.next = (none, s')) :
    s'.Holds received requests ∧ s'.ahead = [] := Framing.Holds.read_none h (read_of_next hnext)

theorem Holds.requests_isPrefix (h : s.Holds received requests) :
    requests <+: Request.completeIn received := h.isPrefix

/-- As long as not all complete requests were taken, there is a next one. -/
theorem Holds.exists_next (h : s.Holds received requests)
    (hlength : requests.length < (Request.completeIn received).length) :
    ∃ request s', s.next = (some request, s') := by
  cases hnext : s.next with
  | mk found s' =>
    cases found with
    | some request => exact ⟨request, s', rfl⟩
    | none =>
      obtain ⟨hholds, hahead⟩ := h.next_none hnext
      unfold Holds at hholds
      rw [hahead] at hholds
      have hall : Request.completeIn received = requests := Framing.Holds.completeIn_eq hholds
      rw [hall] at hlength
      exact absurd hlength (Nat.lt_irrefl _)

end RequestStream

end CoherentCache
