import CoherentCache.Proofs.Decimal
import CoherentCache.Proofs.Resp.Line

/-!
# Replies read back

A reply that is put on the wire is read back from it, with nothing left over and nothing of what
follows used up.  This takes that no line in it holds the end of a line, and that its parts are no
larger and no deeper than a reader accepts.

* `Bytes.Small` : a text that is not too long.
* `Reply.Fits` : a reply that can be read back.
* `Reply.read_encode` : **reading undoes writing.**
* `ReplyStream.Gives`, `ReplyStream.gives_encode` : so it does for a stream of replies.
-/

namespace CoherentCache

namespace Bytes

/-- The text is no longer than the longest bulk string that is read. -/
def Small (s : Bytes) : Prop := (s.length : Int) ≤ Reply.maxBulk

instance (s : Bytes) : Decidable (Small s) := by unfold Small; infer_instance

end Bytes

namespace Reply

mutual

/-- The reply can be read back when so many lists are open around it. -/
def Fits (depth : Nat) : Reply → Prop
  | .simple text | .error text => text.OneLine
  | .integer _ | .null => True
  | .bulk data => data.Small
  | .array items =>
    (items.length : Int) ≤ maxItems ∧ (items ≠ [] → depth < maxDepth) ∧ AllFit (depth + 1) items

/-- All of the replies can be read back. -/
def AllFit (depth : Nat) : List Reply → Prop
  | [] => True
  | r :: rest => Fits depth r ∧ AllFit depth rest

end

theorem allFit_iff {depth : Nat} {items : List Reply} :
    AllFit depth items ↔ ∀ r ∈ items, Fits depth r := by
  induction items with
  | nil => simp [AllFit]
  | cons r items ih => simp [AllFit, ih]

namespace Reader

/-- Reading goes on, unless a reply is complete already. -/
def readOn : Reader ⊕ Reply → Bytes → Option Reply × Reader × Bytes
  | .inl r, bytes => r.read bytes
  | .inr reply, bytes => (some reply, .start [], bytes)

theorem readOn_eq (next : Reader ⊕ Reply) (bytes : Bytes) :
    readOn next bytes = Framing.readOn step (.start []) next bytes := by
  cases next with
  | inl r => exact read_eq r bytes
  | inr reply => rfl

theorem read_cons (r : Reader) (b : UInt8) (bytes : Bytes) :
    r.read (b :: bytes) = readOn (r.step b) bytes := by
  rw [read_eq, readOn_eq, Framing.read_cons]

variable {frames : List Frame} {tag : UInt8} {rest : Bytes}

/-! ### Lines and bulk strings -/

theorem readsLine (frames : List Frame) (tag : UInt8) :
    Framing.ReadsLine step (line frames tag) (ofLine frames tag) := ⟨fun _ _ => rfl⟩

theorem counts (frames : List Frame) :
    Framing.Counts step (bulk frames) (fun data => complete frames (.bulk data)) .malformed :=
  ⟨fun _ _ _ => rfl, fun _ _ => rfl⟩

/-- **A tagged line is read back.** -/
theorem read_line {text : Bytes} (h : text.OneLine) :
    (start frames).read (Wire.line tag text ++ rest) = readOn (ofLine frames tag text) rest := by
  have hline : (line frames tag []).read (text ++ Bytes.crlf ++ rest) =
      readOn (ofLine frames tag text) rest := by
    rw [read_eq, readOn_eq]
    exact (readsLine frames tag).read_line rest h
  rw [Wire.line, List.cons_append, List.cons_append, read_cons, ← hline]
  rfl

/-- Counted bytes are read back. -/
theorem read_data (data : Bytes) :
    (bulk frames (data.length + 2) []).read (data ++ Bytes.crlf ++ rest) =
      readOn (complete frames (.bulk data)) rest := by
  rw [read_eq, readOn_eq]
  exact (counts frames).read_data data rest

/-! ### Numbers -/

theorem ofInt_natCast (n : Nat) : Decimal.ofInt n = Decimal.ofNat n := by
  simp [Decimal.ofInt]

theorem oneLine_ofNat (n : Nat) : (Decimal.ofNat n).OneLine := by
  refine .of_not_mem fun hmem => ?_
  have hdigit := List.all_eq_true.1 (Decimal.all_isDigit_ofNat n) 13 hmem
  revert hdigit
  decide

theorem oneLine_ofInt (i : Int) : (Decimal.ofInt i).OneLine := by
  unfold Decimal.ofInt
  split
  · exact Bytes.OneLine.append (List.isChain_singleton 45) (oneLine_ofNat _) (.inl (by decide))
  · exact oneLine_ofNat _

theorem readWithin?_ofNat {low high : Int} {n : Nat} (hlow : low ≤ n) (hhigh : n ≤ high) :
    Decimal.readWithin? low high (Decimal.ofNat n) = some (n : Int) := by
  rw [← ofInt_natCast]
  exact Decimal.readWithin?_ofInt hlow hhigh

end Reader

/-! ### Whole replies -/

open Reader

theorem length_encodeAll (items : List Reply) : (encodeAll items).length = items.length := by
  induction items with
  | nil => rfl
  | cons r items ih => simp [encodeAll, ih]

theorem read_bulk {frames : List Frame} {data rest : Bytes} (h : data.Small) :
    (Reader.start frames).read (Wire.bulk data ++ rest) =
      readOn (complete frames (.bulk data)) rest := by
  have hsize : Decimal.readWithin? (-1) maxBulk (Decimal.ofNat data.length) =
      some (data.length : Int) := readWithin?_ofNat (by omega) h
  have hopen : ofLine frames 36 (Decimal.ofNat data.length) =
      .inl (.bulk frames (data.length + 2) []) := by
    have hne : (data.length : Int) ≠ -1 := by omega
    simp [ofLine, hsize, hne]
  rw [Wire.bulk, List.append_assoc, List.append_assoc, read_line (oneLine_ofNat _), hopen, readOn,
    ← List.append_assoc]
  exact read_data data

theorem openList_of_fits {frames : List Frame} {n : Nat} (hn : n ≠ 0)
    (h : frames.length < maxDepth) :
    openList frames n = .inl (.start (⟨n - 1, []⟩ :: frames)) := by
  cases n with
  | zero => exact absurd rfl hn
  | succ left =>
    rw [openList, if_pos h]
    rfl

/-- The first line of a list opens it. -/
theorem read_array {frames : List Frame} {items : List Reply} {rest : Bytes}
    (h : (items.length : Int) ≤ maxItems) :
    (Reader.start frames).read ((Reply.array items).encode ++ rest) =
      readOn (openList frames items.length) ((encodeAll items).flatten ++ rest) := by
  have hsize : Decimal.readWithin? (-1) maxItems (Decimal.ofNat items.length) =
      some (items.length : Int) := readWithin?_ofNat (by omega) h
  have hopen : ofLine frames 42 (Decimal.ofNat items.length) = openList frames items.length := by
    have hne : (items.length : Int) ≠ -1 := by omega
    simp [ofLine, hsize, hne]
  rw [encode, Wire.array, length_encodeAll, List.append_assoc, read_line (oneLine_ofNat _), hopen]

mutual

/-- **Reading undoes writing**, wherever the reply stands and whatever follows it. -/
theorem read_encode : (r : Reply) → (frames : List Frame) → (rest : Bytes) →
    Fits frames.length r →
      (Reader.start frames).read (r.encode ++ rest) = readOn (complete frames r) rest
  | .simple text, _, _, h => by
    simp only [Fits] at h
    rw [encode, Wire.simple, read_line h]
    rfl
  | .error text, _, _, h => by
    simp only [Fits] at h
    rw [encode, Wire.error, read_line h]
    rfl
  | .integer v, _, _, _ => by
    rw [encode, Wire.integer, read_line (oneLine_ofInt _)]
    simp [ofLine]
  | .bulk data, _, _, h => by
    simp only [Fits] at h
    rw [encode, read_bulk h]
  | .null, _, _, _ => by
    have hminus : Decimal.readWithin? (-1) maxBulk (Decimal.ofInt (-1)) = some (-1) :=
      Decimal.readWithin?_ofInt (by decide) (by decide)
    rw [encode, Wire.null, read_line (oneLine_ofInt _)]
    simp [ofLine, hminus]
  | .array items, frames, rest, h => by
    simp only [Fits] at h
    obtain ⟨hcount, hdepth, hitems⟩ := h
    rw [read_array hcount]
    by_cases hnil : items = []
    · rw [hnil]
      rfl
    · have hpos : items.length ≠ 0 := mt List.eq_nil_of_length_eq_zero hnil
      rw [openList_of_fits hpos (hdepth hnil)]
      exact read_encodeAll items [] frames rest hnil hitems

/-- The items of a list that has begun are read up to its end, `before` being those read already. -/
theorem read_encodeAll : (items : List Reply) → (before : List Reply) → (frames : List Frame) →
    (rest : Bytes) → items ≠ [] → AllFit (frames.length + 1) items →
      (Reader.start (⟨items.length - 1, before⟩ :: frames)).read
          ((encodeAll items).flatten ++ rest) =
        readOn (complete frames (.array (before.reverse ++ items))) rest
  | [], _, _, _, hnil, _ => absurd rfl hnil
  | [r], before, frames, rest, _, h => by
    have hr := read_encode r (⟨0, before⟩ :: frames) rest h.1
    simpa [encodeAll, complete] using hr
  | r :: s :: items, before, frames, rest, _, h => by
    have hr := read_encode r (⟨items.length + 1, before⟩ :: frames)
      ((encodeAll (s :: items)).flatten ++ rest) h.1
    have hrest := read_encodeAll (s :: items) (r :: before) frames rest (List.cons_ne_nil _ _) h.2
    rw [encodeAll, List.flatten_cons, List.append_assoc]
    refine hr.trans ?_
    simpa [complete, readOn] using hrest

end

end Reply

namespace ReplyStream

/-- The replies are taken off a stream one after the other, and the last stream is what is left. -/
inductive Gives : ReplyStream → List Reply → ReplyStream → Prop where
  /-- Nothing is taken. -/
  | nil (s : ReplyStream) : Gives s [] s
  /-- The next reply is taken, and then some more. -/
  | cons {s s' t : ReplyStream} {reply : Reply} {replies : List Reply}
      (next : s.next = (some reply, s')) (rest : Gives s' replies t) : Gives s (reply :: replies) t

theorem next_encode {r : Reply} (h : r.Fits 0) (rest : Bytes) :
    next ⟨.start [], r.encode ++ rest⟩ = (some r, ⟨.start [], rest⟩) := by
  rw [next, Reply.read_encode r [] rest h]
  rfl

/-- **Replies that are sent one after the other are read one after the other.** -/
theorem gives_encode {replies : List Reply} (h : ∀ r ∈ replies, r.Fits 0) (rest : Bytes) :
    Gives ⟨.start [], (replies.map Reply.encode).flatten ++ rest⟩ replies ⟨.start [], rest⟩ := by
  induction replies with
  | nil => exact .nil _
  | cons r replies ih =>
    rw [List.map_cons, List.flatten_cons, List.append_assoc]
    refine .cons (next_encode (h r List.mem_cons_self) _) ?_
    exact ih fun r' hr' => h r' (List.mem_cons_of_mem _ hr')

end ReplyStream

end CoherentCache
