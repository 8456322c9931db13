import CoherentCache.Proofs.Decimal.Grammar
import CoherentCache.Proofs.Draft
import CoherentCache.Proofs.Record

/-!
# Which fields are read as a record

The persisted form can be told without a reader: which fields go together, which texts are numbers,
and what numbers these are.  Everything that can be wrong with fields is a fault, and faults have an
order: those of the write timestamp come first, then those of the invalidation timestamp, and then
that a value and its timestamp are not together.  A reader that works through this order stops at
the first fault, and whoever is to be given the record gets all of it or nothing.

* `Record.Persisted`, `Record.Holds` : fields in the persisted form, and the record that they hold.
* `Record.Fault.In`, `Record.Fault.inOrder` : what each fault says of fields, and the order.
* `Record.ofFields_spec` : reading gives what the fields hold, or the first fault.
* `Record.readInto` : a reader that fills a draft field by field and hands it over in the end.
* `Record.read_iff_persisted` : **exactly the fields in the persisted form are read**, as the record
  that they hold.
-/

namespace CoherentCache

namespace Record

/-! ### The persisted form -/

/-- The timestamps of a record. -/
def stamp (r : Record) : Stamp → Timestamp
  | .write => r.written
  | .invalidate => r.invalidated

/-- The fields are all there, or none of them is. -/
def AllOrNone (fields : Fields) (names : List Bytes) : Prop :=
  (∀ name ∈ names, name ∈ fields) ∨ ∀ name ∈ names, name ∉ fields

/-- The text is a signed 64-bit integer. -/
def IsWord (text : Bytes) : Prop := ∃ i : Int64, Decimal.Denotes text i.toInt

/-- The text is a number of nanoseconds within a second. -/
def IsNanoseconds (text : Bytes) : Prop :=
  ∃ i : Int, Decimal.Denotes text i ∧ 0 ≤ i ∧ i < Timestamp.nanosPerSecond

variable {fields : Fields} {text : Bytes}

theorem AllOrNone.mem_iff {names : List Bytes} {name name' : Bytes} (h : AllOrNone fields names)
    (hname : name ∈ names) (hname' : name' ∈ names) : name ∈ fields ↔ name' ∈ fields := by
  rcases h with hall | hnone
  · exact iff_of_true (hall name hname) (hall name' hname')
  · exact iff_of_false (hnone name hname) (hnone name' hname')

theorem allOrNone_pair {name name' : Bytes} :
    AllOrNone fields [name, name'] ↔ (name ∈ fields ↔ name' ∈ fields) := by
  simp only [AllOrNone, List.forall_mem_cons, List.not_mem_nil, false_imp_iff, implies_true,
    and_true]
  exact iff_iff_and_or_not_and_not.symm

theorem AllOrNone.mono {names names' : List Bytes} (h : AllOrNone fields names)
    (hsubset : names' ⊆ names) : AllOrNone fields names' :=
  h.imp (fun hall name hname => hall name (hsubset hname))
    fun hnone name hname => hnone name (hsubset hname)

theorem IsNanoseconds.isWord (h : IsNanoseconds text) : IsWord text := by
  obtain ⟨i, hdenotes, hlow, hhigh⟩ := h
  unfold Timestamp.nanosPerSecond at hhigh
  have hback : (Int64.ofInt i).toInt = i :=
    Int64.toInt_ofInt_of_le (Int.le_trans (by decide) hlow) (Int.lt_trans hhigh (by decide))
  exact ⟨Int64.ofInt i, by rwa [hback]⟩

/-- The fields are in the persisted form.  Nothing is said of fields with other names. -/
structure Persisted (fields : Fields) : Prop where
  /-- A value and the timestamp of its write go together. -/
  write : AllOrNone fields [Stamp.write.secondsField, Stamp.write.nanosecondsField, valueField]
  /-- So do both fields of the invalidation timestamp. -/
  invalidate :
    AllOrNone fields [Stamp.invalidate.secondsField, Stamp.invalidate.nanosecondsField]
  /-- Seconds are signed 64-bit integers. -/
  seconds : ∀ (stamp : Stamp) text, fields[stamp.secondsField]? = some text → IsWord text
  /-- Nanoseconds lie within a second. -/
  nanoseconds :
    ∀ (stamp : Stamp) text, fields[stamp.nanosecondsField]? = some text → IsNanoseconds text

/-- What a field says of a number: that its text denotes it, or that it is zero if there is no such
field. -/
def Says (found : Option Bytes) (i : Int) : Prop :=
  match found with
  | none => i = 0
  | some text => Decimal.Denotes text i

/-- The record has what the fields say. -/
structure Holds (fields : Fields) (r : Record) : Prop where
  /-- The value is the text of its field. -/
  value : r.value = fields[valueField]?
  /-- The seconds of both timestamps. -/
  seconds : ∀ stamp : Stamp, Says fields[stamp.secondsField]? (r.stamp stamp).seconds.toInt
  /-- The nanoseconds of both timestamps. -/
  nanoseconds :
    ∀ stamp : Stamp, Says fields[stamp.nanosecondsField]? (r.stamp stamp).nanoseconds.toInt

/-! ### Faults in their order -/

namespace Fault

/-- What a fault says of fields. -/
def In (fields : Fields) : Fault → Prop
  | incomplete s => ¬AllOrNone fields [s.secondsField, s.nanosecondsField]
  | badSeconds s => ∃ text, fields[s.secondsField]? = some text ∧ ¬IsWord text
  | badNanoseconds s => ∃ text, fields[s.nanosecondsField]? = some text ∧ ¬IsWord text
  | outOfRange s =>
    ∃ text, fields[s.nanosecondsField]? = some text ∧ IsWord text ∧ ¬IsNanoseconds text
  | unstampedValue => valueField ∈ fields ∧ Stamp.write.secondsField ∉ fields
  | stampWithoutValue => valueField ∉ fields ∧ Stamp.write.secondsField ∈ fields

/-- What can be wrong with a timestamp, in the order in which it is looked for. -/
def ofStamp (s : Stamp) : List Fault := [incomplete s, badSeconds s, badNanoseconds s, outOfRange s]

/-- What can be wrong with fields, in the order in which it is looked for. -/
def inOrder : List Fault :=
  ofStamp .write ++ ofStamp .invalidate ++ [unstampedValue, stampWithoutValue]

/-- The first fault of a list that the fields have. -/
def First (fields : Fields) (faults : List Fault) (fault : Fault) : Prop :=
  ∃ before after, faults = before ++ fault :: after ∧ fault.In fields ∧
    ∀ earlier ∈ before, ¬earlier.In fields

variable {fault fault' : Fault} {faults faults' : List Fault}

theorem First.append_right (h : First fields faults fault) (faults' : List Fault) :
    First fields (faults ++ faults') fault := by
  obtain ⟨before, after, rfl, hfault, hbefore⟩ := h
  exact ⟨before, after ++ faults', by simp, hfault, hbefore⟩

theorem First.append_left (hnone : ∀ earlier ∈ faults, ¬earlier.In fields)
    (h : First fields faults' fault) : First fields (faults ++ faults') fault := by
  obtain ⟨before, after, rfl, hfault, hbefore⟩ := h
  exact ⟨faults ++ before, after, by simp, hfault, List.forall_mem_append.2 ⟨hnone, hbefore⟩⟩

/-- There is one first fault at most. -/
theorem First.unique (h : First fields faults fault) (h' : First fields faults fault') :
    fault = fault' := by
  obtain ⟨before, after, rfl, hfault, hbefore⟩ := h
  obtain ⟨before', after', hsplit, hfault', hbefore'⟩ := h'
  rcases List.append_eq_append_iff.1 hsplit with
    ⟨between, hlonger, hrest⟩ | ⟨between, hlonger, hrest⟩
  · cases between with
    | nil => exact (List.cons.inj hrest).1
    | cons x between =>
      -- Otherwise the first one of them stands before the other.
      obtain ⟨rfl, -⟩ := List.cons.inj hrest
      exact absurd hfault (hbefore' fault (by simp [hlonger]))
  · cases between with
    | nil => exact (List.cons.inj hrest).1.symm
    | cons x between =>
      obtain ⟨rfl, -⟩ := List.cons.inj hrest
      exact absurd hfault' (hbefore fault' (by simp [hlonger]))

/-- Fields in the persisted form have no fault. -/
theorem not_in (h : Persisted fields) (fault : Fault) : ¬fault.In fields := by
  have hvalue : valueField ∈ fields ↔ Stamp.write.secondsField ∈ fields :=
    h.write.mem_iff (by simp) (by simp)
  cases fault with
  | incomplete s =>
    refine fun hin => hin ?_
    cases s with
    | write => exact h.write.mono (by simp)
    | invalidate => exact h.invalidate
  | badSeconds s => exact fun ⟨text, htext, hin⟩ => hin (h.seconds s text htext)
  | badNanoseconds s => exact fun ⟨text, htext, hin⟩ => hin (h.nanoseconds s text htext).isWord
  | outOfRange s => exact fun ⟨text, htext, _, hin⟩ => hin (h.nanoseconds s text htext)
  | unstampedValue => exact fun hin => hin.2 (hvalue.1 hin.1)
  | stampWithoutValue => exact fun hin => hin.1 (hvalue.2 hin.2)

end Fault

/-! ### Reading one timestamp -/

/-- What the fields say of a timestamp, which is not there if they say nothing of it. -/
def Stamps (fields : Fields) (stamp : Stamp) : Option Timestamp → Prop
  | none => stamp.secondsField ∉ fields ∧ stamp.nanosecondsField ∉ fields
  | some t => ∃ sec nsec, fields[stamp.secondsField]? = some sec ∧
      fields[stamp.nanosecondsField]? = some nsec ∧ Decimal.Denotes sec t.seconds.toInt ∧
      Decimal.Denotes nsec t.nanoseconds.toInt ∧ t.Normal

theorem mem_of_getElem? {name : Bytes} (h : fields[name]? = some text) : name ∈ fields :=
  Std.TreeMap.mem_iff_isSome_getElem?.2 (by rw [h]; rfl)

theorem not_mem_of_getElem? {name : Bytes} (h : fields[name]? = none) : name ∉ fields := by
  rw [Std.TreeMap.mem_iff_isSome_getElem?, h]
  exact Bool.false_ne_true

theorem not_isWord (h : Decimal.readInt64? text = none) : ¬IsWord text := by
  rintro ⟨w, hw⟩
  rw [Decimal.readInt64?_eq_some_iff.2 hw] at h
  cases h

/-- A number of nanoseconds is a word, and lies within a second as such. -/
theorem isNanoseconds_iff {w : Int64} (h : Decimal.Denotes text w.toInt) :
    IsNanoseconds text ↔ 0 ≤ w.toInt ∧ w.toInt < Timestamp.nanosPerSecond := by
  constructor
  · rintro ⟨i, hi, hrange⟩
    rwa [← hi.unique h]
  · exact fun hrange => ⟨w.toInt, h, hrange⟩

/-- What reading a timestamp may lead to. -/
def StampRead (fields : Fields) (stamp : Stamp) : Except Fault (Option Timestamp) → Prop
  | .ok found => Stamps fields stamp found
  | .error fault => fault.First fields (Fault.ofStamp stamp)

/-- With both fields there, their texts decide. -/
theorem stampRead_of_pair {stamp : Stamp} {sec nsec : Bytes}
    (hsec : fields[stamp.secondsField]? = some sec)
    (hnsec : fields[stamp.nanosecondsField]? = some nsec) :
    StampRead fields stamp (readStamp fields stamp) := by
  have hpair : ¬(Fault.incomplete stamp).In fields :=
    not_not.2 (allOrNone_pair.2 (iff_of_true (mem_of_getElem? hsec) (mem_of_getElem? hnsec)))
  simp only [readStamp, hsec, hnsec]
  cases hs : Decimal.readInt64? sec with
  | none =>
    have hbad : (Fault.badSeconds stamp).In fields := ⟨sec, hsec, not_isWord hs⟩
    exact ⟨[.incomplete stamp], _, rfl, hbad, List.forall_mem_singleton.2 hpair⟩
  | some s =>
    have hs := Decimal.readInt64?_eq_some_iff.1 hs
    have hseconds : ¬(Fault.badSeconds stamp).In fields := by
      rintro ⟨text, htext, hbad⟩
      obtain rfl := Option.some.inj (hsec.symm.trans htext)
      exact hbad ⟨s, hs⟩
    cases hn : Decimal.readInt64? nsec with
    | none =>
      have hbad : (Fault.badNanoseconds stamp).In fields := ⟨nsec, hnsec, not_isWord hn⟩
      exact ⟨[.incomplete stamp, .badSeconds stamp], _, rfl, hbad, by simp [hpair, hseconds]⟩
    | some n =>
      have hn := Decimal.readInt64?_eq_some_iff.1 hn
      have hnanoseconds : ¬(Fault.badNanoseconds stamp).In fields := by
        rintro ⟨text, htext, hbad⟩
        obtain rfl := Option.some.inj (hnsec.symm.trans htext)
        exact hbad ⟨n, hn⟩
      dsimp only
      split
      · next hrange =>
        -- The nanoseconds fit into the smaller word of a timestamp.
        have hback : (Int32.ofInt n.toInt).toInt = n.toInt :=
          Int32.toInt_ofInt_of_le (Int.le_trans (by decide) hrange.1)
            (Int.lt_trans hrange.2 (by decide))
        exact ⟨sec, nsec, hsec, hnsec, hs, by rwa [hback], by rwa [Timestamp.Normal, hback]⟩
      · next hrange =>
        have hbad : (Fault.outOfRange stamp).In fields :=
          ⟨nsec, hnsec, ⟨n, hn⟩, fun hin => hrange ((isNanoseconds_iff hn).1 hin)⟩
        exact ⟨[.incomplete stamp, .badSeconds stamp, .badNanoseconds stamp], _, rfl, hbad,
          by simp [hpair, hseconds, hnanoseconds]⟩

/-- **A timestamp is read as the fields say**, or the first fault is found that it has. -/
theorem stampRead_readStamp (fields : Fields) (stamp : Stamp) :
    StampRead fields stamp (readStamp fields stamp) := by
  cases hsec : fields[stamp.secondsField]? with
  | none =>
    cases hnsec : fields[stamp.nanosecondsField]? with
    | none =>
      simp only [readStamp, hsec, hnsec]
      exact ⟨not_mem_of_getElem? hsec, not_mem_of_getElem? hnsec⟩
    | some nsec =>
      have hbad : (Fault.incomplete stamp).In fields := fun hpair =>
        not_mem_of_getElem? hsec ((allOrNone_pair.1 hpair).2 (mem_of_getElem? hnsec))
      simp only [readStamp, hsec, hnsec]
      exact ⟨[], _, rfl, hbad, List.forall_mem_nil _⟩
  | some sec =>
    cases hnsec : fields[stamp.nanosecondsField]? with
    | none =>
      have hbad : (Fault.incomplete stamp).In fields := fun hpair =>
        not_mem_of_getElem? hnsec ((allOrNone_pair.1 hpair).1 (mem_of_getElem? hsec))
      simp only [readStamp, hsec, hnsec]
      exact ⟨[], _, rfl, hbad, List.forall_mem_nil _⟩
    | some nsec => exact stampRead_of_pair hsec hnsec

namespace Stamps

variable {stamp : Stamp} {found : Option Timestamp}

/-- A timestamp is there if its fields are. -/
theorem isSome_iff (h : Stamps fields stamp found) :
    found.isSome ↔ stamp.secondsField ∈ fields := by
  cases found with
  | none => exact iff_of_false Bool.false_ne_true h.1
  | some t =>
    obtain ⟨sec, nsec, hsec, -⟩ := h
    exact iff_of_true rfl (mem_of_getElem? hsec)

theorem allOrNone (h : Stamps fields stamp found) :
    AllOrNone fields [stamp.secondsField, stamp.nanosecondsField] := by
  rw [allOrNone_pair]
  cases found with
  | none => exact iff_of_false h.1 h.2
  | some t =>
    obtain ⟨sec, nsec, hsec, hnsec, -⟩ := h
    exact iff_of_true (mem_of_getElem? hsec) (mem_of_getElem? hnsec)

theorem seconds (h : Stamps fields stamp found) :
    Says fields[stamp.secondsField]? (found.getD .zero).seconds.toInt := by
  cases found with
  | none =>
    rw [Std.TreeMap.getElem?_eq_none h.1]
    rfl
  | some t =>
    obtain ⟨sec, nsec, hsec, -, hdenotes, -⟩ := h
    rw [hsec]
    exact hdenotes

theorem nanoseconds (h : Stamps fields stamp found) :
    Says fields[stamp.nanosecondsField]? (found.getD .zero).nanoseconds.toInt := by
  cases found with
  | none =>
    rw [Std.TreeMap.getElem?_eq_none h.2]
    rfl
  | some t =>
    obtain ⟨sec, nsec, -, hnsec, -, hdenotes, -⟩ := h
    rw [hnsec]
    exact hdenotes

theorem isWord (h : Stamps fields stamp found) {text : Bytes}
    (htext : fields[stamp.secondsField]? = some text) : IsWord text := by
  have hword := h.seconds
  rw [htext] at hword
  exact ⟨_, hword⟩

theorem isNanoseconds (h : Stamps fields stamp found) {text : Bytes}
    (htext : fields[stamp.nanosecondsField]? = some text) : IsNanoseconds text := by
  cases found with
  | none => exact absurd (mem_of_getElem? htext) h.2
  | some t =>
    obtain ⟨sec, nsec, -, hnsec, -, hdenotes, hnormal⟩ := h
    obtain rfl := Option.some.inj (hnsec.symm.trans htext)
    exact ⟨_, hdenotes, hnormal⟩

/-- A timestamp that the fields hold has no fault. -/
theorem not_in (h : Stamps fields stamp found) :
    ∀ fault ∈ Fault.ofStamp stamp, ¬fault.In fields := by
  simp only [Fault.ofStamp, List.forall_mem_cons]
  exact ⟨not_not.2 h.allOrNone, fun ⟨_, htext, hbad⟩ => hbad (h.isWord htext),
    fun ⟨_, htext, hbad⟩ => hbad (h.isNanoseconds htext).isWord,
    fun ⟨_, htext, _, hbad⟩ => hbad (h.isNanoseconds htext), List.forall_mem_nil _⟩

end Stamps

/-! ### Reading a record -/

/-- Two timestamps and a value that go together are in the persisted form. -/
theorem persisted_of_stamps {written invalidated : Option Timestamp}
    (hwritten : Stamps fields .write written) (hinvalidated : Stamps fields .invalidate invalidated)
    (hvalue : valueField ∈ fields ↔ Stamp.write.secondsField ∈ fields) : Persisted fields where
  write := by
    have hpair := hwritten.allOrNone
    simp only [AllOrNone, List.forall_mem_cons] at hpair ⊢
    exact hpair.imp (fun hall => ⟨hall.1, hall.2.1, hvalue.2 hall.1, List.forall_mem_nil _⟩)
      fun hnone => ⟨hnone.1, hnone.2.1, mt hvalue.1 hnone.1, List.forall_mem_nil _⟩
  invalidate := hinvalidated.allOrNone
  seconds stamp text htext := by
    cases stamp with
    | write => exact hwritten.isWord htext
    | invalidate => exact hinvalidated.isWord htext
  nanoseconds stamp text htext := by
    cases stamp with
    | write => exact hwritten.isNanoseconds htext
    | invalidate => exact hinvalidated.isNanoseconds htext

theorem holds_of_stamps {written invalidated : Option Timestamp}
    (hwritten : Stamps fields .write written)
    (hinvalidated : Stamps fields .invalidate invalidated) :
    Holds fields ⟨fields[valueField]?, written.getD .zero, invalidated.getD .zero⟩ where
  value := rfl
  seconds stamp := by
    cases stamp with
    | write => exact hwritten.seconds
    | invalidate => exact hinvalidated.seconds
  nanoseconds stamp := by
    cases stamp with
    | write => exact hwritten.nanoseconds
    | invalidate => exact hinvalidated.nanoseconds

/-- **A record is read as the fields hold it**, or the first fault is found that they have. -/
theorem ofFields_spec (fields : Fields) :
    match ofFields fields with
    | .ok r => Persisted fields ∧ Holds fields r
    | .error fault => fault.First fields Fault.inOrder := by
  have hwrite := stampRead_readStamp fields .write
  have hinvalidate := stampRead_readStamp fields .invalidate
  unfold ofFields
  cases hw : readStamp fields .write with
  | error fault =>
    rw [hw] at hwrite
    exact (hwrite.append_right _).append_right _
  | ok written =>
    have hwrite : Stamps fields .write written := by rwa [hw] at hwrite
    cases hi : readStamp fields .invalidate with
    | error fault =>
      rw [hi] at hinvalidate
      exact (Fault.First.append_left hwrite.not_in hinvalidate).append_right _
    | ok invalidated =>
      have hinvalidate : Stamps fields .invalidate invalidated := by rwa [hi] at hinvalidate
      have hstamps : ∀ fault ∈ Fault.ofStamp .write ++ Fault.ofStamp .invalidate,
          ¬fault.In fields := List.forall_mem_append.2 ⟨hwrite.not_in, hinvalidate.not_in⟩
      have hfault {fault : Fault}
          (h : fault.First fields [.unstampedValue, .stampWithoutValue]) :
          fault.First fields Fault.inOrder := .append_left hstamps h
      cases hv : fields[valueField]? with
      | none =>
        have hnone := not_mem_of_getElem? hv
        cases written with
        | none =>
          have hvalue := iff_of_false hnone (mt hwrite.isSome_iff.2 Bool.false_ne_true)
          exact ⟨persisted_of_stamps hwrite hinvalidate hvalue,
            hv ▸ holds_of_stamps hwrite hinvalidate⟩
        | some t =>
          have hin : Fault.stampWithoutValue.In fields := ⟨hnone, hwrite.isSome_iff.1 rfl⟩
          exact hfault ⟨[.unstampedValue], [], rfl, hin, by simp [Fault.In, hnone]⟩
      | some v =>
        have hsome := mem_of_getElem? hv
        cases written with
        | none =>
          have hin : Fault.unstampedValue.In fields :=
            ⟨hsome, mt hwrite.isSome_iff.2 Bool.false_ne_true⟩
          exact hfault ⟨[], _, rfl, hin, List.forall_mem_nil _⟩
        | some t =>
          have hvalue := iff_of_true hsome (hwrite.isSome_iff.1 rfl)
          exact ⟨persisted_of_stamps hwrite hinvalidate hvalue,
            hv ▸ holds_of_stamps hwrite hinvalidate⟩

/-- Fields hold one record at most. -/
theorem Holds.unique {r r' : Record} (h : Holds fields r) (h' : Holds fields r') : r = r' := by
  have hword {found : Option Bytes} {i j : Int} (hi : Says found i) (hj : Says found j) :
      i = j := by
    cases found with
    | none => exact hi.trans hj.symm
    | some text => exact Decimal.Denotes.unique hi hj
  have hstamp (s : Stamp) : r.stamp s = r'.stamp s := by
    have hseconds := Int64.toInt_inj.1 (hword (h.seconds s) (h'.seconds s))
    have hnanoseconds := Int32.toInt_inj.1 (hword (h.nanoseconds s) (h'.nanoseconds s))
    generalize r.stamp s = t at *
    generalize r'.stamp s = t' at *
    cases t
    cases t'
    simp_all
  have hvalue : r.value = r'.value := h.value.trans h'.value.symm
  have hwritten : r.written = r'.written := hstamp .write
  have hinvalidated : r.invalidated = r'.invalidated := hstamp .invalidate
  cases r
  cases r'
  simp_all

/-! ### Reading into a record -/

/-- Puts a timestamp into a record. -/
def withStamp (r : Record) (t : Timestamp) : Stamp → Record
  | .write => { r with written := t }
  | .invalidate => { r with invalidated := t }

/-- Takes a timestamp into the draft, if the fields have it. -/
def takeStamp (fields : Fields) (stamp : Stamp) : EStateM Fault (Draft Record) Bool := do
  match readStamp fields stamp with
  | .error fault => throw fault
  | .ok none => return false
  | .ok (some t) =>
    Draft.edit fun r => r.withStamp t stamp
    return true

/-- Fills the draft with all that the fields have, and then hands it over. -/
def takeAll (fields : Fields) : EStateM Fault (Draft Record) Unit := do
  let isWritten ← takeStamp fields .write
  let _ ← takeStamp fields .invalidate
  match fields[valueField]?, isWritten with
  | some _, false => throw .unstampedValue
  | none, true => throw .stampWithoutValue
  | value, _ => Draft.edit fun r => { r with value := value }
  Draft.handOver

/-- Reads fields into a record: the reason, if they are refused, and what is in the place of the
record afterwards. -/
def readInto (fields : Fields) (target : Record) : Option Bytes × Record :=
  Draft.outcome Fault.message (takeAll fields) ⟨.blank, target⟩

/-- **All is handed over, or nothing**: a fault leaves the record as it was. -/
theorem readInto_eq (fields : Fields) (target : Record) :
    readInto fields target =
      match ofFields fields with
      | .ok r => (none, r)
      | .error fault => (some fault.message, target) := by
  unfold readInto takeAll takeStamp ofFields
  cases readStamp fields .write with
  | error fault => rfl
  | ok written =>
    cases readStamp fields .invalidate with
    | error fault => cases written <;> rfl
    | ok invalidated =>
      cases written <;> cases invalidated <;> cases fields[valueField]? <;> rfl

/-! ### The whole -/

/-- **Exactly the fields in the persisted form are read.**

* They are read as the record that they hold, which is the only one.
* The fault that is found in other fields is the first one that they have.
* Fields with other names make no difference.
* A record that fields are read into is replaced by theirs, or left as it was if there is a
  fault. -/
theorem read_iff_persisted (fields : Fields) :
    ((∃ r, ofFields fields = .ok r) ↔ Persisted fields) ∧
      (∀ r, ofFields fields = .ok r ↔ Persisted fields ∧ Holds fields r) ∧
      (∀ fault, ofFields fields = .error fault ↔ fault.First fields Fault.inOrder) ∧
      (∀ others : Fields, (∀ name ∈ fieldNames, fields[name]? = others[name]?) →
        ofFields fields = ofFields others) ∧
      ∀ target, readInto fields target =
        match ofFields fields with
        | .ok r => (none, r)
        | .error fault => (some fault.message, target) := by
  have hspec := ofFields_spec fields
  have hread : Persisted fields → ∃ r, ofFields fields = .ok r := by
    intro hpersisted
    cases hresult : ofFields fields with
    | ok r => exact ⟨r, rfl⟩
    | error fault =>
      rw [hresult] at hspec
      obtain ⟨_, _, _, hin, _⟩ := hspec
      exact absurd hin (fault.not_in hpersisted)
  have hheld {r : Record} (h : ofFields fields = .ok r) : Persisted fields ∧ Holds fields r := by
    rwa [h] at hspec
  refine ⟨⟨fun ⟨r, hr⟩ => (hheld hr).1, hread⟩, fun r => ⟨hheld, fun ⟨hpersisted, hholds⟩ => ?_⟩,
    fun fault => ⟨fun h => by rwa [h] at hspec, fun hfirst => ?_⟩, fun _ => ofFields_congr,
    readInto_eq fields⟩
  · obtain ⟨r', hr'⟩ := hread hpersisted
    rw [hr', (hheld hr').2.unique hholds]
  · cases hresult : ofFields fields with
    | ok r =>
      obtain ⟨_, _, _, hin, _⟩ := hfirst
      exact absurd hin (fault.not_in (hheld hresult).1)
    | error fault' =>
      rw [hresult] at hspec
      rw [hspec.unique hfirst]

/-- Both timestamps are at fault and the value has none, but what is told is that the seconds of the
write are no number. -/
example :
    readInto (.ofList [(Bytes.ofString "ts_sec", Bytes.ofString "+1"),
      (Bytes.ofString "ts_nsec", Bytes.ofString "1000000000"),
      (Bytes.ofString "inv_sec", Bytes.ofString "9223372036854775808")])
      ⟨some [65], ⟨1, 2⟩, .zero⟩ =
      (some (Bytes.ofString "non-integer ts_sec"), ⟨some [65], ⟨1, 2⟩, .zero⟩) := by decide +kernel

end Record

end CoherentCache
