import CoherentCache.Record
import CoherentCache.Proofs.Decimal

/-!
# The persisted form of a record

What is read back from the persisted form of a record: the record itself, or the complaint that a
timestamp is not normal.

* `Record.Storable` : the timestamps are normal and none of them stands for a value that is not there.
* `Record.ofFields_toFields` : a storable record is read back unchanged.
* `Record.eq_of_ofFields_toFields` : whatever is read back is the record that was written.
* `Record.storable_of_ofFields` : whatever is read back is storable.
-/

namespace CoherentCache

namespace Record

/-- The record survives being persisted. -/
def Storable (r : Record) : Prop :=
  (if r.value.isSome then r.written.Normal else r.written = .zero) ∧ r.invalidated.Normal

instance (r : Record) : Decidable r.Storable := by unfold Storable; infer_instance

theorem storable_blank : blank.Storable := by decide

/-! ### Fields of the persisted form -/

theorem getElem?_putStamp (fields : Fields) (stamp : Stamp) (t : Timestamp) (k : Bytes) :
    (putStamp fields stamp t)[k]? =
      if stamp.nanosecondsField = k then some (Decimal.ofInt t.nanoseconds.toInt)
      else if stamp.secondsField = k then some (Decimal.ofInt t.seconds.toInt)
      else fields[k]? := by
  simp only [putStamp, Std.TreeMap.getElem?_insert, Std.compare_eq_iff_eq]

/-- The fields that stand for the value and its timestamp. -/
def writtenFields (r : Record) : Fields :=
  match r.value with
  | none => ∅
  | some v => (putStamp ∅ .write r.written).insert valueField v

theorem toFields_eq (r : Record) :
    r.toFields =
      if r.invalidated = .zero then r.writtenFields
      else putStamp r.writtenFields .invalidate r.invalidated := rfl

theorem getElem?_writtenFields (r : Record) (k : Bytes) :
    r.writtenFields[k]? = r.value.bind fun v =>
      if valueField = k then some v else (putStamp ∅ .write r.written)[k]? := by
  unfold writtenFields
  cases r.value with
  | none => simp
  | some v => simp only [Std.TreeMap.getElem?_insert, Std.compare_eq_iff_eq, Option.bind_some]

theorem getElem?_toFields (r : Record) (k : Bytes) :
    r.toFields[k]? =
      if r.invalidated = .zero then r.writtenFields[k]?
      else (putStamp r.writtenFields .invalidate r.invalidated)[k]? := by
  rw [toFields_eq]
  split <;> rfl

theorem getElem?_toFields_value (r : Record) : r.toFields[valueField]? = r.value := by
  have hs : Stamp.invalidate.secondsField ≠ valueField := by decide
  have hn : Stamp.invalidate.nanosecondsField ≠ valueField := by decide
  simp only [getElem?_toFields, getElem?_putStamp, getElem?_writtenFields, hs, hn, if_true, if_false,
    ite_self]
  exact Option.bind_fun_some _

/-! ### Reading timestamps back -/

/-- What reading says about a timestamp that was written. -/
def checked (stamp : Stamp) (t : Timestamp) : Except Fault (Option Timestamp) :=
  if t.Normal then .ok (some t) else .error (.outOfRange stamp)

/-- The fields hold the timestamp, as it is written. -/
def Stamped (fields : Fields) (stamp : Stamp) (t : Timestamp) : Prop :=
  fields[stamp.secondsField]? = some (Decimal.ofInt t.seconds.toInt) ∧
    fields[stamp.nanosecondsField]? = some (Decimal.ofInt t.nanoseconds.toInt)

theorem readStamp_of_stamped {fields : Fields} {stamp : Stamp} {t : Timestamp}
    (h : Stamped fields stamp t) : readStamp fields stamp = checked stamp t := by
  have hlow : Int64.minValue.toInt ≤ t.nanoseconds.toInt :=
    Int.le_trans (by decide) t.nanoseconds.minValue_le_toInt
  have hhigh : t.nanoseconds.toInt ≤ Int64.maxValue.toInt :=
    Int.le_trans t.nanoseconds.toInt_le (by decide)
  have hback : (Int64.ofInt t.nanoseconds.toInt).toInt = t.nanoseconds.toInt :=
    Int64.toInt_ofInt_of_le hlow (Int.lt_of_le_of_lt hhigh (by decide))
  simp only [readStamp, h.1, h.2, Decimal.readInt64?_toInt, Decimal.readInt64?_ofInt hlow hhigh,
    hback, Int32.ofInt_toInt, checked, Timestamp.Normal]

theorem readStamp_of_none {fields : Fields} {stamp : Stamp}
    (hs : fields[stamp.secondsField]? = none) (hn : fields[stamp.nanosecondsField]? = none) :
    readStamp fields stamp = .ok none := by
  simp only [readStamp, hs, hn]

theorem stamped_toFields_write {r : Record} (h : r.value.isSome) :
    Stamped r.toFields .write r.written := by
  have h1 : Stamp.invalidate.secondsField ≠ Stamp.write.secondsField := by decide
  have h2 : Stamp.invalidate.nanosecondsField ≠ Stamp.write.secondsField := by decide
  have h3 : Stamp.invalidate.secondsField ≠ Stamp.write.nanosecondsField := by decide
  have h4 : Stamp.invalidate.nanosecondsField ≠ Stamp.write.nanosecondsField := by decide
  have h5 : valueField ≠ Stamp.write.secondsField := by decide
  have h6 : valueField ≠ Stamp.write.nanosecondsField := by decide
  have h7 : Stamp.write.nanosecondsField ≠ Stamp.write.secondsField := by decide
  obtain ⟨v, hv⟩ := Option.isSome_iff_exists.1 h
  constructor <;>
    simp [getElem?_toFields, getElem?_putStamp, getElem?_writtenFields, h1, h2, h3, h4, h5, h6, h7,
      hv]

theorem stamped_toFields_invalidate {r : Record} (h : r.invalidated ≠ .zero) :
    Stamped r.toFields .invalidate r.invalidated := by
  have hne : Stamp.invalidate.nanosecondsField ≠ Stamp.invalidate.secondsField := by decide
  constructor <;> simp [getElem?_toFields, getElem?_putStamp, hne, h]

theorem readStamp_toFields_write (r : Record) :
    readStamp r.toFields .write =
      if r.value.isSome then checked .write r.written else .ok none := by
  split
  · next hv => exact readStamp_of_stamped (stamped_toFields_write hv)
  · next hv =>
    have h1 : Stamp.invalidate.secondsField ≠ Stamp.write.secondsField := by decide
    have h2 : Stamp.invalidate.nanosecondsField ≠ Stamp.write.secondsField := by decide
    have h3 : Stamp.invalidate.secondsField ≠ Stamp.write.nanosecondsField := by decide
    have h4 : Stamp.invalidate.nanosecondsField ≠ Stamp.write.nanosecondsField := by decide
    have hnone : r.value = none := by simpa using hv
    apply readStamp_of_none <;>
      simp [getElem?_toFields, getElem?_putStamp, getElem?_writtenFields, h1, h2, h3, h4, hnone]

theorem readStamp_toFields_invalidate (r : Record) :
    readStamp r.toFields .invalidate =
      if r.invalidated = .zero then .ok none else checked .invalidate r.invalidated := by
  split
  · next hz =>
    have h1 : Stamp.write.secondsField ≠ Stamp.invalidate.secondsField := by decide
    have h2 : Stamp.write.nanosecondsField ≠ Stamp.invalidate.secondsField := by decide
    have h3 : Stamp.write.secondsField ≠ Stamp.invalidate.nanosecondsField := by decide
    have h4 : Stamp.write.nanosecondsField ≠ Stamp.invalidate.nanosecondsField := by decide
    have h5 : valueField ≠ Stamp.invalidate.secondsField := by decide
    have h6 : valueField ≠ Stamp.invalidate.nanosecondsField := by decide
    apply readStamp_of_none <;>
      simp [getElem?_toFields, getElem?_putStamp, getElem?_writtenFields, h1, h2, h3, h4, h5, h6, hz]
  · next hz => exact readStamp_of_stamped (stamped_toFields_invalidate hz)

/-! ### Reading records back -/

/-- The names of the fields of a record. -/
def fieldNames : List Bytes :=
  [Stamp.write.secondsField, Stamp.write.nanosecondsField, Stamp.invalidate.secondsField,
    Stamp.invalidate.nanosecondsField, valueField]

/-- Only what is found in the fields of a record matters, and neither how they are kept nor what
other fields there are. -/
theorem ofFields_congr {fields others : Fields}
    (h : ∀ name ∈ fieldNames, fields[name]? = others[name]?) :
    ofFields fields = ofFields others := by
  have hvalue : fields[valueField]? = others[valueField]? := h _ (by decide)
  have hstamp (stamp : Stamp) : readStamp fields stamp = readStamp others stamp := by
    have hseconds : fields[stamp.secondsField]? = others[stamp.secondsField]? :=
      h _ (by cases stamp <;> decide)
    have hnanoseconds : fields[stamp.nanosecondsField]? = others[stamp.nanosecondsField]? :=
      h _ (by cases stamp <;> decide)
    simp only [readStamp, hseconds, hnanoseconds]
  simp only [ofFields, hstamp, hvalue]

/-- What a reader makes of the persisted form of a record. -/
theorem ofFields_toFields_eq (r : Record) :
    ofFields r.toFields =
      if r.value.isSome ∧ ¬ r.written.Normal then .error (.outOfRange .write)
      else if ¬ r.invalidated.Normal then .error (.outOfRange .invalidate)
      else .ok { r with written := if r.value.isSome then r.written else .zero } := by
  have hzero : (Timestamp.zero).Normal := by decide
  obtain ⟨value, written, invalidated⟩ := r
  unfold ofFields
  rw [readStamp_toFields_write, readStamp_toFields_invalidate, getElem?_toFields_value]
  -- Reading looks at the write timestamp first, so its fault hides that of the other one.
  cases value <;> by_cases hw : written.Normal <;> by_cases hz : invalidated = .zero <;>
    by_cases hi : invalidated.Normal <;> simp_all [checked, bind, Except.bind]

/-- **A storable record is read back unchanged.** -/
theorem ofFields_toFields {r : Record} (h : r.Storable) : ofFields r.toFields = .ok r := by
  obtain ⟨value, written, invalidated⟩ := r
  obtain ⟨hw, hi⟩ := h
  rw [ofFields_toFields_eq]
  cases value <;> simp_all

theorem normal_of_readStamp {fields : Fields} {stamp : Stamp} {t : Timestamp}
    (h : readStamp fields stamp = .ok (some t)) : t.Normal := by
  unfold readStamp at h
  split at h
  · cases h
  · split at h
    · cases h
    · cases h
    · next n _ _ =>
      split at h
      · next hrange =>
        cases h
        obtain ⟨hlow, hhigh⟩ := hrange
        unfold Timestamp.nanosPerSecond at hhigh
        have hback : (Int32.ofInt n.toInt).toInt = n.toInt :=
          Int32.toInt_ofInt_of_le (Int.le_trans (by decide) hlow) (Int.lt_trans hhigh (by decide))
        unfold Timestamp.Normal
        rw [hback]
        exact ⟨hlow, hhigh⟩
      · cases h
  · cases h

theorem normal_getD_of_readStamp {fields : Fields} {stamp : Stamp} {t : Option Timestamp}
    (h : readStamp fields stamp = .ok t) : (t.getD .zero).Normal := by
  cases t with
  | none => decide
  | some t => exact normal_of_readStamp h

/-- **Every record that is read back is storable.** -/
theorem storable_of_ofFields {fields : Fields} {r : Record} (h : ofFields fields = .ok r) :
    r.Storable := by
  unfold ofFields at h
  cases hw : readStamp fields .write with
  | error fault => rw [hw] at h; cases h
  | ok written =>
    cases hi : readStamp fields .invalidate with
    | error fault => rw [hw, hi] at h; cases h
    | ok invalidated =>
      rw [hw, hi] at h
      have hwritten := normal_getD_of_readStamp hw
      have hinvalidated := normal_getD_of_readStamp hi
      -- A value is there exactly when its timestamp is.
      cases hv : fields[valueField]? <;> cases written <;>
        simp only [hv, bind, Except.bind, Except.ok.injEq, reduceCtorEq] at h <;> subst h
      · exact ⟨rfl, hinvalidated⟩
      · exact ⟨hwritten, hinvalidated⟩

/-- The value that is read back is the text of its field. -/
theorem value_of_ofFields {fields : Fields} {r : Record} (h : ofFields fields = .ok r) :
    r.value = fields[valueField]? := by
  unfold ofFields at h
  cases hw : readStamp fields .write with
  | error fault => rw [hw] at h; cases h
  | ok written =>
    cases hi : readStamp fields .invalidate with
    | error fault => rw [hw, hi] at h; cases h
    | ok invalidated =>
      rw [hw, hi] at h
      cases hv : fields[valueField]? <;> cases written <;>
        simp only [hv, bind, Except.bind, Except.ok.injEq, reduceCtorEq] at h <;> subst h <;> rfl

/-- Whatever is read back is the record that was written, if it claims no write without a value. -/
theorem eq_of_ofFields_toFields {r r' : Record} (hw : r.value = none → r.written = .zero)
    (h : ofFields r.toFields = .ok r') : r' = r := by
  obtain ⟨value, written, invalidated⟩ := r
  rw [ofFields_toFields_eq] at h
  split at h
  · cases h
  · split at h
    · cases h
    · cases value <;> simp_all

end Record

end CoherentCache
