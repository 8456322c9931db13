import CoherentCache.Proofs.Record
import CoherentCache.Proofs.Timestamp
import CoherentCache.Proofs.Decimal.Grammar

/-!
# Records and their persisted form, one to one

Many field maps are read as one record: numbers may have zeros in front, a zero may have a minus
sign, a zero invalidation may be spelled out, and there may be other fields.  One of these maps is
the form in which the record is written, and between the records that can be read and their written
forms nothing is lost either way.

* `Record.Persistable` : the records that the fields of a record can stand for.
* `Record.Canonical` : the protocol's own fields and no others, with numbers as they are written.
* `Record.persisted_one_to_one` : **the persistable records are those that are read back, and those
  that are ever read**; written again, they come out canonical.
-/

namespace CoherentCache

namespace Record

variable {fields : Fields} {r : Record}

/-- All timestamps that are written with the record are normal, and there is no timestamp of a write
without a value. -/
def Persistable (r : Record) : Prop :=
  (∀ stamp t, Stamped r.toFields stamp t → t.Normal) ∧ (r.value = none → r.written = .zero)

/-- The fields are the protocol's own, with all numbers as they are written. -/
def Canonical (fields : Fields) : Prop :=
  ∀ name text, fields[name]? = some text →
    name = valueField ∨ ∃ stamp : Stamp,
      (name = stamp.secondsField ∨ name = stamp.nanosecondsField) ∧ Decimal.IsCanonical text

/-! ### What can be persisted -/

theorem exists_readStamp (h : ofFields fields = .ok r) (stamp : Stamp) :
    ∃ t, readStamp fields stamp = .ok t := by
  unfold ofFields at h
  cases hw : readStamp fields .write with
  | error fault => rw [hw] at h; cases h
  | ok written =>
    cases hi : readStamp fields .invalidate with
    | error fault => rw [hw, hi] at h; cases h
    | ok invalidated =>
      cases stamp with
      | write => exact ⟨written, hw⟩
      | invalidate => exact ⟨invalidated, hi⟩

/-- Fields that are read hold normal timestamps only. -/
theorem normal_of_stamped {stamp : Stamp} {t : Timestamp} (h : ofFields fields = .ok r)
    (ht : Stamped fields stamp t) : t.Normal := by
  obtain ⟨found, hfound⟩ := exists_readStamp h stamp
  rw [readStamp_of_stamped ht, checked] at hfound
  split at hfound
  · next hnormal => exact hnormal
  · cases hfound

theorem persistable_iff_storable : r.Persistable ↔ r.Storable := by
  constructor
  · rintro ⟨hnormal, hzero⟩
    constructor
    · split
      · next hv => exact hnormal .write _ (stamped_toFields_write hv)
      · next hv => exact hzero (by simpa using hv)
    · by_cases hz : r.invalidated = .zero
      · rw [hz]
        exact Timestamp.normal_zero
      · exact hnormal .invalidate _ (stamped_toFields_invalidate hz)
  · intro h
    refine ⟨fun stamp t ht => normal_of_stamped (ofFields_toFields h) ht, fun hv => ?_⟩
    have hwritten := h.1
    rwa [hv, Option.isSome_none, if_neg (by simp)] at hwritten

theorem ofFields_toFields_iff : ofFields r.toFields = .ok r ↔ r.Persistable := by
  rw [persistable_iff_storable]
  exact ⟨storable_of_ofFields, ofFields_toFields⟩

/-! ### What is written -/

theorem Canonical.putStamp (h : Canonical fields) (stamp : Stamp) (t : Timestamp) :
    Canonical (putStamp fields stamp t) := by
  intro name text hname
  rw [getElem?_putStamp] at hname
  split at hname
  · next hn =>
    obtain rfl := Option.some.inj hname
    exact .inr ⟨stamp, .inr hn.symm, Decimal.isCanonical_ofInt _⟩
  · split at hname
    · next hs =>
      obtain rfl := Option.some.inj hname
      exact .inr ⟨stamp, .inl hs.symm, Decimal.isCanonical_ofInt _⟩
    · exact h name text hname

theorem canonical_empty : Canonical ∅ := by
  intro name text hname
  simp at hname

theorem canonical_writtenFields (r : Record) : Canonical r.writtenFields := by
  intro name text hname
  rw [getElem?_writtenFields] at hname
  obtain ⟨v, -, hname⟩ := Option.bind_eq_some_iff.1 hname
  split at hname
  · next hvalue => exact .inl hvalue.symm
  · exact canonical_empty.putStamp _ _ name text hname

/-- **Every record is written in canonical form.** -/
theorem canonical_toFields (r : Record) : Canonical r.toFields := by
  rw [toFields_eq]
  split
  · exact canonical_writtenFields r
  · exact (canonical_writtenFields r).putStamp _ _

/-! ### One to one -/

/-- **Records and their written forms belong together one to one.**  Exactly the persistable records
are read back as they were written.  Every record that is read from any fields is one of them, so
that it is read once more from its own written form, which is canonical. -/
theorem persisted_one_to_one :
    (∀ r : Record, ofFields r.toFields = .ok r ↔ r.Persistable) ∧
      ∀ (fields : Fields) (r : Record), ofFields fields = .ok r →
        r.Persistable ∧ ofFields r.toFields = .ok r ∧ Canonical r.toFields := by
  refine ⟨fun r => ofFields_toFields_iff, fun fields r h => ?_⟩
  have hback : ofFields r.toFields = .ok r := ofFields_toFields (storable_of_ofFields h)
  exact ⟨ofFields_toFields_iff.1 hback, hback, canonical_toFields r⟩

/-- Fields with zeros in front, the least number of seconds, a zero with a minus sign, a zero
invalidation that is spelled out and a field of another's are read, and written in another form. -/
theorem persisted_one_to_one_spelledOut :
    let fields : Fields := .ofList
      [(Bytes.ofString "ts_sec", Bytes.ofString "-009223372036854775808"),
        (Bytes.ofString "ts_nsec", Bytes.ofString "-0"),
        (Bytes.ofString "inv_sec", Bytes.ofString "0"),
        (Bytes.ofString "inv_nsec", Bytes.ofString "00"), (Bytes.ofString "v", []),
        (Bytes.ofString "owner", Bytes.ofString "somebody")]
    let r : Record := ⟨some [], ⟨Int64.minValue, 0⟩, .zero⟩
    ofFields fields = .ok r ∧ r.Persistable ∧ ofFields r.toFields = .ok r ∧
      Canonical r.toFields ∧ r.toFields.size = 3 := by
  intro fields r
  have h : ofFields fields = .ok r := rfl
  obtain ⟨hpersistable, hback, hcanonical⟩ := persisted_one_to_one.2 fields r h
  exact ⟨h, hpersistable, hback, hcanonical, rfl⟩

end Record

end CoherentCache
