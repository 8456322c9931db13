import CoherentCache.Proofs.Decimal.Grammar
import CoherentCache.Settings.Lookup

/-!
# Looking up settings in flat objects

A flat object is written as members between braces, with commas between them and blanks wherever
they like.  The search for a setting does not know of members.  It tries every place of the text,
and all that keeps it from going astray is what may stand behind a quote.  Behind the quote that
closes a key or a string there is a blank, a colon, a comma or a brace, and no name starts like
that.  Behind the quote that opens a string there may be a name, but then a comma or a brace comes
next and no colon.  Quotes within a key are escaped.  No name ends with a backslash, so that such a
quote closes none.  It may open one, though, if the name ends where the key ends, and then the
search takes the name for a key.

The numbers of an object have up to 64 bits, and are written without zeros in front.  The search
does not depend on that, so it is followed in objects in which any digits stand in the place of some
values.

* `Flat.Value`, `Flat.Member`, `Flat.Object` : flat objects, and their texts.
* `Flat.Member.Hides`, `Flat.Member.Shows` : keys that end with a name.
* `Flat.Object.textWith` : an object with digits in the place of some values.
* `Flat.IsName` : the names of settings.
* `Flat.search?_skip`, `Flat.search?_closing`, `Flat.search?_key` : the search at the quotes of a
  text.
* `Flat.search?_token`, `Flat.search?_member` : the search in a value finds nothing, and in a member
  it finds the value of a name that is shown.
* `Flat.Object.digits?_textWith`, `Flat.Object.string?_textWith` : **without hidden names, a lookup
  reads the member with the key.**
* `Flat.Object.string?_eq`, `Flat.Object.number?_eq` : the same for an object as it is.
-/

namespace CoherentCache

namespace Flat

open Lookup

/-! ### Flat objects -/

/-- Blanks between tokens. -/
abbrev Blanks := { text : Bytes // ∀ b ∈ text, Bytes.isBlank b = true }

/-- A text without quotes. -/
abbrev Plain := { text : Bytes // 34 ∉ text }

/-- A value of a member. -/
inductive Value where
  /-- A string. -/
  | string (text : Plain)
  /-- A number of up to 64 bits. -/
  | number (n : UInt64)
  /-- A truth value, or `null`. -/
  | literal (b : Option Bool)

/-- The word for a truth value or for `null`. -/
def word : Option Bool → Bytes
  | some true => Bytes.ofString "true"
  | some false => Bytes.ofString "false"
  | none => Bytes.ofString "null"

namespace Value

/-- A value as it is written. -/
def text : Value → Bytes
  | string t => 34 :: (t.1 ++ [34])
  | number n => Decimal.ofNat n.toNat
  | literal b => word b

/-- The digits of a number. -/
def digits? : Value → Option Bytes
  | number n => some (Decimal.ofNat n.toNat)
  | string _ | literal _ => none

/-- The text of a string. -/
def string? : Value → Option Bytes
  | string t => some t.1
  | number _ | literal _ => none

/-- A number. -/
def number? : Value → Option Nat
  | number n => some n.toNat
  | string _ | literal _ => none

end Value

/-- Backslashes escape what follows them, and there is a backslash in front of every quote. -/
def isEscaped : Bytes → Bool
  | [] => true
  | [b] => b != 34 && b != 92
  | b :: c :: rest => if b = 92 then isEscaped rest else b != 34 && isEscaped (c :: rest)

/-- A key with its value.  The key is what stands between its quotes, escapes and all. -/
structure Member where
  /-- The key. -/
  key : Bytes
  /-- The key ends at the first quote that is not escaped. -/
  escaped : isEscaped key = true
  /-- The value. -/
  value : Value
  /-- In front of the key. -/
  beforeKey : Blanks
  /-- Between the key and the colon. -/
  afterKey : Blanks
  /-- Between the colon and the value. -/
  beforeValue : Blanks
  /-- Behind the value. -/
  afterValue : Blanks

/-- A member as it is written, with what follows. -/
def Member.textThen (m : Member) (rest : Bytes) : Bytes :=
  m.beforeKey.1 ++ 34 :: (m.key ++ 34 :: (m.afterKey.1 ++ 58 ::
    (m.beforeValue.1 ++ (m.value.text ++ (m.afterValue.1 ++ rest)))))

/-- A name at the end of a key, behind an escaped quote. -/
def Member.Hides (m : Member) (name : Bytes) : Prop := 34 :: name <:+ m.key

/-- A name that is the key, or that the key hides. -/
def Member.Shows (m : Member) (name : Bytes) : Prop := m.key = name ∨ m.Hides name

instance (m : Member) (name : Bytes) : Decidable (m.Hides name) :=
  inferInstanceAs (Decidable (_ <:+ _))

instance (m : Member) (name : Bytes) : Decidable (m.Shows name) :=
  inferInstanceAs (Decidable (_ ∨ _))

/-- Members as they are written, with commas between them and with what follows. -/
def membersThen (rest : Bytes) : List Member → Bytes
  | [] => rest
  | [m] => m.textThen rest
  | m :: members => m.textThen (44 :: membersThen rest members)

/-- A flat object.  Its keys are distinct. -/
structure Object where
  /-- The members, in the order in which they are written. -/
  members : List Member
  /-- No key is given twice. -/
  distinct : (members.map Member.key).Nodup
  /-- In front of the opening brace. -/
  before : Blanks
  /-- Behind the opening brace. -/
  inside : Blanks
  /-- Behind the closing brace. -/
  after : Blanks

namespace Object

/-- An object as it is written. -/
def text (o : Object) : Bytes :=
  o.before.1 ++ 123 :: (o.inside.1 ++ membersThen (125 :: o.after.1) o.members)

/-- The value of a key. -/
def value? (o : Object) (name : String) : Option Value :=
  (o.members.find? fun m => m.key = Bytes.ofString name).map Member.value

/-- The number that a key is given, if it is given one. -/
def number? (o : Object) (name : String) : Option Nat := (o.value? name).bind Value.number?

/-- The string that a key is given, if it is given one. -/
def string? (o : Object) (name : String) : Option Bytes := (o.value? name).bind Value.string?

end Object

/-! ### Digits in the place of values -/

/-- Digits of a number of any size. -/
abbrev Numeral := { digits : Bytes // Decimal.IsNumeral digits }

/-- Digits by key, which stand in the place of the values that are given to the keys. -/
abbrev Numerals := Bytes → Option Numeral

/-- What stands in the place of a value. -/
inductive Token where
  /-- The value as it is written. -/
  | value (v : Value)
  /-- Digits. -/
  | digits (d : Numeral)

namespace Token

/-- A token as it is written. -/
def text : Token → Bytes
  | value v => v.text
  | digits d => d.1

/-- The digits of a number. -/
def digits? : Token → Option Bytes
  | value v => v.digits?
  | digits d => some d.1

/-- The text of a string. -/
def string? : Token → Option Bytes
  | value v => v.string?
  | digits _ => none

/-- A number of up to 64 bits. -/
def number? : Token → Option Nat
  | value v => v.number?
  | digits d => if Decimal.value d.1 < UInt64.size then some (Decimal.value d.1) else none

end Token

/-- What stands in the place of the value of a member. -/
def Member.token (given : Numerals) (m : Member) : Token :=
  match given m.key with
  | none => .value m.value
  | some d => .digits d

/-- A member with its token, and with what follows. -/
def Member.textWith (given : Numerals) (m : Member) (rest : Bytes) : Bytes :=
  m.beforeKey.1 ++ 34 :: (m.key ++ 34 :: (m.afterKey.1 ++ 58 ::
    (m.beforeValue.1 ++ ((m.token given).text ++ (m.afterValue.1 ++ rest)))))

/-- Members with their tokens, with commas between them and with what follows. -/
def membersWith (given : Numerals) (rest : Bytes) : List Member → Bytes
  | [] => rest
  | [m] => m.textWith given rest
  | m :: members => m.textWith given (44 :: membersWith given rest members)

/-- What follows the members is there. -/
theorem mem_membersWith {given : Numerals} {b : UInt8} {rest : Bytes} (hb : b ∈ rest)
    (members : List Member) : b ∈ membersWith given rest members := by
  have hmember (m : Member) {rest : Bytes} (hb : b ∈ rest) : b ∈ m.textWith given rest := by
    simp [Member.textWith, hb]
  induction members with
  | nil => exact hb
  | cons m rest ih =>
    cases rest with
    | nil => exact hmember m hb
    | cons m' rest => exact hmember m (List.mem_cons_of_mem _ ih)

/-- Without digits, the members are as they are written. -/
theorem membersWith_none (rest : Bytes) (members : List Member) :
    membersWith (fun _ => none) rest members = membersThen rest members := by
  induction members with
  | nil => rfl
  | cons m members ih =>
    cases members with
    | nil => rfl
    | cons m' members =>
      rw [membersThen.eq_3 rest m _ (List.cons_ne_nil _ _), ← ih]
      rfl

namespace Object

/-- An object with digits in the place of some values. -/
def textWith (given : Numerals) (o : Object) : Bytes :=
  o.before.1 ++ 123 :: (o.inside.1 ++ membersWith given (125 :: o.after.1) o.members)

/-- What stands in the place of the value of a key. -/
def token? (given : Numerals) (o : Object) (name : String) : Option Token :=
  (o.members.find? fun m => m.key = Bytes.ofString name).map (Member.token given)

/-- Digits or no digits, there are both braces. -/
theorem braces_mem (given : Numerals) (o : Object) :
    123 ∈ o.textWith given ∧ 125 ∈ o.textWith given := by
  have hclosing : 125 ∈ membersWith given (125 :: o.after.1) o.members :=
    mem_membersWith List.mem_cons_self _
  exact ⟨List.mem_append_right _ List.mem_cons_self,
    List.mem_append_right _ (List.mem_cons_of_mem _ (List.mem_append_right _ hclosing))⟩

theorem textWith_none (o : Object) : o.textWith (fun _ => none) = o.text := by
  rw [textWith, membersWith_none, text]

theorem token?_none (o : Object) (name : String) :
    o.token? (fun _ => none) name = (o.value? name).map .value := by
  rw [token?, value?, Option.map_map]
  rfl

end Object

/-! ### Names -/

/-- A small letter or an underscore. -/
def isNameByte (b : UInt8) : Bool := (97 ≤ b && b ≤ 122) || b == 95

/-- The name of a setting is made of small letters and underscores, and there is at least one. -/
def IsName (name : Bytes) : Prop := name ≠ [] ∧ name.all isNameByte = true

instance (name : Bytes) : Decidable (IsName name) := by unfold IsName; infer_instance

variable {name : Bytes} {value? : Bytes → Option Bytes}

theorem IsName.isNameByte (h : IsName name) {b : UInt8} (hb : b ∈ name) : isNameByte b = true :=
  List.all_eq_true.1 h.2 b hb

theorem IsName.plain (h : IsName name) : 34 ∉ name := fun hmem => nomatch h.isNameByte hmem

theorem isBlank_iff {b : UInt8} :
    Bytes.isBlank b = true ↔ b.toNat = 32 ∨ (9 ≤ b.toNat ∧ b.toNat ≤ 13) := by
  simp only [Bytes.isBlank, Bool.or_eq_true, Bool.and_eq_true, beq_iff_eq, decide_eq_true_eq,
    UInt8.le_iff_toNat_le, ← UInt8.toNat_inj, UInt8.reduceToNat]

theorem isNameByte_iff {b : UInt8} :
    isNameByte b = true ↔ (97 ≤ b.toNat ∧ b.toNat ≤ 122) ∨ b.toNat = 95 := by
  simp only [Flat.isNameByte, Bool.or_eq_true, Bool.and_eq_true, beq_iff_eq, decide_eq_true_eq,
    UInt8.le_iff_toNat_le, ← UInt8.toNat_inj, UInt8.reduceToNat]

theorem isNameByte_of_isBlank {b : UInt8} (h : Bytes.isBlank b = true) : isNameByte b = false := by
  rw [isBlank_iff] at h
  rw [← Bool.not_eq_true, isNameByte_iff]
  omega

theorem isDigit_of_isBlank {b : UInt8} (h : Bytes.isBlank b = true) :
    Decimal.isDigit b = false := by
  rw [isBlank_iff] at h
  simp only [← Bool.not_eq_true, Decimal.isDigit, Bool.and_eq_true, decide_eq_true_eq,
    UInt8.le_iff_toNat_le, UInt8.reduceToNat]
  omega

theorem isBlank_of_isDigit {b : UInt8} (h : Decimal.isDigit b = true) :
    Bytes.isBlank b = false := by
  rw [← Bool.not_eq_true]
  intro hblank
  rw [isDigit_of_isBlank hblank] at h
  cases h

/-! ### Single quotes -/

/-- A name between quotes. -/
def framed (name : Bytes) : Bytes := 34 :: (name ++ [34])

/-- The search goes on behind a byte at which it finds nothing. -/
theorem search?_cons {key text : Bytes} {b : UInt8} (h : after? key (b :: text) = none) :
    search? key value? (b :: text) = search? key value? text := by
  rw [search?, behindKey?, h]
  rfl

/-- Nothing is found before the next quote. -/
theorem search?_skip {skipped : Bytes} (h : 34 ∉ skipped) (rest : Bytes) :
    search? (framed name) value? (skipped ++ rest) =
      search? (framed name) value? rest := by
  induction skipped with
  | nil => rfl
  | cons b skipped ih =>
    have hb : 34 ≠ b := List.ne_of_not_mem_cons h
    have hnone : after? (framed name) (b :: (skipped ++ rest)) = none := by
      rw [after?, framed, List.isPrefixOf_cons_cons, beq_false_of_ne hb]
      rfl
    rw [List.cons_append, search?_cons hnone, ih (List.not_mem_of_not_mem_cons h)]

/-- A quote with something behind it that starts no name is passed over. -/
theorem search?_closing (hname : IsName name) {b : UInt8} (hb : isNameByte b = false)
    (rest : Bytes) :
    search? (framed name) value? (34 :: b :: rest) =
      search? (framed name) value? (b :: rest) := by
  obtain ⟨hne, -⟩ := id hname
  obtain ⟨c, name, rfl⟩ := List.exists_cons_of_ne_nil hne
  have hc : c ≠ b := by
    rintro rfl
    rw [hname.isNameByte List.mem_cons_self] at hb
    cases hb
  refine search?_cons ?_
  rw [after?, framed, List.isPrefixOf_cons_cons, List.cons_append, List.isPrefixOf_cons_cons,
    beq_false_of_ne hc, Bool.false_and, Bool.and_false]
  rfl

/-- What stands behind a name in quotes, if it is the one that is looked for. -/
theorem after?_quoted {t : Bytes} (hname : 34 ∉ name) (ht : ¬name ++ [34] <+: t) (rest : Bytes) :
    after? (framed name) (34 :: (t ++ 34 :: rest)) =
      if t = name then some rest else none := by
  have hprefix : (name ++ [34]).isPrefixOf (t ++ 34 :: rest) = decide (t = name) := by
    induction t generalizing name with
    | nil =>
      cases name with
      | nil => rfl
      | cons c name =>
        have hc : c ≠ 34 := (List.ne_of_not_mem_cons hname).symm
        rw [List.cons_append, List.nil_append, List.isPrefixOf_cons_cons, beq_false_of_ne hc]
        rfl
    | cons b t ih =>
      cases name with
      | nil =>
        have hb : 34 ≠ b := fun h => ht ⟨t, h ▸ rfl⟩
        rw [List.nil_append, List.cons_append, List.isPrefixOf_cons_cons, beq_false_of_ne hb]
        rfl
      | cons c name =>
        rw [List.cons_append, List.cons_append, List.isPrefixOf_cons_cons]
        by_cases hcb : c = b
        · subst hcb
          rw [List.cons_append, List.prefix_cons_inj] at ht
          rw [ih (List.not_mem_of_not_mem_cons hname) ht]
          simp
        · rw [beq_false_of_ne hcb]
          simp [Ne.symm hcb]
  rw [after?, framed, List.isPrefixOf_cons_cons, hprefix]
  by_cases h : t = name
  · subst h
    simp
  · simp [h]

/-- What is found at a place, or else what is found behind it. -/
theorem search?_eq_or (key : Bytes) (b : UInt8) (text : Bytes) :
    search? key value? (b :: text) =
      ((behindKey? key (b :: text)).bind value?).or (search? key value? text) := by
  rw [search?]
  cases (behindKey? key (b :: text)).bind value? <;> rfl

/-- What stands behind a colon, without the blanks around the colon. -/
def behindColon? (text : Bytes) : Option Bytes := (after? [58] (skipBlanks text)).map skipBlanks

theorem behindKey?_quoted {t : Bytes} (hname : 34 ∉ name) (ht : ¬name ++ [34] <+: t)
    (rest : Bytes) :
    behindKey? (framed name) (34 :: (t ++ 34 :: rest)) =
      if t = name then behindColon? rest else none := by
  rw [behindKey?, after?_quoted hname ht]
  split <;> rfl

/-! ### Escaped quotes -/

theorem getLast?_of_isEscaped {t before after : Bytes} (ht : isEscaped t = true)
    (h : t = before ++ 34 :: after) : before.getLast? = some 92 := by
  induction t using isEscaped.induct generalizing before with
  | case1 => cases before <;> cases h
  | case2 b =>
    cases before with
    | nil =>
      cases h
      cases ht
    | cons x before => cases before <;> cases h
  | case3 c rest ih =>
    -- The byte behind a backslash may be a quote; further on it is as before.
    rw [isEscaped, if_pos rfl] at ht
    match before, h with
    | [x], h =>
      cases h
      rfl
    | x :: y :: before, h =>
      obtain ⟨-, -, hrest⟩ : 92 = x ∧ c = y ∧ rest = before ++ 34 :: after := by simpa using h
      rw [List.getLast?_cons, List.getLast?_cons, ih ht hrest]
      rfl
  | case4 b c rest hb ih =>
    rw [isEscaped, if_neg hb, Bool.and_eq_true] at ht
    cases before with
    | nil =>
      cases h
      cases ht.1
    | cons x before =>
      rw [List.getLast?_cons, ih ht.2 (List.cons.inj h).2]
      rfl

/-- In an escaped text, no quote closes a name. -/
theorem IsName.not_closed (hname : IsName name) {t : Bytes} (ht : isEscaped t = true)
    {before after : Bytes} (h : t = before ++ after) : ¬name ++ [34] <+: after := by
  rintro ⟨rest, rfl⟩
  have hlast : (before ++ name).getLast? = some 92 := getLast?_of_isEscaped ht (by simpa using h)
  have hsome : name.getLast? = some (name.getLast hname.1) := List.getLast?_eq_some_getLast hname.1
  rw [List.getLast?_append, hsome] at hlast
  have hbyte := hname.isNameByte (List.getLast_mem hname.1)
  rw [Option.some.inj hlast] at hbyte
  cases hbyte

/-- What is found in a key stands behind the name that the key hides. -/
theorem search?_key (hname : IsName name) {t : Bytes} (ht : isEscaped t = true) (rest : Bytes) :
    search? (framed name) value? (t ++ 34 :: rest) =
      (if 34 :: name <:+ t then (behindColon? rest).bind value? else none).or
        (search? (framed name) value? (34 :: rest)) := by
  have hgo (before after : Bytes) (h : t = before ++ after) :
      search? (framed name) value? (after ++ 34 :: rest) =
        (if 34 :: name <:+ after then (behindColon? rest).bind value? else none).or
          (search? (framed name) value? (34 :: rest)) := by
    induction after generalizing before with
    | nil =>
      have hnil : ¬34 :: name <:+ [] := fun hsuffix => nomatch List.suffix_nil.1 hsuffix
      rw [if_neg hnil]
      rfl
    | cons b after ih =>
      have h' : t = (before ++ [b]) ++ after := by simpa using h
      by_cases hb : b = 34
      · subst hb
        rw [List.cons_append, search?_eq_or,
          behindKey?_quoted hname.plain (hname.not_closed ht h'), ih _ h']
        by_cases hafter : after = name
        · -- The name stands at the end, and is too short to stand there twice.
          subst hafter
          have hshort : ¬34 :: after <:+ after := fun hsuffix =>
            Nat.not_succ_le_self _ hsuffix.length_le
          rw [if_pos rfl, if_pos (List.suffix_refl _), if_neg hshort, Option.none_or]
        · have hsuffix : 34 :: name <:+ 34 :: after ↔ 34 :: name <:+ after := by
            rw [List.suffix_cons_iff, List.cons.injEq]
            exact or_iff_right fun heq => hafter heq.2.symm
          simp only [if_neg hafter, hsuffix, Option.bind_none, Option.none_or]
      · have hplain : 34 ∉ [b] := by simpa using Ne.symm hb
        have hsuffix : 34 :: name <:+ b :: after ↔ 34 :: name <:+ after := by
          rw [List.suffix_cons_iff, List.cons.injEq]
          exact or_iff_right fun heq => hb heq.1.symm
        simp only [hsuffix, ← ih _ h']
        exact search?_skip hplain (after ++ 34 :: rest)
  exact hgo [] t rfl

/-! ### Blanks -/

theorem skipBlanks_append (w : Blanks) {b : UInt8} (hb : Bytes.isBlank b = false) (rest : Bytes) :
    skipBlanks (w.1 ++ b :: rest) = b :: rest := by
  rw [skipBlanks, List.dropWhile_append_of_pos w.2, List.dropWhile_cons_of_neg (by simp [hb])]

theorem Blanks.plain (w : Blanks) : 34 ∉ w.1 := fun hmem => nomatch w.2 34 hmem

/-- What holds neither of blanks nor of the byte behind them does not hold of the first of these. -/
theorem exists_cons_of_blanks {p : UInt8 → Bool}
    (hp : ∀ {c}, Bytes.isBlank c = true → p c = false) (w : Blanks) {b : UInt8} (hb : p b = false)
    (rest : Bytes) :
    ∃ c text, w.1 ++ b :: rest = c :: text ∧ p c = false := by
  obtain ⟨blanks, hblanks⟩ := w
  cases blanks with
  | nil => exact ⟨b, rest, rfl, hb⟩
  | cons c blanks => exact ⟨c, _, rfl, hp (hblanks c List.mem_cons_self)⟩

/-! ### Values and members -/

/-- What ends a member: a comma, or the closing brace. -/
def IsStop (b : UInt8) : Prop := b = 44 ∨ b = 125

theorem search?_stop {stop : UInt8} (hstop : IsStop stop) (rest : Bytes) :
    search? (framed name) value? (stop :: rest) = search? (framed name) value? rest := by
  have hplain : 34 ∉ [stop] := by rcases hstop with rfl | rfl <;> decide
  exact search?_skip hplain rest

theorem search?_end {stop : UInt8} (hstop : IsStop stop) (w : Blanks) (rest : Bytes) :
    search? (framed name) value? (w.1 ++ stop :: rest) = search? (framed name) value? rest := by
  rw [search?_skip w.plain, search?_stop hstop]

/-- Nothing is found in what has no quotes. -/
theorem search?_plain {token : Bytes} (htoken : 34 ∉ token) {stop : UInt8} (hstop : IsStop stop)
    (w : Blanks) (rest : Bytes) :
    search? (framed name) value? (token ++ (w.1 ++ stop :: rest)) =
      search? (framed name) value? rest := by
  rw [search?_skip htoken, search?_end hstop]

theorem Numeral.plain (d : Numeral) : 34 ∉ d.1 := d.2.not_mem (by decide)

/-- **Nothing is found in a value**, not even in a string that is the name. -/
theorem search?_token (hname : IsName name) (token : Token) {stop : UInt8} (hstop : IsStop stop)
    (w : Blanks) (rest : Bytes) :
    search? (framed name) value? (token.text ++ (w.1 ++ stop :: rest)) =
      search? (framed name) value? rest := by
  match token with
  | .digits d => exact search?_plain d.plain hstop w rest
  | .value (.number n) => exact search?_plain (Decimal.not_mem_ofNat (by decide) _) hstop w rest
  | .value (.literal b) =>
    have hplain : 34 ∉ word b := by
      rcases b with _ | _ | _ <;> decide
    exact search?_plain hplain hstop w rest
  | .value (.string t) =>
    have hblank : Bytes.isBlank stop = false := by rcases hstop with rfl | rfl <;> rfl
    have hname' : isNameByte stop = false := by rcases hstop with rfl | rfl <;> rfl
    -- If the string is the name, then what follows is no colon.
    have hopening : behindKey? (framed name) (34 :: (t.1 ++ 34 :: (w.1 ++ stop :: rest))) =
        none := by
      have hclosed : ¬name ++ [34] <+: t.1 := fun h => t.2 (h.subset (by simp))
      rw [behindKey?_quoted hname.plain hclosed, behindColon?, skipBlanks_append w hblank]
      rcases hstop with rfl | rfl <;> exact ite_self _
    obtain ⟨c, text, htext, hc⟩ := exists_cons_of_blanks isNameByte_of_isBlank w hname' rest
    rw [Token.text, Value.text, List.cons_append, List.append_assoc, List.singleton_append,
      search?_eq_or, hopening, Option.bind_none, Option.none_or, search?_skip t.2, htext,
      search?_closing hname hc, ← htext, search?_end hstop]

/-- A numeral starts with a digit. -/
theorem Numeral.exists_eq_cons (d : Numeral) :
    ∃ b digits, d.1 = b :: digits ∧ Decimal.isDigit b = true := by
  obtain ⟨b, digits, hdigits⟩ := List.exists_cons_of_ne_nil d.2.1
  exact ⟨b, digits, hdigits, List.all_eq_true.1 d.2.2 b (hdigits ▸ List.mem_cons_self)⟩

/-- A number is written as a numeral. -/
def Numeral.ofNat (n : Nat) : Numeral := ⟨Decimal.ofNat n, Decimal.isNumeral_ofNat n⟩

/-- A token starts with something that is no blank. -/
theorem exists_text_eq_cons (token : Token) :
    ∃ b text, token.text = b :: text ∧ Bytes.isBlank b = false := by
  have hnumeral (d : Numeral) : ∃ b text, d.1 = b :: text ∧ Bytes.isBlank b = false := by
    obtain ⟨b, digits, hdigits, hb⟩ := d.exists_eq_cons
    exact ⟨b, digits, hdigits, isBlank_of_isDigit hb⟩
  match token with
  | .digits d => exact hnumeral d
  | .value (.number n) => exact hnumeral (.ofNat n.toNat)
  | .value (.string t) => exact ⟨34, _, rfl, rfl⟩
  | .value (.literal b) => rcases b with _ | _ | _ <;> exact ⟨_, _, rfl, rfl⟩

/-- **In a member, the value of a name that is shown is found.** -/
theorem search?_member (hname : IsName name) (given : Numerals) (m : Member) {stop : UInt8}
    (hstop : IsStop stop) (rest : Bytes) :
    search? (framed name) value? (m.textWith given (stop :: rest)) =
      (if m.Shows name then value? ((m.token given).text ++ (m.afterValue.1 ++ stop :: rest))
        else none).or (search? (framed name) value? rest) := by
  let behind := (m.token given).text ++ (m.afterValue.1 ++ stop :: rest)
  have hcolon : behindColon? (m.afterKey.1 ++ 58 :: (m.beforeValue.1 ++ behind)) =
      some behind := by
    obtain ⟨b, text, htext, hb⟩ := exists_text_eq_cons (m.token given)
    have hbehind : behind = b :: (text ++ (m.afterValue.1 ++ stop :: rest)) :=
      congrArg (· ++ (m.afterValue.1 ++ stop :: rest)) htext
    rw [behindColon?, skipBlanks_append m.afterKey (by decide), hbehind]
    exact congrArg some (skipBlanks_append m.beforeValue hb _)
  have hplain : 34 ∉ m.afterKey.1 ++ 58 :: m.beforeValue.1 := by
    rw [List.mem_append, List.mem_cons]
    rintro (hmem | hmem | hmem)
    · exact m.afterKey.plain hmem
    · cases hmem
    · exact m.beforeValue.plain hmem
  -- Behind the key nothing is found, up to the end of the member.
  have hbehindKey : search? (framed name) value? (34 :: (m.afterKey.1 ++ 58 ::
      (m.beforeValue.1 ++ behind))) = search? (framed name) value? rest := by
    obtain ⟨c, others, hothers, hc⟩ :=
      exists_cons_of_blanks isNameByte_of_isBlank m.afterKey
        (show isNameByte 58 = false by decide) (m.beforeValue.1 ++ behind)
    rw [hothers, search?_closing hname hc, ← hothers, ← List.cons_append, ← List.append_assoc,
      search?_skip hplain, search?_token hname _ hstop]
  rw [Member.textWith, search?_skip m.beforeKey.plain, search?_eq_or,
    behindKey?_quoted hname.plain (hname.not_closed m.escaped (List.nil_append _).symm),
    search?_key hname m.escaped, hcolon, hbehindKey]
  by_cases hkey : m.key = name
  · have hshows : m.Shows name := .inl hkey
    rw [if_pos hkey, if_pos hshows, Option.bind_some]
    change (value? behind).or _ = (value? behind).or _
    split <;> cases value? behind <;> rfl
  · rw [if_neg hkey, Option.bind_none, Option.none_or]
    have hshows : m.Shows name ↔ 34 :: name <:+ m.key := or_iff_right hkey
    simp only [hshows]
    rfl

/-! ### Whole objects -/

/-- What is picked out of the token of a member, if the name is shown. -/
def Member.pickWith? (given : Numerals) (pick : Token → Option Bytes) (name : Bytes) (m : Member) :
    Option Bytes :=
  if m.Shows name then pick (m.token given) else none

/-- At a token with a comma or a brace behind it, only what is picked out of it is seen. -/
def Sees (value? : Bytes → Option Bytes) (pick : Token → Option Bytes) : Prop :=
  ∀ (token : Token) (w : Blanks) (stop : UInt8) (rest : Bytes), IsStop stop →
    value? (token.text ++ (w.1 ++ stop :: rest)) = pick token

variable {given : Numerals} {pick : Token → Option Bytes}

theorem search?_members (hname : IsName name) (hsees : Sees value? pick) (members : List Member)
    (w : Blanks) :
    search? (framed name) value? (membersWith given (125 :: w.1) members) =
      members.findSome? (Member.pickWith? given pick name) := by
  have hafter : search? (framed name) value? w.1 = none := by
    have hskip : search? (framed name) value? (w.1 ++ []) = search? (framed name) value? [] :=
      search?_skip w.plain []
    rwa [List.append_nil] at hskip
  have hfirst (m : Member) {stop : UInt8} (hstop : IsStop stop) (rest : Bytes) :
      search? (framed name) value? (m.textWith given (stop :: rest)) =
        (m.pickWith? given pick name).or (search? (framed name) value? rest) := by
    rw [search?_member hname given m hstop, hsees _ _ _ _ hstop]
    rfl
  have hcons (m : Member) (rest : List Member) :
      (m :: rest).findSome? (Member.pickWith? given pick name) =
        (m.pickWith? given pick name).or (rest.findSome? (Member.pickWith? given pick name)) := by
    rw [List.findSome?_cons]
    cases m.pickWith? given pick name <;> rfl
  induction members with
  | nil => rw [membersWith, search?_stop (.inr rfl), hafter, List.findSome?_nil]
  | cons m rest ih =>
    cases rest with
    | nil => rw [membersWith, hfirst m (.inr rfl), hafter, hcons, List.findSome?_nil]
    | cons m' rest =>
      rw [hcons m, ← ih]
      exact hfirst m (.inl rfl) _

/-- If no key hides the name, there is only one member to pick from. -/
theorem findSome?_pickWith? {members : List Member} (h : (members.map Member.key).Nodup)
    (hhides : ∀ m ∈ members, ¬m.Hides name) :
    members.findSome? (Member.pickWith? given pick name) =
      ((members.find? fun m => m.key = name).map (Member.token given)).bind pick := by
  induction members with
  | nil => rfl
  | cons m rest ih =>
    rw [List.map_cons, List.nodup_cons] at h
    obtain ⟨hm, hrest⟩ := List.forall_mem_cons.1 hhides
    rw [List.findSome?_cons, List.find?_cons, ih h.2 hrest, Member.pickWith?]
    by_cases hkey : m.key = name
    · have hnone : rest.find? (fun m => m.key = name) = none := by
        refine List.find?_eq_none.2 fun m' hm' hkey' => h.1 ?_
        rw [hkey, ← of_decide_eq_true hkey']
        exact List.mem_map_of_mem hm'
      have hshows : m.Shows name := .inl hkey
      rw [if_pos hshows, hnone, decide_eq_true hkey]
      cases hpick : pick (m.token given) with
      | none => exact hpick.symm
      | some found => exact hpick.symm
    · have hshows : ¬m.Shows name := not_or.2 ⟨hkey, hm⟩
      rw [if_neg hshows, decide_eq_false hkey]

namespace Object

theorem search?_textWith {key : String} (hname : IsName (Bytes.ofString key))
    (hsees : Sees value? pick) (o : Object) :
    search? (quoted key) value? (o.textWith given) =
      o.members.findSome? (Member.pickWith? given pick (Bytes.ofString key)) := by
  have hbrace : 34 ∉ o.before.1 ++ 123 :: o.inside.1 := by
    rw [List.mem_append, List.mem_cons]
    rintro (hmem | hmem | hmem)
    · exact o.before.plain hmem
    · cases hmem
    · exact o.inside.plain hmem
  show search? (framed (Bytes.ofString key)) value? (o.textWith given) = _
  rw [textWith, ← List.cons_append, ← List.append_assoc, search?_skip hbrace,
    search?_members hname hsees]

end Object

/-! ### Digits and strings -/

theorem leadingDigits?_of_not_isDigit {b : UInt8} (h : Decimal.isDigit b = false) (text : Bytes) :
    leadingDigits? (b :: text) = none := by
  rw [leadingDigits?, List.takeWhile_cons_of_neg (by simp [h])]
  rfl

theorem leadingString?_of_ne {b : UInt8} (h : b ≠ 34) (text : Bytes) :
    leadingString? (b :: text) = none := if_neg fun hquote => h hquote.1

/-- Digits end where a blank, a comma or a brace comes. -/
theorem leadingDigits?_numeral (d : Numeral) (w : Blanks) {stop : UInt8} (hstop : IsStop stop)
    (rest : Bytes) : leadingDigits? (d.1 ++ (w.1 ++ stop :: rest)) = some d.1 := by
  have hdigit : Decimal.isDigit stop = false := by rcases hstop with rfl | rfl <;> rfl
  obtain ⟨c, text, htext, hc⟩ := exists_cons_of_blanks isDigit_of_isBlank w hdigit rest
  have hdigits : (d.1 ++ c :: text).takeWhile Decimal.isDigit = d.1 := by
    rw [List.takeWhile_append_of_pos (List.all_eq_true.1 d.2.2),
      List.takeWhile_cons_of_neg (by simp [hc]), List.append_nil]
  have hne : ¬d.1.isEmpty = true := by simpa using d.2.1
  rw [htext, leadingDigits?, hdigits]
  exact if_neg hne

theorem sees_digits : Sees leadingDigits? Token.digits? := by
  intro token w stop rest hstop
  match token with
  | .digits d => exact leadingDigits?_numeral d w hstop rest
  | .value (.number n) => exact leadingDigits?_numeral (.ofNat n.toNat) w hstop rest
  | .value (.string t) => exact leadingDigits?_of_not_isDigit (by decide) _
  | .value (.literal b) =>
    rcases b with _ | _ | _ <;> exact leadingDigits?_of_not_isDigit (by decide) _

theorem leadingString?_numeral (d : Numeral) (rest : Bytes) :
    leadingString? (d.1 ++ rest) = none := by
  obtain ⟨b, digits, hdigits, hb⟩ := d.exists_eq_cons
  have hquote : b ≠ 34 := by
    rintro rfl
    cases hb
  rw [hdigits]
  exact leadingString?_of_ne hquote _

/-- A string ends at its closing quote. -/
theorem sees_string : Sees leadingString? Token.string? := by
  intro token w stop rest hstop
  match token with
  | .digits d => exact leadingString?_numeral d _
  | .value (.number n) => exact leadingString?_numeral (.ofNat n.toNat) _
  | .value (.literal b) => rcases b with _ | _ | _ <;> exact leadingString?_of_ne (by decide) _
  | .value (.string t) =>
    have hmem : (t.1 ++ 34 :: (w.1 ++ stop :: rest)).contains 34 = true := by simp
    have hplain : ∀ b ∈ t.1, (b != 34) = true := fun b hb =>
      bne_iff_ne.2 fun h => t.2 (h ▸ hb)
    rw [Token.text, Value.text, List.cons_append, List.append_assoc, List.singleton_append,
      leadingString?, if_pos ⟨rfl, hmem⟩, List.takeWhile_append_of_pos hplain,
      List.takeWhile_cons_of_neg (by decide), List.append_nil]
    rfl

/-- The number of a token is the one that its digits denote. -/
theorem Token.number?_eq (token : Token) :
    (token.digits?.bind fun digits => (Decimal.readUInt64? digits).map UInt64.toNat) =
      token.number? := by
  match token with
  | .digits d => exact Decimal.toNat_readUInt64? d.2
  | .value (.string t) => rfl
  | .value (.literal b) => rfl
  | .value (.number n) =>
    have hread := Decimal.toNat_readUInt64? (Decimal.isNumeral_ofNat n.toNat)
    rw [Decimal.value_ofNat, if_pos n.toNat_lt] at hread
    exact hread

namespace Object

variable {o : Object} {key : String}

/-- **Digits are looked up in the member with the key**, if no key hides it. -/
theorem digits?_textWith (hname : IsName (Bytes.ofString key))
    (hhides : ∀ m ∈ o.members, ¬m.Hides (Bytes.ofString key)) (given : Numerals) :
    Lookup.digits? (o.textWith given) key = (o.token? given key).bind Token.digits? :=
  (search?_textWith hname sees_digits o).trans (findSome?_pickWith? o.distinct hhides)

/-- **A string is looked up in the member with the key**, if no key hides it. -/
theorem string?_textWith (hname : IsName (Bytes.ofString key))
    (hhides : ∀ m ∈ o.members, ¬m.Hides (Bytes.ofString key)) (given : Numerals) :
    Lookup.string? (o.textWith given) key = (o.token? given key).bind Token.string? :=
  (search?_textWith hname sees_string o).trans (findSome?_pickWith? o.distinct hhides)

/-- **A number is looked up in the member with the key**, if no key hides it. -/
theorem number?_textWith (hname : IsName (Bytes.ofString key))
    (hhides : ∀ m ∈ o.members, ¬m.Hides (Bytes.ofString key)) (given : Numerals) :
    Lookup.number? (o.textWith given) key = (o.token? given key).bind Token.number? := by
  rw [Lookup.number?, digits?_textWith hname hhides, Option.bind_assoc]
  exact congrArg (o.token? given key).bind (funext Token.number?_eq)

theorem string?_eq (hname : IsName (Bytes.ofString key))
    (hhides : ∀ m ∈ o.members, ¬m.Hides (Bytes.ofString key)) :
    Lookup.string? o.text key = o.string? key := by
  rw [← textWith_none, string?_textWith hname hhides, token?_none, Option.bind_map]
  rfl

theorem number?_eq (hname : IsName (Bytes.ofString key))
    (hhides : ∀ m ∈ o.members, ¬m.Hides (Bytes.ofString key)) :
    Lookup.number? o.text key = o.number? key := by
  rw [← textWith_none, number?_textWith hname hhides, token?_none, Option.bind_map]
  rfl

end Object

end Flat

end CoherentCache
