import Mathlib.Algebra.Order.Ring.Int
import Mathlib.Data.List.Forall2
import MacroGraph.Json.Shape

namespace MacroGraph
open Json

theorem Table.put_of_not_mem {α : Type} (value : α) {table : List (String × α)} {name : String}
    (h : name ∉ table.map Prod.fst) : put table name value = table ++ [(name, value)] := by
  induction table with
  | nil => rfl
  | cons entry rest ih =>
    obtain ⟨fresh, later⟩ : name ≠ entry.1 ∧ name ∉ rest.map Prod.fst := by simpa using h
    simp [put, fresh.symm, ih later]

namespace Json

/-- The values that a reader holds as they are written, within the depth that is left:
their numbers are integers of 64 bits, and the names of an object are distinct. -/
inductive Fits : Nat → Json → Prop where
  | null {depth : Nat} : Fits depth .null
  | bool {depth : Nat} (b : Bool) : Fits depth (.bool b)
  | natural {depth n : Nat} : n < 2 ^ 64 → Fits depth (.number (.natural n))
  | negative {depth : Nat} {k : Int} :
      -2 ^ 63 ≤ k → k < 0 → Fits depth (.number (.negative k))
  | text {depth : Nat} (s : String) : Fits depth (.text s)
  | array {depth : Nat} {items : List Json} :
      (∀ j ∈ items, Fits depth j) → Fits (depth + 1) (.array items)
  | object {depth : Nat} {fields : List (String × Json)} :
      (fields.map Prod.fst).Nodup → (∀ f ∈ fields, Fits depth f.2) →
      Fits (depth + 1) (.object fields)

mutual

/-- The same value. The members of an object may stand in any order. -/
inductive Same : Json → Json → Prop where
  | null : Same .null .null
  | bool (b : Bool) : Same (.bool b) (.bool b)
  | number (n : Json.Number) : Same (.number n) (.number n)
  | text (s : String) : Same (.text s) (.text s)
  | array {items items' : List Json} :
      SameItems items items' → Same (.array items) (.array items')
  | object {fields moved fields' : List (String × Json)} :
      fields.Perm moved → SameFields moved fields' → Same (.object fields) (.object fields')

inductive SameItems : List Json → List Json → Prop where
  | noItem : SameItems [] []
  | item {j j' : Json} {items items' : List Json} :
      Same j j' → SameItems items items' → SameItems (j :: items) (j' :: items')

inductive SameFields : List (String × Json) → List (String × Json) → Prop where
  | noField : SameFields [] []
  | field {j j' : Json} {fields fields' : List (String × Json)} (name : String) :
      Same j j' → SameFields fields fields' →
      SameFields ((name, j) :: fields) ((name, j') :: fields')

end

mutual

/-- The tree that writes a value with the members of its objects in their order. -/
inductive WrittenAs : Json → Tree → Prop where
  | null : WrittenAs .null .null
  | bool (b : Bool) : WrittenAs (.bool b) (.bool b)
  | natural (n : Nat) :
      WrittenAs (.number (.natural n)) (.number ⟨false, digitsOf n, none, none⟩)
  | negative (k : Int) :
      WrittenAs (.number (.negative k)) (.number ⟨true, digitsOf k.natAbs, none, none⟩)
  | text (s : String) : WrittenAs (.text s) (.text (some s))
  | array {items : List Json} {ts : List Tree} :
      ItemsWrittenAs items ts → WrittenAs (.array items) (.array ts true)
  | object {fields : List (String × Json)} {members : List (Option String × Tree)} :
      FieldsWrittenAs fields members → WrittenAs (.object fields) (.object members true)

inductive ItemsWrittenAs : List Json → List Tree → Prop where
  | noItem : ItemsWrittenAs [] []
  | item {j : Json} {t : Tree} {items : List Json} {ts : List Tree} :
      WrittenAs j t → ItemsWrittenAs items ts → ItemsWrittenAs (j :: items) (t :: ts)

inductive FieldsWrittenAs : List (String × Json) → List (Option String × Tree) → Prop where
  | noField : FieldsWrittenAs [] []
  | field {j : Json} {t : Tree} {fields : List (String × Json)}
      {members : List (Option String × Tree)} (name : String) :
      WrittenAs j t → FieldsWrittenAs fields members →
      FieldsWrittenAs ((name, j) :: fields) ((some name, t) :: members)

end

section Written
variable {j : Json} {t : Tree} {items : List Json} {ts : List Tree}
  {fields : List (String × Json)} {members : List (Option String × Tree)}

@[simp] theorem writtenAs_text {s : String} : (Json.text s).WrittenAs t ↔ t = .text (some s) :=
  ⟨fun h => by cases h; rfl, fun h => h ▸ .text s⟩

@[simp] theorem writtenAs_array : (Json.array items).WrittenAs t ↔
    ∃ ts, t = .array ts true ∧ ItemsWrittenAs items ts :=
  ⟨fun h => by cases h with | array h => exact ⟨_, rfl, h⟩, fun ⟨_, ht, h⟩ => ht ▸ .array h⟩

@[simp] theorem writtenAs_object : (Json.object fields).WrittenAs t ↔
    ∃ members, t = .object members true ∧ FieldsWrittenAs fields members :=
  ⟨fun h => by cases h with | object h => exact ⟨_, rfl, h⟩, fun ⟨_, ht, h⟩ => ht ▸ .object h⟩

@[simp] theorem fieldsWrittenAs_nil : FieldsWrittenAs [] members ↔ members = [] :=
  ⟨fun h => by cases h; rfl, fun h => h ▸ .noField⟩

@[simp] theorem fieldsWrittenAs_cons {name : String} :
    FieldsWrittenAs ((name, j) :: fields) members ↔
      ∃ t rest, members = (some name, t) :: rest ∧ j.WrittenAs t ∧ FieldsWrittenAs fields rest :=
  ⟨fun h => by cases h with | field _ h more => exact ⟨_, _, rfl, h, more⟩,
    fun ⟨_, _, hm, h, more⟩ => hm ▸ .field name h more⟩

theorem itemsWrittenAs_iff : ItemsWrittenAs items ts ↔ List.Forall₂ WrittenAs items ts := by
  constructor
  · intro h
    induction items generalizing ts with
    | nil => cases h; exact .nil
    | cons j items ih => cases h with | item h more => exact .cons h (ih more)
  · intro h
    induction h with
    | nil => exact .noItem
    | cons h _ ih => exact .item h ih

end Written

section Numbers
open Numeral

theorem le_ofDigitChars (digits : List Char) (n : Nat) : n ≤ Nat.ofDigitChars 10 digits n := by
  induction digits generalizing n with
  | nil => simp [Nat.ofDigitChars]
  | cons c digits ih =>
    have := ih (10 * n + (c.toNat - '0'.toNat))
    simp only [Nat.ofDigitChars, List.foldl_cons] at this ⊢
    omega

theorem takeDigits_eq {digits : List Char} {significand : Nat}
    (h : Nat.ofDigitChars 10 digits significand < significandBound) :
    takeDigits significand digits = (Nat.ofDigitChars 10 digits significand, 0) := by
  induction digits generalizing significand with
  | nil => simp [takeDigits, Nat.ofDigitChars]
  | cons c digits ih =>
    have step : significand * 10 + digitValue c = 10 * significand + (c.toNat - '0'.toNat) := by
      rw [Nat.mul_comm]
      rfl
    have small := Nat.lt_of_le_of_lt (le_ofDigitChars digits (significand * 10 + digitValue c))
      (by rw [step]; exact h)
    rw [takeDigits, if_pos small, ih (by rw [step]; exact h), step]
    rfl

theorem takeDigits_digitsOf {n : Nat} (h : n < 2 ^ 64) : takeDigits 0 (digitsOf n) = (n, 0) := by
  rw [takeDigits_eq (by rw [ofDigitChars_digitsOf]; exact h), ofDigitChars_digitsOf]

theorem read?_natural {n : Nat} (h : n < 2 ^ 64) :
    Numeral.read? ⟨false, digitsOf n, none, none⟩ = some (.natural n) := by
  simp [Numeral.read?, takeDigits_digitsOf h]

theorem read?_negative {k : Int} (low : -2 ^ 63 ≤ k) (negative : k < 0) :
    Numeral.read? ⟨true, digitsOf k.natAbs, none, none⟩ = some (.negative k) := by
  obtain ⟨n, rfl⟩ : ∃ n : Nat, k = -(n : Int) := ⟨k.natAbs, by omega⟩
  have large : n ≠ 0 ∧ n ≤ 9223372036854775808 := by omega
  have digits : takeDigits 0 (digitsOf n) = (n, 0) := takeDigits_digitsOf (by omega)
  simp [Numeral.read?, Int.natAbs_neg, digits, large]

end Numbers

section Reading
variable {j : Json} {t : Tree} {items : List Json} {ts : List Tree}
  {fields : List (String × Json)} {members : List (Option String × Tree)}

/-- A value that fits is read as it is written. -/
theorem WrittenAs.toJson (h : j.WrittenAs t) {depth : Nat} (fits : Fits depth j) :
    t.toJson depth = .ok j := by
  induction h using WrittenAs.rec
    (motive_2 := fun items ts _ =>
      ∀ depth, (∀ j ∈ items, Fits depth j) → Tree.toJsonItems depth ts = .ok items)
    (motive_3 := fun fields members _ =>
      ∀ depth before, ((before ++ fields).map Prod.fst).Nodup →
        (∀ f ∈ fields, Fits depth f.2) →
        Tree.toJsonFields depth before members = .ok (before ++ fields))
    generalizing depth with
  | null => simp [Tree.toJson]
  | bool b => simp [Tree.toJson]
  | natural n =>
    cases fits with
    | natural small => simp [Tree.toJson, read?_natural small]
  | negative k =>
    cases fits with
    | negative low negative => simp [Tree.toJson, read?_negative low negative]
  | text s => simp [Tree.toJson]
  | array _ read =>
    cases fits with
    | array each => simp [Tree.toJson, read _ each]
  | object _ read =>
    cases fits with
    | object distinct each => simp [Tree.toJson, read _ [] distinct each]
  | noItem => rfl
  | item _ _ read more depth each =>
    simp [Tree.toJsonItems, read (each _ (by simp)),
      more depth fun j hj => each j (List.mem_cons_of_mem _ hj), Except.map]
  | noField => simp [Tree.toJsonFields]
  | @field j t fields members name _ _ read more depth before distinct each =>
    have fresh : name ∉ before.map Prod.fst := by
      intro known
      rw [List.map_append] at distinct
      exact (List.nodup_append.1 distinct).2.2 name known name (by simp) rfl
    have rest := more depth (before ++ [(name, j)]) (by simpa using distinct)
      fun f hf => each f (List.mem_cons_of_mem _ hf)
    simp [Tree.toJsonFields, read (each (name, j) (by simp)), Table.put_of_not_mem _ fresh, rest]

theorem WrittenAs.toFields (h : (Json.object fields).WrittenAs t) {depth : Nat}
    (fits : Fits depth (.object fields)) : t.toFields depth = .ok fields := by
  have read := h.toJson fits
  cases h with
  | @object _ members _ =>
    cases fits with
    | @object depth _ _ _ =>
      cases inner : Tree.toJsonFields depth [] members with
      | error p => simp [Tree.toJson, inner] at read
      | ok found => simpa [Tree.toJson, Tree.toFields, inner] using read

theorem Same.fits {j' : Json} (h : j.Same j') {depth : Nat} (fits : Fits depth j) :
    Fits depth j' := by
  induction h using Same.rec
    (motive_2 := fun items items' _ =>
      ∀ depth, (∀ j ∈ items, Fits depth j) → ∀ j ∈ items', Fits depth j)
    (motive_3 := fun fields fields' _ => fields.map Prod.fst = fields'.map Prod.fst ∧
      ∀ depth, (∀ f ∈ fields, Fits depth f.2) → ∀ f ∈ fields', Fits depth f.2)
    generalizing depth with
  | null | bool _ | number _ | text _ => exact fits
  | array _ ih =>
    cases fits with
    | array each => exact .array (ih _ each)
  | object moved _ ih =>
    cases fits with
    | object distinct each =>
      have distinct' := (moved.map Prod.fst).nodup_iff.1 distinct
      rw [ih.1] at distinct'
      exact .object distinct' (ih.2 _ fun f hf => each f (moved.mem_iff.2 hf))
  | noItem depth each j hj => exact each j hj
  | item _ _ ih more depth each j hj =>
    rcases List.mem_cons.1 hj with rfl | hj
    · exact ih (each _ (by simp))
    · exact more depth (fun j hj => each j (List.mem_cons_of_mem _ hj)) j hj
  | noField => exact ⟨rfl, fun _ each => each⟩
  | @field j _ _ _ name _ _ ih more =>
    refine ⟨by simp [more.1], fun depth each f hf => ?_⟩
    rcases List.mem_cons.1 hf with rfl | hf
    · exact ih (each (name, j) (by simp))
    · exact more.2 depth (fun f hf => each f (List.mem_cons_of_mem _ hf)) f hf

end Reading

end Json
end MacroGraph
