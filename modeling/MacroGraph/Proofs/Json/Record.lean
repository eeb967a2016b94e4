import Mathlib.Data.List.Forall2
import MacroGraph.Json.Shape

namespace MacroGraph

theorem exists_of_forall₂ {α β : Type} {R : α → β → Prop} {as : List α} {bs : List β}
    (h : List.Forall₂ R as bs) {a : α} (ha : a ∈ as) : ∃ b ∈ bs, R a b := by
  induction h with
  | nil => simp at ha
  | cons first _ ih =>
    rcases List.mem_cons.1 ha with rfl | ha
    · exact ⟨_, by simp, first⟩
    · obtain ⟨b, hb, found⟩ := ih ha
      exact ⟨b, List.mem_cons_of_mem _ hb, found⟩

theorem Except.exists_of_map_eq_ok {ε α β : Type} {f : α → β} {x : Except ε α} {b : β}
    (h : x.map f = .ok b) : ∃ a, x = .ok a ∧ f a = b := by
  cases x with
  | error e => cases h
  | ok a => exact ⟨a, rfl, by simpa [Except.map] using h⟩

theorem getD_eq {α : Type} {x : Option α} {a b : α} (right : ∀ s ∈ x, s = a)
    (there : x.isSome = true ∨ a = b) : x.getD b = a := by
  cases x with
  | none => simpa [eq_comm] using there
  | some s => exact right s rfl

namespace Json

/-- How a field of a record is written: its names, when it may be left out, and the trees
that write its value. -/
structure FieldForm where
  names : List String
  optional : Prop
  value : Tree → Prop

def FieldForm.Names (f : FieldForm) (m : Option String × Tree) : Prop :=
  ∃ name ∈ f.names, m.1 = some name

/-- Members in any order, their names texts. A member with the name of a field holds its
value, no field stands twice, and all others may hold anything. -/
structure Mixes (fields : List FieldForm) (members : List (Option String × Tree)) : Prop where
  named : ∀ m ∈ members, m.1.isSome = true
  value : ∀ m ∈ members, ∀ f ∈ fields, f.Names m → f.value m.2
  once : members.Pairwise fun m m' => ∀ f ∈ fields, f.Names m → ¬f.Names m'

/-- The members of an object that writes a record. -/
structure Writes (fields : List FieldForm) (members : List (Option String × Tree)) : Prop
    extends Mixes fields members where
  there : ∀ f ∈ fields, f.optional ∨ ∃ m ∈ members, f.Names m

def FieldRule.names {σ : Type} (rule : FieldRule σ) : List String := rule.name :: rule.aliases

structure Record.Sound {σ : Type} (r : Record σ) : Prop where
  found : ∀ rule ∈ r.fields, ∀ name ∈ rule.names, r.field? name = some rule
  start : ∀ rule ∈ r.fields, rule.isSet r.start = false
  sets : ∀ rule ∈ r.fields, ∀ depth t d d', rule.read depth t d = .ok d' →
    rule.isSet d' = true ∧ ∀ other ∈ r.fields, other.name ≠ rule.name →
      other.isSet d' = other.isSet d

structure FieldRule.Takes {σ : Type} (P : σ → Prop) (depth : Nat) (rule : FieldRule σ)
    (f : FieldForm) : Prop where
  names : f.names = rule.names
  optional : f.optional → rule.optional = true
  read : ∀ t d, t.intact = true → f.value t → P d → ∃ d', rule.read depth t d = .ok d' ∧ P d'

namespace Record
variable {σ : Type} {r : Record σ} {rule : FieldRule σ} {fields : List FieldForm} {P : σ → Prop}
  {depth : Nat} {members : List (Option String × Tree)} {d : σ}

theorem mem_of_field? {name : String} (h : r.field? name = some rule) :
    rule ∈ r.fields ∧ name ∈ rule.names := by
  refine ⟨List.mem_of_find?_eq_some h, ?_⟩
  have named := List.find?_some h
  simp only [Bool.or_eq_true, beq_iff_eq, List.contains_iff_mem] at named
  exact List.mem_cons.2 (named.imp_left Eq.symm)

theorem takeMembers_cons (sound : r.Sound)
    (takes : List.Forall₂ (FieldRule.Takes P depth) r.fields fields) {name : String} {t : Tree}
    (value : ∀ f ∈ fields, name ∈ f.names → f.value t) (intact : t.intact = true) (known : P d)
    (fresh : ∀ rule ∈ r.fields, name ∈ rule.names → rule.isSet d = false) :
    ∃ d', P d' ∧
      (∀ rest, r.takeMembers depth d ((some name, t) :: rest) = r.takeMembers depth d' rest) ∧
      ∀ rule ∈ r.fields,
        rule.isSet d' = true ↔ rule.isSet d = true ∨ name ∈ rule.names := by
  cases found : r.field? name with
  | none =>
    refine ⟨d, known, by simp [takeMembers, found, intact], fun rule hr => ?_⟩
    have other : name ∉ rule.names := fun hn => by simp [sound.found rule hr name hn] at found
    simp [other]
  | some rule =>
    obtain ⟨hr, hn⟩ := mem_of_field? found
    obtain ⟨f, hf, taken⟩ := exists_of_forall₂ takes hr
    have hn' : name ∈ f.names := by rw [taken.names]; exact hn
    obtain ⟨d', read, kept⟩ := taken.read t d intact (value f hf hn') known
    obtain ⟨set, others⟩ := sound.sets rule hr depth t d d' read
    refine ⟨d', kept, by simp [takeMembers, found, fresh rule hr hn, read], fun other ho => ?_⟩
    by_cases same : other.name = rule.name
    · obtain rfl : other = rule := by
        have found' := sound.found other ho other.name (List.mem_cons_self ..)
        rw [same, sound.found rule hr rule.name (List.mem_cons_self ..)] at found'
        exact (Option.some.inj found').symm
      simp [set, hn]
    · have apart : name ∉ other.names := fun ho' => by
        have found' := sound.found other ho name ho'
        rw [found] at found'
        exact same (by rw [Option.some.inj found'])
      simp [others other ho same, apart]

/-- Whether a field is among the members. -/
def Given (members : List (Option String × Tree)) (rule : FieldRule σ) : Prop :=
  ∃ m ∈ members, ∃ name ∈ rule.names, m.1 = some name

theorem given_cons {name : String} {t : Tree} :
    Given ((some name, t) :: members) rule ↔ name ∈ rule.names ∨ Given members rule := by
  simp [Given]

/-- Members are taken in one after the other. A field is set in the end if it was set before
or is among them. -/
theorem takeMembers_of_mixes (sound : r.Sound)
    (takes : List.Forall₂ (FieldRule.Takes P depth) r.fields fields)
    (mixes : Mixes fields members) (intact : ∀ m ∈ members, m.2.intact = true)
    (known : P d) (fresh : ∀ rule ∈ r.fields, Given members rule → rule.isSet d = false) :
    ∃ d', r.takeMembers depth d members = .ok d' ∧ P d' ∧
      ∀ rule ∈ r.fields, rule.isSet d' = true ↔ rule.isSet d = true ∨ Given members rule := by
  induction members generalizing d with
  | nil => exact ⟨d, by simp [takeMembers], known, by simp [Given]⟩
  | cons m rest ih =>
    obtain ⟨name?, t⟩ := m
    obtain ⟨name, rfl⟩ : ∃ name, name? = some name :=
      Option.isSome_iff_exists.1 (mixes.named _ (List.mem_cons_self ..))
    obtain ⟨first, once⟩ := List.pairwise_cons.1 mixes.once
    obtain ⟨d₁, known₁, step, set₁⟩ := takeMembers_cons sound takes
      (fun f hf hn => mixes.value _ (List.mem_cons_self ..) f hf ⟨name, hn, rfl⟩)
      (intact _ (List.mem_cons_self ..)) known
      fun rule hr hn => fresh rule hr (given_cons.2 (.inl hn))
    have mixes' : Mixes fields rest :=
      ⟨fun m hm => mixes.named m (List.mem_cons_of_mem _ hm),
        fun m hm => mixes.value m (List.mem_cons_of_mem _ hm), once⟩
    have fresh₁ : ∀ rule ∈ r.fields, Given rest rule → rule.isSet d₁ = false := by
      intro rule hr given
      refine Bool.eq_false_iff.2 fun set => ?_
      rcases (set₁ rule hr).1 set with before | hn
      · simp [fresh rule hr (given_cons.2 (.inr given))] at before
      · obtain ⟨f, hf, taken⟩ := exists_of_forall₂ takes hr
        obtain ⟨m, hm, again, ha, named⟩ := given
        exact first m hm f hf ⟨name, by rw [taken.names]; exact hn, rfl⟩
          ⟨again, by rw [taken.names]; exact ha, named⟩
    obtain ⟨d', read, kept, set⟩ :=
      ih mixes' (fun m hm => intact m (List.mem_cons_of_mem _ hm)) known₁ fresh₁
    refine ⟨d', by rw [step, read], kept, fun rule hr => ?_⟩
    rw [set rule hr, set₁ rule hr, given_cons, or_assoc]

theorem missing?_eq_none {rules : List (FieldRule σ)}
    (h : ∀ rule ∈ rules, rule.optional = true ∨ rule.isSet d = true) : missing? d rules = none := by
  induction rules with
  | nil => rfl
  | cons rule rest ih =>
    have enough : (rule.optional || rule.isSet d) = true := by simpa using h rule (by simp)
    simp [missing?, enough, ih fun other ho => h other (List.mem_cons_of_mem _ ho)]

theorem intact_of_mem (h : (Tree.object members true).intact = true) :
    ∀ m ∈ members, m.2.intact = true := by
  have all : Tree.intact.intactMembers members = true := by simpa [Tree.intact] using h
  clear h
  induction members with
  | nil => simp
  | cons m rest ih =>
    simp only [Tree.intact.intactMembers, Bool.and_eq_true] at all
    simpa [all.1] using ih all.2

/-- A record is read from every object that writes it. Each field is set or may be left
out. -/
theorem read_of_writes (sound : r.Sound)
    (takes : List.Forall₂ (FieldRule.Takes P depth) r.fields fields)
    (writes : Writes fields members) (intact : (Tree.object members true).intact = true)
    (known : P r.start) :
    ∃ d, r.read (depth + 1) (.object members true) = .ok d ∧ P d ∧
      List.Forall₂ (fun rule f => rule.isSet d = true ∨ f.optional) r.fields fields := by
  obtain ⟨d, read, kept, set⟩ := takeMembers_of_mixes sound takes writes.toMixes
    (intact_of_mem intact) known fun rule hr _ => sound.start rule hr
  have settled : ∀ rule ∈ r.fields, ∀ f ∈ fields, rule.Takes P depth f →
      rule.isSet d = true ∨ f.optional := by
    intro rule hr f hf taken
    rcases writes.there f hf with left | ⟨m, hm, name, hn, named⟩
    · exact .inr left
    · exact .inl ((set rule hr).2 (.inr ⟨m, hm, name, by rw [← taken.names]; exact hn, named⟩))
  have none : missing? d r.fields = none := missing?_eq_none fun rule hr => by
    obtain ⟨f, hf, taken⟩ := exists_of_forall₂ takes hr
    exact (settled rule hr f hf taken).symm.imp_left taken.optional
  refine ⟨d, by simp [Record.read, read, none], kept, ?_⟩
  refine List.forall₂_iff_zip.2 ⟨takes.length_eq, fun pair => ?_⟩
  obtain ⟨hr, hf⟩ := List.of_mem_zip pair
  exact settled _ hr _ hf (List.forall₂_zip takes pair)

end Record

def FieldForm.text (names : List String) (optional : Prop) (s : String) : FieldForm :=
  ⟨names, optional, fun t => t = .text (some s)⟩

theorem FieldRule.takes_text {σ : Type} {P : σ → Prop} {depth : Nat} {rule : FieldRule σ}
    {set : σ → String → σ} {optional : Prop} {s : String}
    (read : rule.read = fun _ t d => t.toText.map (set d))
    (may : optional → rule.optional = true) (keeps : ∀ d, P d → P (set d s)) :
    rule.Takes P depth (.text rule.names optional s) where
  names := rfl
  optional := may
  read := by
    rintro t d - rfl known
    exact ⟨set d s, by rw [read]; rfl, keeps d known⟩

def FieldForm.list {α : Type} (names : List String) (optional : Prop) (written : α → Tree → Prop)
    (xs : List α) : FieldForm :=
  ⟨names, optional, fun t => ∃ ts, t = .array ts true ∧ List.Forall₂ written xs ts⟩

theorem Tree.toList_of_forall₂ {α : Type} {item : Nat → Tree → Except Problem α} {depth : Nat}
    {written : α → Tree → Prop} {xs : List α} {ts : List Tree}
    (reads : ∀ x ∈ xs, ∀ t, t.intact = true → written x t → item depth t = .ok x)
    (intact : (Tree.array ts true).intact = true) (h : List.Forall₂ written xs ts) :
    (Tree.array ts true).toList item (depth + 1) = .ok xs := by
  have all : Tree.intact.intactItems ts = true := by simpa [Tree.intact] using intact
  have found : mapItems (item depth) ts = .ok xs := by
    clear intact
    induction h with
    | nil => rfl
    | cons first _ ih =>
      simp only [Tree.intact.intactItems, Bool.and_eq_true] at all
      simp [mapItems, reads _ (by simp) _ all.1 first,
        ih (fun x hx => reads x (List.mem_cons_of_mem _ hx)) all.2, Except.map]
  simp [Tree.toList, found]

theorem FieldRule.takes_list {σ α : Type} {P : σ → Prop} {depth : Nat} {rule : FieldRule σ}
    {item : Nat → Tree → Except Problem α} {set : σ → List α → σ} {optional : Prop}
    {written : α → Tree → Prop} {xs : List α}
    (read : rule.read = fun depth t d => (t.toList item depth).map (set d))
    (may : optional → rule.optional = true)
    (reads : ∀ x ∈ xs, ∀ t, t.intact = true → written x t → item depth t = .ok x)
    (keeps : ∀ d, P d → P (set d xs)) :
    rule.Takes P (depth + 1) (.list rule.names optional written xs) where
  names := rfl
  optional := may
  read := by
    rintro t d intact ⟨ts, rfl, h⟩ known
    refine ⟨set d xs, ?_, keeps d known⟩
    simp [read, Tree.toList_of_forall₂ reads intact h, Except.map]

end Json
end MacroGraph
