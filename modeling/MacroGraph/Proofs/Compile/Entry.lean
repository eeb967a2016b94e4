import Mathlib.Data.List.Forall2
import MacroGraph.Proofs.Compile
import MacroGraph.Proofs.Connection

namespace MacroGraph.Compile
variable {registry : Registry}

/-- What a stored value means. Of a recorded key its descriptor counts; other composite values mean
nothing. -/
inductive Means : Json → Value → Prop where
  | null : Means .null .null
  | bool (b : Bool) : Means (.bool b) (.bool b)
  | natural (n : Nat) : Means (.number (.natural n)) (.number (.ofNat n))
  | negative (k : Int) : Means (.number (.negative k)) (.number (.ofInt k))
  | real (x : Binary64) : Means (.number (.real x)) (.number x)
  | text (s : String) : Means (.text s) (.text s)
  | recorded {fields : List (String × Json)} {descriptor : String}
    (found : fields.lookup "pynput" = some (.text descriptor)) :
    Means (.object fields) (.text descriptor)
  | unrecorded {fields : List (String × Json)}
    (missing : ∀ descriptor, fields.lookup "pynput" ≠ some (.text descriptor)) :
    Means (.object fields) .null
  | array (items : List Json) : Means (.array items) .null

/-- A node with the id of its entry, the kind that the type of the entry names, and all its fields
with what their values mean. -/
structure Typed (registry : Registry) (n : NodeEntry) (m : Node) : Prop where
  id : m.id = n.id
  kind : registry.lookup n.typeName = some m.kind
  values : List.Forall₂ (fun stored v => v.1 = stored.1 ∧ Means stored.2 v.2) n.values m.values

/-- A connection with the ends of its entry and the flow that the text of the entry spells. -/
structure ReadAs (c : ConnectionEntry) (r : Connection) : Prop where
  source : r.source = c.source
  sourcePin : r.sourcePin = c.sourcePin
  target : r.target = c.target
  targetPin : r.targetPin = c.targetPin
  flow : r.flow.Spells c.flow

theorem means_iff {raw : Json} {v : Value} : Means raw v ↔ v = .ofJson raw := by
  constructor
  · intro means
    cases means with
    | recorded found => simp [Value.ofJson, found]
    | unrecorded missing =>
      rw [Value.ofJson]
      split
      · next descriptor found => exact absurd found (missing descriptor)
      · rfl
    | _ => rfl
  · rintro rfl
    cases raw with
    | null => exact .null
    | bool b => exact .bool b
    | number n =>
      cases n with
      | natural n => exact .natural n
      | negative k => exact .negative k
      | real x => exact .real x
    | text s => exact .text s
    | array items => exact .array items
    | object fields =>
      rw [Value.ofJson]
      split
      · next descriptor found => exact .recorded found
      · next missing => exact .unrecorded missing

theorem forall₂_means_iff {stored : List (String × Json)} {values : List (String × Value)} :
    List.Forall₂ (fun stored v => v.1 = stored.1 ∧ Means stored.2 v.2) stored values ↔
      values = stored.map fun v => (v.1, .ofJson v.2) := by
  simp only [means_iff]
  induction stored generalizing values with
  | nil => simp
  | cons first rest ih =>
    simp only [List.forall₂_cons_left_iff, ih, List.map_cons]
    constructor
    · rintro ⟨⟨field, v⟩, later, ⟨rfl, rfl⟩, rfl, rfl⟩
      rfl
    · rintro rfl
      exact ⟨_, _, ⟨rfl, rfl⟩, rfl, rfl⟩

theorem typed_iff {n : NodeEntry} {m : Node} :
    Typed registry n m ↔ (registry.lookup n.typeName).map (node n) = some m := by
  rw [Option.map_eq_some_iff]
  constructor
  · rintro ⟨id, kind, values⟩
    rw [forall₂_means_iff] at values
    refine ⟨m.kind, kind, ?_⟩
    rw [node, ← id, ← values]
  · rintro ⟨kind, found, rfl⟩
    exact ⟨rfl, found, forall₂_means_iff.2 rfl⟩

theorem readAs_iff {c : ConnectionEntry} {r : Connection} : ReadAs c r ↔ connection c = .ok r := by
  constructor
  · rintro ⟨source, sourcePin, target, targetPin, spelled⟩
    rw [connection, Flow.ofName?_eq_some_iff.2 spelled, ← source, ← sourcePin, ← target,
      ← targetPin]
  · intro read
    unfold connection at read
    split at read
    · next flow spelled =>
      cases read
      exact ⟨rfl, rfl, rfl, rfl, Flow.ofName?_eq_some_iff.1 spelled⟩
    · cases read

theorem forall₂_typed_iff {entries : List NodeEntry} {nodes : List Node} :
    List.Forall₂ (Typed registry)
        (entries.filter fun n => (registry.lookup n.typeName).isSome) nodes ↔
      nodes = known registry entries := by
  induction entries generalizing nodes with
  | nil => simp [known]
  | cons n rest ih =>
    cases found : registry.lookup n.typeName with
    | none => simpa [known, found] using ih
    | some kind =>
      have passes : (n :: rest).filter (fun n => (registry.lookup n.typeName).isSome) =
          n :: rest.filter fun n => (registry.lookup n.typeName).isSome := by
        rw [List.filter_cons, found, Option.isSome_some, if_pos rfl]
      have here : known registry (n :: rest) = node n kind :: known registry rest := by
        simp [known, found]
      rw [passes, here, List.forall₂_cons_left_iff]
      simp only [typed_iff, found, Option.map_some, Option.some.injEq, ih]
      constructor
      · rintro ⟨_, _, rfl, rfl, rfl⟩
        rfl
      · rintro rfl
        exact ⟨_, _, rfl, rfl, rfl⟩

theorem forall₂_readAs_iff {entries : List ConnectionEntry} {cs : List Connection} :
    List.Forall₂ ReadAs entries cs ↔ connections entries = .ok cs := by
  induction entries generalizing cs with
  | nil => simp [connections, eq_comm]
  | cons c rest ih =>
    simp only [List.forall₂_cons_left_iff, readAs_iff, ih, connections]
    cases connection c with
    | error e => simp
    | ok first =>
      cases connections rest with
      | error e => simp [Except.map]
      | ok later => simp [Except.map, eq_comm]

theorem eq_parsed_of_readAs {entries : List ConnectionEntry} {cs : List Connection}
    (read : List.Forall₂ ReadAs entries cs) : cs = parsed entries :=
  (connections_eq_ok_iff.1 (forall₂_readAs_iff.1 read)).2

end MacroGraph.Compile
