import Mathlib.Logic.Relation
import MacroGraph.Graph.Reach

namespace MacroGraph

/-- The edges whose source is not among some names. -/
def edgesOutside (edges : Edges) (names : List String) : Edges :=
  edges.filter fun e => decide (e.1 ∉ names)

theorem length_edgesOutside_le (edges : Edges) (names : List String) :
    (edgesOutside edges names).length ≤ edges.length := List.length_filter_le ..

theorem edgesOutside_congr (edges : Edges) {names others : List String}
    (same : ∀ a, a ∈ names ↔ a ∈ others) : edgesOutside edges names = edgesOutside edges others :=
  List.filter_congr fun e _ => by simp [same]

/-- The edges that leave a new name are those that fall away when it is taken up. -/
theorem length_edgesOutside_cons (edges : Edges) {names : List String} {a : String}
    (new : a ∉ names) :
    (edgesOutside edges (a :: names)).length + (ends edges a).length =
      (edgesOutside edges names).length := by
  induction edges with
  | nil => rfl
  | cons e edges ih =>
    obtain ⟨b, c⟩ := e
    simp only [edgesOutside, ends, List.length_map, List.filter_cons] at ih ⊢
    by_cases same : b = a
    · subst same
      simp only [new, List.mem_cons, true_or, not_true_eq_false, not_false_eq_true, decide_true,
        decide_false, beq_self_eq_true, if_true, Bool.false_eq_true, if_false,
        List.length_cons] at ih ⊢
      omega
    · by_cases out : b ∈ names
      · simpa [same, out] using ih
      · simp only [same, out, List.mem_cons, or_self, not_false_eq_true, decide_true, if_true,
          beq_iff_eq, if_false, List.length_cons] at ih ⊢
        omega

namespace Spread

def cost (edges : Edges) (s : Spread) : Nat :=
  (edgesOutside edges s.seen).length + s.pending.length

theorem cost_step {edges : Edges} {s next : Spread} (h : s.step? edges = some next) :
    next.cost edges < s.cost edges := by
  obtain ⟨seen, pending⟩ := s
  cases pending with
  | nil => simp [step?] at h
  | cons a rest =>
    simp only [step?] at h
    split at h
    · cases h
      simp [cost]
    · next new =>
      cases h
      have parts := length_edgesOutside_cons edges (a := a) (by simpa using new)
      simp only [cost, List.length_append, List.length_cons]
      omega

theorem final_rests (edges : Edges) (start : String) :
    (Spread.final edges start).step? edges = none := by
  refine exhaust_rests (fun _ => True) (cost edges) (fun _ _ _ h => ⟨trivial, cost_step h⟩)
    trivial ?_
  have := length_edgesOutside_le edges []
  simp only [cost, List.length_singleton]
  omega

/-- What a search from a name keeps: all names it knows of are on paths, the name itself is
known, and edges lead from seen names to known ones. -/
structure Inv (edges : Edges) (start : String) (s : Spread) : Prop where
  sound : ∀ a, a ∈ s.seen ∨ a ∈ s.pending → Path edges start a
  started : start ∈ s.seen ∨ start ∈ s.pending
  closed : ∀ a b, a ∈ s.seen → (a, b) ∈ edges → b ∈ s.seen ∨ b ∈ s.pending

theorem Inv.step {edges : Edges} {start : String} {s next : Spread}
    (inv : Inv edges start s) (h : s.step? edges = some next) : Inv edges start next := by
  obtain ⟨seen, pending⟩ := s
  obtain ⟨sound, started, closed⟩ := inv
  cases pending with
  | nil => simp [step?] at h
  | cons a rest =>
    simp only [step?] at h
    split at h
    · next old =>
      have old : a ∈ seen := by simpa using old
      cases h
      refine ⟨fun b hb => sound b ?_, ?_, fun b c hb e => ?_⟩
      · exact hb.imp_right (List.mem_cons_of_mem a)
      · rcases started with h | h
        · exact .inl h
        · exact (List.mem_cons.1 h).elim (fun same => .inl (same ▸ old)) .inr
      · rcases closed b c hb e with h | h
        · exact .inl h
        · exact (List.mem_cons.1 h).elim (fun same => .inl (same ▸ old)) .inr
    · cases h
      have here : Path edges start a := sound a (.inr List.mem_cons_self)
      refine ⟨fun b hb => ?_, ?_, fun b c hb e => ?_⟩
      · simp only [List.mem_cons, List.mem_append, mem_ends] at hb
        rcases hb with (rfl | hb) | e | hb
        · exact here
        · exact sound b (.inl hb)
        · exact here.tail e
        · exact sound b (.inr (List.mem_cons_of_mem a hb))
      · rcases started with h | h
        · exact .inl (List.mem_cons_of_mem a h)
        · rcases List.mem_cons.1 h with rfl | h
          · exact .inl List.mem_cons_self
          · exact .inr (List.mem_append_right _ h)
      · rcases List.mem_cons.1 hb with rfl | hb
        · exact .inr (List.mem_append_left _ (mem_ends.2 e))
        · rcases closed b c hb e with h | h
          · exact .inl (List.mem_cons_of_mem a h)
          · rcases List.mem_cons.1 h with rfl | h
            · exact .inl List.mem_cons_self
            · exact .inr (List.mem_append_right _ h)

theorem final_inv (edges : Edges) (start : String) : Inv edges start (Spread.final edges start) :=
  exhaust_preserves (fun _ _ inv h => inv.step h) _
    ⟨by simp [Path.refl], .inr (by simp), by simp⟩

end Spread

theorem mem_reachable_iff (edges : Edges) (start a : String) :
    a ∈ reachable edges start ↔ Path edges start a := by
  have inv := Spread.final_inv edges start
  have none : (Spread.final edges start).pending = [] := by
    have rests := Spread.final_rests edges start
    cases h : (Spread.final edges start).pending with
    | nil => rfl
    | cons b rest =>
      simp only [Spread.step?, h] at rests
      split at rests <;> cases rests
  unfold reachable
  constructor
  · exact fun h => inv.sound a (.inl h)
  · intro path
    induction path with
    | refl => simpa [none] using inv.started
    | tail _ e ih => simpa [none] using inv.closed _ _ ih e

/-- Paths along edges are the reflexive and transitive closure of the relation they list. -/
theorem path_iff_reflTransGen {edges : Edges} {r : String → String → Prop}
    (lists : ∀ a b, (a, b) ∈ edges ↔ r a b) {a b : String} :
    Path edges a b ↔ Relation.ReflTransGen r a b := by
  constructor
  · intro path
    induction path with
    | refl => exact .refl
    | tail _ e ih => exact ih.tail ((lists _ _).1 e)
  · intro path
    induction path with
    | refl => exact .refl a
    | tail _ e ih => exact ih.tail ((lists _ _).2 e)

end MacroGraph
