import MacroGraph.Graph.Cycle
import MacroGraph.Proofs.Graph.Reach

namespace MacroGraph

/-- One or more edges lead from a name back to it. -/
def OnCycle (edges : Edges) (a : String) : Prop := ∃ b, (a, b) ∈ edges ∧ Path edges b a

namespace Descent

/-- What is known of a path downwards, given the name that is entered from its innermost one:
edges lead down it, and each name's edges are followed, still to be followed, or the one down. -/
def Below (edges : Edges) (finished : List String) :
    Option String → List (String × List String) → Prop
  | _, [] => True
  | inner, (a, rest) :: stack =>
    (∀ b, b ∈ rest ∨ inner = some b → (a, b) ∈ edges) ∧
      (∀ b, (a, b) ∈ edges → b ∈ rest ∨ b ∈ finished ∨ inner = some b) ∧
      Below edges finished (some a) stack

theorem Below.path_to_head {edges : Edges} {finished : List String} {inner : Option String}
    {a : String} {rest : List String} {stack : List (String × List String)}
    (h : Below edges finished inner ((a, rest) :: stack)) :
    ∀ b ∈ a :: stack.map Prod.fst, Path edges b a := by
  induction stack generalizing inner a rest with
  | nil =>
    intro b mem
    rcases List.mem_cons.1 mem with rfl | mem
    · exact .refl b
    · simp at mem
  | cons frame stack ih =>
    obtain ⟨c, restc⟩ := frame
    have down : (c, a) ∈ edges := h.2.2.1 a (.inr rfl)
    intro b mem
    rcases List.mem_cons.1 mem with rfl | mem
    · exact .refl b
    · exact (ih h.2.2 b mem).tail down

theorem Below.finish {edges : Edges} {finished : List String} {a : String}
    {inner : Option String} {stack : List (String × List String)}
    (h : Below edges finished inner stack) (left : inner = some a ∨ inner = none) :
    Below edges (a :: finished) none stack := by
  have more : ∀ (inner : Option String) (stack : List (String × List String)),
      Below edges finished inner stack → Below edges (a :: finished) inner stack := by
    intro inner stack
    induction stack generalizing inner with
    | nil => exact fun _ => trivial
    | cons frame stack ih =>
      intro h
      refine ⟨h.1, fun b e => ?_, ih _ h.2.2⟩
      rcases h.2.1 b e with h | h | h
      · exact .inl h
      · exact .inr (.inl (List.mem_cons_of_mem a h))
      · exact .inr (.inr h)
  cases stack with
  | nil => trivial
  | cons frame stack =>
    obtain ⟨c, rest⟩ := frame
    refine ⟨fun b mem => h.1 b (.inl (by simpa using mem)), fun b e => ?_, more _ _ h.2.2⟩
    rcases h.2.1 b e with h | h | same
    · exact .inl h
    · exact .inr (.inl (List.mem_cons_of_mem a h))
    · rcases left with left | left
      · cases left.symm.trans same
        exact .inr (.inl List.mem_cons_self)
      · cases left.symm.trans same

/-- What a search keeps until a cycle is found. Finished names form a closed part of the graph
without a cycle, and every root is finished, on the path or still to come. -/
structure Live (edges : Edges) (roots : List String) (s : Descent) : Prop where
  below : Below edges s.finished none s.stack
  onPath : s.onPath = s.stack.map Prod.fst
  distinct : s.onPath.Nodup
  apart : ∀ a ∈ s.onPath, a ∉ s.finished
  closed : ∀ a ∈ s.finished, ∀ b, (a, b) ∈ edges → b ∈ s.finished
  acyclic : ∀ a ∈ s.finished, ¬ OnCycle edges a
  rooted : ∀ a ∈ roots, a ∈ s.roots ∨ a ∈ s.onPath ∨ a ∈ s.finished

def Inv (edges : Edges) (roots : List String) (s : Descent) : Prop :=
  match s.found with
  | none => Live edges roots s
  | some a => OnCycle edges a

def cost (edges : Edges) (s : Descent) : Nat :=
  2 * s.roots.length + s.stack.length + 2 * (s.stack.flatMap Prod.snd).length +
    2 * (edgesOutside edges (s.onPath ++ s.finished)).length

theorem mem_of_path {edges : Edges} {finished : List String} {a b : String}
    (closed : ∀ a ∈ finished, ∀ b, (a, b) ∈ edges → b ∈ finished) (h : Path edges a b)
    (mem : a ∈ finished) : b ∈ finished := by
  induction h with
  | refl => exact mem
  | tail _ e ih => exact closed _ ih _ e

/-- The step that finishes the innermost name. All its edges lead to finished names, so a
cycle through it would have to come back from a closed part it is not in. -/
theorem Live.finish {edges : Edges} {roots : List String} {s : Descent} {a : String}
    {stack : List (String × List String)} (live : Live edges roots s)
    (at_a : s.stack = (a, []) :: stack) :
    Live edges roots { s with stack, onPath := s.onPath.erase a, finished := a :: s.finished } := by
  obtain ⟨below, onPath, distinct, apart, closed, acyclic, rooted⟩ := live
  rw [at_a] at below onPath
  rw [onPath] at distinct apart rooted ⊢
  simp only [List.map_cons, List.erase_cons_head] at distinct apart rooted ⊢
  obtain ⟨fresh, distinct⟩ := List.nodup_cons.1 distinct
  have ends_finished : ∀ b, (a, b) ∈ edges → b ∈ s.finished := by
    intro b e
    rcases below.2.1 b e with h | h | h
    · simp at h
    · exact h
    · simp at h
  refine ⟨below.2.2.finish (.inl rfl), rfl, distinct, ?apart, ?closed, ?acyclic, ?rooted⟩
  case apart =>
    intro b mem h
    rcases List.mem_cons.1 h with rfl | h
    · exact fresh mem
    · exact apart b (List.mem_cons_of_mem a mem) h
  case closed =>
    intro b mem c e
    rcases List.mem_cons.1 mem with rfl | mem
    · exact List.mem_cons_of_mem b (ends_finished c e)
    · exact List.mem_cons_of_mem a (closed b mem c e)
  case acyclic =>
    intro b mem
    rcases List.mem_cons.1 mem with rfl | mem
    · rintro ⟨c, e, back⟩
      exact apart b List.mem_cons_self (mem_of_path closed back (ends_finished c e))
    · exact acyclic b mem
  case rooted =>
    intro b mem
    rcases rooted b mem with h | h | h
    · exact .inl h
    · rcases List.mem_cons.1 h with rfl | h
      · exact .inr (.inr List.mem_cons_self)
      · exact .inr (.inl h)
    · exact .inr (.inr (List.mem_cons_of_mem a h))

theorem Below.enter {edges : Edges} {finished : List String} {a : String}
    {stack : List (String × List String)} (h : Below edges finished (some a) stack) :
    Below edges finished none ((a, ends edges a) :: stack) :=
  ⟨fun _ h => by simpa [mem_ends] using h, fun _ e => .inl (mem_ends.2 e), h⟩

theorem Below.follow {edges : Edges} {finished : List String} {a b : String}
    {rest : List String} {stack : List (String × List String)}
    (h : Below edges finished none ((a, b :: rest) :: stack)) :
    Below edges finished (some b) ((a, rest) :: stack) := by
  refine ⟨?_, ?_, h.2.2⟩
  · intro c mem
    apply h.1
    left
    rcases mem with mem | same
    · exact List.mem_cons_of_mem b mem
    · cases same
      exact List.mem_cons_self
  · intro c e
    rcases h.2.1 c e with h | h | h
    · rcases List.mem_cons.1 h with rfl | h
      · exact .inr (.inr rfl)
      · exact .inl h
    · exact .inr (.inl h)
    · cases h

theorem Below.skip {edges : Edges} {finished : List String} {a b : String}
    {rest : List String} {stack : List (String × List String)}
    (h : Below edges finished (some b) ((a, rest) :: stack)) (old : b ∈ finished) :
    Below edges finished none ((a, rest) :: stack) := by
  refine ⟨fun c mem => h.1 c (.inl (by simpa using mem)), fun c e => ?_, h.2.2⟩
  rcases h.2.1 c e with h | h | same
  · exact .inl h
  · exact .inr (.inl h)
  · cases same
    exact .inr (.inl old)

theorem Inv.step {edges : Edges} {roots : List String} {s next : Descent}
    (inv : Inv edges roots s) (h : s.step? edges = some next) : Inv edges roots next := by
  unfold step? at h
  split at h
  · cases h
  · cases h
  · next a rest none_found empty more =>
    simp only [Inv, none_found] at inv
    obtain ⟨below, onPath, distinct, apart, closed, acyclic, rooted⟩ := inv
    have clear : s.onPath = [] := by simpa [empty] using onPath
    split at h
    · next old =>
      have old : a ∈ s.finished := by simpa using old
      cases h
      simp only [Inv, none_found]
      refine ⟨below, onPath, distinct, apart, closed, acyclic, ?_⟩
      intro b mem
      rcases rooted b mem with h | h
      · rw [more] at h
        rcases List.mem_cons.1 h with rfl | h
        · exact .inr (.inr old)
        · exact .inl h
      · exact .inr h
    · next new =>
      cases h
      simp only [Inv, none_found]
      refine ⟨Below.enter trivial, rfl, by simp, by simpa using new, closed, acyclic, ?_⟩
      intro b mem
      rcases rooted b mem with h | h | h
      · rw [more] at h
        rcases List.mem_cons.1 h with rfl | h
        · exact .inr (.inl List.mem_cons_self)
        · exact .inl h
      · simp [clear] at h
      · exact .inr (.inr h)
  · next a stack none_found at_a =>
    simp only [Inv, none_found] at inv
    cases h
    simpa only [Inv, none_found] using inv.finish at_a
  · next a b rest stack none_found at_a =>
    simp only [Inv, none_found] at inv
    obtain ⟨below, onPath, distinct, apart, closed, acyclic, rooted⟩ := inv
    rw [at_a] at below onPath
    have e : (a, b) ∈ edges := below.1 b (.inl List.mem_cons_self)
    split at h
    · next back =>
      have back : b ∈ a :: stack.map Prod.fst := by simpa [onPath] using back
      cases h
      exact (below.path_to_head b back).exists_head e
    · next off =>
      have off : b ∉ s.onPath := by simpa using off
      split at h
      · next old =>
        have old : b ∈ s.finished := by simpa using old
        cases h
        simp only [Inv, none_found]
        exact ⟨below.follow.skip old, onPath, distinct, apart, closed, acyclic, rooted⟩
      · next new =>
        have new : b ∉ s.finished := by simpa using new
        cases h
        simp only [Inv, none_found]
        refine ⟨below.follow.enter, by simp [onPath], List.nodup_cons.2 ⟨off, distinct⟩,
          ?apart, closed, acyclic, ?rooted⟩
        · intro c mem
          rcases List.mem_cons.1 mem with rfl | mem
          · exact new
          · exact apart c mem
        · intro c mem
          rcases rooted c mem with h | h | h
          · exact .inl h
          · exact .inr (.inl (List.mem_cons_of_mem b h))
          · exact .inr (.inr h)

theorem length_edgesOutside_enter (edges : Edges) {onPath finished : List String} {a : String}
    (off : a ∉ onPath) (new : a ∉ finished) :
    (edgesOutside edges (a :: onPath ++ finished)).length + (ends edges a).length =
      (edgesOutside edges (onPath ++ finished)).length :=
  length_edgesOutside_cons edges (by simp [off, new])

theorem cost_step {edges : Edges} {roots : List String} {s next : Descent}
    (inv : Inv edges roots s) (h : s.step? edges = some next) : next.cost edges < s.cost edges := by
  unfold step? at h
  split at h
  · cases h
  · cases h
  · next a rest none_found empty more =>
    simp only [Inv, none_found] at inv
    have clear : s.onPath = [] := by simpa [empty] using inv.onPath
    split at h
    · cases h
      simp only [cost, more, List.length_cons]
      omega
    · next new =>
      cases h
      have new : a ∉ s.finished := by simpa using new
      have parts := length_edgesOutside_enter edges (List.not_mem_nil (a := a)) new
      simp only [cost, more, empty, clear, List.length_cons, List.length_nil, List.flatMap_cons,
        List.flatMap_nil, List.length_append]
      omega
  · next a stack none_found at_a =>
    simp only [Inv, none_found] at inv
    cases h
    have same : edgesOutside edges (s.onPath.erase a ++ a :: s.finished) =
        edgesOutside edges (s.onPath ++ s.finished) := by
      rw [inv.onPath, at_a, List.map_cons, List.erase_cons_head]
      apply edgesOutside_congr edges
      intro b
      simp only [List.mem_append, List.mem_cons]
      exact or_left_comm.trans or_assoc.symm
    simp only [cost, same, at_a, List.length_cons, List.flatMap_cons, List.nil_append]
    omega
  · next a b rest stack none_found at_a =>
    simp only [Inv, none_found] at inv
    split at h
    · cases h
      simp only [cost, at_a, List.length_cons, List.flatMap_cons, List.length_append]
      omega
    · next off =>
      split at h
      · cases h
        simp only [cost, at_a, List.length_cons, List.flatMap_cons, List.length_append]
        omega
      · next new =>
        cases h
        have parts := length_edgesOutside_enter edges (a := b) (by simpa using off)
          (by simpa using new)
        simp only [cost, at_a, List.length_cons, List.flatMap_cons, List.length_append]
        omega

theorem final_inv (edges : Edges) (roots : List String) :
    Inv edges roots (Descent.final edges roots) :=
  exhaust_preserves (fun _ _ inv h => inv.step h) _
    ⟨trivial, rfl, List.nodup_nil, by simp, by simp, by simp, fun _ h => .inl h⟩

theorem final_rests (edges : Edges) (roots : List String) :
    (Descent.final edges roots).step? edges = none := by
  refine exhaust_rests (Inv edges roots) (cost edges)
    (fun _ _ inv h => ⟨inv.step h, cost_step inv h⟩)
    ⟨trivial, rfl, List.nodup_nil, by simp, by simp, by simp, fun _ h => .inl h⟩ ?_
  have := length_edgesOutside_le edges []
  simp only [cost, List.flatMap_nil, List.length_nil, List.append_nil]
  omega

theorem exhausted_of_rests {edges : Edges} {s : Descent} (rests : s.step? edges = none)
    (none_found : s.found = none) : s.stack = [] ∧ s.roots = [] := by
  unfold step? at rests
  split at rests
  · next found => cases none_found.symm.trans found
  · next empty clear => exact ⟨empty, clear⟩
  · split at rests <;> cases rests
  · cases rests
  · split at rests
    · cases rests
    · split at rests <;> cases rests

end Descent

theorem onCycle_of_cycleName? {edges : Edges} {roots : List String} {a : String}
    (h : cycleName? edges roots = some a) : OnCycle edges a := by
  have inv := Descent.final_inv edges roots
  unfold cycleName? at h
  simpa only [Descent.Inv, h] using inv

/-- A search from the sources of all edges misses no cycle. -/
theorem cycleName?_eq_none_iff {edges : Edges} {roots : List String}
    (covered : ∀ e ∈ edges, e.1 ∈ roots) :
    cycleName? edges roots = none ↔ ∀ a, ¬ OnCycle edges a := by
  constructor
  · intro none_found a on
    have live := Descent.final_inv edges roots
    unfold cycleName? at none_found
    simp only [Descent.Inv, none_found] at live
    obtain ⟨empty, clear⟩ := Descent.exhausted_of_rests (Descent.final_rests edges roots) none_found
    obtain ⟨b, e, back⟩ := on
    have done : a ∈ (Descent.final edges roots).finished := by
      simpa [clear, live.onPath, empty] using live.rooted a (covered _ e)
    exact live.acyclic a done ⟨b, e, back⟩
  · intro acyclic
    cases h : cycleName? edges roots with
    | none => rfl
    | some a => exact absurd (onCycle_of_cycleName? h) (acyclic a)

theorem onCycle_iff_transGen {edges : Edges} {r : String → String → Prop}
    (lists : ∀ a b, (a, b) ∈ edges ↔ r a b) {a : String} :
    OnCycle edges a ↔ Relation.TransGen r a a := by
  rw [Relation.TransGen.head'_iff]
  simp only [OnCycle, lists, path_iff_reflTransGen lists]

end MacroGraph
