import Mathlib.Data.List.Nodup

namespace MacroGraph
variable {α β : Type} {xs ys zs : List α}

/-- The last list holds the elements of the first two, each in its own order. -/
inductive Interleaves : List α → List α → List α → Prop where
  | nil : Interleaves [] [] []
  | left (x : α) {xs ys zs : List α} : Interleaves xs ys zs → Interleaves (x :: xs) ys (x :: zs)
  | right (y : α) {xs ys zs : List α} : Interleaves xs ys zs → Interleaves xs (y :: ys) (y :: zs)

namespace Interleaves

theorem swap (h : Interleaves xs ys zs) : Interleaves ys xs zs := by
  induction h with
  | nil => exact .nil
  | left x _ ih => exact .right x ih
  | right y _ ih => exact .left y ih

theorem left_only (xs : List α) : Interleaves xs [] xs := by
  induction xs with
  | nil => exact .nil
  | cons x rest ih => exact .left x ih

theorem append (xs ys : List α) : Interleaves xs ys (xs ++ ys) := by
  induction xs with
  | nil => exact (left_only ys).swap
  | cons x rest ih => exact .left x ih

theorem perm (h : Interleaves xs ys zs) : zs.Perm (xs ++ ys) := by
  induction h with
  | nil => exact .refl _
  | left x _ ih => exact ih.cons x
  | right y _ ih => exact (ih.cons y).trans List.perm_middle.symm

theorem mem_iff (h : Interleaves xs ys zs) {a : α} : a ∈ zs ↔ a ∈ xs ∨ a ∈ ys := by
  rw [h.perm.mem_iff, List.mem_append]

theorem filterMap (f : α → Option β) (h : Interleaves xs ys zs) :
    Interleaves (xs.filterMap f) (ys.filterMap f) (zs.filterMap f) := by
  induction h with
  | nil => exact .nil
  | left x _ ih =>
    cases found : f x with
    | none => simpa [found] using ih
    | some b => simpa [found] using ih.left b
  | right y _ ih =>
    cases found : f y with
    | none => simpa [found] using ih
    | some b => simpa [found] using ih.right b

theorem map (f : α → β) (h : Interleaves xs ys zs) :
    Interleaves (xs.map f) (ys.map f) (zs.map f) := by
  simpa only [List.filterMap_eq_map] using h.filterMap (some ∘ f)

theorem filter (p : α → Bool) (h : Interleaves xs ys zs) :
    Interleaves (xs.filter p) (ys.filter p) (zs.filter p) := by
  simpa only [List.filterMap_eq_filter] using h.filterMap (Option.guard p)

theorem find?_eq {p : α → Bool} (h : Interleaves xs ys zs) (none : ∀ y ∈ ys, p y = false) :
    zs.find? p = xs.find? p := by
  induction h with
  | nil => rfl
  | left x _ ih => simp only [List.find?_cons, ih none]
  | right y _ ih =>
    obtain ⟨first, rest⟩ := List.forall_mem_cons.1 none
    rw [List.find?_cons, first, ih rest]

theorem nodup_iff (h : Interleaves xs ys zs) (apart : ∀ x ∈ xs, ∀ y ∈ ys, x ≠ y) :
    zs.Nodup ↔ xs.Nodup ∧ ys.Nodup := by
  rw [h.perm.nodup_iff, List.nodup_append]
  exact ⟨fun ⟨first, second, _⟩ => ⟨first, second⟩, fun ⟨first, second⟩ => ⟨first, second, apart⟩⟩

end Interleaves
end MacroGraph
