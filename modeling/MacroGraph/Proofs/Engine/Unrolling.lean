import MacroGraph.Proofs.Engine.Completion
import MacroGraph.Proofs.Engine.Walk

namespace MacroGraph

namespace Outputs

theorem withdraw_publish (o : Outputs) (id pin : String) (v : Value) :
    (o.publish id pin v).withdraw id = o.withdraw id := by
  simp [publish, withdraw]

theorem publish_publish (o : Outputs) (id pin other : String) (v w : Value) :
    (o.publish id pin v).publish id other w = o.publish id other w := by
  rw [publish, withdraw_publish]
  rfl

end Outputs

namespace Engine

def Point.left? : Point → Option Node
  | .leave n _ => some n
  | _ => none

namespace Machine
variable {d : Document} {t : Timing}

/-- The number of iterations of a bounded loop, read under what is published. -/
def iterations (d : Document) (o : Outputs) (l : Node) : Nat :=
  iterationsOf (Evaluation.number d o l "Iterations" (.ofNat 5))

def indexed (o : Outputs) (l : Node) (i : Nat) : Outputs :=
  o.publish l.id Pin.index (.number (.ofNat i))

/-- An iteration of a loop makes these events: those of a walk from its body on its own, or none when
it has no body. -/
def IterationMakes (d : Document) (t : Timing) (l : Node) (o : Outputs) (i : Nat)
    (events : List Event) : Prop :=
  match d.nextExec l.id Pin.loopBody with
  | none => events = []
  | some body => WalkFrom d t body (indexed o l i) events

/-- All iterations of a loop before one make these events, one iteration after the other. -/
inductive Unrolls (d : Document) (t : Timing) (l : Node) (o : Outputs) : Nat → List Event → Prop
    where
  | first : Unrolls d t l o 0 []
  | next {i : Nat} {past events : List Event} (before : Unrolls d t l o i past)
    (makes : IterationMakes d t l o i events) : Unrolls d t l o (i + 1) (past ++ events)

theorem iterationMakes_none {l : Node} (missing : d.nextExec l.id Pin.loopBody = none)
    (o : Outputs) (i : Nat) : IterationMakes d t l o i [] := by
  rw [IterationMakes, missing]

theorem iterationMakes_some_iff {l : Node} {body : String}
    (found : d.nextExec l.id Pin.loopBody = some body) {o : Outputs} {i : Nat}
    {events : List Event} :
    IterationMakes d t l o i events ↔ WalkFrom d t body (indexed o l i) events := by
  rw [IterationMakes, found]

section
variable {l : Node} {o : Outputs} {i : Nat} {past other : List Event}

theorem IterationMakes.unique (makes : IterationMakes d t l o i past)
    (again : IterationMakes d t l o i other) : past = other := by
  unfold IterationMakes at makes again
  cases found : d.nextExec l.id Pin.loopBody with
  | none =>
    rw [found] at makes again
    exact makes.trans again.symm
  | some body =>
    rw [found] at makes again
    exact makes.unique again

theorem Unrolls.unique (unrolls : Unrolls d t l o i past) (again : Unrolls d t l o i other) :
    past = other := by
  induction unrolls generalizing other with
  | first =>
    cases again
    rfl
  | next _ makes ih =>
    cases again with
    | next before makes' => rw [ih before, makes.unique makes']

theorem Unrolls.of_iterations {es : Nat → List Event}
    (makes : ∀ j < i, IterationMakes d t l o j (es j)) :
    Unrolls d t l o i ((List.range i).map es).flatten := by
  induction i with
  | zero => exact .first
  | succ i ih =>
    rw [List.range_succ, List.map_append, List.flatten_append, List.map_singleton,
      List.flatten_singleton]
    exact .next (ih fun j lt => makes j (Nat.lt_succ_of_lt lt)) (makes i (Nat.lt_succ_self i))

theorem Unrolls.exists_iterations (unrolls : Unrolls d t l o i past) :
    ∃ es : Nat → List Event, ∀ j < i, IterationMakes d t l o j (es j) := by
  induction unrolls with
  | first => exact ⟨fun _ => [], nofun⟩
  | @next i _ events _ makes ih =>
    obtain ⟨es, before⟩ := ih
    refine ⟨Function.update es i events, ?_⟩
    intro j lt
    by_cases last : j = i
    · rw [last, Function.update_self]
      exact makes
    · rw [Function.update_of_ne last]
      exact before j (by omega)

end

/-- The loop that a machine executes stands before an iteration. Some nodes were entered since. -/
def between (d : Document) (e : Machine) (l : Node) (i count : Nat) : Machine :=
  { e with
    point := .iterate l i (iterations d e.outputs l)
    outputs := match i with
      | 0 => e.outputs
      | i + 1 => indexed e.outputs l i
    entered := e.entered + count }

def completed (e : Machine) (l : Node) (count : Nat) : Machine :=
  { e with point := .leave l (some Pin.completed), entered := e.entered + count }

/-- A node fires a pin, or none, above these frames. -/
def Leaves (n : Node) (stack : List Frame) (m : Machine) : Prop :=
  m.point.left? = some n ∧ m.stack = stack

instance (n : Node) (stack : List Frame) : DecidablePred (Leaves n stack) :=
  fun m => inferInstanceAs (Decidable (m.point.left? = some n ∧ m.stack = stack))

/-- After some steps the loop stands before an iteration, and those before it were made. -/
structure Stands (d : Document) (t : Timing) (e : Machine) (l : Node) (i k : Nat) : Prop where
  bounded : i ≤ iterations d e.outputs l
  stays : ∀ j ≤ k, ¬ ((onward d t)^[j] e).Leaves l e.stack
  reached : ∃ count, (onward d t)^[k] e = between d e l i count
  past : Unrolls d t l e.outputs i (made d t k e)
  /-- The last walk of the body has come to its end. -/
  ended : 0 < i → d.nextExec l.id Pin.loopBody ≠ none → ∃ j, j + 1 = k ∧
    ((onward d t)^[j] e).Returns (.loop l i (iterations d e.outputs l) :: e.stack)

theorem Fits.withdraw_execute (valid : d.Valid) {e : Machine} (fits : e.Fits d) {l : Node}
    (here : e.point = .execute l) : e.outputs.withdraw l.id = e.outputs := by
  have point := fits.point
  rw [here] at point
  rw [fits.outputs, held_eq (by simp [here])]
  exact withdraw_published fun f mem => point.2.apart valid mem

theorem made_silent {m : Machine} (silent : m.event? = none) (k : Nat) :
    made d t (k + 1) m = made d t k (m.onward d t) := by
  rw [made, silent, Option.toList_none, List.nil_append]

theorem stays_succ {e : Machine} {l n : Node} {stack : List Frame} {k next total : Nat}
    (stays : ∀ j ≤ k, ¬ ((onward d t)^[j] e).Leaves l stack)
    (iterates : ((onward d t)^[k + 1] e).point = .iterate n next total) :
    ∀ j ≤ k + 1, ¬ ((onward d t)^[j] e).Leaves l stack := by
  intro j le
  rcases Nat.eq_or_lt_of_le le with rfl | lt
  · rintro ⟨leaves, _⟩
    rw [iterates] at leaves
    cases leaves
  · exact stays j (Nat.le_of_lt_succ lt)

section
variable {e : Machine} {l : Node} {i k : Nat} (stands : Stands d t e l i k)
include stands

theorem Stands.point :
    ((onward d t)^[k] e).point = .iterate l i (iterations d e.outputs l) := by
  obtain ⟨count, reached⟩ := stands.reached
  rw [reached]
  rfl

theorem Stands.stack : ((onward d t)^[k] e).stack = e.stack := by
  obtain ⟨count, reached⟩ := stands.reached
  rw [reached]
  rfl

variable (more : i < iterations d e.outputs l)
include more

theorem Stands.iterates : ∃ count, (onward d t)^[k + 1] e =
      body d { e with
        point := .iterate l i (iterations d e.outputs l)
        outputs := indexed e.outputs l i
        entered := e.entered + count }
      (.loop l (i + 1) (iterations d e.outputs l)) (.iterate l (i + 1) (iterations d e.outputs l)) ∧
    made d t (k + 1) e = made d t k e := by
  obtain ⟨count, reached⟩ := stands.reached
  refine ⟨count, ?_, ?_⟩
  · rw [Function.iterate_succ_apply', reached, onward_iterate rfl more]
    cases i with
    | zero => rfl
    | succ i => simp only [between, indexed, Outputs.publish_publish]
  · rw [made_add, reached, made_one]
    exact List.append_nil _

theorem Stands.skips (missing : d.nextExec l.id Pin.loopBody = none) :
    Stands d t e l (i + 1) (k + 1) ∧ made d t (k + 1) e = made d t k e := by
  obtain ⟨count, reached, events⟩ := stands.iterates more
  rw [body, Frame.node, missing] at reached
  refine ⟨⟨more, stays_succ stands.stays (congrArg Machine.point reached), ⟨count, reached⟩, ?_,
    fun _ some => absurd missing some⟩, events⟩
  rw [events, ← List.append_nil (made d t k e)]
  exact .next stands.past (iterationMakes_none missing e.outputs i)

theorem Stands.opens {body : String} (found : d.nextExec l.id Pin.loopBody = some body) :
    ∃ count, (onward d t)^[k + 1] e =
      (walking body (indexed e.outputs l i)).lifted
        (.loop l (i + 1) (iterations d e.outputs l) :: e.stack) (e.entered + count) e.repeats ∧
    made d t (k + 1) e = made d t k e := by
  obtain ⟨count, reached, events⟩ := stands.iterates more
  rw [Machine.body, Frame.node, found] at reached
  exact ⟨count, by rw [reached, lifted_walking], events⟩

theorem Stands.within (valid : d.Valid) (fits : e.Fits d) {body : String}
    (found : d.nextExec l.id Pin.loopBody = some body) {j : Nat}
    (under : ∀ q < j, ¬ ((onward d t)^[q] (walking body (indexed e.outputs l i))).Returns []) :
    ∃ count, (onward d t)^[k + 1 + j] e =
        ((onward d t)^[j] (walking body (indexed e.outputs l i))).lifted
          (.loop l (i + 1) (iterations d e.outputs l) :: e.stack) (e.entered + count) e.repeats ∧
      made d t (k + 1 + j) e =
        made d t k e ++ made d t j (walking body (indexed e.outputs l i)) := by
  obtain ⟨count, opened, events⟩ := stands.opens more found
  have still := fits.iterate_onward valid (t := t) (k + 1)
  rw [opened] at still
  obtain ⟨reached, walked⟩ := iterate_lifted valid still rfl under
  refine ⟨count, ?_, ?_⟩
  · rw [Nat.add_comm, Function.iterate_add_apply, opened, reached]
  · rw [made_add, opened, walked, events]

end

section
variable (valid : d.Valid) {e : Machine} (fits : e.Fits d) {l : Node} (here : e.point = .execute l)
include valid fits here

theorem stands_executed (kind : l.kind = .loop) : Stands d t e l 0 1 := by
  have own := fits.withdraw_execute valid here
  have silent : e.event? = none := by simp [event?, demand, here]
  have next : e.onward d t = between d e l 0 0 := by
    simp [onward, demand, here, step, executed, execution, kind, withdrawn, own, goto, between,
      iterations]
  refine ⟨Nat.zero_le _, stays_succ ?_ (congrArg Machine.point next), ⟨0, next⟩, ?_,
    fun pos => absurd pos (Nat.lt_irrefl 0)⟩
  · rintro j le ⟨leaves, _⟩
    obtain rfl := Nat.le_zero.1 le
    rw [show (onward d t)^[0] e = e from rfl, here] at leaves
    cases leaves
  · rw [made_silent silent, made]
    exact .first

section
variable {i k : Nat} (stands : Stands d t e l i k) (more : i < iterations d e.outputs l)
include stands more

theorem Stands.returns {body : String} (found : d.nextExec l.id Pin.loopBody = some body) {j : Nat}
    (returns : ((onward d t)^[j] (walking body (indexed e.outputs l i))).Returns [])
    (under : ∀ q < j, ¬ ((onward d t)^[q] (walking body (indexed e.outputs l i))).Returns []) :
    Stands d t e l (i + 1) (k + 1 + j + 1) ∧ made d t (k + 1 + j + 1) e =
      made d t k e ++ made d t j (walking body (indexed e.outputs l i)) := by
  have makes : IterationMakes d t l e.outputs i
      (made d t j (walking body (indexed e.outputs l i))) :=
    (iterationMakes_some_iff found).2 ⟨j, returns, under, rfl⟩
  have own := fits.withdraw_execute valid here
  have stays : ∀ q ≤ k + 1 + j, ¬ ((onward d t)^[q] e).Leaves l e.stack := by
    intro q le
    rcases Nat.lt_or_ge k q with late | early
    · obtain ⟨q, rfl⟩ := Nat.exists_eq_add_of_le late
      obtain ⟨_, reached, _⟩ := stands.within more valid fits found (j := q)
        fun q' lt => under q' (by omega)
      rintro ⟨_, frames⟩
      exact not_above frames _ ⟨_, congrArg Machine.stack reached⟩
    · exact stands.stays q early
  obtain ⟨count, reached, events⟩ := stands.within more valid fits found under
  have still := fits.iterate_onward valid (t := t) (k + 1 + j)
  revert reached still returns
  generalize (onward d t)^[j] (walking body (indexed e.outputs l i)) = w
  rintro ⟨walked, empty⟩ reached still
  rw [reached] at still
  have back : ((onward d t)^[k + 1 + j] e).Returns
      (.loop l (i + 1) (iterations d e.outputs l) :: e.stack) := by
    rw [reached]
    exact ⟨walked, by rw [lifted, empty, List.nil_append]⟩
  have silent : (w.lifted (.loop l (i + 1) (iterations d e.outputs l) :: e.stack)
      (e.entered + count) e.repeats).event? = none := by
    simp [event?, demand, lifted, walked]
  have outputs : w.outputs = indexed e.outputs l i := by
    have held := still.outputs
    rw [held_eq (by simp [lifted, walked])] at held
    have around := fits.outputs
    rw [held_eq (by simp [here])] at around
    rw [indexed, Outputs.publish, own, around]
    simpa [lifted, empty] using held
  have made_all : made d t (k + 1 + j + 1) e =
      made d t k e ++ made d t j (walking body (indexed e.outputs l i)) := by
    rw [made_add, events, reached, made_one, silent]
    exact List.append_nil _
  have next : (onward d t)^[k + 1 + j + 1] e = between d e l (i + 1) (count + w.entered) := by
    rw [Function.iterate_succ_apply', reached]
    simp [onward, demand, lifted, walked, empty, step, returned, between, outputs,
      Nat.add_comm, Nat.add_left_comm]
  refine ⟨⟨more, stays_succ stays (congrArg Machine.point next), ⟨_, next⟩, ?_,
    fun _ _ => ⟨k + 1 + j, rfl, back⟩⟩, made_all⟩
  rw [made_all]
  exact .next stands.past makes

theorem Stands.next {events : List Event} (makes : IterationMakes d t l e.outputs i events) :
    ∃ k', Stands d t e l (i + 1) k' ∧ made d t k' e = made d t k e ++ events := by
  cases found : d.nextExec l.id Pin.loopBody with
  | none =>
    obtain ⟨next, made_all⟩ := stands.skips more found
    obtain rfl := makes.unique (iterationMakes_none found e.outputs i)
    exact ⟨k + 1, next, by rw [made_all, List.append_nil]⟩
  | some body =>
    obtain ⟨j, returns, under, rfl⟩ := (iterationMakes_some_iff found).1 makes
    exact ⟨_, stands.returns valid fits here more found returns under⟩

end

theorem Stands.completes {k : Nat} (stands : Stands d t e l (iterations d e.outputs l) k) :
    ∃ count, (onward d t)^[k + 1] e = completed e l count ∧
      made d t (k + 1) e = made d t k e := by
  obtain ⟨count, reached⟩ := stands.reached
  have own := fits.withdraw_execute valid here
  refine ⟨count, ?_, ?_⟩
  · rw [Function.iterate_succ_apply', reached]
    simp only [onward, demand, between, step, iterated, Nat.lt_irrefl, decide_false,
      Bool.false_and, Bool.false_eq_true, if_false, withdrawn, goto, completed]
    cases iterations d e.outputs l with
    | zero => simp only [own]
    | succ i => simp only [indexed, Outputs.withdraw_publish, own]
  · rw [made_add, reached, made_one]
    exact List.append_nil _

theorem stands_of_unrolls (kind : l.kind = .loop) {i : Nat} {past : List Event}
    (unrolls : Unrolls d t l e.outputs i past) (le : i ≤ iterations d e.outputs l) :
    ∃ k, Stands d t e l i k ∧ made d t k e = past := by
  induction unrolls with
  | first =>
    have stands := stands_executed (t := t) valid fits here kind
    exact ⟨1, stands, stands.past.unique .first⟩
  | next _ makes ih =>
    obtain ⟨k, stands, rfl⟩ := ih (Nat.le_of_succ_le le)
    exact stands.next valid fits here le makes

/-- A loop whose iterations all come to their end makes their events one after the other, and then
it is left as it was found. -/
theorem unrolls (kind : l.kind = .loop) {past : List Event}
    (unrolls : Unrolls d t l e.outputs (iterations d e.outputs l) past) :
    ∃ k count, (∀ j < k, ¬ ((onward d t)^[j] e).Leaves l e.stack) ∧
      (onward d t)^[k] e = completed e l count ∧ made d t k e = past := by
  obtain ⟨k, stands, rfl⟩ := stands_of_unrolls valid fits here kind unrolls (Nat.le_refl _)
  obtain ⟨count, left, events⟩ := stands.completes valid fits here
  exact ⟨k + 1, count, fun j lt => stands.stays j (Nat.le_of_lt_succ lt), left, events⟩

section
variable {q : Nat} {n : Node} {next total : Nat}
  (iterates : ((onward d t)^[q] e).point = .iterate n next total)
  (frames : ((onward d t)^[q] e).stack = e.stack)
include iterates frames

/-- Before the machine stands above the same frames again, either the loop was left or an iteration
was made. -/
theorem Stands.advances {i k : Nat} (stands : Stands d t e l i k) (later : k < q)
    (stays : ¬ ((onward d t)^[k + 1] e).Leaves l e.stack) :
    ∃ k', k < k' ∧ k' ≤ q ∧ Stands d t e l (i + 1) k' := by
  rcases Nat.eq_or_lt_of_le stands.bounded with rfl | more
  · obtain ⟨count, left, _⟩ := stands.completes valid fits here
    rw [left] at stays
    exact absurd ⟨rfl, rfl⟩ stays
  · cases found : d.nextExec l.id Pin.loopBody with
    | none => exact ⟨k + 1, by omega, later, (stands.skips more found).1⟩
    | some body =>
      let walk := walking body (indexed e.outputs l i)
      have above : ∀ j, k + 1 + j = q → (∀ q' < j, ¬ ((onward d t)^[q'] walk).Returns []) →
          ((onward d t)^[q] e).Above (.loop l (i + 1) (iterations d e.outputs l)) e.stack := by
        rintro j rfl under
        obtain ⟨_, reached, _⟩ := stands.within more valid fits found under
        exact ⟨_, congrArg Machine.stack reached⟩
      by_cases returned : ∃ j, ((onward d t)^[j] walk).Returns [] ∧ k + 1 + j ≤ q
      · obtain ⟨returns, soon⟩ := Nat.find_spec returned
        have under : ∀ q' < Nat.find returned, ¬ ((onward d t)^[q'] walk).Returns [] :=
          fun q' lt again => Nat.find_min returned lt ⟨again, by omega⟩
        have short : k + 1 + Nat.find returned ≠ q :=
          fun same => not_above frames _ (above _ same under)
        exact ⟨_, by omega, by omega, (stands.returns valid fits here more found returns under).1⟩
      · obtain ⟨j, same⟩ := Nat.exists_eq_add_of_le later
        exact absurd (above j same.symm fun q' lt again => returned ⟨q', again, by omega⟩)
          (not_above frames _)

/-- As long as a loop is not left, the machine that stands before an iteration above the same frames
has made all iterations before that one, and stood before each of them in turn. -/
theorem Stands.exists_of_iterate {i k : Nat} (stands : Stands d t e l i k) (le : k ≤ q)
    (stays : ∀ j ≤ q, ¬ ((onward d t)^[j] e).Leaves l e.stack) :
    ∃ (i' : Nat) (times : Nat → Nat), i ≤ i' ∧ times i = k ∧ times i' = q ∧
      (∀ j, i ≤ j → j ≤ i' → Stands d t e l j (times j) ∧ times j ≤ q) ∧
      ∀ j, i ≤ j → j < i' → times j < times (j + 1) := by
  induction left : q - k using Nat.strongRecOn generalizing i k with
  | ind left' ih =>
    subst left
    rcases Nat.eq_or_lt_of_le le with rfl | later
    · refine ⟨i, fun _ => k, Nat.le_refl i, rfl, rfl, ?_, fun j low high => by omega⟩
      intro j low high
      obtain rfl := Nat.le_antisymm low high
      exact ⟨stands, le⟩
    · obtain ⟨k', lt, le', next⟩ :=
        stands.advances valid fits here iterates frames later (stays (k + 1) later)
      obtain ⟨i', times, onward, first, last, stood, rises⟩ := ih (q - k') (by omega) next le' rfl
      have after : ∀ j, i < j → Function.update times i k j = times j :=
        fun j low => Function.update_of_ne (Nat.ne_of_gt low) k times
      refine ⟨i', Function.update times i k, by omega, Function.update_self i k times,
        (after i' onward).trans last, ?_, ?_⟩
      · intro j low high
        rcases Nat.eq_or_lt_of_le low with rfl | low
        · rw [Function.update_self]
          exact ⟨stands, le⟩
        · rw [after j low]
          exact stood j low high
      · intro j low high
        rw [after (j + 1) (by omega)]
        rcases Nat.eq_or_lt_of_le low with rfl | low
        · rw [Function.update_self, first]
          exact lt
        · rw [after j low]
          exact rises j low high

end

/-- Until it is left, a loop stands before each iteration once, before the first ones first. -/
theorem Stands.index_le {i i' k k' : Nat} (stands : Stands d t e l i k)
    (again : Stands d t e l i' k') (le : k ≤ k') : i ≤ i' ∧ (i = i' → k = k') := by
  obtain ⟨last, times, le', first, reached, stood, _⟩ :=
    stands.exists_of_iterate valid fits here again.point again.stack le again.stays
  obtain ⟨there, _⟩ := stood last le' (Nat.le_refl last)
  rw [reached] at there
  cases there.point.symm.trans again.point
  exact ⟨le', fun same => by rw [← first, ← reached, same]⟩

end

end Machine
end Engine
end MacroGraph
