import MacroGraph.Proofs.Engine.Interruption
import MacroGraph.Proofs.Engine.Unrolling

namespace MacroGraph.Engine
variable {d : Document} {t : Timing}

/-- Without its fraction a negative number asks for no iterations, and the largest for the most. -/
theorem iterationsOf_finite (negative : Bool) (rank : Nat) (bounded : rank < topRank) :
    iterationsOf (.finite negative rank bounded) =
      if negative then 0 else min (2 ^ 64 - 1) (Binary64.units rank / unitsInOne) := by
  have most : iterationBound = 2 ^ 64 - 1 := rfl
  rw [iterationsOf, Binary64.toIntWithin, Binary64.wholeMagnitude, most]
  generalize Binary64.units rank / unitsInOne = whole
  cases negative <;> simp only [Bool.false_eq_true, if_true, if_false] <;> omega

namespace Machine

/-- A loop begins the walk of its body in an iteration, above these frames. -/
structure Opens (d : Document) (l : Node) (i total : Nat) (stack : List Frame)
    (m after : Machine) : Prop where
  frames : m.stack = stack
  iterates : m.point = .iterate l i total
  more : i < total
  arrives : ∃ body, d.nextExec l.id Pin.loopBody = some body ∧ after.point = .arrive body

theorem Moves.opens_loop {running : Bool} {m after : Machine} {notes : List Note}
    (moves : Moves d t running m after notes) {l : Node} {next total : Nat} {stack : List Frame}
    (below : ¬ m.Above (.loop l next total) stack) (above : after.Above (.loop l next total) stack) :
    running = true ∧ ∃ i, next = i + 1 ∧ Opens d l i total stack m after := by
  obtain ⟨inner, frames⟩ := above
  cases moves with
  | executes n here up => exact absurd ⟨inner, (executed_eq d m n).2.1 ▸ frames⟩ below
  | iterates n i total' body here up more found =>
    cases inner with
    | nil =>
      cases frames
      exact ⟨up, i, rfl, rfl, here, more, body, found, rfl⟩
    | cons top inner => exact absurd ⟨inner, (List.cons.inj frames).2⟩ below
  | checks n i body here up holds found =>
    cases inner with
    | nil => cases frames
    | cons top inner => exact absurd ⟨inner, (List.cons.inj frames).2⟩ below
  | resumesLoop n i total' rest here top =>
    exact absurd ⟨_ :: inner, top.trans (congrArg _ frames)⟩ below
  | resumesWhile n i rest here top =>
    exact absurd ⟨_ :: inner, top.trans (congrArg _ frames)⟩ below
  | _ => exact absurd ⟨inner, frames⟩ below

end Machine

namespace Run
variable {σ : Type} {host : Host σ} {r : Run σ} {lowers : Nat → Bool}

section
variable (document : r.worker.document = d) (timing : r.worker.timing = t)
include document timing

theorem opens_passes {lowers : Bool} {l : Node} {next total : Nat} {stack : List Frame}
    (below : ¬ r.worker.machine.Above (.loop l next total) stack)
    (above : (r.passes host lowers).worker.machine.Above (.loop l next total) stack) :
    (r.passes host lowers).worker.running = true ∧ ∃ i, next = i + 1 ∧
      Machine.Opens d l i total stack r.worker.machine (r.passes host lowers).worker.machine := by
  unfold passes at above ⊢
  split at above
  · exact absurd above below
  next quiet =>
  rw [if_neg quiet]
  split at above
  · next alive =>
    rw [if_pos alive]
    cases demand : r.worker.machine.demand with
    | nothing =>
      rw [step_worker_silent demand, Worker.advance, document, timing] at above ⊢
      obtain ⟨up, i, index, opens⟩ :=
        (Machine.moves_step d t r.worker.running demand).opens_loop below above
      obtain ⟨body, _, arrives⟩ := opens.arrives
      refine ⟨?_, i, index, opens⟩
      simp only [arrives]
      exact up
    | notify n =>
      obtain ⟨inner, frames⟩ := above
      rw [step_worker_notify demand] at frames
      exact absurd ⟨inner, (Machine.stack_notified _).symm.trans frames⟩ below
    | act a =>
      obtain ⟨inner, frames⟩ := above
      rw [step_worker_act demand] at frames
      cases reply : (host r.world (.action a)).reply with
      | done | failed =>
        rw [reply] at frames
        exact absurd ⟨inner, (Machine.stack_answered _ _).symm.trans frames⟩ below
      | crashed =>
        rw [reply] at frames
        exact absurd ⟨inner, frames⟩ below
    | ended result =>
      rw [step, demand] at above
      exact absurd above below
  · exact absurd above below

/-- At a moment the body of a loop, which was executed at an earlier one, is walked in an iteration.
The loop stood before the iterations so far at these times after it was executed, with nothing
disturbed yet. -/
structure Iterating (d : Document) (t : Timing) (run : Nat → Run σ) (e : Machine) (l : Node)
    (a j i : Nat) (times : Nat → Nat) : Prop where
  more : i < Machine.iterations d e.outputs l
  connected : d.nextExec l.id Pin.loopBody ≠ none
  opened : a + times i < j
  stood : ∀ i' ≤ i, Machine.Stands d t e l i' (times i') ∧ times i' ≤ times i
  rises : ∀ i' < i, times i' < times (i' + 1)
  alone : ∀ k ≤ times i + 1, (run (a + k)).worker.machine = (Machine.onward d t)^[k] e ∧
    (run (a + k)).events.toList = (run a).events.toList ++ Machine.made d t k e
  within : ∀ k, a + times i < k → k ≤ j →
    (run k).worker.machine.Above (.loop l (i + 1) (Machine.iterations d e.outputs l)) e.stack

/-- When the body of a loop is walked, its walk began above the frames of the loop, with the flag
up. -/
theorem exists_opening {l : Node} {next total a j : Nat} {stack : List Frame} (le : a ≤ j)
    (frames : (r.interrupted host lowers a).worker.machine.stack = stack)
    (above : (r.interrupted host lowers j).worker.machine.Above (.loop l next total) stack) :
    ∃ p i, a ≤ p ∧ p < j ∧ next = i + 1 ∧
      (r.interrupted host lowers (p + 1)).worker.running = true ∧
      Machine.Opens d l i total stack (r.interrupted host lowers p).worker.machine
        (r.interrupted host lowers (p + 1)).worker.machine ∧
      ∀ k, p < k → k ≤ j →
        (r.interrupted host lowers k).worker.machine.Above (.loop l next total) stack := by
  induction le with
  | refl => exact absurd above (Machine.not_above frames _)
  | @step j le ih =>
    by_cases before : (r.interrupted host lowers j).worker.machine.Above (.loop l next total) stack
    · obtain ⟨p, i, low, high, index, up, opens, within⟩ := ih before
      refine ⟨p, i, low, by omega, index, up, opens, ?_⟩
      intro k lt le'
      rcases Nat.eq_or_lt_of_le le' with rfl | earlier
      · exact above
      · exact within k lt (Nat.le_of_lt_succ earlier)
    · obtain ⟨document', timing'⟩ := document_interrupted document timing host lowers j
      obtain ⟨up, i, index, opens⟩ := opens_passes document' timing' before above
      refine ⟨j, i, le, Nat.lt_succ_self j, index, up, opens, ?_⟩
      intro k lt le'
      obtain rfl := Nat.le_antisymm le' lt
      exact above

section
variable (valid : d.Valid) (intact : r.worker.crashed = false) (fits : r.worker.machine.Fits d)
  {a j : Nat} (le : a ≤ j) {e : Machine}
  (entry : (r.interrupted host lowers a).worker.machine = e) {l : Node} (here : e.point = .execute l)
  (kind : l.kind = .loop)
  (stays : ∀ k, a ≤ k → k ≤ j → ¬ (r.interrupted host lowers k).worker.machine.Leaves l e.stack)
include valid intact fits le entry here kind stays

theorem exists_iterating {next total : Nat}
    (above : (r.interrupted host lowers j).worker.machine.Above (.loop l next total) e.stack) :
    ∃ i times, next = i + 1 ∧ total = Machine.iterations d e.outputs l ∧
      Iterating d t (r.interrupted host lowers) e l a j i times := by
  obtain ⟨p, i, low, high, rfl, up, ⟨frames, iterates, more, body, found, arrives⟩, within⟩ :=
    exists_opening document timing le (congrArg Machine.stack entry) above
  obtain ⟨q, rfl⟩ := Nat.exists_eq_add_of_le low
  have opened : (r.interrupted host lowers (a + (q + 1))).Undisturbed := by
    rw [← Nat.add_assoc]
    refine ⟨alive_interrupted host lowers intact ?_, up, ?_⟩
    · rw [Machine.demand, arrives]
    · rw [arrives]
      rfl
  have alone : ∀ k ≤ q + 1,
      (r.interrupted host lowers (a + k)).worker.machine = (Machine.onward d t)^[k] e ∧
        (r.interrupted host lowers (a + k)).events.toList =
          (r.interrupted host lowers a).events.toList ++ Machine.made d t k e := by
    intro k le
    rw [← entry]
    rcases Nat.eq_or_lt_of_le le with rfl | lt
    · exact machine_interrupted document timing opened
    · exact machine_interrupted document timing
        (undisturbed_interrupted document timing opened k lt).2
  have fits' : e.Fits d := entry ▸ fits_interrupted document timing valid fits host lowers a
  rw [(alone q (Nat.le_succ q)).1] at iterates frames
  have later : 1 ≤ q := by
    rw [Nat.one_le_iff_ne_zero]
    rintro rfl
    cases here.symm.trans iterates
  have unleft : ∀ k ≤ q, ¬ ((Machine.onward d t)^[k] e).Leaves l e.stack := by
    intro k le
    rw [← (alone k (by omega)).1]
    exact stays (a + k) (by omega) (by omega)
  have begins : Machine.Stands d t e l 0 1 := Machine.stands_executed valid fits' here kind
  obtain ⟨_, times, _, _, last, stood, rises⟩ :=
    begins.exists_of_iterate valid fits' here iterates frames later unleft
  have stands := (stood _ (Nat.zero_le _) (Nat.le_refl _)).1
  rw [last] at stands
  cases stands.point.symm.trans iterates
  refine ⟨i, times, rfl, rfl, more, by simp [found], ?_, ?_, fun i' => rises i' (Nat.zero_le i'),
    ?_, ?_⟩ <;> rw [last]
  · exact high
  · exact fun i' => stood i' (Nat.zero_le i')
  · exact alone
  · exact within

end

end

section
variable {run : Nat → Run σ} {e : Machine} {l : Node} {a j i : Nat} {times : Nat → Nat}

/-- The walks of a body that were begun by a moment were begun by each later one. -/
theorem Iterating.agree (valid : d.Valid) (fits : e.Fits d) (here : e.point = .execute l)
    {j' i' : Nat} {times' : Nat → Nat} (first : Iterating d t run e l a j i times)
    (last : Iterating d t run e l a j' i' times') (le : j ≤ j') :
    i ≤ i' ∧ times i = times' i := by
  have stands := (first.stood i (Nat.le_refl i)).1
  have before : times i ≤ times' i' := by
    by_contra beyond
    have opened := first.opened
    refine Machine.not_above ?_ _ (last.within (a + times i) (by omega) (by omega))
    rw [(first.alone (times i) (Nat.le_succ _)).1]
    exact stands.stack
  obtain ⟨le', _⟩ :=
    stands.index_le valid fits here (last.stood i' (Nat.le_refl i')).1 before
  obtain ⟨stands', _⟩ := last.stood i le'
  refine ⟨le', ?_⟩
  rcases Nat.le_total (times i) (times' i) with le | ge
  · exact (stands.index_le valid fits here stands' le).2 rfl
  · exact ((stands'.index_le valid fits here stands ge).2 rfl).symm

variable (iterating : Iterating d t run e l a j i times)
include iterating

theorem Iterating.begins {i' : Nat} (le : i' ≤ i) :
    ∃ body count, d.nextExec l.id Pin.loopBody = some body ∧
      (run (a + times i' + 1)).worker.machine =
        { e with
          point := .arrive body
          stack := .loop l (i' + 1) (Machine.iterations d e.outputs l) :: e.stack
          outputs := Machine.indexed e.outputs l i'
          entered := e.entered + count } ∧
      (run (a + times i' + 1)).events.toList =
        (run a).events.toList ++ Machine.made d t (times i') e := by
  obtain ⟨stands, early⟩ := iterating.stood i' le
  obtain ⟨body, found⟩ := Option.ne_none_iff_exists'.1 iterating.connected
  have more := Nat.lt_of_le_of_lt le iterating.more
  obtain ⟨count, opened, events⟩ := stands.opens more found
  obtain ⟨reached, made⟩ := iterating.alone (times i' + 1) (by omega)
  refine ⟨body, count, found, ?_, ?_⟩
  · rw [Nat.add_assoc, reached, opened, Machine.lifted_walking]
  · rw [Nat.add_assoc, made, events]

theorem Iterating.returns {i' : Nat} (lt : i' < i) :
    ∃ k, a + times i' < k ∧ k < a + times (i' + 1) ∧ (run k).worker.machine.Returns
      (.loop l (i' + 1) (Machine.iterations d e.outputs l) :: e.stack) := by
  obtain ⟨stands, early⟩ := iterating.stood (i' + 1) lt
  obtain ⟨k, next, returns⟩ := stands.ended (Nat.succ_pos i') iterating.connected
  have rises := iterating.rises i' lt
  have apart : times i' ≠ k := by
    rintro rfl
    cases returns.1.symm.trans (iterating.stood i' (Nat.le_of_lt lt)).1.point
  refine ⟨a + k, by omega, by omega, ?_⟩
  rw [(iterating.alone k (by omega)).1]
  exact returns

end

/-- From the moment when a loop is executed up to another one the walks of its body that began are
those of the first iterations, each with its index and no other change of what was published at the
entry. All but the last one came to their end, and made the events of a walk on its own. -/
structure BodyWalks (d : Document) (t : Timing) (run : Nat → Run σ) (l : Node) (a j count : Nat)
    (begins : Nat → Nat) (es : Nat → List Event) : Prop where
  bounded : count ≤ Machine.iterations d (run a).worker.machine.outputs l
  inside : ∀ i < count, a < begins i ∧ begins i ≤ j
  begun : ∀ i < count, ∃ body entered, d.nextExec l.id Pin.loopBody = some body ∧
    (run (begins i)).worker.machine =
      { (run a).worker.machine with
        point := .arrive body
        stack := .loop l (i + 1) (Machine.iterations d (run a).worker.machine.outputs l) ::
          (run a).worker.machine.stack
        outputs := Machine.indexed (run a).worker.machine.outputs l i
        entered := (run a).worker.machine.entered + entered }
  makes : ∀ i, i + 1 < count →
    Machine.IterationMakes d t l (run a).worker.machine.outputs i (es i)
  made : ∀ i < count, (run (begins i)).events.toList =
    (run a).events.toList ++ ((List.range i).map es).flatten
  ended : ∀ i, i + 1 < count → ∃ k, begins i ≤ k ∧ k < begins (i + 1) ∧
    (run k).worker.machine.Returns
      (.loop l (i + 1) (Machine.iterations d (run a).worker.machine.outputs l) ::
        (run a).worker.machine.stack)
  /-- Whenever the body is walked, one of these walks began and has not come to its end. -/
  all : ∀ k, a ≤ k → k ≤ j → ∀ next total,
    (run k).worker.machine.Above (.loop l next total) (run a).worker.machine.stack →
      ∃ i < count, next = i + 1 ∧
        total = Machine.iterations d (run a).worker.machine.outputs l ∧ begins i ≤ k ∧
        ∀ k', begins i ≤ k' → k' ≤ k → (run k').worker.machine.Above (.loop l next total)
          (run a).worker.machine.stack

section
variable (document : r.worker.document = d) (timing : r.worker.timing = t) (valid : d.Valid)
  (intact : r.worker.crashed = false) (fits : r.worker.machine.Fits d) {a : Nat} {l : Node}
  (here : (r.interrupted host lowers a).worker.machine.point = .execute l)
include document timing valid intact fits here

/-- As long as nothing disturbs it, the run does what its machine alone would. -/
theorem undisturbed_of_calm (up : (r.interrupted host lowers a).worker.running = true) {k : Nat}
    (calm : ∀ j < k, lowers (a + j) = false ∧ ¬ (r.interrupted host lowers (a + j)).Disturbed host)
    (going : ∀ j < k, ((Machine.onward d t)^[j]
      (r.interrupted host lowers a).worker.machine).point.isFinished = false) :
    (r.interrupted host lowers (a + k)).Undisturbed := by
  have steps : ∀ j ≤ k, r.interrupted host lowers (a + j) =
      (r.interrupted host lowers a).steps host j :=
    fun j le => interrupted_quiet fun j' lt => (calm j' (Nat.lt_of_lt_of_le lt le)).1
  obtain ⟨document', timing'⟩ := document_interrupted document timing host lowers a
  have alive : (r.interrupted host lowers a).worker.isAlive = true :=
    alive_interrupted host lowers intact (by rw [Machine.demand, here])
  have begins : (r.interrupted host lowers a).Fits d t := by
    refine ⟨document', timing', fits_interrupted document timing valid fits host lowers a,
      fun crashed => ?_, fun n enters => ?_⟩
    · cases (intact_of_isAlive alive).symm.trans crashed
    · cases here.symm.trans enters
  rw [steps k (Nat.le_refl k)]
  refine begins.undisturbed_until host valid ⟨alive, up, by rw [here]; rfl⟩ ?_ going
  intro j lt
  rw [← steps j (Nat.le_of_lt lt)]
  exact (calm j lt).2

variable (kind : l.kind = .loop)
include kind

theorem exists_bodyWalks {j : Nat}
    (stays : ∀ k, a ≤ k → k ≤ j → ¬ (r.interrupted host lowers k).worker.machine.Leaves l
      (r.interrupted host lowers a).worker.machine.stack) :
    ∃ count begins es, BodyWalks d t (r.interrupted host lowers) l a j count begins es := by
  have iterates : ∀ {k next total}, a ≤ k → k ≤ j →
      (r.interrupted host lowers k).worker.machine.Above (.loop l next total)
        (r.interrupted host lowers a).worker.machine.stack → _ :=
    fun {k _ _} low high above => exists_iterating document timing valid intact fits low rfl here kind
      (fun k' low' high' => stays k' low' (Nat.le_trans high' high)) above
  have entry := fits_interrupted document timing valid fits host lowers a
  classical
  let walked := fun k => a ≤ k ∧ ∃ next total,
    (r.interrupted host lowers k).worker.machine.Above (.loop l next total)
      (r.interrupted host lowers a).worker.machine.stack
  by_cases any : ∃ k ≤ j, walked k
  · obtain ⟨k, le', holds⟩ := any
    obtain ⟨low, _, _, above⟩ := Nat.findGreatest_spec le' holds
    obtain ⟨i, times, rfl, rfl, last⟩ := iterates low (Nat.findGreatest_le j) above
    obtain ⟨es, makes⟩ := (last.stood i (Nat.le_refl i)).1.past.exists_iterations
    refine ⟨i + 1, fun i' => a + times i' + 1, es, last.more, ?inside, ?begun, ?makes, ?made, ?ended,
      ?all⟩
    case inside =>
      intro i' lt
      have early := (last.stood i' (Nat.le_of_lt_succ lt)).2
      have opened := last.opened
      have high : Nat.findGreatest walked j ≤ j := Nat.findGreatest_le j
      exact ⟨by omega, by omega⟩
    case begun =>
      intro i' lt
      obtain ⟨body, entered, found, begun, _⟩ := last.begins (Nat.le_of_lt_succ lt)
      exact ⟨body, entered, found, begun⟩
    case makes => exact fun i' lt => makes i' (Nat.lt_of_succ_lt_succ lt)
    case made =>
      intro i' lt
      obtain ⟨body, entered, found, begun, made⟩ := last.begins (Nat.le_of_lt_succ lt)
      rw [made, (last.stood i' (Nat.le_of_lt_succ lt)).1.past.unique
        (.of_iterations fun j lt' => makes j (by omega))]
    case ended =>
      intro i' lt
      obtain ⟨k, low, high, returns⟩ := last.returns (Nat.lt_of_succ_lt_succ lt)
      exact ⟨k, low, by omega, returns⟩
    case all =>
      intro k low high next total above
      have le' : k ≤ Nat.findGreatest walked j :=
        Nat.le_findGreatest high ⟨low, next, total, above⟩
      obtain ⟨i', times', rfl, rfl, iterating⟩ := iterates low high above
      obtain ⟨before, same⟩ := iterating.agree valid entry here last le'
      have opened := iterating.opened
      refine ⟨i', Nat.lt_succ_of_le before, rfl, rfl, by omega, ?_⟩
      intro k' low' high'
      exact iterating.within k' (by omega) high'
  · have never : ∀ {i : Nat} {p : Prop}, i < 0 → p := fun lt => absurd lt (Nat.not_lt_zero _)
    refine ⟨0, id, fun _ => [], Nat.zero_le _, fun _ => never, fun _ => never,
      fun _ lt => never (Nat.lt_of_succ_lt lt), fun _ => never,
      fun _ lt => never (Nat.lt_of_succ_lt lt), ?_⟩
    intro k low high next total above
    exact absurd ⟨k, high, low, next, total, above⟩ any

/-- A loop whose iterations all come to their end and that nothing disturbs until it is left makes
their events, and completes with what was published when it was executed. -/
theorem exists_completed (up : (r.interrupted host lowers a).worker.running = true)
    {es : Nat → List Event}
    (makes : ∀ i < Machine.iterations d (r.interrupted host lowers a).worker.machine.outputs l,
      Machine.IterationMakes d t l (r.interrupted host lowers a).worker.machine.outputs i (es i))
    (calm : ∀ j, (∀ i ≤ j, ¬ (r.interrupted host lowers (a + i)).worker.machine.Leaves l
        (r.interrupted host lowers a).worker.machine.stack) →
      lowers (a + j) = false ∧ ¬ (r.interrupted host lowers (a + j)).Disturbed host) :
    ∃ k, (∀ j < k, ¬ (r.interrupted host lowers (a + j)).worker.machine.Leaves l
        (r.interrupted host lowers a).worker.machine.stack) ∧
      (r.interrupted host lowers (a + k)).Undisturbed ∧
      (∃ entered, (r.interrupted host lowers (a + k)).worker.machine =
        Machine.completed (r.interrupted host lowers a).worker.machine l entered) ∧
      (r.interrupted host lowers (a + k)).events.toList =
        (r.interrupted host lowers a).events.toList ++
          ((List.range (Machine.iterations d
            (r.interrupted host lowers a).worker.machine.outputs l)).map es).flatten := by
  obtain ⟨k, entered, stays, left, events⟩ := Machine.unrolls valid
    (fits_interrupted document timing valid fits host lowers a) here kind (.of_iterations makes)
  have undisturbed : ∀ j ≤ k, (∀ i < j, lowers (a + i) = false ∧
      ¬ (r.interrupted host lowers (a + i)).Disturbed host) →
      (r.interrupted host lowers (a + j)).Undisturbed := by
    intro j le calm
    refine undisturbed_of_calm document timing valid intact fits here up calm ?_
    exact fun i lt => Machine.going_of_later (k := k) (by omega) (by rw [left]; rfl)
  have alone : ∀ j ≤ k, (r.interrupted host lowers (a + j)).Undisturbed := by
    intro j
    induction j using Nat.strongRecOn with
    | ind j ih =>
      intro le
      refine undisturbed j le fun i lt => calm i fun i' le' => ?_
      rw [(machine_interrupted document timing (ih i' (by omega) (by omega))).1]
      exact stays i' (by omega)
  obtain ⟨machine, made⟩ := machine_interrupted document timing (alone k (Nat.le_refl k))
  refine ⟨k, ?_, alone k (Nat.le_refl k), ⟨entered, machine.trans left⟩, by rw [made, events]⟩
  intro j lt
  rw [(machine_interrupted document timing (alone j (Nat.le_of_lt lt))).1]
  exact stays j lt

end

end Run

/-- A bounded loop reads its number of iterations once, when it is executed. When its iterations all
come to their end and nothing disturbs it until it is left, it makes the events of walking its body
with each index in turn, none without a body, and then fires its pin of completion with what was
published before. Until it is left, whatever happens, the walks of its body that began are those of
its first iterations, and all but the last one have come to their end. -/
theorem bounded_loop_unrolls {σ : Type} (host : Host σ) (valid : d.Valid) (t : Timing)
    (level : Option Log.Level) (running : Bool) (world : σ) (lowers : Nat → Bool) {a : Nat} {l : Node}
    (here : ((Run.begin d t level running world).interrupted host lowers a).worker.machine.point =
      .execute l) (kind : l.kind = .loop) :
    let run := (Run.begin d t level running world).interrupted host lowers
    let entry := (run a).worker.machine
    let total := Machine.iterations d entry.outputs l
    (∃ negative rank bounded,
      Evaluation.number d entry.outputs l "Iterations" (.ofNat 5) = .finite negative rank bounded ∧
      total = if negative then 0 else min (2 ^ 64 - 1) (Binary64.units rank / unitsInOne)) ∧
    (d.nextExec l.id Pin.loopBody = none →
      ∀ i, Machine.IterationMakes d t l entry.outputs i []) ∧
    ((run a).worker.running = true → ∀ es : Nat → List Event,
      (∀ i < total, Machine.IterationMakes d t l entry.outputs i (es i)) →
      (∀ j, (∀ i ≤ j, ¬ (run (a + i)).worker.machine.Leaves l entry.stack) →
        lowers (a + j) = false ∧ ¬ (run (a + j)).Disturbed host) →
      ∃ k, (∀ j < k, ¬ (run (a + j)).worker.machine.Leaves l entry.stack) ∧
        (run (a + k)).Undisturbed ∧
        (∃ entered, (run (a + k)).worker.machine = Machine.completed entry l entered) ∧
        (run (a + k)).events.toList =
          (run a).events.toList ++ ((List.range total).map es).flatten ∧
        (d.nextExec l.id Pin.loopBody = none →
          (run (a + k)).events.toList = (run a).events.toList)) ∧
    ∀ j, (∀ k, a ≤ k → k ≤ j → ¬ (run k).worker.machine.Leaves l entry.stack) →
      ∃ count begins es, Run.BodyWalks d t run l a j count begins es := by
  intro run entry total
  have begins : (Run.begin d t level running world).worker.machine.Fits d := ⟨rfl, rfl⟩
  refine ⟨?number, ?missing, ?completes, ?walks⟩
  case number =>
    have finite : (Evaluation.number d entry.outputs l "Iterations" (.ofNat 5)).isFinite = true :=
      Value.isFinite_toNumber _
    cases same : Evaluation.number d entry.outputs l "Iterations" (.ofNat 5) with
    | finite negative rank bounded =>
      refine ⟨negative, rank, bounded, rfl, ?_⟩
      exact (congrArg iterationsOf same).trans (iterationsOf_finite negative rank bounded)
    | infinity | nan =>
      rw [same] at finite
      cases finite
  case missing => exact fun missing i => Machine.iterationMakes_none missing entry.outputs i
  case completes =>
    intro up es makes calm
    obtain ⟨k, stays, undisturbed, left, events⟩ :=
      Run.exists_completed rfl rfl valid rfl begins here kind up makes calm
    refine ⟨k, stays, undisturbed, left, events, fun missing => ?_⟩
    have silent : ((List.range total).map es).flatten = [] := by
      rw [List.flatten_eq_nil_iff]
      intro events mem
      obtain ⟨i, lt, rfl⟩ := List.mem_map.1 mem
      exact (makes i (List.mem_range.1 lt)).unique
        (Machine.iterationMakes_none missing entry.outputs i)
    exact (events.trans (congrArg (_ ++ ·) silent)).trans (List.append_nil _)
  case walks =>
    exact fun j stays => Run.exists_bodyWalks rfl rfl valid rfl begins here kind stays

/-- Two loops, one in the body of the other and with as many iterations as the other one's index
tells. -/
def staircase : Document where
  serial := 0
  nodes := [⟨"s", .start, []⟩, ⟨"a", .loop, [("Iterations", .text "3.9")]⟩, ⟨"b", .loop, []⟩,
    ⟨"c", .mouseClick, []⟩]
  connections := [⟨"s", Pin.exec, "a", Pin.exec, .exec⟩, ⟨"a", Pin.loopBody, "b", Pin.exec, .exec⟩,
    ⟨"b", Pin.loopBody, "c", Pin.exec, .exec⟩, ⟨"a", Pin.index, "b", "Iterations", .data⟩]
  start := "s"
  index := {
    exec := [(("s", Pin.exec), "a"), (("a", Pin.loopBody), "b"), (("b", Pin.loopBody), "c")]
    data := [(("b", "Iterations"), ("a", Pin.index))] }

/-- The outer loop makes three iterations, with a click more in each. When its flag is lowered within
the click of the second, that walk of its body is the last one that began. -/
theorem staircase_unrolls :
    let run := fun lowers => (Run.begin staircase {} none true ()).interrupted willing lowers
    let l : Node := ⟨"a", .loop, [("Iterations", .text "3.9")]⟩
    let click := [.notice (.entered "c"), Event.action (.click .left false)]
    let es := fun i => .notice (.entered "b") :: (List.replicate i click).flatten
    let never := fun _ => false
    let late := fun k => k == 25
    (∀ lowers ∈ [never, late], (run lowers 9).worker.machine.point = .execute l) ∧
      Machine.iterations staircase [] l = 3 ∧
      (∀ i < 3, Machine.IterationMakes staircase {} l [] i (es i)) ∧
      (∃ k, (run never (9 + k)).worker.machine.point = .leave l (some Pin.completed) ∧
        (run never (9 + k)).events.toList =
          (run never 9).events.toList ++ (es 0 ++ es 1 ++ es 2)) ∧
      ∃ count begins es', 1 < count ∧
        Run.BodyWalks staircase {} (run late) l 9 32 count begins es' := by
  intro run l click es never late
  have valid : staircase.Valid := rfl
  have outputs : (run never 9).worker.machine.outputs = [] := by decide +kernel
  have total : Machine.iterations staircase [] l = 3 := by decide +kernel
  have found : staircase.nextExec l.id Pin.loopBody = some "b" := by decide +kernel
  have makes : ∀ i < 3, Machine.IterationMakes staircase {} l [] i (es i) := by
    intro i lt
    rw [Machine.iterationMakes_some_iff found]
    obtain rfl | rfl | rfl : i = 0 ∨ i = 1 ∨ i = 2 := by omega
    · exact ⟨5, by decide +kernel, by decide +kernel, by decide +kernel⟩
    · exact ⟨12, by decide +kernel, by decide +kernel, by decide +kernel⟩
    · exact ⟨19, by decide +kernel, by decide +kernel, by decide +kernel⟩
  have calm : ∀ j, never j = false ∧ ¬ (run never j).Disturbed willing := by
    refine fun j => ⟨rfl, ?_⟩
    rintro (⟨e, _, lowers⟩ | ⟨a, _, undone⟩)
    · cases lowers
    · exact undone rfl
  obtain ⟨-, -, completes, -⟩ :=
    bounded_loop_unrolls willing valid {} none true () never (a := 9) (l := l) (by decide +kernel) rfl
  obtain ⟨k, -, -, ⟨entered, left⟩, events, -⟩ :=
    completes (by decide +kernel) es (by rw [outputs, total]; exact makes) fun j _ => calm (9 + j)
  obtain ⟨-, -, -, walks⟩ :=
    bounded_loop_unrolls willing valid {} none true () late (a := 9) (l := l) (by decide +kernel) rfl
  have stays : ∀ k ≤ 32, 9 ≤ k → ¬ (run late k).worker.machine.Leaves l [] := by decide +kernel
  obtain ⟨count, begins, es', walks⟩ := walks 32 (by
    rintro k low high ⟨leaves, frames⟩
    exact stays k high low ⟨leaves, frames.trans (by decide +kernel)⟩)
  obtain ⟨i, lt, index, -⟩ := walks.all 26 (by decide) (by decide) 2 3
    ⟨[.loop ⟨"b", .loop, []⟩ 1 1], by decide +kernel⟩
  cases index
  refine ⟨?_, total, makes, ⟨k, congrArg Machine.point left, ?_⟩, count, begins, es', lt, walks⟩
  · rintro lowers (_ | ⟨_, _ | ⟨_, no⟩⟩)
    · decide +kernel
    · decide +kernel
    · cases no
  · have all : ((List.range 3).map es).flatten = es 0 ++ es 1 ++ es 2 := rfl
    rw [events, outputs, total, all]
end MacroGraph.Engine
