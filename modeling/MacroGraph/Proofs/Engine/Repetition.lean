import MacroGraph.Proofs.Engine.Completion
import MacroGraph.Proofs.Engine.Interruption
import MacroGraph.Proofs.Engine.Walk

namespace MacroGraph.Engine
variable {d : Document} {t : Timing}

namespace Machine

def fresh (d : Document) : Machine := { point := .arrive d.start }

/-- The walk from the start comes to its end and has made these events. -/
def WalkMakes (d : Document) (t : Timing) (events : List Event) : Prop :=
  ∃ k, ((onward d t)^[k] (fresh d)).Returns [] ∧
    (∀ j < k, ¬ ((onward d t)^[j] (fresh d)).Returns []) ∧ made d t k (fresh d) = events

/-- The same machine in a macro that starts again. -/
def repeating (m : Machine) : Machine := { m with repeats := true }

theorem repeating_eq_lifted (m : Machine) : m.repeating = m.lifted [] 0 true := by
  simp [repeating, lifted]

/-- Whether a macro starts again matters only at the end of its walk. -/
theorem iterate_repeating (valid : d.Valid) {m : Machine} (fits : m.Fits d)
    (opened : m.point.isOpening = false) {k : Nat}
    (under : ∀ j < k, ¬ ((onward d t)^[j] m).Returns []) :
    (onward d t)^[k] m.repeating = ((onward d t)^[k] m).repeating ∧
      made d t k m.repeating = made d t k m := by
  have still : (m.lifted [] 0 true).Fits d := repeating_eq_lifted m ▸ ⟨fits.point, fits.outputs⟩
  simpa only [repeating_eq_lifted] using iterate_lifted valid still opened under

theorem uncounted_iterate {m other : Machine} (same : m.uncounted = other.uncounted) (k : Nat) :
    ((onward d t)^[k] m).uncounted = ((onward d t)^[k] other).uncounted := by
  have erased := (semiconj_uncounted (d := d) (t := t)).iterate_right k
  rw [erased m, erased other, same]

theorem made_of_uncounted {m other : Machine} (same : m.uncounted = other.uncounted) (k : Nat) :
    made d t k m = made d t k other := by
  induction k generalizing m other with
  | zero => rfl
  | succ k ih =>
    have event : m.event? = other.event? := by
      change m.uncounted.event? = other.uncounted.event?
      rw [same]
    have rest := ih (uncounted_iterate (d := d) (t := t) same 1)
    rw [Function.iterate_one] at rest
    rw [made, made, event, rest]

/-- What makes these events and comes back makes them time and again. -/
theorem made_rounds {m : Machine} {round : Nat}
    (back : ((onward d t)^[round] m).uncounted = m.uncounted) (n : Nat) :
    ((onward d t)^[n * round] m).uncounted = m.uncounted ∧
      made d t (n * round) m = (List.replicate n (made d t round m)).flatten := by
  induction n with
  | zero => simp [made]
  | succ n ih =>
    obtain ⟨reached, events⟩ := ih
    rw [Nat.succ_mul]
    refine ⟨?_, ?_⟩
    · calc ((onward d t)^[n * round + round] m).uncounted
          = ((onward d t)^[round] ((onward d t)^[n * round] m)).uncounted := by
            rw [Nat.add_comm, Function.iterate_add_apply]
        _ = ((onward d t)^[round] m).uncounted := uncounted_iterate reached round
        _ = m.uncounted := back
    · rw [made_add, events, made_of_uncounted reached, List.replicate_succ', List.flatten_concat]

theorem WalkMakes.head {n : Node} (found : d.node? d.start = some n) {events : List Event}
    (walk : WalkMakes d t events) : events.head? = some (.notice (.entered d.start)) := by
  obtain ⟨k, returns, _, rfl⟩ := walk
  have takes : (fresh d).onward d t = (fresh d).goto (.enter n) := by
    simp [onward, demand, fresh, step, goto, found]
  have event : ((fresh d).goto (.enter n)).event? = some (.notice (.entered d.start)) := by
    rw [← Document.id_of_node? found]
    rfl
  rcases k with _ | _ | k
  · cases returns.1
  · rw [Function.iterate_one, takes] at returns
    cases returns.1
  · rw [made, made, takes, event]
    rfl

section
variable (valid : d.Valid) {n : Node} (found : d.node? d.start = some n)
include valid found

/-- After its walk and its pause a macro that starts again is where it was. -/
theorem comes_round {events : List Event} (walk : WalkMakes d t events) :
    ∃ round, 0 < round ∧
      ((onward d t)^[round] (fresh d).repeating).uncounted = (fresh d).repeating ∧
      made d t round (fresh d).repeating = events ++ t.sleeps t.pause := by
  obtain ⟨k, ⟨back, frames⟩, under, rfl⟩ := walk
  have fits : (fresh d).Fits d := ⟨trivial, rfl⟩
  obtain ⟨walked, events⟩ := iterate_repeating valid fits rfl under
  generalize (onward d t)^[k] (fresh d) = ended at back frames walked
  let pausing := ended.repeating.goto (.wait n t.pause .repetition)
  have silent : ended.repeating.event? = none := by
    simp [event?, demand, repeating, back]
  have pauses : ended.repeating.onward d t = pausing := by
    simp [onward, demand, repeating, back, frames, step, returned, found, pausing]
  obtain ⟨j, again, slept⟩ := waits (d := d) t.pause (show pausing.point = _ from rfl)
  refine ⟨j + 1 + k, by omega, ?_, ?_⟩
  · have reached : (onward d t)^[j + 1 + k] (fresh d).repeating =
        pausing.goto (.arrive d.start) := by
      rw [Function.iterate_add_apply, walked, Function.iterate_succ_apply, pauses, again]
      rfl
    have still := (show (fresh d).repeating.Fits d from ⟨trivial, rfl⟩).iterate_onward valid
      (t := t) (j + 1 + k)
    rw [reached] at still ⊢
    have outputs : ended.outputs = [] := by
      have held := still.outputs
      rw [held_eq (by simp [goto])] at held
      rw [show ended.outputs = published ended.stack from held, frames]
      rfl
    simp [pausing, goto, repeating, uncounted, fresh, frames, outputs]
  · rw [show j + 1 + k = k + (1 + j) by omega, made_add, made_add, walked, events, made_one,
      Function.iterate_one, pauses, slept, silent, Option.toList_none, List.nil_append]

end

theorem opens_repeating {n : Node} (found : d.node? d.start = some n)
    (again : Evaluation.boolean d [] n "Loop Continuously" false = true) (k : Nat) :
    (onward d t)^[3 + k] {} = (onward d t)^[k] (fresh d).repeating ∧
      made d t (3 + k) {} = .notice .cleared :: made d t k (fresh d).repeating := by
  have same : n.id = d.start := Document.id_of_node? found
  have opened : (onward d t)^[3] {} = (fresh d).repeating := by
    simp [onward, demand, step, notified, goto, found, again, same, fresh, repeating]
  have cleared : made d t 3 {} = [.notice .cleared] := by
    simp [made, event?, onward, demand, step, notified, goto]
  refine ⟨?_, ?_⟩
  · rw [Nat.add_comm, Function.iterate_add_apply, opened]
  · rw [made_add, cleared, opened, List.singleton_append]

end Machine

/-- The run is not completed, and where it is about to be over its flag is down. -/
def Point.Endless (running : Bool) : Point → Prop
  | .finish none | .report none => running = false
  | .ended result => result ≠ .ok .completed
  | _ => True

theorem Point.Endless.down {running : Bool} {p : Point} (endless : p.Endless running) :
    p.Endless false := by
  unfold Endless at endless ⊢
  split
  · rfl
  · rfl
  · exact endless
  · trivial

theorem Point.endless_of_going {running : Bool} {p : Point} (going : p.isFinished = false) :
    p.Endless running := by
  cases p with
  | finish | report | ended => cases going
  | _ => trivial

namespace Machine
variable {running : Bool} {m after : Machine} {notes : List Note}

theorem endless_notified {n : Notice} (demand : m.demand = .notify n)
    (endless : m.point.Endless running) : m.notified.1.point.Endless running := by
  rcases notified_cases demand with ⟨_, _, goes⟩ | ⟨l, _, _, goes⟩ | ⟨fault, here, _, goes⟩ <;>
    rw [goes]
  · trivial
  · trivial
  · rw [here] at endless
    cases fault with
    | none => exact endless
    | some fault => trivial

theorem Fits.endless_answered (fits : m.Fits d) {a : Action} (answer : Except ActionError Unit)
    (demand : m.demand = .act a) : (m.answered answer).point.Endless running := by
  cases answer with
  | ok _ =>
    rcases fits.answered_ok demand with ⟨n, pin, goes⟩ | ⟨n, remaining, pause, goes⟩ <;>
      · rw [goes]
        trivial
  | error cause =>
    obtain ⟨n, next, here⟩ := request_of_demand demand
    unfold Machine.answered
    rw [here]
    trivial

section
variable (valid : d.Valid)
include valid

section
variable (again : ∀ n, d.node? d.start = some n →
  Evaluation.boolean d [] n "Loop Continuously" false = true)
include again

theorem Moves.settles (moves : Moves d t running m after notes) (fits : m.Fits d)
    (opening : m.point.isOpening = true) :
    after.point.isOpening = true ∨ after.repeats = true := by
  cases moves with
  | begins here => exact .inl rfl
  | unrooted here missing =>
    obtain ⟨n, found, _⟩ := valid.exists_start
    cases missing.symm.trans found
  | roots n here found =>
    have point := fits.point
    have outputs := fits.outputs
    rw [here] at point
    rw [held_eq (by simp [here]), show m.stack = [] from point] at outputs
    right
    simp only [outputs]
    exact again n found
  | _ => simp_all [Point.isOpening]

theorem Goes.settles (goes : Goes d t m after) (fits : m.Fits d)
    (settled : m.point.isOpening = true ∨ m.repeats = true) :
    after.point.isOpening = true ∨ after.repeats = true := by
  cases opening : m.point.isOpening with
  | false =>
    obtain ⟨_, same⟩ := goes.repeats fits opening
    rw [opening] at settled
    exact .inr (same.trans (settled.resolve_left Bool.false_ne_true))
  | true =>
    cases goes with
    | moves moves => exact moves.settles valid again fits opening
    | notified demand =>
      rcases notified_cases demand with ⟨_, _, goes⟩ | ⟨n, here, _⟩ | ⟨fault, here, _⟩
      · rw [goes]
        exact .inl rfl
      · rw [here] at opening
        cases opening
      · rw [here] at opening
        cases opening
    | answered answer demand =>
      obtain ⟨n, next, here⟩ := request_of_demand demand
      rw [here] at opening
      cases opening
    | stays => exact .inl opening

end

/-- The flag is down where the outermost walk of a macro that starts again is left for good. -/
theorem Moves.endless (moves : Moves d t running m after notes)
    (settled : m.point.isOpening = true ∨ m.repeats = true)
    (endless : m.point.Endless running) : after.point.Endless running := by
  cases moves with
  | unrooted here missing =>
    obtain ⟨n, found, _⟩ := valid.exists_start
    cases missing.symm.trans found
  | finishes here empty halted =>
    rw [here] at settled
    rcases halted with once | down | missing
    · rcases settled with opening | again
      · cases opening
      · cases again.symm.trans once
    · exact down
    · obtain ⟨n, found, _⟩ := valid.exists_start
      cases missing.symm.trans found
  | ends fault here =>
    rw [here] at endless
    cases fault with
    | none =>
      rw [show running = false from endless]
      exact nofun
    | some fault => exact nofun
  | executes n here up =>
    rw [(executed_eq d m n).1]
    exact Point.endless_of_going (executes_execution d m.outputs n).isFinished
  | wakes n remaining pause here halted => cases pause <;> trivial
  | _ => trivial

section
variable (again : ∀ n, d.node? d.start = some n →
  Evaluation.boolean d [] n "Loop Continuously" false = true)
include again

/-- Nothing completes a macro that starts again. -/
theorem invariant_endless : Invariant d t fun running m =>
    m.Fits d ∧ (m.point.isOpening = true ∨ m.repeats = true) ∧ m.point.Endless running where
  down := fun ⟨fits, settled, endless⟩ => ⟨fits, settled, endless.down⟩
  moves := fun moves ⟨fits, settled, endless⟩ => ⟨moves.fits valid fits,
    (Goes.moves moves).settles valid again fits settled, moves.endless valid settled endless⟩
  notified := fun demand ⟨fits, settled, endless⟩ => ⟨fits.notified demand,
    (Goes.notified (d := d) (t := t) demand).settles valid again fits settled,
    endless_notified demand endless⟩
  answered := fun answer demand ⟨fits, settled, _⟩ => ⟨fits.answered answer demand,
    (Goes.answered (d := d) (t := t) answer demand).settles valid again fits settled,
    fits.endless_answered answer demand⟩

theorem going_iterate (k : Nat) : ((onward d t)^[k] {}).point.isFinished = false := by
  induction k with
  | zero => rfl
  | succ k ih =>
    have kept := (invariant_endless (t := t) valid again).iterate_onward (m := {})
      ⟨⟨rfl, rfl⟩, .inl rfl, trivial⟩
    obtain ⟨-, -, endless⟩ := kept (k + 1)
    have fits := (kept k).1
    rw [Function.iterate_succ_apply'] at endless ⊢
    rcases fits.onward_isFinished (t := t) ih with going | ⟨done, _⟩
    · exact going
    · rw [done] at endless
      cases endless

end

end

end Machine

theorem Worker.point_of_result? {w : Worker} {result : RunResult} (ended : w.result? = some result) :
    w.machine.point = .ended result := by
  unfold Worker.result? at ended
  cases crashed : w.crashed with
  | true => simp [crashed] at ended
  | false =>
    unfold Machine.demand at ended
    cases here : w.machine.point with
    | ended other => simpa [crashed, here] using ended
    | _ => simp [crashed, here] at ended

/-- A macro that starts again makes the events of its first walk and the sleeps of its pause, and
these again and again, as long as the world leaves its flag up and does as it is asked. When its walk
comes to no end it makes the events of that walk alone. Whatever the world does and whenever the flag
is lowered, it never completes. -/
theorem continuous_run_repeats {σ : Type} (host : Host σ) (valid : d.Valid) {n : Node}
    (found : d.node? d.start = some n)
    (again : Evaluation.boolean d [] n "Loop Continuously" false = true)
    (t : Timing) (level : Option Log.Level) (world : σ) :
    let run := fun k => (Run.begin d t level true world).steps host k
    let repetitions := fun events k =>
      Event.notice .cleared :: (List.replicate k (events ++ t.sleeps t.pause)).flatten
    ((∀ k, ¬ (run k).Disturbed host) →
      (∀ events, Machine.WalkMakes d t events →
        events.head? = some (.notice (.entered d.start)) ∧
        (∀ k, (run k).Undisturbed ∧ (run k).events.toList <+: repetitions events k) ∧
        ∃ round, 0 < round ∧ ∀ k, (run (3 + k * round)).events.toList = repetitions events k ∧
          (run (3 + k * round)).worker.machine.uncounted = (Machine.fresh d).repeating) ∧
      ((∀ k, ¬ ((Machine.onward d t)^[k] (Machine.fresh d)).Returns []) →
        ∀ k, (run k).Undisturbed ∧ (run (3 + k)).events.toList =
          .notice .cleared :: Machine.made d t k (Machine.fresh d))) ∧
    ∀ running lowers k, ((Run.begin d t level running world).interrupted host lowers k).worker.result?
      ≠ some (.ok .completed) := by
  intro run repetitions
  have settled : ∀ l, d.node? d.start = some l →
      Evaluation.boolean d [] l "Loop Continuously" false = true := by
    intro l same
    cases found.symm.trans same
    exact again
  refine ⟨?undisturbed, ?never⟩
  case undisturbed =>
    intro calm
    have alone := (Run.fits_begin d t level true world).undisturbed_of_going host valid
      ⟨rfl, rfl, rfl⟩ calm (Machine.going_iterate valid settled)
    have made : ∀ k, (run k).events.toList = Machine.made d t k {} := fun k => (alone k).2.2
    have opens := Machine.opens_repeating (t := t) found again
    refine ⟨?ends, ?goes⟩
    case ends =>
      intro events walk
      obtain ⟨round, pos, back, once⟩ := Machine.comes_round valid found walk
      have rounds : ∀ k, (run (3 + k * round)).events.toList = repetitions events k := by
        intro k
        rw [made, (opens _).2, (Machine.made_rounds back k).2, once]
      refine ⟨walk.head found, fun k => ⟨(alone k).1, ?_⟩, round, pos, fun k => ⟨rounds k, ?_⟩⟩
      · have le : k ≤ 3 + k * round := by
          have := Nat.le_mul_of_pos_right k pos
          omega
        rw [← rounds k, made, made]
        exact Machine.made_prefix le {}
      · rw [(alone _).2.1]
        exact (congrArg Machine.uncounted (opens _).1).trans (Machine.made_rounds back k).1
    case goes =>
      intro under k
      have begins : (Machine.fresh d).Fits d := ⟨trivial, rfl⟩
      obtain ⟨_, same⟩ := Machine.iterate_repeating valid begins rfl fun j (_ : j < k) => under j
      rw [← same, made]
      exact ⟨(alone k).1, (opens k).2⟩
  case never =>
    intro running lowers k completed
    obtain ⟨_, _, endless⟩ := Run.invariant_interrupted (r := Run.begin d t level running world)
      rfl rfl (Machine.invariant_endless valid settled) host lowers
      ⟨⟨rfl, rfl⟩, .inl rfl, trivial⟩ k
    have here := Worker.point_of_result? completed
    rw [here] at endless
    exact endless rfl

def nudging : Document where
  serial := 0
  nodes := [⟨"s", .start, [("Loop Continuously", .bool true)]⟩, ⟨"m", .mouseMove, []⟩,
    ⟨"l", .loop, [("Iterations", .number (.ofNat 2))]⟩, ⟨"k", .mouseMove, []⟩]
  connections := [⟨"s", Pin.exec, "m", Pin.exec, .exec⟩, ⟨"m", Pin.exec, "l", Pin.exec, .exec⟩,
    ⟨"l", Pin.loopBody, "k", Pin.exec, .exec⟩, ⟨"l", Pin.index, "m", "X", .data⟩,
    ⟨"l", Pin.index, "k", "X", .data⟩]
  start := "s"
  index := {
    exec := [(("s", Pin.exec), "m"), (("m", Pin.exec), "l"), (("l", Pin.loopBody), "k")]
    data := [(("m", "X"), ("l", Pin.index)), (("k", "X"), ("l", Pin.index))] }

/-- The second repetition moves as the first one did, though an index was published in between. A
run whose flag is lowered within its first pause is stopped. -/
theorem nudging_repeats :
    let t : Timing := { repeatPause := 250 }
    let run := Run.begin nudging t none true ()
    let enter := fun id => Event.notice (.entered id)
    let move := fun x => Event.action (.move x 0 Machine.quarter)
    let walk := [enter "s", enter "m", move 0, enter "l", enter "k", move 0, enter "k", move 1]
    let pause := [100, 100, 50].map fun ms =>
      Event.action (.sleep (Duration.ofMilliseconds ms).toSeconds)
    nudging.Valid ∧ Machine.WalkMakes nudging t walk ∧ t.sleeps t.pause = pause ∧
      (∃ round, 0 < round ∧ (run.steps willing (3 + 2 * round)).events.toList =
        .notice .cleared :: (walk ++ pause ++ (walk ++ pause))) ∧
      (run.interrupted willing (fun k => k == 34) 34).worker.machine.point =
        .wait ⟨"s", .start, [("Loop Continuously", .bool true)]⟩ (.ofMilliseconds 150) .repetition ∧
      (run.interrupted willing (fun k => k == 34) 40).worker.result? = some (.ok .stopped) := by
  intro t run enter move walk pause
  have valid : nudging.Valid := rfl
  have walks : Machine.WalkMakes nudging t walk :=
    ⟨28, by decide +kernel, by decide +kernel, by decide +kernel⟩
  have slept : t.sleeps t.pause = pause := by decide +kernel
  obtain ⟨undisturbed, -⟩ := continuous_run_repeats willing valid rfl (by decide +kernel) t none ()
  obtain ⟨repeats, -⟩ := undisturbed (by
    rintro n (⟨e, _, lowers⟩ | ⟨a, _, undone⟩)
    · cases lowers
    · exact undone rfl)
  obtain ⟨-, -, round, pos, rounds⟩ := repeats walk walks
  refine ⟨valid, walks, slept, ⟨round, pos, ?_⟩, by decide +kernel, by decide +kernel⟩
  have twice := (rounds 2).1
  rwa [slept] at twice

end MacroGraph.Engine
