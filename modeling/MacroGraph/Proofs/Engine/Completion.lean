import Mathlib.Data.Fintype.EquivFin
import MacroGraph.Proofs.Document.Beside
import MacroGraph.Proofs.Engine.Halting
import MacroGraph.Proofs.Engine.Waiting

/-!
Macros that come to their end. Where exec connections lead in no circle, nothing repeats but bounded
loops, and every walk ends: `acyclic_runs_complete`.
-/
namespace MacroGraph

/-- Where no id that is led to leads back to itself, what follows for an id from all that it leads to
holds of them all. -/
theorem leads_induction {connections : List Connection} {root : String}
    (acyclic : ∀ id, Relation.ReflTransGen (Leads connections) root id →
      ¬ Relation.TransGen (Leads connections) id id)
    {P : String → Prop}
    (step : ∀ id, Relation.ReflTransGen (Leads connections) root id →
      (∀ next, Leads connections id next → P next) → P id)
    {id : String} (led : Relation.ReflTransGen (Leads connections) root id) : P id := by
  let Led := {id // Relation.ReflTransGen (Leads connections) root id}
  let Before : Led → Led → Prop := fun a b => Relation.TransGen (Leads connections) b.1 a.1
  have listed : ∀ a : Led, a.1 ∈ root :: connections.map Connection.target := by
    rintro ⟨a, path⟩
    rcases Relation.ReflTransGen.cases_tail path with rfl | ⟨_, _, c, mem, _, _, rfl⟩
    · exact List.mem_cons_self
    · exact List.mem_cons_of_mem _ (List.mem_map_of_mem mem)
  have finite : Finite Led :=
    .of_injective (fun a => (⟨a.1, listed a⟩ : {id // id ∈ root :: connections.map Connection.target}))
      fun a b same => Subtype.ext (congrArg (fun x => x.1) same)
  have trans : IsTrans Led Before := ⟨fun _ _ _ first second => second.trans first⟩
  have irrefl : Std.Irrefl Before := ⟨fun a around => acyclic a.1 a.2 around⟩
  have wellFounded : WellFounded Before := Finite.wellFounded_of_trans_of_irrefl Before
  exact wellFounded.induction (C := fun a => P a.1) ⟨id, led⟩ fun a ih =>
    step a.1 a.2 fun next leads => ih ⟨next, a.2.tail leads⟩ (.single leads)

/-- Exec connections lead from no id of an ordered list back to it when they lead onward in it. -/
theorem acyclic_of_ordered {connections : List Connection} {names : List String}
    (ordered : ∀ c ∈ connections, c.flow = .exec → c.source ∈ names →
      names.idxOf c.source < names.idxOf c.target ∧ c.target ∈ names)
    {root : String} (here : root ∈ names) {id : String}
    (led : Relation.ReflTransGen (Leads connections) root id) :
    id ∈ names ∧ ¬ Relation.TransGen (Leads connections) id id := by
  let Earlier : String → String → Prop := fun a b => names.idxOf a < names.idxOf b
  have onward : ∀ a b, a ∈ names → Leads connections a b → Earlier a b ∧ b ∈ names := by
    rintro a b named ⟨c, mem, exec, rfl, rfl⟩
    exact ordered c mem exec named
  obtain ⟨_, named⟩ := reflTransGen_of_closed onward here led
  have trans : IsTrans String Earlier := ⟨fun _ _ _ first second => Nat.lt_trans first second⟩
  refine ⟨named, fun around => ?_⟩
  obtain ⟨path, _⟩ := transGen_of_closed onward named around
  rw [Relation.transGen_eq_self] at path
  exact Nat.lt_irrefl _ path

namespace Engine
variable {d : Document} {t : Timing}

namespace Machine

/-- From wherever one thing holds, steps under a raised flag lead to where the other does. -/
def Reaches (d : Document) (t : Timing) (P Q : Machine → Prop) : Prop :=
  ∀ m, P m → ∃ k, Q ((onward d t)^[k] m)

namespace Reaches
variable {P Q R : Machine → Prop}

theorem step (goes : ∀ m, P m → Q (m.onward d t)) : Reaches d t P Q :=
  fun m here => ⟨1, goes m here⟩

theorem trans (first : Reaches d t P Q) (second : Reaches d t Q R) : Reaches d t P R := by
  intro m here
  obtain ⟨k, there⟩ := first m here
  obtain ⟨l, done⟩ := second _ there
  exact ⟨l + k, by rwa [Function.iterate_add_apply]⟩

end Reaches

/-- A machine that starts its macro only once stands at a point above these frames. -/
structure At (p : Point) (stack : List Frame) (m : Machine) : Prop where
  point : m.point = p
  stack : m.stack = stack
  once : m.repeats = false

section
variable {n : Node} {stack : List Frame}

theorem reaches_goto {p q : Point} (goes : ∀ m : Machine, m.point = p → m.onward d t = m.goto q) :
    Reaches d t (At p stack) (At q stack) := by
  apply Reaches.step
  intro m here
  rw [goes m here.point]
  exact ⟨rfl, here.stack, here.once⟩

theorem reaches_execute (found : d.node? n.id = some n) :
    Reaches d t (At (.arrive n.id) stack) (At (.execute n) stack) := by
  have enters : Reaches d t (At (.arrive n.id) stack) (At (.enter n) stack) :=
    reaches_goto fun m here => by simp [onward, demand, here, Machine.step, found]
  refine enters.trans (.step fun m here => ?_)
  have next : m.onward d t = { m with point := .execute n, entered := m.entered + 1 } := by
    simp [onward, demand, here.point, notified]
  rw [next]
  exact ⟨rfl, here.stack, here.once⟩

theorem reaches_waited (remaining : Duration) :
    Reaches d t (At (.wait n remaining .delay) stack) (At (.leave n (some Pin.exec)) stack) := by
  intro m here
  obtain ⟨k, done, _⟩ := waits (d := d) (t := t) remaining here.point
  refine ⟨k, ?_⟩
  rw [done]
  exact ⟨rfl, here.stack, here.once⟩

theorem reaches_executed (bounded : n.kind ≠ .whileLoop) :
    Reaches d t (At (.execute n) stack) fun m =>
      (∃ pin, m.At (.leave n pin) stack) ∨ ∃ total, m.At (.iterate n 0 total) stack := by
  intro m here
  have next : m.onward d t = (m.executed d n).1 := by
    simp [onward, demand, here.point, Machine.step]
  have once : (m.executed d n).1.repeats = false := by
    unfold executed
    by_cases loop : n.kind = .loop <;> simp [loop, withdrawn, goto, here.once]
  obtain ⟨point, frames, _⟩ := executed_eq d m n
  have executed : (m.onward d t).At (execution d m.outputs n).point stack := by
    rw [next]
    exact ⟨point, frames.trans here.stack, once⟩
  have executes := executes_execution d m.outputs n
  revert executed executes
  generalize (execution d m.outputs n).point = p
  intro executed executes
  cases executes with
  | fires pin => exact ⟨1, .inl ⟨pin, executed⟩⟩
  | waits remaining kind =>
    obtain ⟨k, left⟩ := reaches_waited remaining _ executed
    exact ⟨k + 1, .inl ⟨_, left⟩⟩
  | requests a =>
    have done : Reaches d t (At (.request n a (.leave n (some Pin.exec))) stack)
        (At (.leave n (some Pin.exec)) stack) :=
      reaches_goto fun m here => by simp [onward, demand, here, answered]
    obtain ⟨k, left⟩ := done _ executed
    exact ⟨k + 1, .inl ⟨_, left⟩⟩
  | loops total kind => exact ⟨1, .inr ⟨total, executed⟩⟩
  | checks kind => exact absurd kind bounded

theorem onward_iterate {m : Machine} {next total : Nat} (here : m.point = .iterate n next total)
    (more : next < total) : m.onward d t =
      body d { m with outputs := m.outputs.publish n.id Pin.index (.number (.ofNat next)) }
        (.loop n (next + 1) total) (.iterate n (next + 1) total) := by
  simp [onward, demand, here, Machine.step, iterated, more]

/-- A walk from here ends above whatever frames it began. -/
def WalkEnds (d : Document) (t : Timing) (id : String) : Prop :=
  ∀ stack, Reaches d t (At (.arrive id) stack) (At .walked stack)

section
variable (walks : ∀ pin next, d.nextExec n.id pin = some next → WalkEnds d t next)
include walks

theorem reaches_left (pin : Option String) :
    Reaches d t (At (.leave n pin) stack) (At .walked stack) := by
  cases next : pin.bind (d.nextExec n.id) with
  | none => exact reaches_goto fun m here => by simp [onward, demand, here, Machine.step, next]
  | some id =>
    obtain ⟨name, _, found⟩ := Option.bind_eq_some_iff.1 next
    have follows : Reaches d t (At (.leave n pin) stack) (At (.arrive id) stack) :=
      reaches_goto fun m here => by simp [onward, demand, here, Machine.step, next]
    exact follows.trans (walks name id found stack)

theorem reaches_iterated {next total : Nat} (more : next < total) :
    Reaches d t (At (.iterate n next total) stack) (At (.iterate n (next + 1) total) stack) := by
  cases found : d.nextExec n.id Pin.loopBody with
  | none =>
    apply Reaches.step
    intro m here
    rw [onward_iterate here.point more, body, Frame.node, found]
    exact ⟨rfl, here.stack, here.once⟩
  | some id =>
    have begins : Reaches d t (At (.iterate n next total) stack)
        (At (.arrive id) (.loop n (next + 1) total :: stack)) := by
      apply Reaches.step
      intro m here
      rw [onward_iterate here.point more, body, Frame.node, found]
      exact ⟨rfl, congrArg _ here.stack, here.once⟩
    have resumes : Reaches d t (At .walked (.loop n (next + 1) total :: stack))
        (At (.iterate n (next + 1) total) stack) := by
      apply Reaches.step
      intro m here
      simp only [onward, demand, here.point, Machine.step, returned, here.stack]
      exact ⟨rfl, rfl, here.once⟩
    exact (begins.trans (walks Pin.loopBody id found _)).trans resumes

theorem reaches_completed (next total : Nat) :
    Reaches d t (At (.iterate n next total) stack) (At (.leave n (some Pin.completed)) stack) := by
  by_cases more : next < total
  · exact (reaches_iterated walks more).trans (reaches_completed (next + 1) total)
  · apply Reaches.step
    intro m here
    simp only [onward, demand, here.point, Machine.step, iterated, more, decide_false,
      Bool.false_and, Bool.false_eq_true, if_false]
    exact ⟨rfl, here.stack, here.once⟩
termination_by total - next

theorem walkEnds_of_next (found : d.node? n.id = some n) (bounded : n.kind ≠ .whileLoop) :
    WalkEnds d t n.id := by
  intro stack
  refine (reaches_execute found).trans ((reaches_executed bounded).trans ?_)
  rintro m (⟨pin, left⟩ | ⟨total, begins⟩)
  · exact reaches_left walks pin m left
  · exact (reaches_completed walks 0 total).trans (reaches_left walks _) m begins

end

end

theorem walkEnds_of_missing {id : String} (missing : d.node? id = none) : WalkEnds d t id := by
  intro stack
  exact reaches_goto fun m here => by simp [onward, demand, here, Machine.step, missing]

section
variable (valid : d.Valid)
  (acyclic : ∀ id, Relation.ReflTransGen (Leads d.connections) d.start id →
    ¬ Relation.TransGen (Leads d.connections) id id)
  (bounded : ∀ n ∈ d.nodes, n.kind = .whileLoop →
    ¬ Relation.ReflTransGen (Leads d.connections) d.start n.id)
include valid acyclic bounded

theorem walkEnds_of_led {id : String}
    (led : Relation.ReflTransGen (Leads d.connections) d.start id) : WalkEnds d t id := by
  refine leads_induction acyclic ?_ led
  intro id led ends
  cases found : d.node? id with
  | none => exact walkEnds_of_missing found
  | some n =>
    obtain ⟨mem, rfl⟩ := valid.node?_eq_some_iff.1 found
    exact walkEnds_of_next (fun pin next leads => ends next (valid.leads leads)) found
      fun kind => bounded n mem kind led

theorem reaches_finish
    (once : ∀ n, d.node? d.start = some n →
      Evaluation.boolean d [] n "Loop Continuously" false = false) :
    ∃ k, ((onward d t)^[k] {}).point = .finish none := by
  obtain ⟨n, found, _⟩ := valid.exists_start
  have same := Document.id_of_node? found
  have arrives : (onward d t)^[3] {} = { point := .arrive d.start } := by
    simp [onward, demand, Machine.step, notified, goto, found, once n found, same]
  have walked := walkEnds_of_led (t := t) valid acyclic bounded .refl []
  have finishes : Reaches d t (At .walked []) (At (.finish none) []) := by
    apply Reaches.step
    intro m here
    simp only [onward, demand, here.point, Machine.step, returned, here.stack, here.once,
      Bool.false_and]
    exact ⟨rfl, here.stack, here.once⟩
  have stands : At (.arrive d.start) [] { point := .arrive d.start } := ⟨rfl, rfl, rfl⟩
  obtain ⟨k, done⟩ := (walked.trans finishes) _ stands
  exact ⟨k + 3, by rw [Function.iterate_add_apply, arrives]; exact done.point⟩

end

/-- Without a failure a machine that comes to finish does so at the end of its outermost walk. -/
theorem Fits.first_finish (valid : d.Valid) {m : Machine} (fits : m.Fits d)
    (going : m.point.isFinished = false) {n : Nat}
    (finishes : ((onward d t)^[n] m).point.isFinished = true) :
    ∃ k, ((onward d t)^[k] m).point = .finish none ∧
      ∀ j < k, ((onward d t)^[j] m).point.isFinished = false := by
  induction n generalizing m with
  | zero => cases going.symm.trans finishes
  | succ n ih =>
    rcases fits.onward_isFinished (t := t) going with more | ⟨done, _⟩
    · obtain ⟨k, done, before⟩ := ih ((goes_onward d t m).fits valid fits) more finishes
      refine ⟨k + 1, done, ?_⟩
      intro j lt
      cases j with
      | zero => exact going
      | succ j => exact before j (Nat.lt_of_succ_lt_succ lt)
    · refine ⟨1, done, ?_⟩
      intro j lt
      cases Nat.lt_one_iff.1 lt
      exact going

end Machine

namespace Run
variable {σ : Type} {host : Host σ} {r : Run σ}

theorem Fits.undisturbed_until (host : Host σ) (valid : d.Valid) (fits : r.Fits d t)
    (begins : r.Undisturbed) {k : Nat}
    (calm : ∀ j < k, ¬ (r.steps host j).Disturbed host)
    (going : ∀ j < k, ((Machine.onward d t)^[j] r.worker.machine).point.isFinished = false) :
    (r.steps host k).Undisturbed := by
  induction k with
  | zero => exact begins
  | succ k ih =>
    have before := ih (fun j lt => calm j (by omega)) fun j lt => going j (by omega)
    obtain ⟨_, machine⟩ := machine_steps fits.document fits.timing before
    rw [steps_succ_last before.alive]
    refine (before.step host (fits.steps host valid k) ?_).resolve_right (calm k (Nat.lt_succ_self k))
    rw [machine]
    exact going k (Nat.lt_succ_self k)

/-- A run that the world leaves alone goes on for ever when its machine alone would. -/
theorem Fits.undisturbed_of_going (host : Host σ) (valid : d.Valid) (fits : r.Fits d t)
    (begins : r.Undisturbed) (calm : ∀ n, ¬ (r.steps host n).Disturbed host)
    (going : ∀ j, ((Machine.onward d t)^[j] r.worker.machine).point.isFinished = false) (k : Nat) :
    (r.steps host k).Undisturbed ∧
      (r.steps host k).worker.machine = (Machine.onward d t)^[k] r.worker.machine ∧
      (r.steps host k).events.toList = r.events.toList ++ Machine.made d t k r.worker.machine := by
  have still := fits.undisturbed_until host valid begins (fun j _ => calm j)
    fun j (_ : j < k) => going j
  exact ⟨still, (machine_steps fits.document fits.timing still).2,
    events_steps_undisturbed fits.document fits.timing still⟩

/-- A run that the world leaves alone completes when its machine comes to finish. -/
theorem Fits.completes (valid : d.Valid) (fits : r.Fits d t) (begins : r.Undisturbed)
    (going : r.worker.machine.point.isFinished = false)
    (calm : ∀ n, ¬ (r.steps host n).Disturbed host) {n : Nat}
    (finishes : ((Machine.onward d t)^[n] r.worker.machine).point.isFinished = true) :
    ∃ events, r.EndsWith host events (.ok .completed) := by
  obtain ⟨k, done, before⟩ := fits.machine.first_finish valid going finishes
  have still := fits.undisturbed_until host valid begins (fun j _ => calm j) before
  obtain ⟨_, machine⟩ := machine_steps fits.document fits.timing still
  have finish : (r.steps host k).worker.machine.point = .finish none := by
    rw [machine]
    exact done
  have event : (r.steps host k).event? = some (.notice .cleared) := by
    simp [event?, Machine.demand, finish]
  have ends := finish_ends host (intact_of_isAlive still.alive) finish
  rw [still.up, not_lowers_of_calm event (calm k)] at ends
  exact ⟨_, ends.of_steps⟩

end Run

/-- A run completes when no exec connections lead in a circle from its start, no while loop is led to,
and the start is not repeated, as long as the world leaves its flag up and does as it is asked. -/
theorem acyclic_runs_complete {σ : Type} (host : Host σ) (valid : d.Valid)
    (acyclic : ∀ id, Relation.ReflTransGen (Leads d.connections) d.start id →
      ¬ Relation.TransGen (Leads d.connections) id id)
    (bounded : ∀ n ∈ d.nodes, n.kind = .whileLoop →
      ¬ Relation.ReflTransGen (Leads d.connections) d.start n.id)
    (once : ∀ n, d.node? d.start = some n →
      Evaluation.boolean d [] n "Loop Continuously" false = false)
    (t : Timing) (level : Option Log.Level) (world : σ)
    (calm : ∀ n, ¬ ((Run.begin d t level true world).steps host n).Disturbed host) :
    ∃ events, (Run.begin d t level true world).EndsWith host events (.ok .completed) := by
  obtain ⟨k, done⟩ := Machine.reaches_finish (t := t) valid acyclic bounded once
  have fits := Run.fits_begin d t level true world
  exact fits.completes valid ⟨rfl, rfl, rfl⟩ rfl calm (congrArg Point.isFinished done)

/-- A loop whose index is the number of iterations of a loop in its body, and a delay in that one.
Beside them stand a while loop that would never complete, and two clicks that lead to each other. -/
def growing : Document where
  serial := 0
  nodes := [⟨"s", .start, []⟩, ⟨"a", .loop, [("Iterations", .number (.ofNat 3))]⟩,
    ⟨"b", .loop, []⟩, ⟨"c", .delay, [("Duration", .text "0.05")]⟩,
    ⟨"w", .whileLoop, [("Condition", .bool true)]⟩, ⟨"y", .mouseClick, []⟩, ⟨"z", .mouseClick, []⟩]
  connections := [⟨"s", Pin.exec, "a", Pin.exec, .exec⟩, ⟨"a", Pin.loopBody, "b", Pin.exec, .exec⟩,
    ⟨"a", Pin.index, "b", "Iterations", .data⟩, ⟨"b", Pin.loopBody, "c", Pin.exec, .exec⟩,
    ⟨"w", Pin.loopBody, "y", Pin.exec, .exec⟩, ⟨"y", Pin.exec, "z", Pin.exec, .exec⟩,
    ⟨"z", Pin.exec, "y", Pin.exec, .exec⟩]
  start := "s"
  index := {
    exec := [(("s", Pin.exec), "a"), (("a", Pin.loopBody), "b"), (("b", Pin.loopBody), "c"),
      (("w", Pin.loopBody), "y"), (("y", Pin.exec), "z"), (("z", Pin.exec), "y")]
    data := [(("b", "Iterations"), ("a", Pin.index))] }

/-- The loop and all that it grows come to their end, whatever stands beside them. -/
theorem growing_completes :
    growing.Valid ∧ ∃ events, (Run.begin growing {} none true ()).EndsWith willing events
      (.ok .completed) := by
  have valid : growing.Valid := rfl
  have ordered : ∀ id, Relation.ReflTransGen (Leads growing.connections) growing.start id →
      id ∈ ["s", "a", "b", "c"] ∧ ¬ Relation.TransGen (Leads growing.connections) id id :=
    fun id led => acyclic_of_ordered (by decide) (by decide) led
  refine ⟨valid, acyclic_runs_complete willing valid (fun id led => (ordered id led).2) ?bounded
    ?once {} none () ?calm⟩
  case bounded =>
    intro n mem kind led
    have apart : ∀ n ∈ growing.nodes, n.kind = .whileLoop → n.id ∉ ["s", "a", "b", "c"] := by decide
    exact apart n mem kind (ordered n.id led).1
  case once =>
    rintro n ⟨⟩
    decide +kernel
  case calm =>
    rintro n (⟨e, _, lowers⟩ | ⟨a, _, undone⟩)
    · cases lowers
    · exact undone rfl

end Engine
end MacroGraph
