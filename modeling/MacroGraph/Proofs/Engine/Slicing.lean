import MacroGraph.Proofs.Engine.Cancellation
import MacroGraph.Proofs.Engine.Failing
import MacroGraph.Proofs.Engine.Waiting

/-!
Waits slice by slice. Every wait asks for its slices one after the other until all of it has passed,
the flag is lowered or a sleep fails: `waits_are_sliced`.
-/
namespace MacroGraph.Engine
variable {σ : Type}

/-- The world after these events. -/
def Host.after (host : Host σ) (world : σ) (events : List Event) : σ :=
  events.foldl (fun world e => (host world e).world) world

/-- The world does as it is asked in these events, one after the other, and leaves the flag up. -/
def Host.Obliges (host : Host σ) : σ → List Event → Prop
  | _, [] => True
  | world, e :: rest => (host world e).lowers = false ∧ (host world e).reply = .done ∧
      host.Obliges (host world e).world rest

theorem Host.after_append (host : Host σ) (world : σ) (events more : List Event) :
    host.after world (events ++ more) = host.after (host.after world events) more :=
  List.foldl_append

theorem Host.obliges_append {host : Host σ} {world : σ} {events more : List Event} :
    host.Obliges world (events ++ more) ↔
      host.Obliges world events ∧ host.Obliges (host.after world events) more := by
  induction events generalizing world with
  | nil => simp [Obliges, after]
  | cons e rest ih =>
    simp only [List.cons_append, Obliges, ih, and_assoc]
    rfl

theorem willing_obliges (world : Unit) (events : List Event) : willing.Obliges world events := by
  induction events with
  | nil => trivial
  | cons e rest ih => exact ⟨rfl, rfl, ih⟩

/-- A wait of this length is ahead: a delay is to be executed, a macro that starts again has been
walked, or the wait has already begun. -/
inductive Machine.Awaits (d : Document) (t : Timing) (m : Machine) :
    Node → Duration → Pause → Prop where
  | delay (n : Node) (here : m.point = .execute n) (kind : n.kind = .delay) :
    Awaits d t m n
      (.ofSeconds (Duration.inSeconds (Evaluation.number d m.outputs n "Duration" .one)
        (n.option "Unit" "seconds"))) .delay
  | repetition (n : Node) (here : m.point = .walked) (outermost : m.stack = [])
    (again : m.repeats = true) (found : d.node? d.start = some n) :
    Awaits d t m n t.pause .repetition
  | begun (n : Node) (left : Duration) (pause : Pause) (here : m.point = .wait n left pause) :
    Awaits d t m n left pause

def Worker.goto (w : Worker) (p : Point) : Worker := { w with machine := w.machine.goto p }

theorem Worker.goto_self {w : Worker} {p : Point} (here : w.machine.point = p) : w.goto p = w := by
  cases here
  rfl

namespace Run
variable (host : Host σ) {r : Run σ} {n : Node} {span left : Duration} {pause : Pause}
  (intact : r.worker.crashed = false) (up : r.worker.running = true)
include intact up

theorem steps_goto {p : Point} (silent : r.worker.machine.demand = .nothing)
    (goes : (r.worker.machine.step r.worker.document r.worker.timing true).1 =
      r.worker.machine.goto p) (going : ∀ result, p ≠ .ended result) :
    (r.steps host 1).worker = r.worker.goto p ∧ (r.steps host 1).events = r.events ∧
      (r.steps host 1).world = r.world := by
  have alive : r.worker.isAlive = true := by simp [Worker.isAlive, intact, silent]
  rw [steps_succ alive, steps]
  exact ⟨step_worker_up silent up goes going, by simp [step, silent], by simp [step, silent]⟩

theorem steps_request {a : Action} {next : Point} (silent : r.worker.machine.demand = .nothing)
    (goes : (r.worker.machine.step r.worker.document r.worker.timing true).1 =
      r.worker.machine.goto (.request n a next)) :
    (r.steps host 2).worker = (r.worker.goto (.request n a next)).answered
        (host r.world (.action a)).lowers (host r.world (.action a)).reply ∧
      (r.steps host 2).events.toList = r.events.toList ++ [.action a] ∧
      (r.steps host 2).world = (host r.world (.action a)).world := by
  obtain ⟨asks, quiet, still⟩ := steps_goto host intact up silent goes (by simp)
  have demand : (r.steps host 1).worker.machine.demand = .act a := by
    rw [asks]
    rfl
  have alive : (r.steps host 1).worker.isAlive = true :=
    isAlive_of_not_ended (by rw [asks]; exact intact) (by simp [asks, Worker.goto, Machine.goto])
  rw [show 2 = 1 + 1 from rfl, steps_succ_last alive]
  refine ⟨?_, ?_, ?_⟩
  · rw [step_worker_act demand, asks, still]
  · rw [events_step, event?, demand, quiet]
    rfl
  · simp [step, demand, still]

theorem begins_wait
    (awaits : r.worker.machine.Awaits r.worker.document r.worker.timing n span pause) :
    ∃ k, (r.steps host k).worker = r.worker.goto (.wait n span pause) ∧
      (r.steps host k).events = r.events ∧ (r.steps host k).world = r.world := by
  cases awaits with
  | delay here kind =>
    refine ⟨1, steps_goto host intact up (by simp [Machine.demand, here]) ?_ (by simp)⟩
    simp [Machine.step, here, Machine.executed, Machine.execution, kind]
  | repetition here outermost again found =>
    refine ⟨1, steps_goto host intact up (by simp [Machine.demand, here]) ?_ (by simp)⟩
    simp [Machine.step, here, Machine.returned, outermost, again, found]
  | begun left pause here => exact ⟨0, (Worker.goto_self here).symm, rfl, rfl⟩

theorem leaves_wait (here : r.worker.machine.point = .wait n span pause)
    (none_left : r.worker.timing.slices span = []) :
    (r.steps host 1).worker = r.worker.goto (Machine.afterWait r.worker.document n pause) ∧
      (r.steps host 1).events = r.events := by
  have spent : span.nanoseconds = 0 := by
    rw [← r.worker.timing.sum_slices span, none_left]
    rfl
  obtain ⟨leaves, quiet, -⟩ := steps_goto host intact up (by simp [Machine.demand, here])
    (show (r.worker.machine.step _ _ true).1 =
      r.worker.machine.goto (Machine.afterWait r.worker.document n pause) by
      simp [Machine.step, here, Machine.waited, spent])
      (by cases pause <;> simp [Machine.afterWait])
  exact ⟨leaves, quiet⟩

/-- What is left of a wait begins with a sleep, and goes on as the world answers it. -/
theorem sleeps_once (here : r.worker.machine.point = .wait n span pause) {first : Duration}
    {rest : List Duration} (slices : r.worker.timing.slices span = first :: rest) :
    let e := Event.action (.sleep first.toSeconds)
    ∃ left, r.worker.timing.slices left = rest ∧
      (r.steps host 2).worker =
        (r.worker.goto (.request n (.sleep first.toSeconds) (.wait n left pause))).answered
          (host r.world e).lowers (host r.world e).reply ∧
      (r.steps host 2).events.toList = r.events.toList ++ [e] ∧
      (r.steps host 2).world = (host r.world e).world := by
  intro e
  obtain ⟨nanoseconds⟩ := span
  have more : nanoseconds ≠ 0 := by
    rintro rfl
    rw [Timing.slices_zero] at slices
    cases slices
  rw [Timing.slices_of_ne_zero _ more] at slices
  cases slices
  refine ⟨_, rfl, steps_request host intact up (by simp [Machine.demand, here]) ?_⟩
  simp [Machine.step, here, Machine.waited, more]

/-- After `k` steps a wait has asked for its first `j` slices, and this is left of it. -/
structure Slept (host : Host σ) (r : Run σ) (n : Node) (span : Duration) (pause : Pause)
    (j k : Nat) (left : Duration) : Prop where
  slices : r.worker.timing.slices left = (r.worker.timing.slices span).drop j
  worker : (r.steps host k).worker = r.worker.goto (.wait n left pause)
  events : (r.steps host k).events.toList =
    r.events.toList ++ (r.worker.timing.sleeps span).take j
  world : (r.steps host k).world = host.after r.world ((r.worker.timing.sleeps span).take j)

omit intact up in
theorem Slept.point {j k : Nat} (slept : r.Slept host n span pause j k left) :
    (r.steps host k).worker.machine.point = .wait n left pause := by
  rw [slept.worker]
  rfl

theorem Slept.next {j k : Nat} (slept : r.Slept host n span pause j k left) {e : Event}
    (more : (r.worker.timing.sleeps span)[j]? = some e) :
    let reaction := host (host.after r.world ((r.worker.timing.sleeps span).take j)) e
    ∃ a later, r.worker.timing.slices later = (r.worker.timing.slices span).drop (j + 1) ∧
      (r.steps host (k + 2)).worker =
        (r.worker.goto (.request n a (.wait n later pause))).answered reaction.lowers
          reaction.reply ∧
      (r.steps host (k + 2)).events.toList =
        r.events.toList ++ (r.worker.timing.sleeps span).take (j + 1) ∧
      (r.steps host (k + 2)).world = reaction.world := by
  obtain ⟨slice, found, rfl⟩ : ∃ slice, (r.worker.timing.slices span)[j]? = some slice ∧
      Event.action (.sleep slice.toSeconds) = e := by
    simpa [Timing.sleeps] using more
  obtain ⟨past, last⟩ := List.getElem?_eq_some_iff.1 found
  have timing : (r.steps host k).worker.timing = r.worker.timing := by
    rw [slept.worker]
    rfl
  have slices : (r.steps host k).worker.timing.slices left =
      slice :: (r.worker.timing.slices span).drop (j + 1) := by
    rw [timing, slept.slices, List.drop_eq_getElem_cons past, last]
  obtain ⟨later, rest, goes, made, world⟩ := sleeps_once host (r := r.steps host k)
    (by rw [slept.worker]; exact intact) (by rw [slept.worker]; exact up) slept.point slices
  rw [timing] at rest
  refine ⟨.sleep slice.toSeconds, later, rest, ?_, ?_, ?_⟩
  · rw [steps_add, goes, slept.world, slept.worker]
    rfl
  · rw [steps_add, made, slept.events, List.append_assoc, List.take_add_one, more]
    rfl
  · rw [steps_add, world, slept.world]

/-- As long as the world obliges, a wait asks for its slices one after the other. -/
theorem sleeps_on (awaits : r.worker.machine.Awaits r.worker.document r.worker.timing n span pause)
    {j : Nat} (le : j ≤ (r.worker.timing.slices span).length)
    (obliges : host.Obliges r.world ((r.worker.timing.sleeps span).take j)) :
    ∃ k left, r.Slept host n span pause j k left := by
  induction j with
  | zero =>
    obtain ⟨k, begins, quiet, still⟩ := begins_wait host intact up awaits
    exact ⟨k, span, rfl, begins, by rw [quiet]; simp, still⟩
  | succ j ih =>
    obtain ⟨e, more⟩ : ∃ e, (r.worker.timing.sleeps span)[j]? = some e :=
      ⟨_, List.getElem?_eq_getElem (by rwa [Timing.sleeps, List.length_map])⟩
    rw [List.take_add_one, more, Option.toList_some, Host.obliges_append] at obliges
    obtain ⟨before, still, done, -⟩ := obliges
    obtain ⟨k, left, slept⟩ := ih (Nat.le_of_succ_le le) before
    obtain ⟨a, later, rest, goes, made, world⟩ := slept.next host intact up more
    rw [still, done] at goes
    refine ⟨k + 2, later, rest, ?_, made, ?_⟩
    · rw [goes]
      simp [Worker.answered, Worker.goto, Machine.answered, Machine.goto, up]
    · rw [world, List.take_add_one, more, Option.toList_some, Host.after_append]
      rfl

/-- When the world obliges throughout, the run goes on behind the wait. -/
theorem waits_on (awaits : r.worker.machine.Awaits r.worker.document r.worker.timing n span pause)
    (obliges : host.Obliges r.world (r.worker.timing.sleeps span)) :
    ∃ k, (r.steps host k).worker = r.worker.goto (Machine.afterWait r.worker.document n pause) ∧
      (r.steps host k).events.toList = r.events.toList ++ r.worker.timing.sleeps span := by
  have all : (r.worker.timing.sleeps span).take (r.worker.timing.slices span).length =
      r.worker.timing.sleeps span :=
    List.take_of_length_le (by simp [Timing.sleeps])
  obtain ⟨k, left, slept⟩ := sleeps_on host intact up awaits (Nat.le_refl _) (by rwa [all])
  have timing : (r.steps host k).worker.timing = r.worker.timing := by
    rw [slept.worker]
    rfl
  obtain ⟨leaves, quiet⟩ := leaves_wait host (r := r.steps host k)
    (by rw [slept.worker]; exact intact) (by rw [slept.worker]; exact up) slept.point
    (by rw [timing, slept.slices, List.drop_length])
  refine ⟨k + 1, ?_, ?_⟩
  · rw [steps_add, leaves, slept.worker]
    rfl
  · rw [steps_add, quiet, slept.events, all]

end Run

end MacroGraph.Engine
