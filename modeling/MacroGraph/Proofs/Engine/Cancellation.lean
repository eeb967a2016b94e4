import MacroGraph.Proofs.Engine.Altered
import MacroGraph.Proofs.Engine.Halting

/-!
Cancellation. A run whose flag is lowered within an event makes the events up to that one as
if it went on, and then only clears the highlights: `cancelled_run_is_truncated`.
-/
namespace MacroGraph.Engine
variable {σ : Type}

/-- The same world, which leaves the running flag alone. -/
def Host.steady (host : Host σ) : Host σ := fun w e => { host w e with lowers := false }

/-- The same world, which counts events from zero on and lowers the flag within event `k`. -/
def Host.loweringAt (host : Host σ) (k : Nat) : Host (σ × Nat) := fun w e =>
  let r := host w.1 e
  { world := (r.world, w.2 + 1), lowers := w.2 == k, reply := r.reply, log := r.log }

def Reaction.lowering (r : Reaction σ) : Reaction σ := { r with lowers := true }

theorem Host.loweringAt_eq (host : Host σ) (k : Nat) :
    host.loweringAt k = host.steady.alteredAt k .lowering := by
  funext w e
  by_cases now : w.2 = k <;> simp [loweringAt, alteredAt, steady, Reaction.lowering, now]

/-- Events within which a run can be cancelled: the first clearing, the entering of a node,
and an action that succeeds. -/
def Interruptible (k : Nat) : Event → Reply → Prop
  | .notice .cleared, _ => k = 0
  | .notice (.entered _), _ => True
  | .action _, reply => reply = .done

namespace Run
variable {host : Host σ} {d : Document} {t : Timing} {k : Nat}

def lowered (r : Run σ) : Run σ := { r with worker := r.worker.lower }

theorem step_lowering {r : Run σ} {e : Event} (event : r.event? = some e) :
    r.step (host.steady.altered .lowering) = (r.step host.steady).lowered := by
  unfold event? at event
  cases demand : r.worker.machine.demand with
  | nothing => simp [demand] at event
  | ended result => simp [demand] at event
  | notify n =>
    simp [step, lowered, demand, Host.altered, Reaction.lowering, Host.steady, Worker.notified,
      Worker.lower, logEntries, note]
  | act a =>
    simp only [step, lowered, demand, Host.altered, Reaction.lowering, Host.steady, Worker.answered,
      Worker.lower, logEntries]
    cases (host r.world (.action a)).reply <;> simp

theorem opens {level : Option Log.Level} {running : Bool} {world : σ} {n : Nat}
    (none : ((begin d t level running world).steps host n).events.toList = []) :
    ((begin d t level running world).steps host n).worker.machine.point = .begin ∨
      ((begin d t level running world).steps host n).worker.machine.point = .clear := by
  revert none
  refine steps_preserves (fun r => r.events.toList = [] →
    r.worker.machine.point = .begin ∨ r.worker.machine.point = .clear) ?_ n fun _ => .inl rfl
  intro r opening alive none
  rw [events_step, List.append_eq_nil_iff] at none
  rcases opening none.1 with here | here
  · right
    rw [step_worker_silent (by simp [Machine.demand, here])]
    simp [Worker.advance, Machine.step, here, Machine.goto]
  · simp [event?, Machine.demand, here] at none

theorem interrupted_step {r : Run σ} {e : Event} {reply : Reply}
    (document : r.worker.document = d) (timing : r.worker.timing = t)
    (intact : r.worker.crashed = false) (resumes : r.worker.machine.Resumes)
    (opening : r.events.toList = [] → r.worker.machine.point = .begin ∨
      r.worker.machine.point = .clear)
    (event : r.event? = some e) (replied : (host r.world e).reply = reply)
    (breaks : Interruptible r.events.size e reply) :
    ∃ m, m.point.isInside = true ∧ (r.step host.steady).worker.lower = .halting d t m := by
  cases here : r.worker.machine.point with
  | clear =>
    have demand : r.worker.machine.demand = .notify .cleared := by simp [Machine.demand, here]
    refine ⟨r.worker.machine.goto .root, rfl, ?_⟩
    rw [step_worker_notify demand]
    simp [Worker.notified, Machine.notified, here, Worker.lower, Worker.halting, document, timing,
      intact]
  | enter n =>
    have demand : r.worker.machine.demand = .notify (.entered n.id) := by
      simp [Machine.demand, here]
    refine ⟨{ r.worker.machine with
      point := .execute n, entered := r.worker.machine.entered + 1 }, rfl, ?_⟩
    rw [step_worker_notify demand]
    simp [Worker.notified, Machine.notified, here, Worker.lower, Worker.halting, document, timing,
      intact]
  | finish fault =>
    simp only [event?, Machine.demand, here, Option.some.injEq] at event
    subst event
    -- The clearing that is event 0 belongs to a run that has just begun, not to this one.
    rcases opening (by simpa [Interruptible] using breaks) with other | other <;>
      simp [here] at other
  | request n a next =>
    have demand : r.worker.machine.demand = .act a := by simp [Machine.demand, here]
    simp only [event?, demand, Option.some.injEq] at event
    subst event
    have done : (host.steady r.world (.action a)).reply = .done := replied.trans breaks
    refine ⟨r.worker.machine.goto next, resumes n a next here, ?_⟩
    rw [step_worker_act demand, done]
    simp [Worker.answered, Machine.answered, here, Worker.lower, Worker.halting, document, timing,
      intact]
  | _ => simp [event?, Machine.demand, here] at event

theorem down_after (host : Host σ) {r : Run (σ × Nat)} (counts : r.world.2 = r.events.size)
    (few : r.events.size ≤ k) (n : Nat) :
    (r.steps (host.loweringAt k) n).world.2 = (r.steps (host.loweringAt k) n).events.size ∧
      (k < (r.steps (host.loweringAt k) n).events.size →
        (r.steps (host.loweringAt k) n).worker.running = false) := by
  refine steps_preserves (fun r : Run (σ × Nat) => r.world.2 = r.events.size ∧
    (k < r.events.size → r.worker.running = false)) ?_ n ⟨counts, fun late => by omega⟩
  clear counts few r
  rintro r ⟨counts, down⟩ alive
  have lowers : ∀ {running : Bool}, (k < r.events.size → running = false) →
      k < r.events.size + 1 → (running && !(r.events.size == k)) = false := by
    intro running down late
    by_cases now : r.events.size = k
    · simp [now]
    · simp [down (by omega)]
  cases demand : r.worker.machine.demand with
  | nothing =>
    refine ⟨by simpa [step, demand] using counts, ?_⟩
    intro late
    have was := down (by simpa [step, demand] using late)
    rw [step_worker_silent demand]
    simp only [Worker.advance, was]
    split <;> rfl
  | notify n =>
    refine ⟨by simp [step, demand, Host.loweringAt, counts], ?_⟩
    intro late
    rw [step_worker_notify demand]
    simpa [Worker.notified, Host.loweringAt, counts] using
      lowers down (by simpa [step, demand] using late)
  | act a =>
    refine ⟨by simp [step, demand, Host.loweringAt, counts], ?_⟩
    intro late
    rw [step_worker_act demand]
    have now := lowers down (by simpa [step, demand] using late)
    simp only [Worker.answered, Host.loweringAt, counts]
    cases (host r.world.1 (.action a)).reply <;> exact now
  | ended result => simpa [step, demand] using ⟨counts, down⟩

/-- Lowering the flag within event `k` cuts the run off there. -/
theorem cut_at {level : Option Log.Level} {world : σ} {n k : Nat} {e : Event} {reply : Reply}
    (made : ((begin d t level true world).trace host.steady n)[k]? = some (e, reply))
    (breaks : Interruptible k e reply) :
    (begin d t level true (world, 0)).EndsWith (host.loweringAt k)
      ((((begin d t level true world).trace host.steady n).map Prod.fst).take (k + 1) ++
        [.notice .cleared]) (.ok .stopped) := by
  obtain ⟨m, alive, event, replied, events⟩ := exists_step_of_trace made
  obtain ⟨past, last⟩ := List.getElem?_eq_some_iff.1 made
  have size : ((begin d t level true world).steps host.steady m).events.size = k := by
    have length := congrArg List.length events
    simp only [begin_events, Array.length_toList, List.nil_append, List.length_take,
      List.length_map] at length
    omega
  have next : (begin d t level true (world, 0)).steps (host.loweringAt k) (m + 1) =
      (((begin d t level true world).steps host.steady m).step host.steady).counting.lowered := by
    have steps := counting_steps_at .lowering (r := begin d t level true world) alive
    rw [size, step_lowering event] at steps
    rw [Host.loweringAt_eq]
    exact steps
  obtain ⟨document, timing, resumes⟩ := steps_keeps host.steady Machine.Resumes
    Machine.Goes.resumes (r := begin d t level true world) rfl rfl
    (fun n a next requested => by cases requested) m
  obtain ⟨after, inside, halting⟩ := interrupted_step document timing (intact_of_isAlive alive)
    resumes opens event replied.symm (size ▸ breaks)
  have ends := inside_ends (host.loweringAt k) inside
    (r := (begin d t level true (world, 0)).steps (host.loweringAt k) (m + 1))
    (by rw [next]; exact halting)
  have made : ((begin d t level true (world, 0)).steps (host.loweringAt k) (m + 1)).events.toList =
      (((begin d t level true world).trace host.steady n).map Prod.fst).take (k + 1) := by
    rw [next, show ∀ r : Run σ, r.counting.lowered.events = r.events from fun _ => rfl,
      events_step, events, event, List.take_succ_eq_append_getElem (by simpa using past)]
    simp [last]
  rw [made] at ends
  exact .of_steps ends

/-- A run whose flag is down from the start clears the highlights twice. -/
theorem down_ends {level : Option Log.Level} {world : σ} :
    (begin d t level false world).EndsWith host [.notice .cleared, .notice .cleared]
      (.ok .stopped) := by
  have second : ((begin d t level false world).steps host 2).worker =
      .halting d t (({} : Machine).goto .root) := rfl
  exact .of_steps (inside_ends host rfl second)

end Run

/-- A cancelled run makes the events of the run that goes on, up to the one within which its
flag is lowered, then clears the highlights and stops. From there on no pin is followed, no body
is opened, no node is entered and no action is requested, however deep the run stands in loops
or waits. A run whose flag is down from the start only clears the highlights, twice. -/
theorem cancelled_run_is_truncated (host : Host σ) (d : Document) (t : Timing)
    (level : Option Log.Level) (world : σ) :
    (∀ n k e reply, ((Run.begin d t level true world).trace host.steady n)[k]? = some (e, reply) →
      Interruptible k e reply →
      (Run.begin d t level true (world, 0)).EndsWith (host.loweringAt k)
          ((((Run.begin d t level true world).trace host.steady n).map Prod.fst).take (k + 1) ++
            [.notice .cleared]) (.ok .stopped) ∧
        ∀ j, let r := (Run.begin d t level true (world, 0)).steps (host.loweringAt k) j
          k < r.events.size → r.worker.machine.demand = .nothing →
            r.worker.running = false ∧
              Machine.Unwinds r.worker.machine
                (r.worker.machine.step d t r.worker.running)) ∧
      (Run.begin d t level false world).EndsWith host [.notice .cleared, .notice .cleared]
        (.ok .stopped) := by
  refine ⟨fun n k e reply made breaks => ⟨Run.cut_at made breaks, fun j => ?_⟩, ?_⟩
  · intro r late silent
    have down := (Run.down_after host (r := Run.begin d t level true (world, 0)) (k := k)
      rfl (Nat.zero_le k) j).2 late
    refine ⟨down, ?_⟩
    rw [down]
    exact Machine.unwinds_step d t silent
  · exact Run.down_ends

def clicking : Document where
  serial := 0
  nodes := [⟨"s", .start, []⟩, ⟨"w", .whileLoop, [("Condition", .bool true)]⟩,
    ⟨"c", .mouseClick, []⟩]
  connections := [⟨"s", Pin.exec, "w", Pin.exec, .exec⟩, ⟨"w", Pin.loopBody, "c", Pin.exec, .exec⟩]
  start := "s"
  index := { exec := [(("s", Pin.exec), "w"), (("w", Pin.loopBody), "c")] }

/-- Cancelled within its first click, the loop makes no second one. -/
theorem clicking_is_truncated :
    Document.build 0 clicking.nodes clicking.connections "s" = .ok clicking ∧
      ((Run.begin clicking {} none true ()).trace willing.steady 16)[4]? =
        some (.action (.click .left false), .done) ∧
      (Run.begin clicking {} none true ((), 0)).EndsWith (willing.loweringAt 4)
        [.notice .cleared, .notice (.entered "s"), .notice (.entered "w"), .notice (.entered "c"),
          .action (.click .left false), .notice .cleared] (.ok .stopped) :=
  ⟨rfl, rfl, ((cancelled_run_is_truncated willing clicking {} none ()).1 16 4 _ _ rfl rfl).1⟩

end MacroGraph.Engine
