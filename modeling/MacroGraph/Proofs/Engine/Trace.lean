import MacroGraph.Engine.Run

namespace MacroGraph.Engine

def willing : Host Unit := fun _ _ => { world := () }

namespace Run
variable {σ : Type} {host : Host σ}

def begin (d : Document) (t : Timing) (level : Option Log.Level) (running : Bool) (world : σ) :
    Run σ :=
  { worker := { document := d, timing := t, running }, world, level }

@[simp] theorem begin_events (d : Document) (t : Timing) (level : Option Log.Level)
    (running : Bool) (world : σ) : (begin d t level running world).events.toList = [] := rfl

def event? (r : Run σ) : Option Event :=
  match r.worker.machine.demand with
  | .notify n => some (.notice n)
  | .act a => some (.action a)
  | _ => none

theorem demand_of_event? {r : Run σ} {a : Action} (event : r.event? = some (.action a)) :
    r.worker.machine.demand = .act a := by
  unfold event? at event
  cases demand : r.worker.machine.demand <;> simp_all

/-- The events of at most `steps` steps, each with the reply of the world. -/
def trace (host : Host σ) : Nat → Run σ → List (Event × Reply)
  | 0, _ => []
  | steps + 1, r =>
    if r.worker.isAlive then
      (r.event?.map fun e => (e, (host r.world e).reply)).toList ++ trace host steps (r.step host)
    else []

/-- The run comes to an end with these events and this result, and its flag is down. -/
def EndsWith (host : Host σ) (r : Run σ) (events : List Event) (result : RunResult) : Prop :=
  ∃ n, (r.steps host n).worker.result? = some result ∧
    (r.steps host n).worker.running = false ∧ (r.steps host n).events.toList = events

theorem intact_of_isAlive {r : Run σ} (alive : r.worker.isAlive = true) :
    r.worker.crashed = false := by
  unfold Worker.isAlive at alive
  cases crashed : r.worker.crashed <;> simp_all

theorem steps_of_not_isAlive {r : Run σ} (halted : r.worker.isAlive = false) (n : Nat) :
    r.steps host n = r := by
  cases n with
  | zero => rfl
  | succ n => simp [steps, halted]

theorem steps_succ {r : Run σ} (alive : r.worker.isAlive = true) (n : Nat) :
    r.steps host (n + 1) = (r.step host).steps host n := by
  simp [steps, alive]

theorem steps_add (r : Run σ) (m n : Nat) :
    r.steps host (m + n) = (r.steps host m).steps host n := by
  induction m generalizing r with
  | zero => simp [steps]
  | succ m ih =>
    by_cases alive : r.worker.isAlive = true
    · rw [Nat.succ_add, steps_succ alive, steps_succ alive, ih]
    · rw [Bool.not_eq_true] at alive
      simp only [steps_of_not_isAlive alive]

theorem steps_succ_last {r : Run σ} {n : Nat} (alive : (r.steps host n).worker.isAlive = true) :
    r.steps host (n + 1) = (r.steps host n).step host := by
  rw [steps_add, steps_succ alive]
  rfl

theorem steps_succ_over {r : Run σ} {n : Nat} (halted : (r.steps host n).worker.isAlive = false) :
    r.steps host (n + 1) = r.steps host n := by
  rw [steps_add, steps_of_not_isAlive halted]

theorem steps_preserves (keeps : Run σ → Prop)
    (step : ∀ r, keeps r → r.worker.isAlive = true → keeps (r.step host)) (n : Nat) {r : Run σ}
    (h : keeps r) : keeps (r.steps host n) := by
  induction n generalizing r with
  | zero => exact h
  | succ n ih =>
    by_cases alive : r.worker.isAlive = true
    · rw [steps_succ alive]
      exact ih (step r h alive)
    · rw [Bool.not_eq_true] at alive
      rwa [steps_of_not_isAlive alive]

@[simp] theorem note_worker (r : Run σ) (notes : List Note) : (r.note notes).worker = r.worker :=
  rfl

@[simp] theorem note_world (r : Run σ) (notes : List Note) : (r.note notes).world = r.world := rfl

@[simp] theorem note_events (r : Run σ) (notes : List Note) : (r.note notes).events = r.events :=
  rfl

@[simp] theorem logEntries_worker (r : Run σ) (entries : List Log.Entry) :
    (r.logEntries entries).worker = r.worker := rfl

@[simp] theorem logEntries_world (r : Run σ) (entries : List Log.Entry) :
    (r.logEntries entries).world = r.world := rfl

@[simp] theorem logEntries_events (r : Run σ) (entries : List Log.Entry) :
    (r.logEntries entries).events = r.events := rfl

theorem step_worker_silent {r : Run σ} (silent : r.worker.machine.demand = .nothing) :
    (r.step host).worker = r.worker.advance.1 := by
  simp [step, silent]

theorem step_worker_notify {r : Run σ} {n : Notice}
    (demand : r.worker.machine.demand = .notify n) :
    (r.step host).worker = (r.worker.notified (host r.world (.notice n)).lowers).1 := by
  simp [step, demand]

theorem step_worker_act {r : Run σ} {a : Action} (demand : r.worker.machine.demand = .act a) :
    (r.step host).worker = r.worker.answered (host r.world (.action a)).lowers
      (host r.world (.action a)).reply := by
  simp [step, demand]

theorem events_step (host : Host σ) (r : Run σ) :
    (r.step host).events.toList = r.events.toList ++ r.event?.toList := by
  unfold step event?
  cases r.worker.machine.demand <;> simp

theorem events_steps (host : Host σ) (r : Run σ) (n : Nat) :
    (r.steps host n).events.toList = r.events.toList ++ (r.trace host n).map Prod.fst := by
  induction n generalizing r with
  | zero => simp [steps, trace]
  | succ n ih =>
    by_cases alive : r.worker.isAlive = true
    · rw [steps_succ alive, ih, events_step, trace, if_pos alive, List.append_assoc,
        List.map_append]
      cases r.event? <;> simp
    · rw [Bool.not_eq_true] at alive
      simp [steps_of_not_isAlive alive, trace, alive]

theorem size_le_steps (host : Host σ) (r : Run σ) (n : Nat) :
    r.events.size ≤ (r.steps host n).events.size := by
  have grows := congrArg List.length (events_steps host r n)
  simp only [Array.length_toList, List.length_append] at grows
  omega

/-- Every event of a trace is made by one step of the run. -/
theorem exists_step_of_trace {r : Run σ} {n k : Nat} {e : Event} {reply : Reply}
    (h : (r.trace host n)[k]? = some (e, reply)) :
    ∃ m, (r.steps host m).worker.isAlive = true ∧ (r.steps host m).event? = some e ∧
      reply = (host (r.steps host m).world e).reply ∧
      (r.steps host m).events.toList = r.events.toList ++ ((r.trace host n).map Prod.fst).take k := by
  induction n generalizing r k with
  | zero => simp [trace] at h
  | succ n ih =>
    by_cases alive : r.worker.isAlive = true
    · rw [trace, if_pos alive] at h ⊢
      cases event : r.event? with
      | none =>
        simp only [event, Option.map_none, Option.toList_none, List.nil_append] at h ⊢
        obtain ⟨m, rest⟩ := ih h
        refine ⟨m + 1, ?_⟩
        rw [steps_succ alive]
        simpa [events_step, event] using rest
      | some first =>
        simp only [event, Option.map_some, Option.toList_some, List.singleton_append] at h ⊢
        cases k with
        | zero =>
          simp only [List.getElem?_cons_zero, Option.some.injEq, Prod.mk.injEq] at h
          obtain ⟨rfl, rfl⟩ := h
          exact ⟨0, alive, event, rfl, by simp [steps]⟩
        | succ k =>
          obtain ⟨m, rest⟩ := ih (by simpa using h)
          refine ⟨m + 1, ?_⟩
          rw [steps_succ alive]
          simpa [events_step, event] using rest
    · simp [trace, alive] at h

end Run
end MacroGraph.Engine
