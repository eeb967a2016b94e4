import MacroGraph.Proofs.Engine.Grammar

namespace MacroGraph

/-- What a node does itself: an action that is no sleep. -/
def Event.deed? : Event → Option Action
  | .action a => if a.kind?.isSome then some a else none
  | _ => none

theorem Event.deed?_eq_some_iff {e : Event} {a : Action} :
    e.deed? = some a ↔ e = .action a ∧ a.kind? ≠ none := by
  cases e with
  | notice n => simp [deed?]
  | action b =>
    simp only [deed?, Option.ite_none_right_eq_some, Option.some.injEq, Event.action.injEq,
      Option.isSome_iff_ne_none]
    constructor
    · rintro ⟨kind, rfl⟩
      exact ⟨rfl, kind⟩
    · rintro ⟨rfl, kind⟩
      exact ⟨kind, rfl⟩

theorem split_concat {α : Type} {xs before after : List α} {x last : α}
    (split : xs ++ [last] = before ++ x :: after) :
    (after = [] ∧ xs = before ∧ last = x) ∨
      ∃ rest, after = rest ++ [last] ∧ xs = before ++ x :: rest := by
  rcases List.eq_nil_or_concat' after with rfl | ⟨rest, e, rfl⟩
  · obtain ⟨same, ends⟩ := List.append_inj' split rfl
    exact .inl ⟨rfl, same, (List.cons.inj ends).1⟩
  · rw [← List.cons_append, ← List.append_assoc] at split
    obtain ⟨same, ends⟩ := List.append_inj' split rfl
    cases ends
    exact .inr ⟨rest, rfl, same⟩

namespace Engine
variable {d : Document} {events : List Event} {past : List (Event × Reply)}

/-- Every action is due where it stands, and every node that is entered is there. -/
structure Orderly (d : Document) (events : List Event) : Prop where
  due : ∀ before a after, events = before ++ .action a :: after → Due d before a
  known : ∀ id, .notice (.entered id) ∈ events → ∃ n, d.node? id = some n

theorem Orderly.concat (orderly : Orderly d events) {e : Event}
    (due : ∀ a, e = .action a → Due d events a)
    (known : ∀ id, e = .notice (.entered id) → ∃ n, d.node? id = some n) :
    Orderly d (events ++ [e]) := by
  refine ⟨?_, ?_⟩
  · intro before a after split
    rcases split_concat split with ⟨_, rfl, same⟩ | ⟨rest, _, earlier⟩
    · exact due a same
    · exact orderly.due before a rest earlier
  · intro id mem
    rcases List.mem_append.1 mem with earlier | last
    · exact orderly.known id earlier
    · exact known id (List.mem_singleton.1 last).symm

namespace Underway

theorem orderly (underway : Underway d past) : Orderly d (past.map Prod.fst) := by
  induction underway with
  | clears reply =>
    have none_yet : Orderly d [] := ⟨fun before a after split => by simp at split, nofun⟩
    exact none_yet.concat nofun nofun
  | enters n reply _ found ih =>
    rw [List.map_append]
    refine ih.concat nofun ?_
    intro id same
    cases same
    exact ⟨n, found⟩
  | acts a reply _ due _ ih =>
    rw [List.map_append]
    refine ih.concat ?_ nofun
    intro b same
    cases same
    exact due

theorem cleared_first (underway : Underway d past) :
    ∃ middle, past.map Prod.fst = .notice .cleared :: middle ∧ .notice .cleared ∉ middle := by
  induction underway with
  | clears reply => exact ⟨[], rfl, List.not_mem_nil⟩
  | enters n reply _ _ ih =>
    obtain ⟨middle, split, others⟩ := ih
    exact ⟨middle ++ [.notice (.entered n.id)], by simp [split], by simp [others]⟩
  | acts a reply _ _ _ ih =>
    obtain ⟨middle, split, others⟩ := ih
    exact ⟨middle ++ [.action a], by simp [split], by simp [others]⟩

theorem not_failed (underway : Underway d past) (a : Action) (cause : ActionError) :
    (.action a, .failed cause) ∉ past := by
  induction underway with
  | clears reply => simp
  | enters n reply _ _ ih => simp [ih]
  | acts b reply _ _ unfailed ih => simp [ih, (unfailed cause).symm]

end Underway

theorem Cleared.clears {fault : Option NodeFault} (cleared : Cleared d past fault) :
    ∃ middle, past.map Prod.fst = .notice .cleared :: middle ++ [.notice .cleared] ∧
      .notice .cleared ∉ middle := by
  obtain ⟨walk, reply, rfl, walked⟩ := cleared
  cases fault with
  | none =>
    obtain ⟨middle, split, others⟩ := walked.cleared_first
    exact ⟨middle, by simp [split], others⟩
  | some fault =>
    obtain ⟨before, a, rfl, underway, _⟩ := walked
    obtain ⟨middle, split, others⟩ := underway.cleared_first
    exact ⟨middle ++ [.action a], by simp [split], by simp [others]⟩

theorem Cleared.orderly {fault : Option NodeFault} (cleared : Cleared d past fault) :
    Orderly d (past.map Prod.fst) := by
  obtain ⟨walk, reply, rfl, walked⟩ := cleared
  rw [List.map_append]
  refine Orderly.concat ?_ nofun nofun
  cases fault with
  | none => exact walked.orderly
  | some fault =>
    obtain ⟨before, a, rfl, underway, due⟩ := walked
    rw [List.map_append]
    refine underway.orderly.concat ?_ nofun
    intro b same
    cases same
    exact due

/-- A failure is the last event before the highlights are cleared, and there is one exactly when the
run ends with a fault, which has the same cause. -/
theorem Cleared.failures {fault : Option NodeFault} (cleared : Cleared d past fault) :
    ((∃ a cause, (.action a, .failed cause) ∈ past) ↔ ∃ f, fault = some f) ∧
      ∀ before a cause after, past = before ++ (.action a, .failed cause) :: after →
        (∃ reply, after = [(.notice .cleared, reply)]) ∧
          ∃ f, fault = some f ∧ f.cause = cause := by
  obtain ⟨walk, reply, rfl, walked⟩ := cleared
  cases fault with
  | none =>
    have never : ∀ a cause, (.action a, .failed cause) ∉ walk ++ [(.notice .cleared, reply)] := by
      intro a cause
      simp [walked.not_failed]
    refine ⟨⟨fun ⟨a, cause, mem⟩ => absurd mem (never a cause), nofun⟩, ?_⟩
    intro before a cause after split
    exact absurd (split ▸ List.mem_append_cons_self) (never a cause)
  | some f =>
    obtain ⟨earlier, b, rfl, underway, _⟩ := walked
    refine ⟨⟨fun _ => ⟨f, rfl⟩, fun _ => ⟨b, f.cause, by simp⟩⟩, ?_⟩
    intro before a cause after split
    rcases split_concat split with ⟨_, _, same⟩ | ⟨rest, rfl, earlier⟩
    · cases same
    · rcases split_concat earlier with ⟨rfl, _, failed⟩ | ⟨more, _, before_it⟩
      · cases failed
        exact ⟨⟨reply, rfl⟩, f, rfl, rfl⟩
      · exact absurd (before_it ▸ List.mem_append_cons_self) (underway.not_failed a cause)

theorem lastEntered?_since {before rest : List Event} {id : String}
    (none_since : ∀ other, .notice (.entered other) ∉ rest) :
    lastEntered? (before ++ .notice (.entered id) :: rest) = some id := by
  induction rest using List.reverseRecOn with
  | nil => exact lastEntered?_entered before id
  | append_singleton rest e ih =>
    have earlier := ih fun other mem => none_since other (List.mem_append_left _ mem)
    rw [← List.cons_append, ← List.append_assoc]
    cases e with
    | action a => rw [lastEntered?_action, earlier]
    | notice n =>
      cases n with
      | cleared => simpa [lastEntered?] using earlier
      | entered other => exact absurd (by simp) (none_since other)

/-- What a node owns it does before all else. -/
theorem Owns.first {before rest : List Event} {id : String} {n : Node} {a : Action}
    (owns : Owns d (before ++ .notice (.entered id) :: rest) n a)
    (none_since : ∀ other, .notice (.entered other) ∉ rest) : rest = [] ∧ n.id = id := by
  obtain ⟨_, _, last⟩ := owns
  rcases List.eq_nil_or_concat' rest with rfl | ⟨earlier, e, rfl⟩
  · simp only [List.getLast?_append, List.getLast?_singleton, Option.some_or, Option.some.injEq,
      Event.notice.injEq, Notice.entered.injEq] at last
    exact ⟨rfl, last.symm⟩
  · rw [← List.cons_append, ← List.append_assoc, List.getLast?_concat] at last
    obtain rfl := Option.some.inj last
    exact absurd (by simp) (none_since n.id)

/-- From the entering of one node to that of the next, at most one thing is done that is no sleep,
and it is what the kind of the node does. Only a delay sleeps there, or a macro that starts again. -/
theorem Orderly.between_enterings (orderly : Orderly d events) {before between after : List Event}
    {id : String} (split : events = before ++ .notice (.entered id) :: between ++ after)
    (within : ∀ other, .notice (.entered other) ∉ between) :
    ∃ n, d.node? id = some n ∧ (between.filterMap Event.deed?).length ≤ 1 ∧
      ∀ a, .action a ∈ between → a.kind? = some n.kind ∨
        a.kind? = none ∧ (n.kind = .delay ∨ ∃ s, Continuous d s) := by
  have due : ∀ earlier {later a}, between = earlier ++ .action a :: later →
      Due d (before ++ .notice (.entered id) :: earlier) a := by
    rintro earlier later a rfl
    exact orderly.due _ a (later ++ after) (by simp [split])
  have since : ∀ (earlier : List Event) {later}, between = earlier ++ later →
      ∀ other, .notice (.entered other) ∉ earlier := by
    rintro earlier later rfl other mem
    exact within other (List.mem_append_left _ mem)
  obtain ⟨n, found⟩ := orderly.known id (by simp [split])
  refine ⟨n, found, ?_, ?_⟩
  · cases between with
    | nil => simp
    | cons e rest =>
      have quiet : rest.filterMap Event.deed? = [] := by
        apply List.filterMap_eq_nil_iff.2
        intro later mem
        rw [Option.eq_none_iff_forall_ne_some]
        intro a deed
        obtain ⟨rfl, kind⟩ := Event.deed?_eq_some_iff.1 deed
        obtain ⟨r, r', rfl⟩ := List.append_of_mem mem
        rcases due (e :: r) rfl with ⟨l, owns⟩ | ⟨sleep, _⟩
        · cases (owns.first (since (e :: r) rfl)).1
        · exact kind sleep
      rw [List.filterMap_cons]
      split <;> simp [quiet]
  · intro a mem
    obtain ⟨earlier, later, here⟩ := List.append_of_mem mem
    rcases due earlier here with ⟨l, owns⟩ | ⟨sleep, l, pause, pauses⟩
    · obtain ⟨_, same⟩ := owns.first (since earlier here)
      rw [← same, owns.2.1] at found
      cases found
      exact .inl owns.1
    · refine .inr ⟨sleep, ?_⟩
      cases pause with
      | delay =>
        obtain ⟨there, kind, last⟩ := pauses
        rw [lastEntered?_since (since earlier here), Option.some.injEq] at last
        rw [last, there] at found
        cases found
        exact .inl kind
      | repetition => exact .inr ⟨l, pauses⟩

namespace Run
variable {σ : Type} {host : Host σ} {t : Timing}

/-- The way to a report leads over the clearing of the highlights, and the way to the end over a
report. -/
theorem Tells.toEnd (host : Host σ) {r : Run σ} (tells : r.Tells d t past)
    (alive : r.worker.isAlive = true) :
    (∀ fault, (r.step host).worker.machine.point = .report fault →
      r.event? = some (.notice .cleared)) ∧
    ∀ result, (r.step host).worker.machine.point = .ended result →
      ∃ fault, r.worker.machine.point = .report fault := by
  have fits := tells.fits
  cases demand : r.worker.machine.demand with
  | nothing =>
    have moves := Machine.moves_step d t r.worker.running demand
    rw [step_worker_silent demand, Worker.advance, fits.document, fits.timing]
    simp only
    cases going : r.worker.machine.point.isFinished with
    | false =>
      rcases moves.isFinished fits.machine going with on | ⟨done, _⟩
      · constructor <;> intro _ here <;> rw [here] at on <;> cases on
      · constructor <;> intro _ here <;> cases done.symm.trans here
    | true =>
      cases here : r.worker.machine.point with
      | report fault => exact ⟨fun _ there => by simp [Machine.step, here, Machine.goto] at there,
          fun _ _ => ⟨fault, rfl⟩⟩
      | finish | ended => simp [Machine.demand, here] at demand
      | _ => simp [here, Point.isFinished] at going
  | notify notice =>
    rw [step_worker_notify demand]
    have event : r.event? = some (.notice notice) := by simp [event?, demand]
    simp only [Worker.notified]
    rcases Machine.notified_cases demand with ⟨_, rfl, goes⟩ | ⟨n, _, _, goes⟩ | ⟨f, _, rfl, goes⟩ <;>
      rw [goes]
    · refine ⟨fun _ _ => event, fun _ there => ?_⟩
      cases there
    · constructor <;> intro _ there <;> cases there
    · refine ⟨fun _ _ => event, fun _ there => ?_⟩
      cases there
  | act a =>
    rw [step_worker_act demand]
    cases (host r.world (.action a)).reply with
    | done =>
      rcases fits.machine.answered_ok demand with ⟨n, pin, goes⟩ | ⟨n, remaining, pause, goes⟩ <;>
        constructor <;> intro _ there <;> cases goes.symm.trans there
    | failed cause =>
      obtain ⟨n, next, here⟩ := Machine.request_of_demand demand
      constructor <;> intro _ there <;>
        simp [Worker.answered, Machine.answered, here, Machine.goto] at there
    | crashed =>
      obtain ⟨n, next, here⟩ := Machine.request_of_demand demand
      constructor <;> intro _ there <;> cases here.symm.trans there
  | ended result => simp [Worker.isAlive, intact_of_isAlive alive, demand] at alive

/-- An ended run made its last event when it cleared the highlights, and then told its result. -/
theorem exists_last_clear (host : Host σ) (valid : d.Valid) (level : Option Log.Level)
    (running : Bool) (world : σ) (n : Nat) :
    let run := fun k => (begin d t level running world).steps host k
    (∀ fault, (run n).worker.machine.point = .report fault → ∃ k,
      (run k).worker.isAlive = true ∧ (run k).event? = some (.notice .cleared) ∧
        run n = run (k + 1)) ∧
    ∀ result, (run n).worker.machine.point = .ended result → ∃ k fault,
      (run k).worker.isAlive = true ∧ (run k).event? = some (.notice .cleared) ∧
        (run (k + 1)).worker.machine.point = .report fault ∧ run n = (run (k + 1)).step host := by
  intro run
  induction n with
  | zero => exact ⟨nofun, nofun⟩
  | succ n ih =>
    by_cases alive : (run n).worker.isAlive = true
    · obtain ⟨reports, ends⟩ :=
        (told_steps host valid t level running world n).toEnd host alive
      have next : run (n + 1) = (run n).step host := steps_succ_last alive
      rw [next]
      refine ⟨fun fault there => ⟨n, alive, reports fault there, next.symm⟩, ?_⟩
      intro result there
      obtain ⟨fault, here⟩ := ends result there
      obtain ⟨k, going, event, same⟩ := ih.1 fault here
      exact ⟨k, fault, going, event, same ▸ here, by rw [same]⟩
    · have next : run (n + 1) = run n := steps_succ_over (by simpa using alive)
      rwa [next]

theorem level_steps (host : Host σ) (r : Run σ) (n : Nat) : (r.steps host n).level = r.level := by
  refine steps_preserves (fun s => s.level = r.level) ?_ n rfl
  intro s kept _
  rw [← kept]
  unfold step
  split <;> rfl

theorem step_report (host : Host σ) {r : Run σ} {fault : Option NodeFault}
    (here : r.worker.machine.point = .report fault) :
    (r.step host).worker.running = false ∧ (r.step host).events = r.events ∧
      (r.step host).worker.machine =
        r.worker.machine.goto (.ended (Machine.resultOf r.worker.running fault)) ∧
      (Log.takes r.level .info = true → (r.step host).log.toList.getLast? =
        some ⟨.info, "macro run finished", [("start_node", r.worker.document.start),
          ("nodes_executed", toString r.worker.machine.entered),
          ("outcome", describeResult (Machine.resultOf r.worker.running fault))]⟩) := by
  have silent : r.worker.machine.demand = .nothing := by simp [Machine.demand, here]
  unfold step
  rw [silent]
  simp only [Worker.advance, Machine.step, here]
  refine ⟨rfl, rfl, rfl, ?_⟩
  intro takes
  simp [note, Note.level, Note.entries, takes]

section
variable {r : Run σ} {result : RunResult} (tells : r.Tells d t past)
  (ended : r.worker.result? = some result)
include tells ended

theorem Tells.cleared :
    ∃ up fault, result = Machine.resultOf up fault ∧ Cleared d past fault := by
  have told := tells.told
  rwa [Worker.point_of_result? ended] at told

theorem Tells.clears :
    ∃ middle, past.map Prod.fst = .notice .cleared :: middle ++ [.notice .cleared] ∧
      .notice .cleared ∉ middle := by
  obtain ⟨_, _, _, cleared⟩ := tells.cleared ended
  exact cleared.clears

theorem Tells.orderly : Orderly d (past.map Prod.fst) := by
  obtain ⟨_, _, _, cleared⟩ := tells.cleared ended
  exact cleared.orderly

theorem Tells.failures :
    ((∃ fault, result = .error fault) ↔ ∃ a cause, (.action a, .failed cause) ∈ past) ∧
      ∀ before a cause after, past = before ++ (.action a, .failed cause) :: after →
        (∃ reply, after = [(.notice .cleared, reply)]) ∧
          ∃ fault, result = .error fault ∧ fault.cause = cause := by
  obtain ⟨up, fault, rfl, cleared⟩ := tells.cleared ended
  obtain ⟨failed, final⟩ := cleared.failures
  have faulted : ∀ f, Machine.resultOf up fault = .error f ↔ fault = some f := by
    intro f
    cases fault <;> simp [Machine.resultOf]
  simp only [faulted]
  exact ⟨failed.symm, final⟩

end

theorem Tells.sleeps {r : Run σ} (tells : r.Tells d t past) (alive : r.worker.isAlive = true)
    {a : Action} (event : r.event? = some (.action a)) (sleep : a.kind? = none) :
    ∃ node remaining pause,
      r.worker.machine.point = .request node a (.wait node remaining pause) ∧
        match pause with
        | .delay => d.node? node.id = some node ∧ node.kind = .delay ∧
            lastEntered? (past.map Prod.fst) = some node.id
        | .repetition => Continuous d node ∧ r.worker.machine.stack = [] := by
  have apt := tells.apt (intact_of_isAlive alive)
  have fits := tells.fits.machine.point
  obtain ⟨node, next, here⟩ := Machine.request_of_demand (demand_of_event? event)
  rw [here] at apt fits
  rcases apt with ⟨⟨kind, _⟩, _⟩ | ⟨_, remaining, pause, rfl, pauses⟩
  · cases sleep.symm.trans kind
  · refine ⟨node, remaining, pause, here, ?_⟩
    cases pause with
    | delay => exact pauses
    | repetition => exact ⟨pauses, fits⟩

section
variable (valid : d.Valid) {level : Option Log.Level} {running : Bool} {world : σ}
  {run : Nat → Run σ} (steps : ∀ k, run k = (begin d t level running world).steps host k) {n : Nat}
  {result : RunResult} (ended : (run n).worker.result? = some result)
include valid steps ended

theorem exists_report : ∃ k fault,
    (run k).worker.isAlive = true ∧ (run k).event? = some (.notice .cleared) ∧
      (run (k + 1)).worker.machine.point = .report fault ∧ run n = (run (k + 1)).step host ∧
        result = Machine.resultOf (run (k + 1)).worker.running fault := by
  have here := Worker.point_of_result? ended
  have ends := (exists_last_clear (t := t) host valid level running world n).2 result
  simp only [← steps] at ends
  obtain ⟨k, fault, alive, event, report, last⟩ := ends here
  rw [last, (step_report host report).2.2.1] at here
  exact ⟨k, fault, alive, event, report, last, (Point.ended.inj here).symm⟩

theorem outcome_of_result? : ∃ k,
    (run k).worker.isAlive = true ∧ (run k).event? = some (.notice .cleared) ∧
      (run (k + 1)).events.toList = (run n).events.toList ∧
      ((∀ fault, result ≠ .error fault) →
        result = .ok (if (run (k + 1)).worker.running then .completed else .stopped)) := by
  obtain ⟨k, fault, alive, event, report, last, told⟩ := exists_report valid steps ended
  obtain ⟨_, unchanged, _⟩ := step_report host report
  refine ⟨k, alive, event, ?_, fun unfaulted => ?_⟩
  · rw [last, unchanged]
  · cases fault with
    | none => exact told
    | some fault => exact absurd told (unfaulted fault)

theorem flag_of_result? : (run n).worker.running = false := by
  obtain ⟨k, fault, _, _, report, last, _⟩ := exists_report valid steps ended
  rw [last]
  exact (step_report host report).1

theorem log_of_result? (takes : Log.takes level .info = true) :
    (run n).log.toList.getLast? = some ⟨.info, "macro run finished", [("start_node", d.start),
      ("nodes_executed", toString (run n).worker.machine.entered),
      ("outcome", describeResult result)]⟩ := by
  obtain ⟨k, fault, _, _, report, last, told⟩ := exists_report valid steps ended
  obtain ⟨_, _, machine, logged⟩ := step_report host report
  have about : (run (k + 1)).worker.document = d := by
    rw [steps]
    exact (told_steps host valid t level running world (k + 1)).fits.document
  have counted : (run n).worker.machine.entered = (run (k + 1)).worker.machine.entered := by
    rw [last, machine]
    rfl
  have logs : (run (k + 1)).level = level := by
    rw [steps, level_steps]
    rfl
  rw [counted, last, logged (by rwa [logs]), told, about]

end

end Run

/-- A run that ends has cleared the highlights as its first event and as its last one, and at no
other time. It ends with a fault exactly when an action failed, and then that was the last thing it
did; else it is completed when the flag was still up after the last event, and stopped when not. The
flag is down in the end, and as many nodes are reported to have been executed as were entered.

After a node is entered, and until another one is, at most one thing is done that is no sleep, and
it is what the kind of the node does; it comes right after the entering. Sleeps come only while the
node that was entered last is a delay, or when the walk of a macro that starts again has ended and it
pauses. -/
theorem ended_run_has_shape {σ : Type} (host : Host σ) (valid : d.Valid) (t : Timing)
    (level : Option Log.Level) (running : Bool) (world : σ) (n : Nat) {result : RunResult} :
    let run := fun k => (Run.begin d t level running world).steps host k
    let trace := (Run.begin d t level running world).trace host n
    let events := (run n).events.toList
    (run n).worker.result? = some result →
      (∃ middle, events = .notice .cleared :: middle ++ [.notice .cleared] ∧
        .notice .cleared ∉ middle) ∧
      (events = trace.map Prod.fst ∧
        ((∃ fault, result = .error fault) ↔ ∃ a cause, (.action a, .failed cause) ∈ trace) ∧
        ∀ before a cause after, trace = before ++ (.action a, .failed cause) :: after →
          (∃ reply, after = [(.notice .cleared, reply)]) ∧
            ∃ fault, result = .error fault ∧ fault.cause = cause) ∧
      (∃ k, (run k).worker.isAlive = true ∧ (run k).event? = some (.notice .cleared) ∧
        (run (k + 1)).events.toList = events ∧
        ((∀ fault, result ≠ .error fault) →
          result = .ok (if (run (k + 1)).worker.running then .completed else .stopped))) ∧
      (run n).worker.running = false ∧
      ((run n).worker.machine.entered = events.countP Event.isEntering ∧
        (Log.takes level .info = true → (run n).log.toList.getLast? =
          some ⟨.info, "macro run finished", [("start_node", d.start),
            ("nodes_executed", toString (events.countP Event.isEntering)),
            ("outcome", describeResult result)]⟩)) ∧
      (∀ before a after, events = before ++ .action a :: after → a.kind? ≠ none →
        ∃ node, Owns d before node a) ∧
      (∀ before id between after, events = before ++ .notice (.entered id) :: between ++ after →
        (∀ other, .notice (.entered other) ∉ between) →
          ∃ node, d.node? id = some node ∧ (between.filterMap Event.deed?).length ≤ 1 ∧
            ∀ a, .action a ∈ between → a.kind? = some node.kind ∨
              a.kind? = none ∧ (node.kind = .delay ∨ ∃ start, Continuous d start)) ∧
      ∀ k a, (run k).worker.isAlive = true → (run k).event? = some (.action a) → a.kind? = none →
        ∃ node remaining pause,
          (run k).worker.machine.point = .request node a (.wait node remaining pause) ∧
            match pause with
            | .delay => d.node? node.id = some node ∧ node.kind = .delay ∧
                lastEntered? (run k).events.toList = some node.id
            | .repetition => Continuous d node ∧ (run k).worker.machine.stack = [] := by
  intro run trace events ended
  have made : ∀ k, (run k).events.toList =
      ((Run.begin d t level running world).trace host k).map Prod.fst := Run.events_steps host _
  have tells := Run.told_steps host valid t level running world n
  have orderly : Orderly d events := by
    rw [show events = trace.map Prod.fst from made n]
    exact tells.orderly ended
  have counted : (run n).worker.machine.entered = events.countP Event.isEntering :=
    tells.entered.trans (congrArg _ (made n).symm)
  refine ⟨?clears, ⟨made n, tells.failures ended⟩,
    Run.outcome_of_result? valid (fun _ => rfl) ended,
    Run.flag_of_result? valid (fun _ => rfl) ended, ⟨counted, ?log⟩, ?deeds,
    fun _ _ _ _ split => orderly.between_enterings split, ?sleeps⟩
  case clears =>
    rw [show events = trace.map Prod.fst from made n]
    exact tells.clears ended
  case log =>
    rw [← counted]
    exact Run.log_of_result? valid (fun _ => rfl) ended
  case deeds =>
    intro before a after split kind
    rcases orderly.due before a after split with owned | ⟨sleep, _⟩
    · exact owned
    · exact absurd sleep kind
  case sleeps =>
    intro k a alive event sleep
    rw [made k]
    exact (Run.told_steps host valid t level running world k).sleeps alive event sleep

/-- A run that faults in its pause entered three nodes. What it slept for then was its start, as no
delay was entered. -/
theorem restless_run_has_shape :
    let run := fun k => (Run.begin restless {} (some .info) true ()).steps sleepless k
    let fault : NodeFault := ⟨"s", "start", .unsupported "sleep"⟩
    (run 24).worker.result? = some (.error fault) ∧ (run 24).worker.running = false ∧
      (run 24).log.toList.getLast? = some ⟨.info, "macro run finished", [("start_node", "s"),
        ("nodes_executed", toString 3), ("outcome", describeResult (.error fault))]⟩ ∧
      (run 21).event? = some (.action (.sleep (Duration.toSeconds ⟨100000000⟩))) ∧
      ∃ start, Continuous restless start ∧ (run 21).worker.machine.stack = [] := by
  intro run fault
  have ended : (run 24).worker.result? = some (.error fault) := by decide +kernel
  have asks : (run 21).event? = some (.action (.sleep (Duration.toSeconds ⟨100000000⟩))) := by
    decide +kernel
  obtain ⟨-, -, -, down, ⟨-, logged⟩, -, -, sleeps⟩ :=
    ended_run_has_shape sleepless (show restless.Valid from rfl) {} (some .info) true () 24 ended
  have three : (run 24).events.toList.countP Event.isEntering = 3 := by decide +kernel
  refine ⟨ended, down, ?_, asks, ?_⟩
  · rw [← three]
    exact logged rfl
  · obtain ⟨node, remaining, pause, here, reason⟩ := sleeps 21 _ (by decide +kernel) asks rfl
    have no_delay : ∀ n ∈ restless.nodes, n.kind ≠ .delay := by decide
    cases pause with
    | delay => exact absurd reason.2.1 (no_delay node (mem_of_nodeIn? reason.1).1)
    | repetition => exact ⟨node, reason⟩

end Engine
end MacroGraph
