import MacroGraph.Proofs.Controller.Exclusion
import MacroGraph.Proofs.Controller.Thread

/-!
Stops reach the run that they are meant for and no other, and are never taken back:
`stops_are_kept`.
-/
namespace MacroGraph.System
open Engine
variable {s s' : System} {timing : Timing}

structure Sound (s : System) : Prop where
  exclusive : s.Exclusive
  threads : ∀ (i : Nat) (t : Thread), s.threads[i]? = some t → t.Sound

theorem Sound.step (sound : s.Sound) {move : Move} (step : s.Step move s') : s'.Sound := by
  have last := sound.exclusive.last
  refine ⟨sound.exclusive.step step, ?_⟩
  intro i t there
  cases before : s.threads[i]? with
  | none =>
    obtain ⟨_, _, _, _, _, _, _, rfl⟩ := step.spawned last there before
    exact Thread.sound_spawned _ rfl
  | some u =>
    have was := sound.threads i u before
    obtain ⟨t', there', changes⟩ := step.changes last before
    rw [there] at there'
    cases there'
    cases changes with
    | stays => exact was
    | steps _ step => exact step.sound was
    | lowers => exact was.lower

theorem Sound.steps (sound : s.Sound) (steps : s.Steps s') : s'.Sound :=
  steps.preserves (fun step sound => Sound.step sound step) sound

theorem Reachable.sound (reachable : Reachable timing s) : s.Sound := by
  apply Sound.steps _ reachable
  refine ⟨Reachable.exclusive .refl, ?_⟩
  intro i t there
  simp at there

/-- A thread whose flag is down makes no event but those that remain, whatever clients do. -/
theorem Sound.quiet (sound : s.Sound) (steps : s.Steps s') {i : Nat} {t : Thread}
    (there : s.threads[i]? = some t) (down : t.worker.running = false) :
    ∃ t', s'.threads[i]? = some t' ∧ t.Quiet t' := by
  induction steps with
  | refl => exact ⟨t, there, .refl down⟩
  | tail before last ih =>
    obtain ⟨u, here, quiet⟩ := ih
    obtain ⟨move, step⟩ := last
    have between := sound.steps before
    obtain ⟨t', there', changes⟩ := step.changes between.exclusive.last here
    refine ⟨t', there', quiet.trans ?_⟩
    cases changes with
    | stays => exact .refl quiet.down
    | steps _ step => exact step.quiet (between.threads i u here) quiet.down
    | lowers => exact Thread.quiet_lower

/-- While its engine has not ended, only a client that means to stop it lowers the flag of a thread,
and only while it is the active one. -/
theorem Sound.lowered (sound : s.Sound) {move : Move} (step : s.Step move s') {i : Nat}
    {t t' : Thread} (there : s.threads[i]? = some t) (there' : s'.threads[i]? = some t')
    (untold : t.told = none) (up : t.worker.running = true) (down : t'.worker.running = false) :
    s.active? = some (i, t) ∧ ∃ client request answer,
      move = .asks client request answer ∧ request.Stops t.worker := by
  obtain ⟨u, here, changes⟩ := step.changes sound.exclusive.last there
  rw [there'] at here
  cases here
  cases changes with
  | stays =>
    rw [up] at down
    cases down
  | steps _ step =>
    rw [step.running_eq untold, up] at down
    cases down
  | @lowers client request answer asked active meant =>
    exact ⟨active, client, request, answer, asked, meant⟩

theorem Sound.served (sound : s.Sound) {i : Nat} {t : Thread} (active : s.active? = some (i, t))
    (request : Request) :
    (request.Stops t.worker → (s.serve request).2 = s.put i t.lower) ∧
      (¬ request.Stops t.worker → (s.serve request).2 = s) := by
  have serves : Serves s (.ok ()) request (s.serve request).1 (s.serve request).2 :=
    serve_cases sound.exclusive.last request
  generalize (s.serve request).1 = answer at serves
  generalize (s.serve request).2 = after at serves ⊢
  cases serves with
  | launches _ idle | fails _ idle | misses _ idle =>
    rw [active] at idle
    cases idle
  | refuses _ active' other =>
    rw [active] at active'
    cases active'
    exact ⟨fun meant => absurd meant other, fun _ => rfl⟩
  | stops active' meant =>
    rw [active] at active'
    cases active'
    exact ⟨fun _ => rfl, fun other => absurd meant other⟩
  | looks =>
    constructor
    · intro meant
      cases meant
    · intro _
      rfl
  | collects held halted =>
    rw [active?, held, Option.filter_some, halted] at active
    cases active

theorem Sound.refused (sound : s.Sound) {request : Request} {active : String}
    (refused : (s.serve request).1 = .acted (.refused active)) : (s.serve request).2 = s := by
  have serves : Serves s (.ok ()) request (s.serve request).1 (s.serve request).2 :=
    serve_cases sound.exclusive.last request
  rw [refused] at serves
  generalize (s.serve request).2 = after at serves ⊢
  cases serves with
  | refuses => rfl
  | stops _ _ obeyed => rcases obeyed with h | h | h <;> cases h
  | misses _ _ told => rcases told with h | h <;> cases h

/-- Whatever clients and runs do, in any order: a thread is spawned with its flag up; while its
engine has not ended, its flag is lowered only on behalf of a client that means to stop it while it
is active; such a client always lowers it, and all else that clients ask for changes nothing as long
as it is active, like every request that is refused. From then on the flag stays down, and at most
one event is still made before the highlights are cleared at the end. -/
theorem stops_are_kept (reachable : Reachable timing s) :
    (∀ move s', s.Step move s' →
      (∀ (i : Nat) (t : Thread), s.threads[i]? = none → s'.threads[i]? = some t →
        t.worker.running = true ∧ t.events.toList = []) ∧
      ∀ (i : Nat) (t t' : Thread), s.threads[i]? = some t → s'.threads[i]? = some t' →
        t.told = none → t.worker.running = true → t'.worker.running = false →
          s.slot = some i ∧ t.isAlive = true ∧ ∃ client request answer,
            move = .asks client request answer ∧ request.Stops t.worker) ∧
    (∀ (i : Nat) (t : Thread), s.slot = some i → s.threads[i]? = some t → t.isAlive = true →
      ∀ request : Request,
        (request.Stops t.worker → (s.serve request).2 = s.put i t.lower) ∧
        (¬ request.Stops t.worker → (s.serve request).2 = s)) ∧
    (∀ request active, (s.serve request).1 = .acted (.refused active) →
      (s.serve request).2 = s) ∧
    ∀ s', s.Steps s' → ∀ (i : Nat) (t : Thread), s.threads[i]? = some t →
      t.worker.running = false → ∃ t', s'.threads[i]? = some t' ∧ t'.worker.running = false ∧
        (∃ lead new, lead.length ≤ 1 ∧ t'.events.toList = t.events.toList ++ new ∧
          new <+: lead ++ [.notice .cleared]) ∧
        (t'.worker.result? ≠ none → t'.events.toList.getLast? = some (.notice .cleared)) := by
  have sound := reachable.sound
  refine ⟨?steps, ?serves, fun request active => sound.refused, ?down⟩
  case steps =>
    intro move s' step
    constructor
    · intro i t new there
      obtain ⟨_, _, _, _, _, _, _, rfl⟩ := step.spawned sound.exclusive.last there new
      exact ⟨rfl, rfl⟩
    · intro i t t' there there' untold up down
      obtain ⟨active, asked⟩ := sound.lowered step there there' untold up down
      obtain ⟨slot, _, alive⟩ := active?_eq_some_iff.1 active
      exact ⟨slot, alive, asked⟩
  case serves =>
    intro i t slot there alive request
    exact sound.served (active?_eq_some_iff.2 ⟨slot, there, alive⟩) request
  case down =>
    intro s' steps i t there down
    obtain ⟨t', there', quiet⟩ := sound.quiet steps there down
    obtain ⟨new, made, few⟩ := quiet.made
    obtain ⟨lead, short, within⟩ := t.remaining_le
    refine ⟨t', there', quiet.down, ⟨lead, new, short, made, ?_⟩, ?_⟩
    · exact ((List.prefix_append new t'.remaining).trans few).trans within
    · intro ended
      apply ((sound.steps steps).threads i t' there').cleared
      exact Thread.over_of_result? ended

def worked (host : Host Unit) : Nat → Thread → Thread
  | 0, t => t
  | n + 1, t =>
    let before := worked host n t
    let r := (before.run ()).step host
    { before with worker := r.worker, events := r.events }

theorem steps_worked {host : Host Unit} (steady : ∀ e, (host () e).lowers = false) {i : Nat}
    {t : Thread} (there : s.threads[i]? = some t) {n : Nat}
    (going : ∀ k < n, (worked host k t).isAlive = true ∧
      (worked host k t).worker.machine.point.isOver = false) :
    s.Steps (s.put i (worked host n t)) := by
  induction n with
  | zero =>
    rw [worked, put_self there]
    exact .refl
  | succ n ih =>
    obtain ⟨alive, walking⟩ := going n (Nat.lt_succ_self n)
    have before := ih fun k less => going k (Nat.lt_succ_of_lt less)
    have next : (worked host n t).Step (worked host (n + 1) t) := by
      apply Thread.Step.works host () steady alive
      intro fault here
      rw [here] at walking
      cases walking
    obtain ⟨within, _⟩ := List.getElem?_eq_some_iff.1 there
    have moves : (s.put i (worked host n t)).Step (.runs i) (s.put i (worked host (n + 1) t)) := by
      have step := Step.runs (s := s.put i (worked host n t)) (List.getElem?_set_self within) next
      rwa [put_put] at step
    exact before.tail ⟨_, moves⟩

def single (t : Thread) : System := { threads := [t], slot := some 0 }

def entering : Thread := worked willing 4 { worker := { document := clicking, timing := {} } }

def halted : Thread := worked willing 5 entering.lower

def ended : Thread :=
  { halted with
    told := some (.ok .stopped)
    worker := { halted.worker with machine := halted.worker.machine.goto (.ended (.ok .stopped)) } }

theorem reachable_stopped : Reachable {} (single entering.lower) := by
  have starts : System.Step {} (.asks 0 (.start clicking) (.acted .started))
      (single { worker := { document := clicking, timing := {} } }) := .serves 0 (.start clicking)
  have walks : (single { worker := { document := clicking, timing := {} } }).Steps
      (single entering) := steps_worked (fun _ => rfl) (i := 0) rfl (n := 4) (by decide)
  have stops : (single entering).Step (.asks 1 .stop (.signalled true)) (single entering.lower) :=
    .serves 1 .stop
  exact .tail (.trans (.single ⟨_, starts⟩) walks) ⟨_, stops⟩

theorem steps_ended : (single entering.lower).Steps (single ended) := by
  have halts : (single entering.lower).Steps (single halted) :=
    steps_worked (fun _ => rfl) (i := 0) rfl (n := 5) (by decide)
  have tells : (single halted).Step (.runs 0)
      (single { halted with told := some (.ok .stopped) }) := .runs rfl (.tells none rfl rfl rfl)
  have ends : (single { halted with told := some (.ok .stopped) }).Step (.runs 0) (single ended) :=
    .runs rfl (.ends _ rfl rfl rfl)
  exact .tail (.tail halts ⟨_, tells⟩) ⟨_, ends⟩

/-- Stopped after it has looked at its flag and before it enters the start, the run still enters the
start; then it clears the highlights and tells that it was stopped. -/
theorem stopped_before_entering :
    Reachable {} (single entering.lower) ∧ (single entering.lower).Steps (single ended) ∧
      entering.worker.running = true ∧ entering.events.toList = [.notice .cleared] ∧
      ended.worker.running = false ∧ ended.worker.result? = some (.ok .stopped) ∧
      ended.events.toList = [.notice .cleared, .notice (.entered "s"), .notice .cleared] := by
  obtain ⟨_, _, _, down⟩ := stops_are_kept reachable_stopped
  obtain ⟨t', there, low, _⟩ := down (single ended) steps_ended 0 entering.lower rfl rfl
  have same : ended = t' := Option.some.inj there
  rw [← same] at low
  exact ⟨reachable_stopped, steps_ended, rfl, rfl, low, rfl, rfl⟩

end MacroGraph.System
