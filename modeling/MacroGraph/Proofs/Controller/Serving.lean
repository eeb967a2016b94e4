import MacroGraph.Proofs.Controller.System

namespace MacroGraph.System
open Engine

/-- What serving a request does, and what it answers. -/
inductive Serves (s : System) (thread : Except SpawnFailure Unit) :
    Request → Answer → System → Prop where
  | launches {request : Request} {d : Document} (asks : request.document? = some d)
    (idle : s.active? = none) (spawned : thread = .ok ()) :
    Serves s thread request (.acted .started) (s.spawn { document := d, timing := s.timing })
  | fails {request : Request} {d : Document} {failure : SpawnFailure}
    (asks : request.document? = some d) (idle : s.active? = none)
    (unspawned : thread = .error failure) :
    Serves s thread request (.failed failure) { s with slot := none }
  | refuses {request : Request} {d : Document} {i : Nat} {t : Thread}
    (asks : request.document? = some d) (active : s.active? = some (i, t))
    (other : ¬ request.Stops t.worker) :
    Serves s thread request (.acted (.refused t.worker.document.start)) s
  | stops {request : Request} {answer : Answer} {i : Nat} {t : Thread}
    (active : s.active? = some (i, t)) (meant : request.Stops t.worker)
    (obeyed : answer = .acted .stopped ∨ answer = .signalled true ∨ answer = .done) :
    Serves s thread request answer (s.put i t.lower)
  | misses {request : Request} {answer : Answer} (asks : request.document? = none)
    (idle : s.active? = none) (told : answer = .signalled false ∨ answer = .done) :
    Serves s thread request answer s
  | looks {waiting : Controller.Waiting} (nothing : ∀ result, waiting ≠ .collected result) :
    Serves s thread .look (.found waiting) s
  | collects {i : Nat} {t : Thread} (held : s.held? = some (i, t)) (halted : t.isAlive = false) :
    Serves s thread .look (.found (.collected (Controller.collected t.worker)))
      { s with slot := none }

theorem controller_active? (s : System) :
    s.controller.active? = s.active?.map fun held => held.2.worker := by
  unfold controller active? Controller.active?
  cases s.held? with
  | none => rfl
  | some held =>
    rw [Option.map_some, Option.filter_some, Option.filter_some, Thread.isAlive]
    split <;> rfl

theorem controller_active?_eq_some {s : System} {i : Nat} {t : Thread}
    (active : s.active? = some (i, t)) : s.controller.active? = some t.worker := by
  rw [controller_active?, active, Option.map_some]

theorem held?_of_active? {s : System} {i : Nat} {t : Thread} (active : s.active? = some (i, t)) :
    s.held? = some (i, t) := by
  obtain ⟨slot, there, _⟩ := active?_eq_some_iff.1 active
  exact held?_eq_some_iff.2 ⟨slot, there⟩

theorem follow_controller {s : System} (last : s.HoldsLast) {answer : Answer}
    (other : answer ≠ .acted .started) : s.follow answer s.controller.slot = s := by
  unfold controller
  cases held : s.held? with
  | none =>
    have slot := last.slot_of_held?_eq_none held
    simp [follow, ← slot]
  | some held' =>
    obtain ⟨i, t⟩ := held'
    have same := put_self (held?_eq_some_iff.1 held).2
    unfold follow
    split
    · exact absurd rfl other
    · next w _ kept =>
      simp only [Option.map_some, Option.some.injEq] at kept
      simp only [held, ← kept, same]
    · next kept => cases kept

theorem serve_look_of_halted {s : System} {thread : Except SpawnFailure Unit} {i : Nat}
    {t : Thread} (held : s.held? = some (i, t))
    (halted : t.isAlive = false) :
    s.serve .look thread =
      (.found (.collected (Controller.collected t.worker)), { s with slot := none }) := by
  have kept : s.controller.slot = some t.worker := by rw [controller, held, Option.map_some]
  have halted : t.worker.isAlive = false := halted
  simp [serve, Controller.serve, Controller.poll, kept, halted, follow]

variable {s : System} {thread : Except SpawnFailure Unit} (last : s.HoldsLast)
include last

theorem serve_of_idle (idle : s.active? = none) {request : Request} (act : request ≠ .look) :
    Serves s thread request (s.serve request thread).1 (s.serve request thread).2 := by
  have nothing : s.controller.active? = none := by rw [controller_active?, idle, Option.map_none]
  cases request with
  | start d | toggle d =>
    simp only [serve, Controller.serve, Controller.start, Controller.toggle, nothing,
      Controller.launch, Controller.vacate]
    cases thread with
    | ok => exact .launches rfl idle rfl
    | error failure => exact .fails rfl idle rfl
  | stop =>
    simp only [serve, Controller.serve, Controller.stop, nothing]
    rw [follow_controller last (by simp)]
    exact .misses rfl idle (.inl rfl)
  | emergencyStop =>
    simp only [serve, Controller.serve, Controller.emergencyStop, Controller.stop, nothing]
    rw [follow_controller last (by simp)]
    exact .misses rfl idle (.inr rfl)
  | look => exact absurd rfl act

theorem serve_of_active {i : Nat} {t : Thread} (active : s.active? = some (i, t))
    {request : Request} (act : request ≠ .look) :
    Serves s thread request (s.serve request thread).1 (s.serve request thread).2 := by
  have going := controller_active?_eq_some active
  have held := held?_of_active? active
  cases request with
  | start d =>
    simp only [serve, Controller.serve, Controller.start, going, Controller.refuse]
    rw [follow_controller last (by simp)]
    exact .refuses rfl active (by intro meant; cases meant)
  | toggle d =>
    simp only [serve, Controller.serve, Controller.toggle, going, Controller.refuse]
    by_cases same : Controller.runs t.worker d = true
    · simp only [same, if_true, follow, held]
      obtain ⟨copy, start⟩ := Controller.runs_iff.1 same
      exact .stops active (.toggle d copy start) (.inl rfl)
    · rw [if_neg same, follow_controller last (by simp)]
      refine .refuses rfl active ?_
      rintro (_ | _ | ⟨_, copy, start⟩)
      exact same (Controller.runs_iff.2 ⟨copy, start⟩)
  | stop =>
    simp only [serve, Controller.serve, Controller.stop, going, follow, held]
    exact .stops active .stop (.inr (.inl rfl))
  | emergencyStop =>
    simp only [serve, Controller.serve, Controller.emergencyStop, Controller.stop, going, follow,
      held]
    exact .stops active .emergencyStop (.inr (.inr rfl))
  | look => exact absurd rfl act

theorem serve_look_of_empty (empty : s.held? = none) :
    s.serve .look thread = (.found .nothing, s) := by
  have kept : s.controller.slot = none := by rw [controller, empty, Option.map_none]
  simp only [serve, Controller.serve, Controller.poll, kept]
  rw [← kept, follow_controller last (by simp)]

theorem serve_look_of_alive {i : Nat} {t : Thread} (held : s.held? = some (i, t))
    (alive : t.isAlive = true) : s.serve .look thread = (.found .pending, s) := by
  have kept : s.controller.slot = some t.worker := by rw [controller, held, Option.map_some]
  have alive : t.worker.isAlive = true := alive
  simp only [serve, Controller.serve, Controller.poll, kept, alive, if_true]
  rw [← kept, follow_controller last (by simp)]

theorem serve_look : Serves s thread .look (s.serve .look thread).1 (s.serve .look thread).2 := by
  cases held : s.held? with
  | none =>
    rw [serve_look_of_empty last held]
    exact .looks nofun
  | some held' =>
    obtain ⟨i, t⟩ := held'
    cases alive : t.isAlive with
    | true =>
      rw [serve_look_of_alive last held alive]
      exact .looks nofun
    | false =>
      rw [serve_look_of_halted held alive]
      exact .collects held alive

theorem serve_cases (request : Request) :
    Serves s thread request (s.serve request thread).1 (s.serve request thread).2 := by
  by_cases look : request = .look
  · subst look
    exact serve_look last
  · cases active : s.active? with
    | none => exact serve_of_idle last active look
    | some held =>
      obtain ⟨i, t⟩ := held
      exact serve_of_active last active look

theorem Step.inversion {move : Move} {s' : System} (step : s.Step move s') :
    (∃ client request thread answer, move = .asks client request answer ∧
        Serves s thread request answer s') ∨
      ∃ i t t', move = .runs i ∧ s.threads[i]? = some t ∧ t.Step t' ∧ s' = s.put i t' := by
  cases step with
  | serves client request thread =>
    exact .inl ⟨client, request, thread, _, rfl, serve_cases last request⟩
  | @runs i t t' there step => exact .inr ⟨i, t, t', rfl, there, step, rfl⟩

theorem Step.holdsLast {move : Move} {s' : System} (step : s.Step move s') : s'.HoldsLast := by
  rcases step.inversion last with ⟨_, _, _, _, _, serves⟩ | ⟨i, t, t', _, _, _, rfl⟩
  · cases serves with
    | launches =>
      intro j slot
      cases slot
      simp [spawn]
    | refuses | misses | looks => exact last
    | stops =>
      intro j slot
      rw [put, List.length_set]
      exact last j slot
    | collects | fails =>
      intro j slot
      cases slot
  · intro j slot
    rw [put, List.length_set]
    exact last j slot

inductive Changes (s : System) (move : Move) (i : Nat) (t : Thread) : Thread → Prop where
  | stays : Changes s move i t t
  | steps {t' : Thread} (self : move = .runs i) (step : t.Step t') : Changes s move i t t'
  | lowers {client : Nat} {request : Request} {answer : Answer}
    (asked : move = .asks client request answer) (active : s.active? = some (i, t))
    (meant : request.Stops t.worker) : Changes s move i t t.lower

theorem Step.changes {move : Move} {s' : System} (step : s.Step move s') {i : Nat} {t : Thread}
    (there : s.threads[i]? = some t) :
    ∃ t', s'.threads[i]? = some t' ∧ Changes s move i t t' := by
  rcases step.inversion last with
    ⟨client, request, _, answer, asked, serves⟩ | ⟨j, u, u', self, here, moved, rfl⟩
  · cases serves with
    | launches =>
      refine ⟨t, ?_, .stays⟩
      obtain ⟨within, _⟩ := List.getElem?_eq_some_iff.1 there
      rw [spawn, List.getElem?_append_left within]
      exact there
    | refuses | misses | looks | collects | fails => exact ⟨t, there, .stays⟩
    | @stops _ _ j u active meant =>
      obtain ⟨_, here, _⟩ := active?_eq_some_iff.1 active
      rcases getElem?_put here there u.lower with ⟨rfl, rfl, now⟩ | now
      · exact ⟨u.lower, now, .lowers asked active meant⟩
      · exact ⟨t, now, .stays⟩
  · rcases getElem?_put here there u' with ⟨rfl, rfl, now⟩ | now
    · exact ⟨u', now, .steps self moved⟩
    · exact ⟨t, now, .stays⟩

theorem Step.halted_stays {move : Move} {s' : System} (step : s.Step move s') {i : Nat} {t : Thread}
    (there : s.threads[i]? = some t) (halted : t.isAlive = false) : s'.threads[i]? = some t := by
  obtain ⟨t', there', changes⟩ := step.changes last there
  cases changes with
  | stays => exact there'
  | steps _ step =>
    rw [step.alive] at halted
    cases halted
  | lowers _ active =>
    rw [(active?_eq_some_iff.1 active).2.2] at halted
    cases halted

theorem Step.spawned {move : Move} {s' : System} (step : s.Step move s') {i : Nat} {t : Thread}
    (there : s'.threads[i]? = some t) (new : s.threads[i]? = none) :
    s.active? = none ∧ s'.slot = some i ∧ ∃ client request d,
      move = .asks client request (.acted .started) ∧ request.document? = some d ∧
        t = { worker := { document := d, timing := s.timing } } := by
  rcases step.inversion last with
    ⟨client, request, _, answer, asked, serves⟩ | ⟨j, u, u', self, here, step, rfl⟩
  · cases serves with
    | @launches _ d asks idle =>
      rw [List.getElem?_eq_none_iff] at new
      rw [spawn, List.getElem?_append_right new, List.getElem?_singleton] at there
      split at there
      · next first =>
        cases there
        have here : s.threads.length = i := by omega
        exact ⟨idle, congrArg some here, client, request, d, asked, asks, rfl⟩
      · cases there
    | refuses | misses | looks | collects | fails =>
      rw [new] at there
      cases there
    | stops =>
      rw [getElem?_put_eq_none new] at there
      cases there
  · rw [getElem?_put_eq_none new] at there
    cases there

theorem Step.slot_of_active {move : Move} {s' : System} (step : s.Step move s')
    {held : Nat × Thread} (active : s.active? = some held) : s'.slot = s.slot := by
  rcases step.inversion last with ⟨_, _, _, _, _, serves⟩ | ⟨_, _, _, _, _, _, rfl⟩
  · cases serves with
    | launches _ idle | fails _ idle =>
      rw [active] at idle
      cases idle
    | collects held halted =>
      rw [active?, held, Option.filter_some, halted] at active
      cases active
    | refuses | stops | misses | looks => rfl
  · rfl

end MacroGraph.System
