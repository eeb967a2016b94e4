import MacroGraph.Proofs.Controller.Serving
import MacroGraph.Proofs.Engine.Cancellation

/-!
One run at a time. However clients and runs interleave, a thread that is not over is the one in
the slot and was spawned last: `one_run_at_a_time`.
-/
namespace MacroGraph.System
open Engine
variable {s s' : System} {timing : Timing}

structure Exclusive (s : System) : Prop where
  last : s.HoldsLast
  alone : ∀ i t, s.threads[i]? = some t → t.isAlive = true → s.slot = some i

theorem Exclusive.active (exclusive : s.Exclusive) {i : Nat} {t : Thread}
    (there : s.threads[i]? = some t) (alive : t.isAlive = true) : s.active? = some (i, t) :=
  active?_eq_some_iff.2 ⟨exclusive.alone i t there alive, there, alive⟩

theorem Exclusive.active?_eq_none_iff (exclusive : s.Exclusive) :
    s.active? = none ↔ ∀ t ∈ s.threads, t.isAlive = false := by
  constructor
  · intro idle t mem
    obtain ⟨i, there⟩ := List.mem_iff_getElem?.1 mem
    cases alive : t.isAlive with
    | false => rfl
    | true =>
      have active := exclusive.active there alive
      rw [idle] at active
      cases active
  · intro halted
    cases active : s.active? with
    | none => rfl
    | some held =>
      obtain ⟨i, t⟩ := held
      obtain ⟨_, there, alive⟩ := active?_eq_some_iff.1 active
      rw [halted t (List.mem_of_getElem? there)] at alive
      cases alive

theorem Exclusive.step (exclusive : s.Exclusive) {move : Move} (step : s.Step move s') :
    s'.Exclusive := by
  refine ⟨step.holdsLast exclusive.last, ?_⟩
  intro i t there alive
  cases before : s.threads[i]? with
  | none => exact (step.spawned exclusive.last there before).2.1
  | some u =>
    obtain ⟨t', there', changes⟩ := step.changes exclusive.last before
    rw [there] at there'
    cases there'
    have going : u.isAlive = true := by
      cases changes with
      | stays => exact alive
      | steps _ step => exact step.alive
      | lowers _ active => exact (active?_eq_some_iff.1 active).2.2
    have active := exclusive.active before going
    rw [step.slot_of_active exclusive.last active]
    exact exclusive.alone i u before going

theorem Reachable.exclusive (reachable : Reachable timing s) : s.Exclusive := by
  apply Steps.preserves (fun step exclusive => Exclusive.step exclusive step) reachable
  constructor
  · intro i slot
    cases slot
  · intro i t there
    simp at there

theorem length_filter_le_one {α : Type} {p : α → Bool} {xs : List α}
    (last : ∀ i x, xs[i]? = some x → p x = true → i + 1 = xs.length) :
    (xs.filter p).length ≤ 1 := by
  rcases List.eq_nil_or_concat xs with rfl | ⟨init, x, rfl⟩
  · exact Nat.zero_le 1
  · rw [List.concat_eq_append] at last ⊢
    have none_before : init.filter p = [] := by
      apply List.filter_eq_nil_iff.2
      intro y mem passes
      obtain ⟨i, there⟩ := List.mem_iff_getElem?.1 mem
      obtain ⟨within, _⟩ := List.getElem?_eq_some_iff.1 there
      have here := last i y (by rw [List.getElem?_append_left within, there]) passes
      rw [List.length_append, List.length_singleton] at here
      omega
    rw [List.filter_append, none_before, List.nil_append]
    exact List.length_filter_le p [x]

theorem Exclusive.started_iff (exclusive : s.Exclusive) {request : Request} {d : Document}
    (asks : request.document? = some d) :
    (s.serve request).1 = .acted .started ↔ ∀ t ∈ s.threads, t.isAlive = false := by
  rw [← exclusive.active?_eq_none_iff]
  have serves : Serves s (.ok ()) request (s.serve request).1 (s.serve request).2 :=
    serve_cases exclusive.last request
  generalize (s.serve request).1 = answer at serves ⊢
  generalize (s.serve request).2 = after at serves
  cases serves with
  | launches _ idle => simp [idle]
  | fails _ _ unspawned => cases unspawned
  | refuses _ active => simp [active]
  | stops active _ obeyed =>
    rw [active]
    rcases obeyed with rfl | rfl | rfl <;> simp
  | misses unasked =>
    rw [unasked] at asks
    cases asks
  | looks | collects => cases asks

/-- However clients and runs interleave, a thread that is not over is in the slot and was spawned
last, so there is at most one. In one more step a thread that is over stays as it is, and only
when all threads are over is another one spawned; then every request to run a document does so. -/
theorem one_run_at_a_time (reachable : Reachable timing s) :
    (∀ (i : Nat) (t : Thread), s.threads[i]? = some t → t.isAlive = true →
      s.slot = some i ∧ i + 1 = s.threads.length) ∧
    (s.threads.filter Thread.isAlive).length ≤ 1 ∧
    (∀ move s', s.Step move s' →
      (∀ (i : Nat) (t : Thread), s.threads[i]? = some t → t.isAlive = false →
        s'.threads[i]? = some t) ∧
      ∀ i : Nat, s.threads[i]? = none → s'.threads[i]? ≠ none →
        s'.slot = some i ∧ ∀ t ∈ s.threads, t.isAlive = false) ∧
    ∀ request d, request.document? = some d →
      ((s.serve request).1 = .acted .started ↔ ∀ t ∈ s.threads, t.isAlive = false) := by
  have exclusive := reachable.exclusive
  have last : ∀ i t, s.threads[i]? = some t → t.isAlive = true → i + 1 = s.threads.length := by
    intro i t there alive
    exact exclusive.last i (exclusive.alone i t there alive)
  refine ⟨?slot, length_filter_le_one last, ?steps, fun request d => exclusive.started_iff⟩
  case slot =>
    intro i t there alive
    exact ⟨exclusive.alone i t there alive, last i t there alive⟩
  case steps =>
    intro move s' step
    constructor
    · exact fun i t there halted => step.halted_stays exclusive.last there halted
    · intro i new there
      obtain ⟨t, there⟩ := Option.ne_none_iff_exists'.1 there
      obtain ⟨idle, slot, _⟩ := step.spawned exclusive.last there new
      exact ⟨slot, exclusive.active?_eq_none_iff.1 idle⟩

/-- A run is started, a second client is refused, the run breaks down, and a toggle by the second
client starts another one. -/
theorem restarted_after_crash :
    ∃ s : System, Reachable {} s ∧ s.threads.length = 2 ∧ s.slot = some 1 ∧
      (s.threads.filter Thread.isAlive).length = 1 ∧
      ¬ (s.serve (.start clicking)).1 = .acted .started := by
  let fresh : Thread := { worker := { document := clicking, timing := {} } }
  let broken : Thread := { fresh with worker := { fresh.worker with crashed := true } }
  let running : System := { threads := [fresh], slot := some 0 }
  let halted : System := { threads := [broken], slot := some 0 }
  let again : System := { threads := [broken, fresh], slot := some 1 }
  have starts : System.Step {} (.asks 0 (.start clicking) (.acted .started)) running :=
    .serves 0 (.start clicking)
  have refuses : running.Step (.asks 1 (.start clicking) (.acted (.refused "s"))) running :=
    .serves 1 (.start clicking)
  have breaks : running.Step (.runs 0) halted := .runs rfl (.crashes rfl)
  have restarts : halted.Step (.asks 1 (.toggle clicking) (.acted .started)) again :=
    .serves 1 (.toggle clicking)
  have reachable : Reachable {} again :=
    .tail (.tail (.tail (.single ⟨_, starts⟩) ⟨_, refuses⟩) ⟨_, breaks⟩) ⟨_, restarts⟩
  obtain ⟨slot, few, _, started⟩ := one_run_at_a_time reachable
  have alive : fresh.isAlive = true := rfl
  refine ⟨again, reachable, rfl, (slot 1 fresh rfl alive).1, ?one, ?refused⟩
  case one => exact Nat.le_antisymm few (by decide)
  case refused =>
    rw [started (.start clicking) clicking rfl]
    intro halted
    rw [halted fresh (by simp [again])] at alive
    cases alive

end MacroGraph.System
