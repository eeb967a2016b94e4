import MacroGraph.Proofs.Controller.System
import MacroGraph.Proofs.Engine.Remaining

namespace MacroGraph
open Engine

namespace Thread
variable {t t' : Thread}

/-- What working does to a thread: one silent step, or one event with its answer. -/
inductive Works (t : Thread) : Thread → Prop where
  | moves {after : Machine} {notes : List Note}
    (moves : Machine.Moves t.worker.document t.worker.timing t.worker.running t.worker.machine after
      notes) : Works t { t with worker := { t.worker with machine := after } }
  | notified {n : Notice} (demand : t.worker.machine.demand = .notify n) :
    Works t { t with
      worker := { t.worker with machine := t.worker.machine.notified.1 }
      events := t.events.push (.notice n) }
  | answered {a : Action} (answer : Except ActionError Unit)
    (demand : t.worker.machine.demand = .act a) :
    Works t { t with
      worker := { t.worker with machine := t.worker.machine.answered answer }
      events := t.events.push (.action a) }
  | breaks {a : Action} (demand : t.worker.machine.demand = .act a) :
    Works t { t with
      worker := { t.worker with crashed := true }
      events := t.events.push (.action a) }

theorem intact (alive : t.isAlive = true) : t.worker.crashed = false :=
  Run.intact_of_isAlive (r := t.run ()) alive

theorem not_over (alive : t.isAlive = true)
    (going : ∀ fault, t.worker.machine.point ≠ .report fault) :
    t.worker.machine.point.isOver = false := by
  cases here : t.worker.machine.point with
  | report fault => exact absurd here (going fault)
  | ended result =>
    rw [isAlive, Worker.isAlive, intact alive] at alive
    simp [Machine.demand, here] at alive
  | _ => rfl

theorem over_of_result? (ended : t.worker.result? ≠ none) :
    t.worker.machine.point.isOver = true := by
  unfold Worker.result? Machine.demand at ended
  cases here : t.worker.machine.point with
  | report fault | ended result => rfl
  | _ => simp [here] at ended

theorem works {σ : Type} {host : Host σ} {world : σ}
    (steady : ∀ e, (host world e).lowers = false) (going : t.worker.machine.point.isOver = false) :
    Works t { t with
      worker := ((t.run world).step host).worker
      events := ((t.run world).step host).events } := by
  cases demand : t.worker.machine.demand with
  | nothing =>
    have moves := Machine.moves_step t.worker.document t.worker.timing t.worker.running demand
    have unended := moves.not_over going
    have same : (t.run world).worker.advance.1 = { t.worker with
        machine := (t.worker.machine.step t.worker.document t.worker.timing
          t.worker.running).1 } := by
      simp only [run, Worker.advance]
      split
      · next result here =>
        rw [here] at unended
        cases unended
      · rfl
    simp only [Run.step, run, demand] at same ⊢
    rw [same]
    exact .moves moves
  | notify n =>
    have up := steady (.notice n)
    simp only [Run.step, run, demand, Worker.notified, up, Bool.not_false, Bool.and_true]
    exact .notified demand
  | act a =>
    have up := steady (.action a)
    simp only [Run.step, run, demand, Worker.answered, up, Bool.not_false, Bool.and_true]
    cases (host world (.action a)).reply with
    | done => exact .answered (.ok ()) demand
    | failed cause => exact .answered (.error cause) demand
    | crashed => exact .breaks demand
  | ended result =>
    unfold Machine.demand at demand
    cases here : t.worker.machine.point <;> simp_all [Point.isOver]

structure Sound (t : Thread) : Prop where
  resumes : t.worker.machine.Resumes
  told : t.told ≠ none → t.worker.machine.point.isOver = true
  fixed : ∀ result, t.worker.machine.point = .ended result → t.told = some result
  cleared : t.worker.machine.point.isOver = true →
    t.events.toList.getLast? = some (.notice .cleared)

theorem Sound.lower (sound : t.Sound) : t.lower.Sound :=
  ⟨sound.resumes, sound.told, sound.fixed, sound.cleared⟩

theorem sound_spawned (w : Worker) (fresh : w.machine = {}) : ({ worker := w } : Thread).Sound := by
  constructor
  · intro n a next requested
    simp [fresh] at requested
  · intro told
    exact absurd rfl told
  · intro result finished
    simp [fresh] at finished
  · intro finished
    simp [fresh, Point.isOver] at finished

theorem Works.unended (works : Works t t') (resumes : t.worker.machine.Resumes)
    (going : t.worker.machine.point.isOver = false) (result : RunResult) :
    t'.worker.machine.point ≠ .ended result := by
  intro ended
  cases works with
  | moves moves =>
    have unended := moves.not_over going
    rw [show _ = Point.ended result from ended] at unended
    cases unended
  | notified demand =>
    rcases Machine.notified_cases demand with
      ⟨_, _, goes⟩ | ⟨n, _, _, goes⟩ | ⟨fault, _, _, goes⟩ <;>
    · simp only [goes] at ended
      cases ended
  | answered answer demand =>
    have unended := (Machine.remaining_answered demand resumes answer).2.2
    rw [show _ = Point.ended result from ended] at unended
    cases unended
  | breaks =>
    rw [show _ = Point.ended result from ended] at going
    cases going

theorem Works.sound (works : Works t t') (sound : t.Sound)
    (going : t.worker.machine.point.isOver = false) : t'.Sound := by
  have untold : t.told = none := by
    cases told : t.told with
    | none => rfl
    | some result =>
      rw [sound.told (by simp [told])] at going
      cases going
  have unended := works.unended sound.resumes going
  cases works with
  | moves moves =>
    refine ⟨moves.resumes, fun told => absurd untold told,
      fun result ended => absurd ended (unended result), ?_⟩
    have unended := moves.not_over going
    intro finished
    rw [unended] at finished
    cases finished
  | @notified n demand =>
    have goes : Machine.Goes t.worker.document t.worker.timing t.worker.machine
        t.worker.machine.notified.1 := .notified demand
    refine ⟨goes.resumes sound.resumes, fun told => absurd untold told,
      fun result ended => absurd ended (unended result), ?_⟩
    intro finished
    rw [(Machine.remaining_notified demand).2 finished, Array.toList_push, List.getLast?_concat]
  | @answered a answer demand =>
    have goes : Machine.Goes t.worker.document t.worker.timing t.worker.machine
        (t.worker.machine.answered answer) := .answered answer demand
    refine ⟨goes.resumes sound.resumes, fun told => absurd untold told,
      fun result ended => absurd ended (unended result), ?_⟩
    intro finished
    rw [(Machine.remaining_answered demand sound.resumes answer).2.2] at finished
    cases finished
  | breaks demand =>
    refine ⟨sound.resumes, fun told => absurd untold told,
      fun result ended => absurd ended (unended result), ?_⟩
    intro finished
    rw [going] at finished
    cases finished

theorem Step.sound (step : t.Step t') (sound : t.Sound) : t'.Sound := by
  cases step with
  | works host world steady alive going =>
    have walking := not_over alive going
    exact (Thread.works steady walking).sound sound walking
  | tells fault alive here untold =>
    refine ⟨sound.resumes, ?_, ?_, sound.cleared⟩
    · intro _
      simp [here, Point.isOver]
    · intro result ended
      simp [here] at ended
  | clears => exact sound.lower
  | ends result alive told =>
    refine ⟨Machine.Resumes.goto (by simp) _, fun _ => rfl, ?_, ?_⟩
    · rintro _ ⟨⟩
      exact told
    · intro _
      exact sound.cleared (sound.told (by simp [told]))
  | crashes => exact ⟨sound.resumes, sound.told, sound.fixed, sound.cleared⟩

/-- The events that may still come from a thread when its flag is down. -/
def remaining (t : Thread) : List Event :=
  if t.worker.crashed then [] else t.worker.machine.point.remaining

theorem remaining_le (t : Thread) :
    ∃ lead, lead.length ≤ 1 ∧ t.remaining <+: lead ++ [.notice .cleared] := by
  unfold remaining
  split
  · exact ⟨[], Nat.zero_le 1, List.nil_prefix⟩
  · exact t.worker.machine.point.remaining_le

/-- The flag has stayed down, and no event came but those that remained. -/
structure Quiet (t t' : Thread) : Prop where
  down : t'.worker.running = false
  made : ∃ new, t'.events.toList = t.events.toList ++ new ∧ new ++ t'.remaining <+: t.remaining

theorem Quiet.refl (down : t.worker.running = false) : t.Quiet t :=
  ⟨down, [], (List.append_nil _).symm, List.prefix_rfl⟩

theorem Quiet.trans {t₁ t₂ t₃ : Thread} (first : t₁.Quiet t₂) (second : t₂.Quiet t₃) :
    t₁.Quiet t₃ := by
  obtain ⟨new, made, few⟩ := first.made
  obtain ⟨new', made', few'⟩ := second.made
  refine ⟨second.down, new ++ new', ?_, ?_⟩
  · rw [made', made, List.append_assoc]
  · rw [List.append_assoc]
    exact ((List.prefix_append_right_inj new).2 few').trans few

theorem quiet_of_silent (down : t'.worker.running = false) (silent : t'.events = t.events)
    (fewer : t'.remaining <+: t.remaining) : t.Quiet t' := by
  refine ⟨down, [], ?_, fewer⟩
  rw [silent, List.append_nil]

theorem quiet_lower : t.Quiet t.lower := quiet_of_silent rfl rfl List.prefix_rfl

theorem Works.quiet (works : Works t t') (sound : t.Sound) (alive : t.isAlive = true)
    (going : t.worker.machine.point.isOver = false) (down : t.worker.running = false) :
    t.Quiet t' := by
  have whole : t.remaining = t.worker.machine.point.remaining := by
    rw [remaining, intact alive]
    rfl
  cases works with
  | moves moves =>
    rw [down] at moves
    refine quiet_of_silent down rfl ?_
    rw [whole, remaining, ← moves.remaining_eq going]
    split
    · exact List.nil_prefix
    · exact List.prefix_rfl
  | @notified n demand =>
    refine ⟨down, [.notice n], Array.toList_push, ?_⟩
    rw [whole, (Machine.remaining_notified demand).1, remaining, intact alive]
    exact List.prefix_rfl
  | @answered a answer demand =>
    obtain ⟨before, after, _⟩ := Machine.remaining_answered demand sound.resumes answer
    refine ⟨down, [.action a], Array.toList_push, ?_⟩
    rw [whole, before, remaining, intact alive, if_neg Bool.false_ne_true, after]
    exact List.prefix_rfl
  | @breaks a demand =>
    obtain ⟨before, _⟩ := Machine.remaining_answered demand sound.resumes (.ok ())
    refine ⟨down, [.action a], Array.toList_push, ?_⟩
    rw [whole, before]
    exact List.prefix_append [Event.action a] [.notice .cleared]

theorem Step.quiet (step : t.Step t') (sound : t.Sound) (down : t.worker.running = false) :
    t.Quiet t' := by
  cases step with
  | works host world steady alive going =>
    have walking := not_over alive going
    exact (Thread.works steady walking).quiet sound alive walking down
  | tells fault => exact quiet_of_silent down rfl List.prefix_rfl
  | clears => exact quiet_lower
  | ends result alive told =>
    refine quiet_of_silent down rfl ?_
    rw [remaining]
    split <;> exact List.nil_prefix
  | crashes => exact quiet_of_silent down rfl List.nil_prefix

theorem Works.running_eq (works : Works t t') : t'.worker.running = t.worker.running := by
  cases works <;> rfl

theorem Step.running_eq (step : t.Step t') (untold : t.told = none) :
    t'.worker.running = t.worker.running := by
  cases step with
  | works host world steady alive going =>
    exact (Thread.works steady (not_over alive going)).running_eq
  | tells | ends | crashes => rfl
  | clears result alive told =>
    rw [untold] at told
    cases told

end Thread
end MacroGraph
