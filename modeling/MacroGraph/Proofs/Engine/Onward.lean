import Mathlib.Logic.Function.Iterate
import MacroGraph.Proofs.Engine.Nesting

/-!
Undisturbed runs. As long as its flag is up, its actions succeed and nothing breaks, what a run
does is determined by its machine alone: `Run.machine_steps`. Only the end of a walk takes a loop
off the stack: `Machine.Goes.above`.
-/
namespace MacroGraph.Engine
variable {d : Document} {t : Timing}

deriving instance DecidableEq for Point

def Point.isFaulted : Point → Bool
  | .finish (some _) | .report (some _) | .ended (.error _) => true
  | _ => false

def Point.isFinished : Point → Bool
  | .finish _ | .report _ | .ended _ => true
  | _ => false

theorem Point.not_faulted_of_goes_on {p : Point} (goes : p.isFinished = false ∨ p = .finish none) :
    p.isFaulted = false := by
  rcases goes with going | rfl
  · cases p with
    | finish | report | ended => cases going
    | _ => rfl
  · rfl

theorem Point.not_ended_of_goes_on {p : Point} (goes : p.isFinished = false ∨ p = .finish none)
    (result : RunResult) : p ≠ .ended result := by
  rintro rfl
  rcases goes with going | finish
  · cases going
  · cases finish

def Frame.resumed : Frame → Point
  | loop n next total => .iterate n next total
  | whileLoop n next => .check n next

namespace Machine

/-- What a step makes of a machine when the flag is up and an action succeeds. -/
def onward (d : Document) (t : Timing) (m : Machine) : Machine :=
  match m.demand with
  | .nothing => (m.step d t true).1
  | .notify _ => m.notified.1
  | .act _ => m.answered (.ok ())
  | .ended _ => m

theorem goes_onward (d : Document) (t : Timing) (m : Machine) : Goes d t m (m.onward d t) := by
  unfold onward
  cases demand : m.demand with
  | nothing => exact .moves (moves_step d t true demand)
  | notify n => exact .notified demand
  | act a => exact .answered (.ok ()) demand
  | ended result => exact .stays

/-- The event that a machine makes next, if it makes one. -/
def event? (m : Machine) : Option Event :=
  match m.demand with
  | .notify n => some (.notice n)
  | .act a => some (.action a)
  | _ => none

/-- The events of the next steps when the flag is up and actions succeed. -/
def made (d : Document) (t : Timing) : Nat → Machine → List Event
  | 0, _ => []
  | k + 1, m => m.event?.toList ++ made d t k (m.onward d t)

theorem made_add (j k : Nat) (m : Machine) :
    made d t (j + k) m = made d t j m ++ made d t k ((onward d t)^[j] m) := by
  induction j generalizing m with
  | zero => simp [made]
  | succ j ih => rw [Nat.succ_add, made, made, ih, Function.iterate_succ_apply, List.append_assoc]

theorem made_prefix {j k : Nat} (le : j ≤ k) (m : Machine) : made d t j m <+: made d t k m := by
  obtain ⟨rest, rfl⟩ := Nat.exists_eq_add_of_le le
  rw [made_add]
  exact List.prefix_append _ _

theorem made_one (m : Machine) : made d t 1 m = m.event?.toList := by
  simp [made]

theorem Fits.iterate_onward (valid : d.Valid) {m : Machine} (fits : m.Fits d) (n : Nat) :
    ((onward d t)^[n] m).Fits d := by
  induction n with
  | zero => exact fits
  | succ n ih =>
    rw [Function.iterate_succ_apply']
    exact (goes_onward d t _).fits valid ih

theorem Goes.isFaulted {m after : Machine} (goes : Goes d t m after)
    (faulted : m.point.isFaulted = true) : after.point.isFaulted = true := by
  cases goes with
  | moves moves =>
    cases moves with
    | ends fault here =>
      rw [here] at faulted
      cases fault with
      | none => cases faulted
      | some fault => rfl
    | begins here | unrooted here | roots _ here | takes _ _ here | stops _ here | executes _ here
    | skips _ here | iterates _ _ _ _ here | iteratesEmpty _ _ _ here | completes _ _ _ here
    | checks _ _ _ here | checksEmpty _ _ here | refuses _ _ here | quits _ _ here
    | sleeps _ _ _ here | wakes _ _ _ here | follows _ _ _ here | leaves _ _ here
    | resumesLoop _ _ _ _ here | resumesWhile _ _ _ here | pauses _ here | finishes here =>
      rw [here] at faulted
      cases faulted
  | notified demand =>
    unfold Machine.notified
    cases here : m.point with
    | finish fault => cases fault <;> simp_all [Point.isFaulted, goto]
    | _ => simp_all [Point.isFaulted, Machine.demand]
  | answered answer demand =>
    obtain ⟨n, next, here⟩ := request_of_demand demand
    rw [here] at faulted
    cases faulted
  | stays => exact faulted

theorem isFaulted_answered {m : Machine} {a : Action} (cause : ActionError)
    (demand : m.demand = .act a) : (m.answered (.error cause)).point.isFaulted = true := by
  obtain ⟨n, next, here⟩ := request_of_demand demand
  unfold Machine.answered
  rw [here]
  rfl

theorem Fits.answered_ok {m : Machine} (fits : m.Fits d) {a : Action} (demand : m.demand = .act a) :
    (∃ n pin, (m.answered (.ok ())).point = .leave n pin) ∨
      ∃ n remaining pause, (m.answered (.ok ())).point = .wait n remaining pause := by
  obtain ⟨n, next, here⟩ := request_of_demand demand
  have point := fits.point
  unfold Machine.answered
  rw [here] at point ⊢
  cases next with
  | leave l pin => exact .inl ⟨l, pin, rfl⟩
  | wait l remaining pause => exact .inr ⟨l, remaining, pause, rfl⟩
  | _ => cases point

theorem Executes.isFinished {n : Node} {p : Point} (executes : Executes n p) :
    p.isFinished = false := by
  cases executes <;> rfl

theorem Moves.isFinished {running : Bool} {m after : Machine} {notes : List Note}
    (moves : Moves d t running m after notes) (fits : m.Fits d)
    (going : m.point.isFinished = false) :
    after.point.isFinished = false ∨ after.point = .finish none ∧ m.stack = [] := by
  cases moves with
  | unrooted here missing =>
    have point := fits.point
    rw [here] at point
    exact .inr ⟨rfl, point⟩
  | finishes here empty halted => exact .inr ⟨rfl, empty⟩
  | executes n here up =>
    rw [(executed_eq d m n).1]
    exact .inl (executes_execution d m.outputs n).isFinished
  | wakes n remaining pause here halted => cases pause <;> exact .inl rfl
  | ends fault here =>
    rw [here] at going
    cases going
  | _ => exact .inl rfl

theorem notified_ne_enter (m : Machine) (n : Node) : m.notified.1.point ≠ .enter n := by
  unfold notified
  split <;> simp_all [goto]

theorem notified_isFinished {m : Machine} {n : Notice} (demand : m.demand = .notify n)
    (going : m.point.isFinished = false) : m.notified.1.point.isFinished = false := by
  rcases notified_cases demand with ⟨_, _, goes⟩ | ⟨l, _, _, goes⟩ | ⟨fault, here, _⟩
  · rw [goes]
    rfl
  · rw [goes]
    rfl
  · rw [here] at going
    cases going

theorem Fits.onward_isFinished {m : Machine} (fits : m.Fits d)
    (going : m.point.isFinished = false) :
    (m.onward d t).point.isFinished = false ∨
      (m.onward d t).point = .finish none ∧ m.stack = [] := by
  unfold onward
  cases demand : m.demand with
  | nothing => exact (moves_step d t true demand).isFinished fits going
  | notify n => exact .inl (notified_isFinished demand going)
  | act a =>
    left
    rcases fits.answered_ok demand with ⟨n, pin, next⟩ | ⟨n, remaining, pause, next⟩ <;>
      rw [next] <;> rfl
  | ended result => exact .inl going

theorem Moves.enters {running : Bool} {m after : Machine} {notes : List Note}
    (moves : Moves d t running m after notes) {n : Node} (enters : after.point = .enter n) :
    running = true := by
  cases moves with
  | takes id n here up found => exact up
  | executes l here up => exact up
  | wakes l remaining pause here halted => cases pause <;> cases enters
  | _ => cases enters

/-- A silent step leaves the stack, opens a body, or goes on with the loop whose body was walked. -/
theorem Moves.stack_cases {running : Bool} {m after : Machine} {notes : List Note}
    (moves : Moves d t running m after notes) :
    after.stack = m.stack ∨ (∃ f, after.stack = f :: m.stack) ∨
      ∃ f, m.stack = f :: after.stack ∧ m.point = .walked ∧ after.point = f.resumed := by
  cases moves with
  | executes n => exact .inl (executed_eq d m n).2.1
  | iterates | checks => exact .inr (.inl ⟨_, rfl⟩)
  | resumesLoop n next total rest here top | resumesWhile n next rest here top =>
    exact .inr (.inr ⟨_, top, here, rfl⟩)
  | _ => exact .inl rfl

theorem stack_notified (m : Machine) : m.notified.1.stack = m.stack := by
  unfold notified
  split <;> rfl

theorem stack_answered (m : Machine) (answer : Except ActionError Unit) :
    (m.answered answer).stack = m.stack := by
  unfold answered
  split <;> rfl

def Above (f : Frame) (stack : List Frame) (m : Machine) : Prop :=
  ∃ inner, m.stack = inner ++ f :: stack

theorem not_above {m : Machine} {stack : List Frame} (frames : m.stack = stack) (f : Frame) :
    ¬ m.Above f stack := by
  rintro ⟨inner, longer⟩
  have lengths := congrArg List.length (frames.symm.trans longer)
  simp only [List.length_append, List.length_cons] at lengths
  omega

/-- A body is walked until its loop goes on. -/
theorem Goes.above {m after : Machine} (goes : Goes d t m after) {f : Frame} {stack : List Frame}
    (above : m.Above f stack) :
    after.Above f stack ∨ after.stack = stack ∧ after.point = f.resumed := by
  obtain ⟨inner, frames⟩ := above
  cases goes with
  | moves moves =>
    rcases moves.stack_cases with same | ⟨top, opened⟩ | ⟨top, closed, _, resumed⟩
    · exact .inl ⟨inner, same.trans frames⟩
    · exact .inl ⟨top :: inner, by rw [opened, frames, List.cons_append]⟩
    · rw [frames] at closed
      cases inner with
      | nil =>
        obtain ⟨rfl, rest⟩ := List.cons_eq_cons.1 closed
        exact .inr ⟨rest.symm, resumed⟩
      | cons first inner => exact .inl ⟨inner, (List.cons_eq_cons.1 closed).2.symm⟩
  | notified demand => exact .inl ⟨inner, (stack_notified m).trans frames⟩
  | answered answer demand => exact .inl ⟨inner, (stack_answered m answer).trans frames⟩
  | stays => exact .inl ⟨inner, frames⟩

end Machine

namespace Run
variable {σ : Type} {host : Host σ}

/-- What holds of a run of a document from its beginning on. -/
structure Fits (d : Document) (t : Timing) (r : Run σ) : Prop where
  document : r.worker.document = d
  timing : r.worker.timing = t
  machine : r.worker.machine.Fits d
  /-- A run breaks only within an action. -/
  breaks : r.worker.crashed = true → ∃ a, r.worker.machine.demand = .act a
  /-- Between taking up a node and reporting it the flag stays up. -/
  enters : ∀ n, r.worker.machine.point = .enter n → r.worker.running = true

theorem fits_begin (d : Document) (t : Timing) (level : Option Log.Level) (running : Bool)
    (world : σ) : (begin d t level running world).Fits d t :=
  ⟨rfl, rfl, ⟨rfl, rfl⟩, nofun, nofun⟩

theorem breaks_step (host : Host σ) {r : Run σ} (alive : r.worker.isAlive = true)
    (crashed : (r.step host).worker.crashed = true) :
    ∃ a, (r.step host).worker.machine.demand = .act a := by
  have intact := intact_of_isAlive alive
  cases demand : r.worker.machine.demand with
  | nothing =>
    rw [step_worker_silent demand] at crashed
    cases intact.symm.trans crashed
  | notify n =>
    rw [step_worker_notify demand] at crashed
    cases intact.symm.trans crashed
  | act a =>
    rw [step_worker_act demand] at crashed ⊢
    cases reply : (host r.world (.action a)).reply with
    | crashed => exact ⟨a, demand⟩
    | done | failed =>
      rw [reply] at crashed
      cases intact.symm.trans crashed
  | ended result => simp [Worker.isAlive, intact, demand] at alive

theorem enters_step (host : Host σ) {r : Run σ} (fits : r.worker.machine.Fits d) {n : Node}
    (enters : (r.step host).worker.machine.point = .enter n) :
    (r.step host).worker.running = true := by
  cases demand : r.worker.machine.demand with
  | nothing =>
    have moves := Machine.moves_step r.worker.document r.worker.timing r.worker.running demand
    rw [step_worker_silent demand, Worker.advance] at enters ⊢
    simp only at enters
    simp only [enters]
    exact moves.enters enters
  | notify notice =>
    rw [step_worker_notify demand] at enters
    exact absurd enters (Machine.notified_ne_enter r.worker.machine n)
  | act a =>
    rw [step_worker_act demand] at enters
    cases reply : (host r.world (.action a)).reply with
    | done =>
      rw [reply] at enters
      rcases fits.answered_ok demand with ⟨l, pin, next⟩ | ⟨l, remaining, pause, next⟩ <;>
        cases next.symm.trans enters
    | failed cause =>
      have faulted := Machine.isFaulted_answered cause demand
      rw [reply] at enters
      rw [show (r.worker.machine.answered (.error cause)).point = .enter n from enters] at faulted
      cases faulted
    | crashed =>
      obtain ⟨l, next, here⟩ := Machine.request_of_demand demand
      rw [reply] at enters
      cases here.symm.trans enters
  | ended result =>
    have here : r.worker.machine.point = .enter n := by simpa [step, demand] using enters
    simp [Machine.demand, here] at demand

theorem Fits.steps (host : Host σ) (valid : d.Valid) {r : Run σ} (fits : r.Fits d t) (n : Nat) :
    (r.steps host n).Fits d t := by
  refine steps_preserves (Fits d t) ?_ n fits
  rintro r ⟨document, timing, machine, _, _⟩ alive
  obtain ⟨document, timing, goes⟩ := goes_step host document timing
  exact ⟨document, timing, goes.fits valid machine, breaks_step host alive,
    fun _ => enters_step host machine⟩

/-- The run goes on, its flag is up and it has met no failure. -/
structure Undisturbed (r : Run σ) : Prop where
  alive : r.worker.isAlive = true
  up : r.worker.running = true
  unfaulted : r.worker.machine.point.isFaulted = false

theorem Undisturbed.fits {r : Run σ} (undisturbed : r.Undisturbed) (document : r.worker.document = d)
    (timing : r.worker.timing = t) (machine : r.worker.machine.Fits d) : r.Fits d t := by
  refine ⟨document, timing, machine, ?_, fun _ _ => undisturbed.up⟩
  intro crashed
  cases (intact_of_isAlive undisturbed.alive).symm.trans crashed

theorem Fits.intact {r : Run σ} (fits : r.Fits d t)
    (inactive : ∀ a, r.worker.machine.demand ≠ .act a) : r.worker.crashed = false := by
  rw [← Bool.not_eq_true]
  intro crashed
  obtain ⟨a, asks⟩ := fits.breaks crashed
  exact inactive a asks

theorem Fits.alive {r : Run σ} (fits : r.Fits d t) (silent : r.worker.machine.demand = .nothing) :
    r.worker.isAlive = true := by
  simp [Worker.isAlive, silent, fits.intact (by simp [silent])]

theorem isAlive_of_not_ended {r : Run σ} (intact : r.worker.crashed = false)
    (going : ∀ result, r.worker.machine.point ≠ .ended result) : r.worker.isAlive = true := by
  unfold Worker.isAlive Machine.demand
  rw [intact]
  cases here : r.worker.machine.point with
  | ended result => exact absurd here (going result)
  | _ => rfl

theorem step_worker_up {r : Run σ} (silent : r.worker.machine.demand = .nothing)
    (up : r.worker.running = true) {m : Machine}
    (goes : (r.worker.machine.step r.worker.document r.worker.timing true).1 = m)
    (going : ∀ result, m.point ≠ .ended result) :
    (r.step host).worker = { r.worker with machine := m } := by
  rw [step_worker_silent silent, Worker.advance, up]
  simp [goes, up]

theorem Fits.step_silent {r : Run σ} (fits : r.Fits d t)
    (silent : r.worker.machine.demand = .nothing) (up : r.worker.running = true)
    (going : ∀ result, (r.worker.machine.onward d t).point ≠ .ended result) :
    (r.step host).worker = { r.worker with machine := r.worker.machine.onward d t } := by
  refine step_worker_up silent up ?_ going
  rw [Machine.onward, silent, fits.document, fits.timing]

theorem Fits.steps_silent (host : Host σ) {r : Run σ} (fits : r.Fits d t)
    (silent : r.worker.machine.demand = .nothing) (up : r.worker.running = true)
    (going : ∀ result, (r.worker.machine.onward d t).point ≠ .ended result) :
    (r.steps host 1).worker = { r.worker with machine := r.worker.machine.onward d t } ∧
      (r.steps host 1).events = r.events := by
  rw [steps_succ (fits.alive silent), Run.steps]
  exact ⟨fits.step_silent silent up going, by simp [step, silent]⟩

theorem Undisturbed.of_step {r : Run σ} (document : r.worker.document = d)
    (timing : r.worker.timing = t) (alive : r.worker.isAlive = true)
    (after : (r.step host).Undisturbed) :
    r.Undisturbed ∧ (r.step host).worker.machine = r.worker.machine.onward d t := by
  obtain ⟨_, _, goes⟩ := goes_step host document timing
  have unfaulted : r.worker.machine.point.isFaulted = false := by
    rw [← Bool.not_eq_true]
    intro faulted
    have still := goes.isFaulted faulted
    rw [after.unfaulted] at still
    cases still
  cases demand : r.worker.machine.demand with
  | nothing =>
    have up := after.up
    rw [step_worker_silent demand, Worker.advance, document, timing] at up ⊢
    have running : r.worker.running = true := by
      simp only at up
      split at up
      · cases up
      · exact up
    exact ⟨⟨alive, running, unfaulted⟩, by simp [Machine.onward, demand, running]⟩
  | notify n =>
    have up := after.up
    rw [step_worker_notify demand] at up ⊢
    exact ⟨⟨alive, (Bool.and_eq_true_iff.1 up).1, unfaulted⟩, by
      simp [Machine.onward, demand, Worker.notified]⟩
  | act a =>
    obtain ⟨going, up, sound⟩ := after
    rw [step_worker_act demand] at going up sound ⊢
    cases reply : (host r.world (.action a)).reply with
    | done =>
      rw [reply] at up
      exact ⟨⟨alive, (Bool.and_eq_true_iff.1 up).1, unfaulted⟩, by
        simp [Machine.onward, demand, Worker.answered]⟩
    | failed cause =>
      rw [reply] at sound
      cases (Machine.isFaulted_answered cause demand).symm.trans sound
    | crashed =>
      rw [reply] at going
      cases going
  | ended result => simp [Worker.isAlive, intact_of_isAlive alive, demand] at alive

/-- Within the next event the world lowers the flag, or it does not do as it is asked. -/
def Disturbed (host : Host σ) (r : Run σ) : Prop :=
  (∃ e, r.event? = some e ∧ (host r.world e).lowers = true) ∨
    ∃ a, r.event? = some (.action a) ∧ (host r.world (.action a)).reply ≠ .done

theorem not_lowers_of_calm {r : Run σ} {e : Event} (event : r.event? = some e)
    (calm : ¬ r.Disturbed host) : (host r.world e).lowers = false := by
  rw [← Bool.not_eq_true]
  exact fun lowers => calm (.inl ⟨e, event, lowers⟩)

theorem Undisturbed.step_worker {r : Run σ} (undisturbed : r.Undisturbed) (fits : r.Fits d t)
    (calm : ¬ r.Disturbed host)
    (going : ∀ result, (r.worker.machine.onward d t).point ≠ .ended result) :
    (r.step host).worker = { r.worker with machine := r.worker.machine.onward d t } := by
  cases demand : r.worker.machine.demand with
  | nothing => exact fits.step_silent demand undisturbed.up going
  | notify n =>
    have event : r.event? = some (.notice n) := by simp [event?, demand]
    rw [step_worker_notify demand]
    simp [Worker.notified, Machine.onward, demand, not_lowers_of_calm event calm]
  | act a =>
    have event : r.event? = some (.action a) := by simp [event?, demand]
    have done : (host r.world (.action a)).reply = .done := by
      by_contra undone
      exact calm (.inr ⟨a, event, undone⟩)
    rw [step_worker_act demand, done]
    simp [Worker.answered, Machine.onward, demand, not_lowers_of_calm event calm]
  | ended result =>
    have alive := undisturbed.alive
    simp [Worker.isAlive, intact_of_isAlive alive, demand] at alive

theorem Undisturbed.step (host : Host σ) {r : Run σ} (undisturbed : r.Undisturbed)
    (fits : r.Fits d t) (going : r.worker.machine.point.isFinished = false) :
    (r.step host).Undisturbed ∨ r.Disturbed host := by
  by_cases disturbed : r.Disturbed host
  · exact .inr disturbed
  · left
    have goes : (r.worker.machine.onward d t).point.isFinished = false ∨
        (r.worker.machine.onward d t).point = .finish none :=
      (fits.machine.onward_isFinished going).imp_right And.left
    have ends := Point.not_ended_of_goes_on goes
    have worker := undisturbed.step_worker fits disturbed ends
    refine ⟨isAlive_of_not_ended ?_ ?_, ?_, ?_⟩ <;> rw [worker]
    · exact intact_of_isAlive undisturbed.alive
    · exact ends
    · exact undisturbed.up
    · exact Point.not_faulted_of_goes_on goes

/-- As long as it is undisturbed a run does what its machine alone would. -/
theorem machine_steps {r : Run σ} (document : r.worker.document = d) (timing : r.worker.timing = t)
    {n : Nat} (after : (r.steps host n).Undisturbed) :
    r.Undisturbed ∧
      (r.steps host n).worker.machine = (Machine.onward d t)^[n] r.worker.machine := by
  induction n with
  | zero => exact ⟨after, rfl⟩
  | succ n ih =>
    by_cases alive : (r.steps host n).worker.isAlive = true
    · rw [steps_succ_last alive] at after ⊢
      obtain ⟨document, timing, _⟩ :=
        steps_keeps host (fun _ => True) (fun _ _ => trivial) document timing trivial n
      obtain ⟨before, last⟩ := after.of_step document timing alive
      obtain ⟨first, middle⟩ := ih before
      exact ⟨first, by rw [last, middle, Function.iterate_succ_apply']⟩
    · rw [Bool.not_eq_true] at alive
      rw [steps_succ_over alive] at after
      cases alive.symm.trans after.alive

/-- As long as it is undisturbed a run makes the events that its machine alone would. -/
theorem events_steps_undisturbed {r : Run σ} (document : r.worker.document = d)
    (timing : r.worker.timing = t) {n : Nat} (after : (r.steps host n).Undisturbed) :
    (r.steps host n).events.toList = r.events.toList ++ Machine.made d t n r.worker.machine := by
  induction n with
  | zero => simp [steps, Machine.made]
  | succ n ih =>
    by_cases alive : (r.steps host n).worker.isAlive = true
    · rw [steps_succ_last alive] at after ⊢
      obtain ⟨document', timing', _⟩ :=
        steps_keeps host (fun _ => True) (fun _ _ => trivial) document timing trivial n
      obtain ⟨before, _⟩ := after.of_step document' timing' alive
      rw [events_step, ih before, Machine.made_add, Machine.made_one,
        ← (machine_steps document timing before).2, List.append_assoc]
      rfl
    · rw [Bool.not_eq_true] at alive
      rw [steps_succ_over alive] at after
      cases alive.symm.trans after.alive

end Run
end MacroGraph.Engine
