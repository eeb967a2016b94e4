import Mathlib.Logic.Relation
import MacroGraph.Proofs.Engine.Step
import MacroGraph.Proofs.Engine.Trace

namespace MacroGraph.Engine

def Point.isInside : Point → Bool
  | .root | .arrive _ | .execute _ | .iterate .. | .check .. | .wait .. | .leave .. | .walked => true
  | _ => false

def Note.isBeginning : Note → Bool
  | .executing _ | .iteration .. | .whileIteration .. | .repeating _ => true
  | _ => false

namespace Machine

/-- A step that does no more than come to an end: it opens no body, follows no pin, demands
no node and no action, and begins nothing. -/
structure Unwinds (before : Machine) (after : Machine × List Note) : Prop where
  stack : after.1.stack <:+ before.stack
  entered : after.1.entered = before.entered
  leaves : ∀ n pin, before.point = .leave n pin → after.1.point = .walked
  enters : ∀ n, after.1.point ≠ .enter n
  requests : ∀ n a next, after.1.point ≠ .request n a next
  begins : ∀ note ∈ after.2, note.isBeginning = false

theorem unwinds_step (d : Document) (t : Timing) {m : Machine} (silent : m.demand = .nothing) :
    Unwinds m (m.step d t false) := by
  have moves := moves_step d t false silent
  revert moves
  generalize m.step d t false = after
  obtain ⟨after, notes⟩ := after
  intro moves
  cases moves with
  | begins here | unrooted here | roots n here | stops id here | skips n here =>
    constructor <;> simp [here, Note.isBeginning]
  | completes n next total here => constructor <;> simp [here, withdrawn]
  | quits n next here | finishes here empty => constructor <;> simp [here]
  | wakes n remaining pause here => cases pause <;> constructor <;> simp [here, afterWait]
  | leaves n pin here => constructor <;> simp
  | resumesLoop n next total rest here top | resumesWhile n next rest here top =>
    constructor <;> simp [here, top]
  | ends fault here =>
    cases fault <;> constructor <;> simp [here, Note.isBeginning]
  | takes _ _ _ up | executes _ _ up | iterates _ _ _ _ _ up | iteratesEmpty _ _ _ _ up
  | checks _ _ _ _ up | checksEmpty _ _ _ up | refuses _ _ _ up | sleeps _ _ _ _ up
  | follows _ _ _ _ up | pauses _ _ _ _ up => cases up

def Halts (d : Document) (t : Timing) (m after : Machine) : Prop :=
  m.demand = .nothing ∧ after = (m.step d t false).1

/-- A walk that has ended winds up all loops around it, one after the other. -/
theorem walked_halts (d : Document) (t : Timing) (stack : List Frame) {m : Machine}
    (here : m.point = .walked) (frames : m.stack = stack) :
    ∃ last, Relation.ReflTransGen (Halts d t) m last ∧ last.point = .finish none := by
  induction stack generalizing m with
  | nil =>
    refine ⟨_, .single ⟨by simp [demand, here], rfl⟩, ?_⟩
    simp [step, here, returned, frames, goto]
  | cons frame rest ih =>
    cases frame with
    | loop n next total =>
      have resumes : Halts d t m { m with point := .iterate n next total, stack := rest } :=
        ⟨by simp [demand, here], by simp [step, here, returned, frames]⟩
      let done := (({ m with stack := rest } : Machine).withdrawn n).goto
        (.leave n (some Pin.completed))
      have completes : Halts d t { m with point := .iterate n next total, stack := rest } done :=
        ⟨rfl, by simp [step, iterated, done, goto, withdrawn]⟩
      have leaves : Halts d t done (done.goto .walked) := ⟨rfl, by simp [step, done, goto]⟩
      obtain ⟨last, halts, finished⟩ := ih (m := done.goto .walked) rfl rfl
      exact ⟨last, .head resumes (.head completes (.head leaves halts)), finished⟩
    | whileLoop n next =>
      have resumes : Halts d t m { m with point := .check n next, stack := rest } :=
        ⟨by simp [demand, here], by simp [step, here, returned, frames]⟩
      let done := ({ m with stack := rest } : Machine).goto (.leave n (some Pin.completed))
      have quits : Halts d t { m with point := .check n next, stack := rest } done :=
        ⟨rfl, by simp [step, checked, done, goto]⟩
      have leaves : Halts d t done (done.goto .walked) := ⟨rfl, by simp [step, done, goto]⟩
      obtain ⟨last, halts, finished⟩ := ih (m := done.goto .walked) rfl rfl
      exact ⟨last, .head resumes (.head quits (.head leaves halts)), finished⟩

theorem inside_halts (d : Document) (t : Timing) {m : Machine} (inside : m.point.isInside = true) :
    ∃ last, Relation.ReflTransGen (Halts d t) m last ∧ last.point = .finish none := by
  have leave : ∀ {m : Machine} {n : Node} {pin : Option String}, m.point = .leave n pin →
      ∃ last, Relation.ReflTransGen (Halts d t) m last ∧ last.point = .finish none := by
    intro m n pin here
    obtain ⟨last, halts, finished⟩ := walked_halts d t m.stack (m := m.goto .walked) rfl rfl
    exact ⟨last, .head ⟨by simp [demand, here], by simp [step, here]⟩ halts, finished⟩
  have arrive : ∀ {m : Machine} {id : String}, m.point = .arrive id →
      ∃ last, Relation.ReflTransGen (Halts d t) m last ∧ last.point = .finish none := by
    intro m id here
    obtain ⟨last, halts, finished⟩ := walked_halts d t m.stack (m := m.goto .walked) rfl rfl
    exact ⟨last, .head ⟨by simp [demand, here], by simp [step, here]⟩ halts, finished⟩
  cases here : m.point with
  | root =>
    cases found : d.node? d.start with
    | none =>
      exact ⟨_, .single ⟨by simp [demand, here], rfl⟩, by simp [step, here, found, goto]⟩
    | some n =>
      let next : Machine := { m with
        point := .arrive n.id
        repeats := Evaluation.boolean d m.outputs n "Loop Continuously" false }
      obtain ⟨last, halts, finished⟩ := arrive (m := next) rfl
      exact ⟨last, .head ⟨by simp [demand, here], by simp [step, here, found, next]⟩ halts,
        finished⟩
  | arrive id => exact arrive here
  | execute n =>
    obtain ⟨last, halts, finished⟩ := leave (m := m.goto (.leave n none)) rfl
    exact ⟨last, .head ⟨by simp [demand, here], by simp [step, here]⟩ halts, finished⟩
  | iterate n next total =>
    let done := (m.withdrawn n).goto (.leave n (some Pin.completed))
    obtain ⟨last, halts, finished⟩ := leave (m := done) rfl
    exact ⟨last, .head ⟨by simp [demand, here], by simp [step, here, iterated, done]⟩ halts,
      finished⟩
  | check n next =>
    obtain ⟨last, halts, finished⟩ := leave (m := m.goto (.leave n (some Pin.completed))) rfl
    exact ⟨last, .head ⟨by simp [demand, here], by simp [step, here, checked]⟩ halts, finished⟩
  | wait n remaining pause =>
    have wakes : Halts d t m (m.goto (afterWait d n pause)) :=
      ⟨by simp [demand, here], by simp [step, here, waited]⟩
    cases pause with
    | delay =>
      obtain ⟨last, halts, finished⟩ := leave (m := m.goto (afterWait d n .delay)) rfl
      exact ⟨last, .head wakes halts, finished⟩
    | repetition =>
      obtain ⟨last, halts, finished⟩ := arrive (m := m.goto (afterWait d n .repetition)) rfl
      exact ⟨last, .head wakes halts, finished⟩
  | leave n pin => exact leave here
  | walked => exact walked_halts d t m.stack here rfl
  | begin | clear | enter _ | request _ _ _ | finish _ | report _ | ended _ =>
    simp [here, Point.isInside] at inside

/-- The point after a request that is under way lies inside the walk. -/
def Resumes (m : Machine) : Prop :=
  ∀ n a next, m.point = .request n a next → next.isInside = true

theorem Moves.resumes {d : Document} {t : Timing} {running : Bool} {m after : Machine}
    {notes : List Note} (moves : Moves d t running m after notes) : after.Resumes := by
  intro n a next requested
  cases moves with
  | executes n' here up =>
    have shape := executes_execution d m.outputs n'
    rw [show (execution d m.outputs n').point = .request n a next from requested] at shape
    cases shape
    rfl
  | sleeps n' remaining pause here up more =>
    simp only [goto, Point.request.injEq] at requested
    rw [← requested.2.2]
    rfl
  | wakes n' remaining pause here halted => cases pause <;> simp [goto, afterWait] at requested
  | _ => simp [goto] at requested

theorem Goes.resumes {d : Document} {t : Timing} {m after : Machine} (goes : Goes d t m after)
    (resumes : m.Resumes) : after.Resumes := by
  cases goes with
  | moves moves => exact moves.resumes
  | notified demand =>
    intro n a next requested
    unfold Machine.notified at requested
    split at requested
    · simp [goto] at requested
    · simp at requested
    · simp [goto] at requested
    · exact resumes n a next requested
  | answered answer demand =>
    intro n b next requested
    unfold Machine.answered at requested
    split at requested
    · next inner here =>
      have inside := resumes _ _ inner here
      simp only [goto] at requested
      simp [requested, Point.isInside] at inside
    · simp [goto] at requested
    · exact resumes n b next requested
  | stays => exact resumes

end Machine

def Worker.halting (d : Document) (t : Timing) (m : Machine) : Worker :=
  { document := d, timing := t, machine := m, running := false }

namespace Run
variable {σ : Type} {host : Host σ} {d : Document} {t : Timing}

theorem halts_steps (host : Host σ) {m last : Machine}
    (halts : Relation.ReflTransGen (Machine.Halts d t) m last) {r : Run σ}
    (here : r.worker = .halting d t m) :
    ∃ n, (r.steps host n).worker = .halting d t last ∧ (r.steps host n).events = r.events := by
  induction halts using Relation.ReflTransGen.head_induction_on generalizing r with
  | refl => exact ⟨0, here, rfl⟩
  | @head m next first _ ih =>
    obtain ⟨silent, rfl⟩ := first
    have moved : (r.step host).worker = .halting d t (m.step d t false).1 := by
      rw [step_worker_silent (by rw [here]; exact silent), here]
      simp only [Worker.halting, Worker.advance]
      split <;> rfl
    have quiet : (r.step host).events = r.events := by
      simp [step, here, Worker.halting, silent]
    obtain ⟨n, reached, same⟩ := ih moved
    have alive : r.worker.isAlive = true := by
      simp [Worker.isAlive, here, Worker.halting, silent]
    exact ⟨n + 1, by rw [steps_succ alive, reached], by rw [steps_succ alive, same, quiet]⟩

theorem finish_ends (host : Host σ) {fault : Option NodeFault} {r : Run σ}
    (intact : r.worker.crashed = false) (here : r.worker.machine.point = .finish fault) :
    r.EndsWith host (r.events.toList ++ [.notice .cleared])
      (Machine.resultOf (r.worker.running && !(host r.world (.notice .cleared)).lowers) fault) := by
  have demand : r.worker.machine.demand = .notify .cleared := by simp [Machine.demand, here]
  have cleared : (r.step host).worker = { r.worker with
      machine := r.worker.machine.goto (.report fault)
      running := r.worker.running && !(host r.world (.notice .cleared)).lowers } := by
    rw [step_worker_notify demand]
    simp [Worker.notified, Machine.notified, here]
  have silent : (r.step host).worker.machine.demand = .nothing := by rw [cleared]; rfl
  have told : ((r.step host).step host).worker = { r.worker with
      machine := r.worker.machine.goto (.ended (Machine.resultOf
        (r.worker.running && !(host r.world (.notice .cleared)).lowers) fault))
      running := false } := by
    rw [step_worker_silent silent, cleared]
    simp [Worker.advance, Machine.step, Machine.goto]
  have twice : r.steps host 2 = (r.step host).step host := by
    have alive : r.worker.isAlive = true := by simp [Worker.isAlive, intact, demand]
    have again : (r.step host).worker.isAlive = true := by
      simp [Worker.isAlive, cleared, intact, Machine.demand, Machine.goto]
    rw [steps_succ alive, steps_succ again, steps]
  refine ⟨2, ?_, ?_, ?_⟩
  · simp [twice, told, Worker.result?, intact, Machine.demand, Machine.goto]
  · rw [twice, told]
  · rw [twice, events_step, events_step]
    simp [event?, demand, silent]

theorem EndsWith.of_steps {r : Run σ} {n : Nat} {events : List Event} {result : RunResult}
    (ends : (r.steps host n).EndsWith host events result) : r.EndsWith host events result := by
  obtain ⟨m, ended, down, made⟩ := ends
  rw [← steps_add] at ended down made
  exact ⟨n + m, ended, down, made⟩

/-- A run inside its walk with the flag down clears the highlights and does nothing else. -/
theorem inside_ends (host : Host σ) {m : Machine} (inside : m.point.isInside = true) {r : Run σ}
    (here : r.worker = .halting d t m) :
    r.EndsWith host (r.events.toList ++ [.notice .cleared]) (.ok .stopped) := by
  obtain ⟨last, halts, finished⟩ := Machine.inside_halts d t inside
  obtain ⟨n, reached, quiet⟩ := halts_steps host halts here
  have ends := finish_ends host (r := r.steps host n) (by rw [reached]; rfl)
    (by rw [reached]; exact finished)
  rw [quiet, reached] at ends
  exact .of_steps ends

end Run
end MacroGraph.Engine
