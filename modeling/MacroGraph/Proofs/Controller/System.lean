import Mathlib.Logic.Relation
import MacroGraph.Controller

/-!
Clients and runs beside each other. Any number of clients ask one controller, which serves each
request in one step, and every run that was started goes on by steps of its own, in any order. The
system may refuse a thread to any run that is to start.
-/
namespace MacroGraph
open Engine

/-- What a client asks for. To wait for a run is to look for its end again and again. -/
inductive Request where
  | start (d : Document)
  | toggle (d : Document)
  | stop
  | emergencyStop
  | look

inductive Answer where
  | acted (action : ControlAction)
  | failed (failure : SpawnFailure)
  | signalled (any : Bool)
  | done
  | found (waiting : Controller.Waiting)

def Request.document? : Request → Option Document
  | start d | toggle d => some d
  | stop | emergencyStop | look => none

/-- The request is meant to stop this run. -/
inductive Request.Stops (w : Worker) : Request → Prop where
  | stop : Stops w .stop
  | emergencyStop : Stops w .emergencyStop
  | toggle (d : Document) (copy : w.document.isCopyOf d = true)
    (start : w.document.start = d.start) : Stops w (.toggle d)

namespace Controller

@[simp]
def answer : Except SpawnFailure ControlAction → Answer
  | .ok action => .acted action
  | .error failure => .failed failure

def serve (c : Controller) (thread : Except SpawnFailure Unit) : Request → Answer × Controller
  | .start d => (answer (c.start d thread).1, (c.start d thread).2.1)
  | .toggle d => (answer (c.toggle d thread).1, (c.toggle d thread).2.1)
  | .stop => (.signalled c.stop.1, c.stop.2.1)
  | .emergencyStop => (.done, c.emergencyStop.1)
  | .look => (.found c.poll.1, c.poll.2)

theorem runs_iff {w : Worker} {d : Document} :
    runs w d = true ↔ w.document.isCopyOf d = true ∧ w.document.start = d.start := by
  simp [runs]

end Controller

structure Thread where
  worker : Worker
  /-- The result, once the engine has fixed it and until the thread is over. -/
  told : Option RunResult := none
  events : Array Event := #[]

namespace Thread

def isAlive (t : Thread) : Bool := t.worker.isAlive

def lower (t : Thread) : Thread := { t with worker := t.worker.lower }

def run {σ : Type} (t : Thread) (world : σ) : Run σ :=
  { worker := t.worker, world, events := t.events }

/-- The steps of a thread that is not over. Whatever the world answers is possible, but the flag is
left to the clients: one that lowers it from within an event does so before the next step. -/
inductive Step (t : Thread) : Thread → Prop where
  | works {σ : Type} (host : Host σ) (world : σ) (steady : ∀ e, (host world e).lowers = false)
    (alive : t.isAlive = true) (going : ∀ fault, t.worker.machine.point ≠ .report fault) :
    Step t { t with
      worker := ((t.run world).step host).worker
      events := ((t.run world).step host).events }
  /-- The engine fixes the result by a look at the flag. -/
  | tells (fault : Option NodeFault) (alive : t.isAlive = true)
    (here : t.worker.machine.point = .report fault) (untold : t.told = none) :
    Step t { t with told := some (Machine.resultOf t.worker.running fault) }
  /-- The engine takes down its own flag at the end. -/
  | clears (result : RunResult) (alive : t.isAlive = true) (told : t.told = some result) :
    Step t t.lower
  | ends (result : RunResult) (alive : t.isAlive = true) (told : t.told = some result)
    (down : t.worker.running = false) :
    Step t { t with
      worker := { t.worker with machine := t.worker.machine.goto (.ended result) } }
  /-- At any time the thread may go down without a result. -/
  | crashes (alive : t.isAlive = true) :
    Step t { t with worker := { t.worker with crashed := true } }

theorem Step.alive {t t' : Thread} (step : t.Step t') : t.isAlive = true := by
  cases step <;> assumption

end Thread

/-- All threads that were ever spawned, in this order, and the number of the one in the slot. -/
structure System where
  timing : Timing := {}
  threads : List Thread := []
  slot : Option Nat := none

inductive Move where
  | asks (client : Nat) (request : Request) (answer : Answer)
  | runs (thread : Nat)

namespace System

def put (s : System) (i : Nat) (t : Thread) : System := { s with threads := s.threads.set i t }

def spawn (s : System) (w : Worker) : System :=
  { s with threads := s.threads ++ [{ worker := w }], slot := some s.threads.length }

def held? (s : System) : Option (Nat × Thread) :=
  s.slot.bind fun i => s.threads[i]?.map fun t => (i, t)

def active? (s : System) : Option (Nat × Thread) := s.held?.filter fun held => held.2.isAlive

def controller (s : System) : Controller :=
  { timing := s.timing, slot := s.held?.map fun held => held.2.worker }

/-- What becomes of the threads when the controller leaves this in the slot. -/
def follow (s : System) : Answer → Option Worker → System
  | .acted .started, some w => s.spawn w
  | _, some w =>
    match s.held? with
    | some (i, t) => s.put i { t with worker := w }
    | none => s
  | _, none => { s with slot := none }

def serve (s : System) (request : Request) (thread : Except SpawnFailure Unit := .ok ()) :
    Answer × System :=
  let served := s.controller.serve thread request
  (served.1, s.follow served.1 served.2.slot)

inductive Step (s : System) : Move → System → Prop where
  | serves (client : Nat) (request : Request) (thread : Except SpawnFailure Unit := .ok ()) :
    Step s (.asks client request (s.serve request thread).1) (s.serve request thread).2
  | runs {i : Nat} {t t' : Thread} (there : s.threads[i]? = some t) (step : t.Step t') :
    Step s (.runs i) (s.put i t')

def Steps : System → System → Prop := Relation.ReflTransGen fun s s' => ∃ move, s.Step move s'

/-- Some interleaving of clients and runs leads there. -/
def Reachable (timing : Timing) (s : System) : Prop := Steps { timing } s

theorem Steps.preserves {keeps : System → Prop}
    (step : ∀ {s s' : System} {move : Move}, s.Step move s' → keeps s → keeps s') {s s' : System}
    (steps : s.Steps s') (kept : keeps s) : keeps s' := by
  induction steps with
  | refl => exact kept
  | tail _ last ih =>
    obtain ⟨move, last⟩ := last
    exact step last ih

/-- The slot is empty or holds the thread that was spawned last. -/
def HoldsLast (s : System) : Prop := ∀ i, s.slot = some i → i + 1 = s.threads.length

theorem held?_eq_some_iff {s : System} {i : Nat} {t : Thread} :
    s.held? = some (i, t) ↔ s.slot = some i ∧ s.threads[i]? = some t := by
  simp only [held?, Option.bind_eq_some_iff, Option.map_eq_some_iff, Prod.mk.injEq]
  constructor
  · rintro ⟨_, slot, _, there, rfl, rfl⟩
    exact ⟨slot, there⟩
  · rintro ⟨slot, there⟩
    exact ⟨i, slot, t, there, rfl, rfl⟩

theorem active?_eq_some_iff {s : System} {i : Nat} {t : Thread} :
    s.active? = some (i, t) ↔ s.slot = some i ∧ s.threads[i]? = some t ∧ t.isAlive = true := by
  rw [active?, Option.filter_eq_some_iff, held?_eq_some_iff, and_assoc]

theorem HoldsLast.slot_of_held?_eq_none {s : System} (last : s.HoldsLast) (empty : s.held? = none) :
    s.slot = none := by
  cases slot : s.slot with
  | none => rfl
  | some i =>
    have within : i < s.threads.length := by
      have := last i slot
      omega
    have held := held?_eq_some_iff.2 ⟨slot, List.getElem?_eq_getElem within⟩
    rw [empty] at held
    cases held

theorem put_self {s : System} {i : Nat} {t : Thread} (there : s.threads[i]? = some t) :
    s.put i t = s := by
  obtain ⟨within, rfl⟩ := List.getElem?_eq_some_iff.1 there
  rw [put, List.set_getElem_self]

theorem put_put (s : System) (i : Nat) (t u : Thread) : (s.put i t).put i u = s.put i u := by
  simp [put, List.set_set]

theorem getElem?_put {s : System} {i j : Nat} {t u : Thread} (here : s.threads[j]? = some u)
    (there : s.threads[i]? = some t) (u' : Thread) :
    (j = i ∧ u = t ∧ (s.put j u').threads[i]? = some u') ∨ (s.put j u').threads[i]? = some t := by
  by_cases same : j = i
  · subst same
    left
    obtain ⟨within, _⟩ := List.getElem?_eq_some_iff.1 here
    rw [here] at there
    exact ⟨rfl, Option.some.inj there, List.getElem?_set_self within⟩
  · right
    rw [put, List.getElem?_set_ne same, there]

theorem getElem?_put_eq_none {s : System} {i j : Nat} (new : s.threads[i]? = none) (t : Thread) :
    (s.put j t).threads[i]? = none := by
  rw [List.getElem?_eq_none_iff] at new ⊢
  rwa [put, List.length_set]

end System
end MacroGraph
