import Mathlib.Data.List.Nodup
import MacroGraph.Proofs.Controller.Stopping

/-!
Results of runs. Each of them leaves the slot in one turn of the history, in which a client that
waits gets it or a launch collects it: `results_are_collected_once`.
-/
namespace MacroGraph
open Engine

/-- The result of a thread that is over. -/
inductive Thread.Ends (t : Thread) : Except RunFailure Outcome → Prop where
  | returns {outcome : Outcome} (intact : t.worker.crashed = false)
    (told : t.told = some (.ok outcome)) : Ends t (.ok outcome)
  | faults {fault : NodeFault} (intact : t.worker.crashed = false)
    (told : t.told = some (.error fault)) : Ends t (.error (.fault fault))
  | breaks (crashed : t.worker.crashed = true) : Ends t (.error .crashed)

theorem Thread.Ends.unique {t : Thread} {first second : Except RunFailure Outcome}
    (ends : t.Ends first) (ends' : t.Ends second) : first = second := by
  cases ends <;> cases ends' <;> simp_all

theorem Thread.Sound.ends {t : Thread} (sound : t.Sound) (halted : t.isAlive = false) :
    t.Ends (Controller.collected t.worker) := by
  unfold Thread.isAlive Worker.isAlive at halted
  unfold Controller.collected Worker.result?
  cases crashed : t.worker.crashed with
  | true => exact .breaks crashed
  | false =>
    simp only [crashed] at halted ⊢
    cases here : t.worker.machine.point with
    | ended result =>
      have told := sound.fixed result here
      simp only [Machine.demand, here]
      cases result with
      | ok outcome => exact .returns crashed told
      | error fault => exact .faults crashed told
    | _ => simp [Machine.demand, here] at halted

structure Turn where
  before : System
  move : Move
  after : System

namespace Turn

/-- The thread leaves the slot, and with it its result. -/
def Frees (turn : Turn) (i : Nat) : Prop :=
  turn.before.slot = some i ∧ turn.after.slot ≠ some i

instance (turn : Turn) (i : Nat) : Decidable (turn.Frees i) :=
  inferInstanceAs (Decidable (_ ∧ _))

def freed? (turn : Turn) : Option Nat :=
  turn.before.slot.filter fun i => turn.after.slot ≠ some i

theorem freed?_eq_some_iff {turn : Turn} {i : Nat} : turn.freed? = some i ↔ turn.Frees i := by
  simp [freed?, Frees, Option.filter_eq_some_iff]

theorem freed?_eq_none {turn : Turn}
    (kept : ∀ i, turn.before.slot = some i → turn.after.slot = some i) : turn.freed? = none := by
  rw [freed?, Option.filter_eq_none_iff]
  simpa using kept

theorem freed?_eq_slot {turn : Turn}
    (left : ∀ i, turn.before.slot = some i → turn.after.slot ≠ some i) :
    turn.freed? = turn.before.slot := by
  cases slot : turn.before.slot with
  | none => simp [freed?, slot]
  | some i => exact freed?_eq_some_iff.2 ⟨slot, left i slot⟩

end Turn

namespace System
variable {s s' : System} {timing : Timing} {move : Move} {turns : List Turn}

inductive History (timing : Timing) : System → List Turn → Prop where
  | begins : History timing { timing } []
  | goes {s s' : System} {move : Move} {turns : List Turn} (before : History timing s turns)
    (step : s.Step move s') : History timing s' (turns ++ [⟨s, move, s'⟩])

theorem History.steps (history : History timing s turns) (steps : s.Steps s') :
    ∃ more, History timing s' (turns ++ more) := by
  induction steps with
  | refl => exact ⟨[], by rwa [List.append_nil]⟩
  | tail _ last ih =>
    obtain ⟨more, before⟩ := ih
    obtain ⟨move, step⟩ := last
    exact ⟨_, by rw [← List.append_assoc]; exact before.goes step⟩

theorem History.reachable (history : History timing s turns) : Reachable timing s := by
  induction history with
  | begins => exact .refl
  | goes _ step ih => exact ih.tail ⟨_, step⟩

theorem History.turn (history : History timing s turns) {turn : Turn} (mem : turn ∈ turns) :
    turn.before.Sound ∧ turn.before.Step turn.move turn.after := by
  induction history with
  | begins => cases mem
  | goes before step ih =>
    rcases List.mem_append.1 mem with old | new
    · exact ih old
    · obtain rfl := List.mem_singleton.1 new
      exact ⟨before.reachable.sound, step⟩

/-- What a step does with the slot. -/
inductive Shifts (s : System) : System → Prop where
  | keeps {s' : System} (slot : s'.slot = s.slot)
    (threads : s'.threads.length = s.threads.length) : Shifts s s'
  | empties : Shifts s { s with slot := none }
  | fills (w : Worker) : Shifts s (s.spawn w)

theorem Step.shifts (step : s.Step move s') (last : s.HoldsLast) : Shifts s s' := by
  rcases step.inversion last with ⟨_, _, _, _, _, serves⟩ | ⟨i, t, t', _, _, _, rfl⟩
  · cases serves with
    | launches => exact .fills _
    | fails | collects => exact .empties
    | refuses | misses | looks => exact .keeps rfl rfl
    | stops => exact .keeps rfl (by rw [put, List.length_set])
  · exact .keeps rfl (by rw [put, List.length_set])

/-- The threads that left the slot and the one in it are all that were spawned, in their order. -/
def Balanced (s : System) (turns : List Turn) : Prop :=
  turns.filterMap Turn.freed? ++ s.slot.toList = List.range s.threads.length

theorem balanced_concat {turn : Turn} :
    s.Balanced (turns ++ [turn]) ↔
      turns.filterMap Turn.freed? ++ turn.freed?.toList ++ s.slot.toList =
        List.range s.threads.length := by
  unfold Balanced
  cases freed : turn.freed? <;> simp [freed]

theorem Balanced.shifts (balanced : s.Balanced turns) (last : s.HoldsLast) (shifts : s.Shifts s')
    (move : Move) : s'.Balanced (turns ++ [⟨s, move, s'⟩]) := by
  rw [balanced_concat]
  unfold Balanced at balanced
  cases shifts with
  | keeps slot threads =>
    rw [Turn.freed?_eq_none fun i held => slot.trans held, slot, threads, Option.toList_none,
      List.append_nil, balanced]
  | empties =>
    have left : ∀ i, s.slot = some i → { s with slot := none }.slot ≠ some i := by simp
    rw [Turn.freed?_eq_slot left, balanced, Option.toList_none, List.append_nil]
  | fills w =>
    have other : ∀ i, s.slot = some i → (s.spawn w).slot ≠ some i := by
      rintro i slot ⟨⟩
      have := last _ slot
      omega
    rw [Turn.freed?_eq_slot other, balanced]
    simp [spawn, List.range_succ]

theorem History.balanced (history : History timing s turns) : s.Balanced turns := by
  induction history with
  | begins => rfl
  | goes before step ih =>
    have last := before.reachable.exclusive.last
    exact ih.shifts last (step.shifts last) _

theorem Balanced.once (balanced : s.Balanced turns) {i : Nat} (within : i < s.threads.length) :
    turns.countP (fun turn => turn.Frees i) + (if s.slot = some i then 1 else 0) = 1 := by
  have freed : turns.countP (fun turn => turn.Frees i) =
      (turns.filterMap Turn.freed?).count i := by
    rw [List.count, List.countP_filterMap]
    apply List.countP_congr
    intro turn _
    rw [decide_eq_true_iff, ← Turn.freed?_eq_some_iff]
    cases turn.freed? <;> simp
  have held : s.slot.toList.count i = if s.slot = some i then 1 else 0 := by
    cases s.slot <;> simp [List.count_singleton]
  rw [freed, ← held, ← List.count_append, balanced]
  exact List.count_eq_one_of_mem List.nodup_range (List.mem_range.2 within)

def refusing : Host Unit := fun _ _ => { world := (), reply := .failed (.unsupported "click") }

def clickFault : NodeFault := ⟨"c", "mouse_click", .unsupported "click"⟩

def clicks : Thread := { worker := { document := clicking, timing := {} } }

def broken : Thread := { clicks with worker := { clicks.worker with crashed := true } }

def faulting : Thread := { worked refusing 16 clicks with told := some (.error clickFault) }

def faulted : Thread :=
  { faulting.lower with
    worker := { faulting.lower.worker with
      machine := faulting.worker.machine.goto (.ended (.error clickFault)) } }

end System
end MacroGraph
