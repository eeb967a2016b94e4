import MacroGraph.Proofs.Engine.Interruption

/-!
Activations of loops. At every moment that matters the published outputs are the indices of the
bounded loops whose bodies are being walked: `outputs_follow_activations`.
-/
namespace MacroGraph.Engine
variable {d : Document}

namespace Machine

/-- The body of a bounded loop is being walked, in iteration `index` of `total`. -/
def Walks (m : Machine) (id : String) (index total : Nat) : Prop :=
  ∃ n, n.id = id ∧ .loop n (index + 1) total ∈ m.stack

structure Publishes (d : Document) (m : Machine) : Prop where
  entries : ∀ id, (m.outputs.lookup id).isSome = true ↔ ∃ index total, m.Walks id index total
  values : ∀ id index total, m.Walks id index total → index < total ∧
    m.outputs.lookup id = some [(Pin.index, .number (.ofNat index))]
  loops : ∀ id index total, m.Walks id index total → ∃ n, d.node? id = some n ∧ n.kind = .loop

theorem Fits.publishes (valid : d.Valid) {m : Machine} (fits : m.Fits d)
    (between : ∀ n next total, m.point ≠ .iterate n next total) : m.Publishes d := by
  obtain ⟨id, nested⟩ := fits.point.nested
  have outputs : m.outputs = published m.stack := fits.outputs.trans (held_eq between)
  have values : ∀ id index total, m.Walks id index total → index < total ∧
      m.outputs.lookup id = some [(Pin.index, .number (.ofNat index))] := by
    rintro _ index total ⟨n, rfl, mem⟩
    obtain ⟨⟨_, _, _, le⟩, _⟩ := nested.path valid mem
    exact ⟨le, by rw [outputs, lookup_published valid nested mem]; rfl⟩
  refine ⟨fun id => ⟨fun found => ?_, ?_⟩, values, ?_⟩
  · rw [outputs] at found
    obtain ⟨n, next, total, same, mem⟩ := frame_of_lookup_published found
    obtain ⟨⟨_, _, pos, _⟩, _⟩ := nested.path valid mem
    obtain ⟨index, rfl⟩ := Nat.exists_eq_succ_of_ne_zero (Nat.ne_of_gt pos)
    exact ⟨index, total, n, same, mem⟩
  · rintro ⟨index, total, walks⟩
    rw [(values id index total walks).2]
    rfl
  · rintro _ index total ⟨n, rfl, mem⟩
    obtain ⟨⟨known, kind, _⟩, _⟩ := nested.path valid mem
    exact ⟨n, known, kind⟩

/-- Something is told to the world, asked of it, or read. -/
def Observes (d : Document) (t : Timing) (m : Machine) : Prop :=
  m.demand ≠ .nothing ∨ ∃ running, ∃ note ∈ (m.step d t running).2, note.isReading = true

theorem Observes.between {t : Timing} {m : Machine} (observes : m.Observes d t) (n : Node)
    (next total : Nat) : m.point ≠ .iterate n next total := by
  intro here
  rcases observes with asks | ⟨running, note, mem, reading⟩
  · exact asks (by simp [demand, here])
  · simp only [step, here, iterated] at mem
    split at mem
    · cases List.mem_singleton.1 mem
      cases reading
    · cases mem

theorem outputs_of_read {t : Timing} {running : Bool} {m : Machine} {o : Outputs}
    {id pin : String} (mem : .read o id pin ∈ (m.step d t running).2) : o = m.outputs := by
  by_cases silent : m.demand = .nothing
  · have moves := moves_step d t running silent
    revert moves mem
    generalize m.step d t running = after
    obtain ⟨after, notes⟩ := after
    intro mem moves
    cases moves with
    | roots n here found => simp_all
    | executes n here up =>
      rcases List.mem_append.1 mem with read | mem
      · obtain ⟨pin', _, same⟩ := List.mem_map.1 read
        cases same
        rfl
      · cases not_reading_execution d m.outputs n _ mem
    | checks n next body here up holds found => simp_all
    | checksEmpty n next here up holds missing => simp_all
    | refuses n next here up fails => simp_all
    | ends fault here => cases fault <;> simp at mem
    | _ => simp at mem
  · simp [step_of_demand silent] at mem

/-- The body of a loop is not being walked and is not about to be. -/
structure Away (id : String) (m : Machine) : Prop where
  stack : ∀ f ∈ m.stack, f.node.id ≠ id
  point : ∀ n, m.point.beginning? = some n → n.id ≠ id

theorem Moves.away {t : Timing} {running : Bool} {m after : Machine} {notes : List Note}
    (moves : Moves d t running m after notes) {id : String} (away : m.Away id) :
    after.Away id := by
  obtain ⟨stack, point⟩ := away
  cases moves with
  | executes n here up =>
    have other := point n (by rw [here]; rfl)
    refine ⟨(executed_eq d m n).2.1 ▸ stack, ?_⟩
    intro n' begins
    rw [(executed_eq d m n).1] at begins
    have executes := executes_execution d m.outputs n
    revert executes begins
    generalize (execution d m.outputs n).point = p
    intro begins executes
    cases executes <;> cases begins <;> exact other
  | iterates n _ _ _ here | checks n _ _ here =>
    have other := point n (by rw [here]; rfl)
    exact ⟨List.forall_mem_cons.2 ⟨other, stack⟩, by simp [Point.beginning?]⟩
  | iteratesEmpty n next total here up more missing =>
    exact ⟨stack, by simpa [here, Point.beginning?] using point⟩
  | checksEmpty n next here up holds missing =>
    exact ⟨stack, by simpa [here, goto, Point.beginning?] using point⟩
  | resumesLoop n next total rest here top | resumesWhile n next rest here top =>
    rw [top] at stack
    obtain ⟨other, rest⟩ := List.forall_mem_cons.1 stack
    refine ⟨rest, ?_⟩
    intro n' begins
    cases begins
    exact other
  | wakes n remaining pause here halted =>
    cases pause <;> exact ⟨stack, by simp [goto, afterWait, Point.beginning?]⟩
  | _ => exact ⟨stack, by simp [goto, Point.beginning?]⟩

theorem Goes.away {t : Timing} {m after : Machine} (goes : Goes d t m after) (fits : m.Fits d)
    {id : String} (unentered : m.demand ≠ .notify (.entered id)) (away : m.Away id) :
    after.Away id := by
  cases goes with
  | moves moves => exact moves.away away
  | notified demand =>
    unfold Machine.notified
    cases here : m.point with
    | enter n =>
      refine ⟨away.stack, ?_⟩
      intro n' begins
      cases begins
      rintro rfl
      exact unentered (by simp [Machine.demand, here])
    | clear | finish fault => exact ⟨away.stack, by simp [goto, Point.beginning?]⟩
    | _ => exact away
  | answered answer demand =>
    unfold Machine.answered
    cases here : m.point with
    | request n a next =>
      have point := fits.point
      rw [here] at point
      cases answer with
      | ok _ => exact ⟨away.stack, by simp [goto, point.next.2]⟩
      | error cause => exact ⟨away.stack, by simp [goto, Point.beginning?]⟩
    | _ => cases answer <;> exact away
  | stays => exact away

end Machine

theorem Run.away_interrupted {σ : Type} (host : Host σ) (lowers : Nat → Bool) {t : Timing}
    (valid : d.Valid) {r : Run σ} (document : r.worker.document = d) (timing : r.worker.timing = t)
    (fits : r.worker.machine.Fits d) {id : String} {i k : Nat}
    (away : (r.interrupted host lowers i).worker.machine.Away id)
    (unentered : ∀ j < k,
      (r.interrupted host lowers (i + j)).worker.machine.demand ≠ .notify (.entered id)) :
    (r.interrupted host lowers (i + k)).worker.machine.Away id := by
  induction k with
  | zero => exact away
  | succ k ih =>
    have before := ih fun j lt => unentered j (Nat.lt_succ_of_lt lt)
    exact (goes_interrupted document timing host lowers (i + k)).away
      (fits_interrupted document timing valid fits host lowers (i + k))
      (unentered k (Nat.lt_succ_self k)) before

theorem outputAt_of_unpublished {o : Outputs} {n : Node} (found : d.node? n.id = some n)
    (runs : n.kind.isDataOnly = false) (silent : o.lookup n.id = none) (depth : Nat)
    (pin : String) : Evaluation.outputAt d o (depth + 1) n.id pin = some .null := by
  have none_published : o.value? n.id pin = none := by simp [Outputs.value?, silent]
  simp only [Evaluation.outputAt, none_published, found, Evaluation.produce]
  cases kind : n.kind <;> simp_all [NodeKind.isDataOnly]

/-- An input that such a node feeds falls back to its default. -/
theorem resolve_of_unpublished {o : Outputs} {n : Node} (found : d.node? n.id = some n)
    (runs : n.kind.isDataOnly = false) (silent : o.lookup n.id = none)
    {reader pin sourcePin : String} (fed : d.dataSource reader pin = some (n.id, sourcePin))
    (kind : ValueKind) (fallback : Value) :
    Evaluation.resolve d o reader pin kind fallback = Evaluation.received kind fallback .null := by
  simp [Evaluation.resolve, Evaluation.inputWith, fed, Evaluation.output, Evaluation.depthOf,
    outputAt_of_unpublished found runs silent]

/-- Whatever the world answers, and whenever somebody lowers the flag of a run: at every moment at
which something is told, asked or read, the published outputs are the current iterations of the
bounded loops whose bodies are being walked, and nothing else. So a walk that comes to its end leaves
them as it found them, and a data input fed by a loop has its default unless the body of that loop is
being walked: in particular when the loop itself is executed, and from its completion on until it is
entered again. -/
theorem outputs_follow_activations {σ : Type} (host : Host σ) (lowers : Nat → Bool) (valid : d.Valid)
    (t : Timing) (level : Option Log.Level) (running : Bool) (world : σ) :
    let run := (Run.begin d t level running world).interrupted host lowers
    let machine := fun n => (run n).worker.machine
    (∀ n, (machine n).Observes d t → (machine n).Publishes d ∧
      ∀ up o id pin, .read o id pin ∈ ((machine n).step d t up).2 → o = (machine n).outputs) ∧
    (∀ i j id, (machine i).point = .arrive id → (machine j).point = .walked →
      (machine j).stack = (machine i).stack → (machine j).outputs = (machine i).outputs) ∧
    (∀ n l, (machine n).Observes d t → d.node? l.id = some l → l.kind = .loop →
      (∀ index total, ¬ (machine n).Walks l.id index total) →
      (∀ depth pin, Evaluation.outputAt d (machine n).outputs (depth + 1) l.id pin = some .null) ∧
      ∀ reader pin sourcePin kind fallback, d.dataSource reader pin = some (l.id, sourcePin) →
        Evaluation.resolve d (machine n).outputs reader pin kind fallback =
          Evaluation.received kind fallback .null) ∧
    (∀ n l, (machine n).point = .execute l → ∀ index total, ¬ (machine n).Walks l.id index total) ∧
    (∀ i j l, (machine i).point = .leave l (some Pin.completed) → i ≤ j →
      (∀ k, i ≤ k → k < j → (machine k).demand ≠ .notify (.entered l.id)) →
      ∀ index total, ¬ (machine j).Walks l.id index total) := by
  intro run machine
  have first : ({} : Machine).Fits d := ⟨rfl, rfl⟩
  have fits : ∀ n, (machine n).Fits d :=
    Run.fits_interrupted (r := Run.begin d t level running world) rfl rfl valid first host lowers
  have publishes : ∀ n, (machine n).Observes d t → (machine n).Publishes d := fun n observes =>
    (fits n).publishes valid observes.between
  refine ⟨fun n observes => ⟨publishes n observes, fun _ _ _ _ => Machine.outputs_of_read⟩,
    ?walks, ?defaults, ?itself, ?completed⟩
  case walks =>
    intro i j id arrives walked same
    rw [(fits i).outputs, (fits j).outputs, Machine.held_eq (by simp [walked]),
      Machine.held_eq (by simp [arrives]), same]
  case defaults =>
    intro n l observes found kind unwalked
    have runs : l.kind.isDataOnly = false := by rw [kind]; rfl
    have silent : (machine n).outputs.lookup l.id = none := by
      rw [← Option.not_isSome_iff_eq_none, (publishes n observes).entries]
      rintro ⟨index, total, walks⟩
      exact unwalked index total walks
    exact ⟨outputAt_of_unpublished found runs silent, fun _ _ _ kind fallback fed =>
      resolve_of_unpublished found runs silent fed kind fallback⟩
  case itself =>
    rintro n l here index total ⟨m, same, mem⟩
    have point := (fits n).point
    rw [here] at point
    exact point.2.apart valid mem same
  case completed =>
    rintro i j l here le unentered index total ⟨m, same, mem⟩
    have point := (fits i).point
    rw [here] at point
    have left : (machine i).Away l.id :=
      ⟨fun f mem => point.2.apart valid mem, by simp [here, Point.beginning?]⟩
    obtain ⟨k, rfl⟩ := Nat.exists_eq_add_of_le le
    have away := Run.away_interrupted (r := Run.begin d t level running world) host lowers valid rfl
      rfl first left fun j lt => unentered (i + j) (Nat.le_add_right i j) (Nat.add_lt_add_left lt i)
    exact away.stack _ mem same

def clickingTwice : Document where
  serial := 0
  nodes := [⟨"s", .start, []⟩, ⟨"l", .loop, [("Iterations", .number (.ofNat 2))]⟩,
    ⟨"c", .mouseClick, []⟩]
  connections := [⟨"s", Pin.exec, "l", Pin.exec, .exec⟩, ⟨"l", Pin.loopBody, "c", Pin.exec, .exec⟩]
  start := "s"
  index := { exec := [(("s", Pin.exec), "l"), (("l", Pin.loopBody), "c")] }

/-- Somebody lowers the flag when the click is about to be entered for the second time. It is entered
all the same, and the loop publishes one; nothing is published when the walk has come to its end. -/
theorem clickingTwice_publishes_index :
    let run := (Run.begin clickingTwice {} none true ()).interrupted willing fun k => k == 19
    clickingTwice.Valid ∧ (run 20).worker.running = false ∧
      (run 20).event? = some (.notice (.entered "c")) ∧
      (run 20).worker.machine.outputs.lookup "l" = some [(Pin.index, .number (.ofNat 1))] ∧
      (run 26).worker.machine.point = .walked ∧ (run 26).worker.machine.outputs = [] := by
  intro run
  have valid : clickingTwice.Valid := rfl
  obtain ⟨observed, returned, -⟩ :=
    outputs_follow_activations willing (fun k => k == 19) valid {} none true ()
  replace observed := observed 20
  replace returned := returned 3 26 "s" (by decide +kernel) (by decide +kernel) (by decide +kernel)
  have entered : (run 20).event? = some (.notice (.entered "c")) := by decide +kernel
  have empty : (run 3).worker.machine.outputs = [] := by decide +kernel
  have stack : (run 20).worker.machine.stack =
      [.loop ⟨"l", .loop, [("Iterations", .number (.ofNat 2))]⟩ 2 2] := by decide +kernel
  refine ⟨valid, by decide +kernel, entered, ?_, by decide +kernel, returned.trans empty⟩
  dsimp only [run] at observed entered stack ⊢
  generalize Run.interrupted willing _ _ 20 = r at *
  have observes : r.worker.machine.Observes clickingTwice {} := by
    left
    intro silent
    simp [Run.event?, silent] at entered
  have walks : r.worker.machine.Walks "l" 1 2 := by
    refine ⟨⟨"l", .loop, [("Iterations", .number (.ofNat 2))]⟩, rfl, ?_⟩
    rw [stack]
    exact List.mem_singleton_self _
  exact ((observed observes).1.values "l" 1 2 walks).2

end MacroGraph.Engine
