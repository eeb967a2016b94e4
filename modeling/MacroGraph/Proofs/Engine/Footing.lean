import MacroGraph.Proofs.Compile
import MacroGraph.Proofs.Engine.Interruption
import MacroGraph.Proofs.Engine.Revisiting

namespace MacroGraph.Engine
variable {d : Document} {t : Timing}

namespace Point

/-- A walk takes up, enters and executes nothing but nodes that run. None of them fires no pin
unless the flag is down. -/
def Lands (d : Document) (running : Bool) : Point → Prop
  | .arrive id => ∃ n, d.node? id = some n ∧ n.kind.isDataOnly = false
  | .enter n | .execute n => n.kind.isDataOnly = false
  | .leave _ none => running = false
  | .request _ _ (.leave _ none) => False
  | _ => True

theorem Lands.down {running : Bool} {p : Point} (lands : p.Lands d running) : p.Lands d false := by
  unfold Lands at lands ⊢
  split <;> trivial

def node? : Point → Option Node
  | .enter n | .execute n | .iterate n _ _ | .check n _ | .wait n _ .delay | .leave n _ => some n
  | .request _ _ next => next.node?
  | _ => none

end Point

namespace Machine
variable {running : Bool} {m after : Machine} {notes : List Note}

theorem lands_execution (o : Outputs) {n : Node} (runs : n.kind.isDataOnly = false) :
    (execution d o n).point.Lands d running := by
  unfold execution
  cases kind : n.kind with
  | keyPress =>
    simp only [pressing]
    split <;> trivial
  | numberLiteral | stringLiteral | math | compare =>
    rw [kind] at runs
    cases runs
  | _ => trivial

theorem Moves.lands (moves : Moves d t running m after notes) (valid : d.Valid)
    (lands : m.point.Lands d running) : after.point.Lands d running := by
  cases moves with
  | roots n here found =>
    obtain ⟨start, same, kind⟩ := valid.exists_start
    obtain rfl : n = start := Option.some.inj (found.symm.trans same)
    exact ⟨n, by rw [Document.id_of_node? found]; exact found, by rw [kind]; rfl⟩
  | takes id n here up found =>
    rw [here] at lands
    obtain ⟨n', same, runs⟩ := lands
    cases found.symm.trans same
    exact runs
  | executes n here up =>
    rw [here] at lands
    rw [(executed_eq d m n).1]
    exact lands_execution m.outputs lands
  | skips n here down => exact down
  | iterates _ _ _ _ _ _ _ found | checks _ _ _ _ _ _ found | follows _ _ _ _ _ found =>
    exact valid.exists_target found
  | wakes n remaining pause here halted =>
    cases pause with
    | delay => trivial
    | repetition =>
      obtain ⟨start, found, kind⟩ := valid.exists_start
      exact ⟨start, found, by rw [kind]; rfl⟩
  | _ => trivial

theorem lands_notified {n : Notice} (demand : m.demand = .notify n)
    (lands : m.point.Lands d running) : m.notified.1.point.Lands d running := by
  rcases notified_cases demand with ⟨_, _, goes⟩ | ⟨l, here, _, goes⟩ | ⟨fault, _, _, goes⟩ <;>
    rw [goes]
  · trivial
  · rw [here] at lands
    exact lands
  · trivial

theorem Fits.lands_answered (fits : m.Fits d) {a : Action} (answer : Except ActionError Unit)
    (demand : m.demand = .act a)
    (lands : m.point.Lands d running) : (m.answered answer).point.Lands d running := by
  obtain ⟨n, next, here⟩ := request_of_demand demand
  have point := fits.point
  unfold Machine.answered
  rw [here] at lands point ⊢
  cases answer with
  | error cause => trivial
  | ok _ =>
    cases next with
    | leave l pin =>
      cases pin with
      | none => cases lands
      | some pin => trivial
    | wait l remaining pause => trivial
    | _ => cases point

theorem invariant_lands (valid : d.Valid) :
    Invariant d t fun running m => m.Fits d ∧ m.point.Lands d running where
  down := fun ⟨fits, lands⟩ => ⟨fits, lands.down⟩
  moves := fun moves ⟨fits, lands⟩ => ⟨moves.fits valid fits, moves.lands valid lands⟩
  notified := fun demand ⟨fits, lands⟩ =>
    ⟨fits.notified demand, lands_notified demand lands⟩
  answered := fun answer demand ⟨fits, lands⟩ =>
    ⟨fits.answered answer demand, fits.lands_answered answer demand lands⟩

theorem Executes.node? {n : Node} {p : Point} (executes : Executes n p) : p.node? = some n := by
  cases executes <;> rfl

/-- The walk above these frames is at a node: it deals with the node, or it walks its body. -/
def IsAt (stack : List Frame) (n : Node) (m : Machine) : Prop :=
  m.stack = stack ∧ m.point.node? = some n ∨ ∃ f, f.node = n ∧ m.Above f stack

theorem not_isAt_begin (stack : List Frame) (n : Node) : ¬ ({} : Machine).IsAt stack n := by
  rintro (⟨_, node⟩ | ⟨f, _, inner, frames⟩)
  · cases node
  · simp at frames

theorem Above.ne {f : Frame} {stack : List Frame} (above : m.Above f stack) : m.stack ≠ stack := by
  obtain ⟨inner, frames⟩ := above
  intro same
  have longer := congrArg List.length (same.symm.trans frames)
  simp only [List.length_append, List.length_cons] at longer
  omega

theorem IsAt.node? {stack : List Frame} {n : Node} (isAt : m.IsAt stack n) (same : m.stack = stack) :
    m.point.node? = some n := by
  rcases isAt with ⟨_, node⟩ | ⟨f, _, above⟩
  · exact node
  · exact absurd same above.ne

/-- What a step does to the nodes that walks are at. -/
inductive Shifts (m after : Machine) : Prop where
  | stays (stack : after.stack = m.stack)
    (node : ∀ n, after.point.node? = some n → m.point.node? = some n)
  | enters (n : Node) (stack : after.stack = m.stack) (here : after.point = .enter n)
  | opens (f : Frame) (stack : after.stack = f :: m.stack) (node : m.point.node? = some f.node)
    (arrives : after.point.node? = none)
  | closes (f : Frame) (stack : m.stack = f :: after.stack) (node : after.point.node? = some f.node)

theorem Moves.shifts (moves : Moves d t running m after notes) : Shifts m after := by
  cases moves with
  | takes id n here up found => exact .enters n rfl rfl
  | executes n here up =>
    obtain ⟨goes, frames, _⟩ := executed_eq d m n
    refine .stays frames ?_
    intro l node
    rw [goes, (executes_execution d m.outputs n).node?] at node
    rw [here]
    exact node
  | iterates n next total body here =>
    exact .opens (.loop n (next + 1) total) rfl (by rw [here]; rfl) rfl
  | checks n next body here => exact .opens (.whileLoop n (next + 1)) rfl (by rw [here]; rfl) rfl
  | resumesLoop n next total rest here top | resumesWhile n next rest here top =>
    exact .closes _ top rfl
  | sleeps n remaining pause here | wakes n remaining pause here =>
    refine .stays rfl ?_
    rw [here]
    cases pause <;> exact fun _ node => node
  | iteratesEmpty _ _ _ here | completes _ _ _ here | checksEmpty _ _ here | refuses _ _ here
  | quits _ _ here | skips _ here =>
    refine .stays rfl ?_
    rw [here]
    exact fun _ node => node
  | _ => exact .stays rfl nofun

theorem Goes.shifts (goes : Goes d t m after) : Shifts m after := by
  cases goes with
  | moves moves => exact moves.shifts
  | notified demand =>
    rcases notified_cases demand with ⟨_, _, goes⟩ | ⟨n, here, _, goes⟩ | ⟨fault, _, _, goes⟩ <;>
      rw [goes]
    · exact .stays rfl nofun
    · refine .stays rfl ?_
      rw [here]
      exact fun _ node => node
    · exact .stays rfl nofun
  | answered answer demand =>
    obtain ⟨n, next, here⟩ := request_of_demand demand
    unfold Machine.answered
    rw [here]
    cases answer with
    | error cause => exact .stays rfl nofun
    | ok _ =>
      refine .stays rfl ?_
      rw [here]
      exact fun _ node => node
  | stays => exact .stays rfl fun _ node => node

theorem Shifts.isAt (shifts : Shifts m after) {stack : List Frame} {n : Node}
    (isAt : after.IsAt stack n) :
    after.Enters stack n ∨ m.IsAt stack n ∧ ∀ n', ¬ after.Enters stack n' := by
  by_cases entered : ∃ n', after.Enters stack n'
  · left
    obtain ⟨n', here, frames⟩ := entered
    have node := isAt.node? frames
    rw [here] at node
    cases node
    exact ⟨here, frames⟩
  · refine .inr ⟨?_, fun n' enters => entered ⟨n', enters⟩⟩
    cases shifts with
    | stays same node =>
      rcases isAt with ⟨frames, here⟩ | ⟨f, loop, above⟩
      · exact .inl ⟨same.symm.trans frames, node n here⟩
      · exact .inr ⟨f, loop, by rwa [Above, ← same]⟩
    | enters l same here =>
      rcases isAt with ⟨frames, _⟩ | ⟨f, loop, above⟩
      · exact absurd ⟨l, here, frames⟩ entered
      · exact .inr ⟨f, loop, by rwa [Above, ← same]⟩
    | opens top opened node arrives =>
      rcases isAt with ⟨_, here⟩ | ⟨f, loop, inner, frames⟩
      · rw [arrives] at here
        cases here
      · rw [opened] at frames
        cases inner with
        | nil =>
          obtain ⟨rfl, rest⟩ := List.cons_eq_cons.1 frames
          exact .inl ⟨rest, loop ▸ node⟩
        | cons first inner => exact .inr ⟨f, loop, inner, (List.cons_eq_cons.1 frames).2⟩
    | closes top closed node =>
      rcases isAt with ⟨frames, here⟩ | ⟨f, loop, inner, frames⟩
      · rw [node] at here
        exact .inr ⟨top, Option.some.inj here, [], frames ▸ closed⟩
      · exact .inr ⟨f, loop, top :: inner, by rw [closed, frames, List.cons_append]⟩

/-- Only an id that is taken up with the flag down, and a pin that leads nowhere, end a walk. -/
theorem Moves.walked (moves : Moves d t running m after notes) (ends : after.point = .walked) :
    (∃ id, m.point = .arrive id ∧ (running = false ∨ d.node? id = none)) ∨
      ∃ n pin, m.point = .leave n pin ∧ (running = false ∨ pin.bind (d.nextExec n.id) = none) := by
  cases moves with
  | stops id here halted => exact .inl ⟨id, here, halted⟩
  | leaves n pin here halted => exact .inr ⟨n, pin, here, halted⟩
  | executes n here up =>
    rw [(executed_eq d m n).1] at ends
    have executes := executes_execution d m.outputs n
    rw [ends] at executes
    cases executes
  | wakes n remaining pause here halted => cases pause <;> cases ends
  | _ => cases ends

end Machine

namespace Run
variable {σ : Type} {host : Host σ}

theorem silent_of_walked (host : Host σ) {r : Run σ} (fits : r.worker.machine.Fits d)
    (ends : (r.step host).worker.machine.point = .walked) : r.worker.machine.demand = .nothing := by
  cases demand : r.worker.machine.demand with
  | nothing => rfl
  | notify n =>
    rw [step_worker_notify demand] at ends
    have here : r.worker.machine.notified.1.point = .walked := ends
    rcases Machine.notified_cases demand with ⟨_, _, goes⟩ | ⟨_, _, _, goes⟩ | ⟨_, _, _, goes⟩ <;>
      · rw [goes] at here
        cases here
  | act a =>
    rw [step_worker_act demand] at ends
    cases reply : (host r.world (.action a)).reply with
    | done =>
      rw [reply] at ends
      rcases fits.answered_ok demand with ⟨l, pin, next⟩ | ⟨l, remaining, pause, next⟩ <;>
        cases next.symm.trans ends
    | failed cause =>
      have faulted := Machine.isFaulted_answered cause demand
      rw [reply] at ends
      rw [show (r.worker.machine.answered (.error cause)).point = .walked from ends] at faulted
      cases faulted
    | crashed =>
      obtain ⟨l, next, here⟩ := Machine.request_of_demand demand
      rw [reply] at ends
      cases here.symm.trans ends
  | ended result =>
    have here : r.worker.machine.point = .walked := by simpa [step, demand] using ends
    simp [Machine.demand, here] at demand

section
variable {r : Run σ} (document : r.worker.document = d) (timing : r.worker.timing = t)
include document timing

/-- A walk that ends with the flag up has fired a pin that leads nowhere. -/
theorem exists_pin_of_walked (host : Host σ) (lowers : Bool) (fits : r.worker.machine.Fits d)
    (lands : r.worker.machine.point.Lands d r.worker.running)
    (alive : r.worker.machine.demand = .nothing → r.worker.isAlive = true)
    (ends : (r.passes host lowers).worker.machine.point = .walked)
    (up : (r.passes host lowers).worker.running = true) :
    ∃ n pin, r.worker.machine.point = .leave n (some pin) ∧ d.nextExec n.id pin = none := by
  cases lowers with
  | true => cases up
  | false =>
    rw [passes, if_neg Bool.false_ne_true] at ends up
    split at ends
    · next steps =>
      rw [if_pos steps] at up
      have silent := silent_of_walked host fits ends
      rw [step_worker_silent silent, Worker.advance, document, timing] at ends up
      simp only at ends
      simp only [ends] at up
      have moves := Machine.moves_step d t r.worker.running silent
      rw [up] at moves lands
      rcases moves.walked (by rw [← up]; exact ends) with
        ⟨id, here, down | missing⟩ | ⟨n, pin, here, down | missing⟩
      · cases down
      · rw [here] at lands
        obtain ⟨n, found, _⟩ := lands
        cases missing.symm.trans found
      · cases down
      · rw [here] at lands
        cases pin with
        | none => cases lands
        | some pin => exact ⟨n, pin, here, missing⟩
    · next halted => exact absurd (alive (by rw [Machine.demand, ends])) halted

/-- A walk that is at a node has entered it, and has entered no other since. -/
theorem exists_enters (host : Host σ) (lowers : Nat → Bool)
    (begins : r.worker.machine = {}) {stack : List Frame} {n : Node} {k : Nat}
    (isAt : (r.interrupted host lowers k).worker.machine.IsAt stack n) :
    ∃ i ≤ k, (r.interrupted host lowers i).worker.machine.Enters stack n ∧
      ∀ j, i < j → j ≤ k → (r.interrupted host lowers j).worker.machine.IsAt stack n ∧
        ∀ n', ¬ (r.interrupted host lowers j).worker.machine.Enters stack n' := by
  induction k with
  | zero =>
    rw [interrupted, begins] at isAt
    exact absurd isAt (Machine.not_isAt_begin stack n)
  | succ k ih =>
    have goes := goes_interrupted document timing host lowers k
    rcases goes.shifts.isAt isAt with enters | ⟨before, other⟩
    · exact ⟨k + 1, Nat.le_refl _, enters, fun j lt le => absurd lt (Nat.not_lt.2 le)⟩
    · obtain ⟨i, le, enters, since⟩ := ih before
      refine ⟨i, Nat.le_succ_of_le le, enters, ?_⟩
      intro j lt last
      rcases Nat.le_succ_iff.1 last with earlier | rfl
      · exact since j lt earlier
      · exact ⟨isAt, other⟩

end

end Run

/-- Every id that a walk of a document takes up is that of a node that runs, as are all nodes that are
entered and executed, whatever the world answers and whenever the flag is lowered. So a walk that is
back with the flag up has come to its end at a pin that leads nowhere: the node that it entered last
has fired it, and no exec connection comes out of that pin. -/
theorem walks_end_at_open_pins {σ : Type} (obtained : d.Obtained) (host : Host σ) (t : Timing)
    (level : Option Log.Level) (running : Bool) (world : σ) (lowers : Nat → Bool) :
    let run := (Run.begin d t level running world).interrupted host lowers
    let machine := fun k => (run k).worker.machine
    (∃ n, d.node? d.start = some n ∧ n.kind = .start) ∧
    (∀ k id, (machine k).point = .arrive id →
      ∃ n, d.node? id = some n ∧ n.kind.isDataOnly = false) ∧
    (∀ k n, (machine k).point = .enter n ∨ (machine k).point = .execute n →
      d.node? n.id = some n ∧ n.kind.isDataOnly = false) ∧
    ∀ k, (machine (k + 1)).point = .walked → (run (k + 1)).worker.running = true →
      ∃ n pin, (machine k).point = .leave n (some pin) ∧
        (∀ c ∈ d.connections, c.flow = .exec → c.output ≠ (n.id, pin)) ∧
        ∃ i < k, (machine i).Enters (machine k).stack n ∧ ∀ j, i < j → j ≤ k →
          ¬ (machine j).Returns (machine k).stack ∧
            ∀ n', ¬ (machine j).Enters (machine k).stack n' := by
  intro run machine
  have valid := obtained.valid
  have first : (Run.begin d t level running world).worker.document = d ∧
      (Run.begin d t level running world).worker.timing = t := ⟨rfl, rfl⟩
  have treads : ∀ k, (machine k).Fits d ∧ (machine k).point.Lands d (run k).worker.running :=
    Run.invariant_interrupted first.1 first.2 (Machine.invariant_lands valid) host lowers
      ⟨⟨rfl, rfl⟩, trivial⟩
  refine ⟨valid.exists_start, ?arrives, ?entered, ?ends⟩
  case arrives =>
    intro k id here
    have lands := (treads k).2
    rwa [here] at lands
  case entered =>
    rintro k n here
    obtain ⟨⟨point, _⟩, lands⟩ := treads k
    rcases here with here | here <;>
      · rw [here] at lands point
        exact ⟨point.1, lands⟩
  case ends =>
    intro k walked up
    obtain ⟨fits, lands⟩ := treads k
    obtain ⟨document, timing⟩ := Run.document_interrupted first.1 first.2 host lowers k
    obtain ⟨n, pin, here, missing⟩ := Run.exists_pin_of_walked document timing host (lowers k)
      fits lands (Run.alive_interrupted host lowers rfl) walked up
    have isAt : (machine k).IsAt (machine k).stack n := .inl ⟨rfl, by rw [here]; rfl⟩
    obtain ⟨i, le, enters, since⟩ := Run.exists_enters first.1 first.2 host lowers rfl isAt
    have before : i ≠ k := by
      rintro rfl
      cases here.symm.trans enters.1
    refine ⟨n, pin, here, valid.nextExec_eq_none_iff.1 missing, i, by omega, enters, ?_⟩
    intro j lt last
    obtain ⟨still, other⟩ := since j lt last
    refine ⟨?_, other⟩
    rintro ⟨back, frames⟩
    have node := still.node? frames
    rw [back] at node
    cases node

def choosy : Document where
  serial := 0
  nodes := [⟨"s", .start, []⟩, ⟨"l", .loop, [("Iterations", .number (.ofNat 2))]⟩,
    ⟨"i", .ifStatement, []⟩, ⟨"k", .compare, []⟩, ⟨"c", .mouseClick, []⟩]
  connections := [⟨"s", Pin.exec, "l", Pin.exec, .exec⟩, ⟨"l", Pin.loopBody, "i", Pin.exec, .exec⟩,
    ⟨"l", Pin.index, "k", "A", .data⟩, ⟨"k", "Result", "i", "Condition", .data⟩,
    ⟨"i", Pin.onTrue, "c", Pin.exec, .exec⟩]
  start := "s"
  index := {
    exec := [(("s", Pin.exec), "l"), (("l", Pin.loopBody), "i"), (("i", Pin.onTrue), "c")]
    data := [(("k", "A"), ("l", Pin.index)), (("i", "Condition"), ("k", "Result"))] }

/-- The second walk of the body ends at a pin that leads nowhere. Right after it the flag is lowered,
while no event is under way. -/
theorem choosy_ends_at_false :
    let run := (Run.begin choosy {} none true ()).interrupted willing fun k => k == 26
    let i : Node := ⟨"i", .ifStatement, []⟩
    choosy.Obtained ∧ (run 26).worker.machine.point = .walked ∧
      (run 26).worker.running = true ∧ (run 27).worker.running = false ∧
      (run 25).worker.machine.point = .leave i (some Pin.onFalse) ∧
      (∀ c ∈ choosy.connections, c.flow = .exec → c.output ≠ ("i", Pin.onFalse)) ∧
      ∃ k < 25, (run k).worker.machine.Enters (run 25).worker.machine.stack i := by
  intro run i
  have obtained : choosy.Obtained :=
    .built (show Document.build 0 choosy.nodes choosy.connections "s" = .ok choosy from rfl)
  have walks := walks_end_at_open_pins obtained willing {} none true () fun k => k == 26
  obtain ⟨n, pin, here, unused, k, before, enters, -⟩ := walks.2.2.2 25 rfl rfl
  have leaves : (run 25).worker.machine.point = .leave i (some Pin.onFalse) := rfl
  cases leaves.symm.trans here
  exact ⟨obtained, rfl, rfl, rfl, leaves, unused, k, before, enters⟩

end MacroGraph.Engine
