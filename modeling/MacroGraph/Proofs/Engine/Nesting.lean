import MacroGraph.Proofs.Document.WellFormed
import MacroGraph.Proofs.Engine.Step

/-!
Loops within loops. The frames of a run belong to loops that lie in the bodies of each other,
and its published outputs are read off those frames: `Machine.Fits` holds all along.
-/
namespace MacroGraph.Engine
variable {d : Document}

namespace Frame

/-- A frame belongs to a loop of the document, in an iteration that the loop makes. -/
def Fits (d : Document) : Frame → Prop
  | loop n next total => d.node? n.id = some n ∧ n.kind = .loop ∧ 0 < next ∧ next ≤ total
  | whileLoop n _ => d.node? n.id = some n ∧ n.kind = .whileLoop

def published : Frame → Option (String × List (String × Value))
  | loop n next _ => some (n.id, [(Pin.index, .number (.ofNat (next - 1)))])
  | whileLoop .. => none

theorem Fits.isLoop {f : Frame} (fits : f.Fits d) :
    d.node? f.node.id = some f.node ∧ f.node.kind.isLoop = true := by
  cases f with
  | loop n next total => exact ⟨fits.1, by rw [node, fits.2.1]; rfl⟩
  | whileLoop n next => exact ⟨fits.1, by rw [node, fits.2]; rfl⟩

end Frame

def published (stack : List Frame) : Outputs := stack.filterMap Frame.published

@[simp] theorem published_loop (n : Node) (next total : Nat) (rest : List Frame) :
    published (.loop n next total :: rest) =
      (n.id, [(Pin.index, .number (.ofNat (next - 1)))]) :: published rest := rfl

@[simp] theorem published_whileLoop (n : Node) (next : Nat) (rest : List Frame) :
    published (.whileLoop n next :: rest) = published rest := rfl

/-- A node lies in the bodies of the loops of a stack, each of which lies in the bodies of those
below it. -/
def Nested (d : Document) : String → List Frame → Prop
  | _, [] => True
  | id, frame :: rest => frame.Fits d ∧
      (∃ body, d.nextExec frame.node.id Pin.loopBody = some body ∧
        Relation.ReflTransGen (Leads d.connections) body id) ∧
      Nested d frame.node.id rest

namespace Nested

theorem follow {a b : String} {stack : List Frame} (nested : Nested d a stack)
    (leads : Leads d.connections a b) : Nested d b stack := by
  cases stack with
  | nil => trivial
  | cons frame rest =>
    obtain ⟨fits, ⟨body, next, path⟩, below⟩ := nested
    exact ⟨fits, ⟨body, next, path.tail leads⟩, below⟩

theorem path (valid : d.Valid) {id : String} {stack : List Frame} (nested : Nested d id stack)
    {f : Frame} (mem : f ∈ stack) :
    f.Fits d ∧ ∃ body, d.nextExec f.node.id Pin.loopBody = some body ∧
      Relation.ReflTransGen (Leads d.connections) body id := by
  induction stack generalizing id with
  | nil => cases mem
  | cons top rest ih =>
    obtain ⟨fits, ⟨body, next, path⟩, below⟩ := nested
    cases mem with
    | head => exact ⟨fits, body, next, path⟩
    | tail _ mem =>
      -- A body further out leads to the innermost loop, and that to its own body.
      obtain ⟨fits, outer, first, lower⟩ := ih below mem
      exact ⟨fits, outer, first, (lower.tail (valid.leads next)).trans path⟩

/-- No loop whose body is being walked is entered again. -/
theorem apart (valid : d.Valid) {id : String} {stack : List Frame} (nested : Nested d id stack)
    {f : Frame} (mem : f ∈ stack) : f.node.id ≠ id := by
  rintro rfl
  obtain ⟨fits, body, next, path⟩ := nested.path valid mem
  exact valid.not_reentered fits.isLoop.1 fits.isLoop.2 next path

end Nested

theorem withdraw_published {id : String} {stack : List Frame}
    (apart : ∀ f ∈ stack, f.node.id ≠ id) : (published stack).withdraw id = published stack := by
  apply List.filter_eq_self.2
  intro e mem
  obtain ⟨f, below, entry⟩ := List.mem_filterMap.1 mem
  cases f with
  | loop n next total =>
    cases entry
    exact bne_iff_ne.2 (apart (.loop n next total) below)
  | whileLoop n next => cases entry

theorem lookup_published (valid : d.Valid) {id : String} {stack : List Frame}
    (nested : Nested d id stack) {n : Node} {next total : Nat}
    (mem : .loop n next total ∈ stack) :
    (published stack).lookup n.id = some [(Pin.index, .number (.ofNat (next - 1)))] := by
  induction stack generalizing id with
  | nil => cases mem
  | cons top rest ih =>
    obtain ⟨fits, _, below⟩ := nested
    cases mem with
    | head => simp
    | tail _ mem =>
      have other : n.id ≠ top.node.id := below.apart valid mem
      cases top with
      | loop m _ _ =>
        rw [published_loop, List.lookup_cons, beq_false_of_ne (b := m.id) other]
        exact ih below mem
      | whileLoop m _ => exact ih below mem

theorem frame_of_lookup_published {id : String} {stack : List Frame}
    (found : ((published stack).lookup id).isSome = true) :
    ∃ n next total, n.id = id ∧ .loop n next total ∈ stack := by
  obtain ⟨e, mem, same⟩ := List.lookup_isSome_iff.1 found
  obtain ⟨f, below, entry⟩ := List.mem_filterMap.1 mem
  cases f with
  | loop n next total =>
    cases entry
    exact ⟨n, next, total, (beq_iff_eq.1 same).symm, below⟩
  | whileLoop n next => cases entry

def Point.Fits (d : Document) (stack : List Frame) : Point → Prop
  | .begin | .clear | .root | .wait _ _ .repetition | .request _ _ (.wait _ _ .repetition) =>
    stack = []
  | .arrive id => Nested d id stack
  | .enter n | .execute n | .leave n _ | .wait n _ .delay | .request _ _ (.leave n _)
  | .request _ _ (.wait n _ .delay) => d.node? n.id = some n ∧ Nested d n.id stack
  | .iterate n next total =>
    d.node? n.id = some n ∧ n.kind = .loop ∧ next ≤ total ∧ Nested d n.id stack
  | .check n _ => d.node? n.id = some n ∧ n.kind = .whileLoop ∧ Nested d n.id stack
  | .request .. => False
  | .walked | .finish _ | .report _ | .ended _ => ∃ id, Nested d id stack

/-- The node that is executed or begins an iteration. -/
def Point.beginning? : Point → Option Node
  | .execute n | .iterate n _ _ | .check n _ => some n
  | _ => none

theorem Point.Fits.next {stack : List Frame} {n : Node} {a : Action} {next : Point}
    (fits : (Point.request n a next).Fits d stack) :
    next.Fits d stack ∧ next.beginning? = none := by
  cases next with
  | leave m pin => exact ⟨fits, rfl⟩
  | wait m remaining pause => cases pause <;> exact ⟨fits, rfl⟩
  | _ => cases fits

theorem Point.Fits.nested {stack : List Frame} {p : Point} (fits : p.Fits d stack) :
    ∃ id, Nested d id stack := by
  have outermost : stack = [] → ∃ id, Nested d id stack := by
    rintro rfl
    exact ⟨"", trivial⟩
  cases p with
  | begin | clear | root => exact outermost fits
  | arrive id => exact ⟨id, fits⟩
  | enter n | execute n | leave n pin => exact ⟨n.id, fits.2⟩
  | iterate n next total => exact ⟨n.id, fits.2.2.2⟩
  | check n next => exact ⟨n.id, fits.2.2⟩
  | wait n remaining pause =>
    cases pause with
    | delay => exact ⟨n.id, fits.2⟩
    | repetition => exact outermost fits
  | request n a next =>
    cases next with
    | leave m pin => exact ⟨m.id, fits.2⟩
    | wait m remaining pause =>
      cases pause with
      | delay => exact ⟨m.id, fits.2⟩
      | repetition => exact outermost fits
    | _ => cases fits
  | walked | finish fault | report fault | ended result => exact fits

namespace Machine

/-- What should be published. Between two iterations the index of the last one still is. -/
def held (m : Machine) : Outputs :=
  match m.point with
  | .iterate n (next + 1) _ => (n.id, [(Pin.index, .number (.ofNat next))]) :: published m.stack
  | _ => published m.stack

/-- The invariant of a run. -/
structure Fits (d : Document) (m : Machine) : Prop where
  point : m.point.Fits d m.stack
  outputs : m.outputs = m.held

theorem Executes.fits {n : Node} {p : Point} {stack : List Frame} (executes : Executes n p)
    (found : d.node? n.id = some n) (nested : Nested d n.id stack) : p.Fits d stack := by
  cases executes with
  | fires pin => exact ⟨found, nested⟩
  | waits remaining kind => exact ⟨found, nested⟩
  | requests a => exact ⟨found, nested⟩
  | loops total kind => exact ⟨found, kind, Nat.zero_le total, nested⟩
  | checks kind => exact ⟨found, kind, nested⟩

theorem Executes.held {n : Node} {m : Machine} (executes : Executes n m.point) :
    m.held = published m.stack := by
  unfold Machine.held
  split
  · next here =>
    rw [here] at executes
    cases executes
  · rfl

/-- Between two iterations only the loop itself holds more than the frames below. -/
theorem Fits.withdraw (valid : d.Valid) {m : Machine} (fits : m.Fits d) {n : Node}
    {next total : Nat} (here : m.point = .iterate n next total) :
    m.outputs.withdraw n.id = published m.stack := by
  have point := fits.point
  simp only [here, Point.Fits] at point
  have below := withdraw_published fun f mem => point.2.2.2.apart valid mem
  rw [fits.outputs, held, here]
  cases next with
  | zero => exact below
  | succ i => simpa [Outputs.withdraw] using below

theorem Moves.fits (valid : d.Valid) {t : Timing} {running : Bool} {m after : Machine}
    {notes : List Note} (moves : Moves d t running m after notes) (fits : m.Fits d) :
    after.Fits d := by
  have point := fits.point
  have outputs := fits.outputs
  cases moves with
  | begins here | skips _ here | checksEmpty _ _ here | finishes here | ends _ here =>
    simp only [here, Point.Fits, held] at point outputs
    exact ⟨point, outputs⟩
  | unrooted here missing =>
    simp only [here, Point.Fits, held] at point outputs
    exact ⟨⟨"", by simp [goto, point, Nested]⟩, outputs⟩
  | roots n here found =>
    simp only [here, Point.Fits, held] at point outputs
    exact ⟨by simp [Point.Fits, point, Nested], outputs⟩
  | takes id n here up found =>
    simp only [here, Point.Fits, held] at point outputs
    cases Document.id_of_node? found
    exact ⟨⟨found, point⟩, outputs⟩
  | stops id here halted =>
    simp only [here, Point.Fits, held] at point outputs
    exact ⟨⟨id, point⟩, outputs⟩
  | executes n here up =>
    simp only [here, Point.Fits, held] at point outputs
    obtain ⟨found, nested⟩ := point
    obtain ⟨goes, stays, holds⟩ := executed_eq d m n
    have executes : Executes n (m.executed d n).1.point := goes ▸ executes_execution d m.outputs n
    refine ⟨executes.fits found (stays ▸ nested), ?_⟩
    rw [executes.held, stays, holds, outputs]
    split
    · exact withdraw_published fun f mem => nested.apart valid mem
    · rfl
  | iterates n next total body here up more found =>
    simp only [here, Point.Fits] at point
    obtain ⟨known, kind, _, nested⟩ := point
    have rest : m.outputs.withdraw n.id = published m.stack := fits.withdraw valid here
    refine ⟨⟨⟨known, kind, Nat.succ_pos next, more⟩, ⟨body, found, .refl⟩, nested⟩, ?_⟩
    simp [held, Outputs.publish, rest]
  | iteratesEmpty n next total here up more missing =>
    simp only [here, Point.Fits] at point
    obtain ⟨known, kind, _, nested⟩ := point
    have rest : m.outputs.withdraw n.id = published m.stack := fits.withdraw valid here
    refine ⟨⟨known, kind, more, nested⟩, ?_⟩
    simp [held, Outputs.publish, rest]
  | completes n next total here halted =>
    simp only [here, Point.Fits] at point
    obtain ⟨known, kind, _, nested⟩ := point
    have rest : m.outputs.withdraw n.id = published m.stack := fits.withdraw valid here
    exact ⟨⟨known, nested⟩, rest⟩
  | checks n next body here up holds found =>
    simp only [here, Point.Fits, held] at point outputs
    obtain ⟨known, kind, nested⟩ := point
    exact ⟨⟨⟨known, kind⟩, ⟨body, found, .refl⟩, nested⟩, outputs⟩
  | refuses _ _ here | quits _ _ here =>
    simp only [here, Point.Fits, held] at point outputs
    exact ⟨⟨point.1, point.2.2⟩, outputs⟩
  | sleeps n remaining pause here up more =>
    cases pause <;> simp only [here, Point.Fits, held] at point outputs <;> exact ⟨point, outputs⟩
  | wakes n remaining pause here halted =>
    cases pause with
    | delay =>
      simp only [here, Point.Fits, held] at point outputs
      exact ⟨point, outputs⟩
    | repetition =>
      simp only [here, Point.Fits, held] at point outputs
      exact ⟨by simp [goto, afterWait, Point.Fits, point, Nested], outputs⟩
  | follows n pin id here up found =>
    simp only [here, Point.Fits, held] at point outputs
    exact ⟨point.2.follow (valid.leads found), outputs⟩
  | leaves n pin here halted =>
    simp only [here, Point.Fits, held] at point outputs
    exact ⟨⟨n.id, point.2⟩, outputs⟩
  | resumesLoop n next total rest here top =>
    simp only [here, Point.Fits, held, top] at point outputs
    obtain ⟨id, ⟨known, kind, pos, le⟩, _, below⟩ := point
    refine ⟨⟨known, kind, le, below⟩, ?_⟩
    obtain ⟨i, rfl⟩ := Nat.exists_eq_succ_of_ne_zero (Nat.ne_of_gt pos)
    exact outputs
  | resumesWhile n next rest here top =>
    simp only [here, Point.Fits, held, top] at point outputs
    obtain ⟨id, ⟨known, kind⟩, _, below⟩ := point
    exact ⟨⟨known, kind, below⟩, outputs⟩
  | pauses n here empty again up found =>
    simp only [here, Point.Fits, held] at point outputs
    exact ⟨empty, outputs⟩

theorem held_eq {m : Machine} (between : ∀ n next total, m.point ≠ .iterate n next total) :
    m.held = published m.stack := by
  unfold held
  split
  · next here => exact absurd here (between _ _ _)
  · rfl

theorem Fits.notified {m : Machine} {notice : Notice} (demand : m.demand = .notify notice)
    (fits : m.Fits d) : m.notified.1.Fits d := by
  obtain ⟨point, outputs⟩ := fits
  unfold Machine.notified
  cases here : m.point with
  | clear | enter n | finish fault =>
    simp only [here, Point.Fits, held] at point outputs
    exact ⟨point, outputs⟩
  | _ => simp [Machine.demand, here] at demand

theorem Fits.answered {m : Machine} {a : Action} (answer : Except ActionError Unit)
    (demand : m.demand = .act a) (fits : m.Fits d) : (m.answered answer).Fits d := by
  obtain ⟨point, outputs⟩ := fits
  unfold Machine.answered
  cases here : m.point with
  | request n b next =>
    simp only [here, held] at point outputs
    cases answer with
    | ok _ =>
      have goes : (m.goto next).held = published m.stack := by
        have rests := point.next.2
        apply held_eq
        intro n' i total between
        rw [show next = _ from between] at rests
        cases rests
      exact ⟨point.next.1, outputs.trans goes.symm⟩
    | error cause => exact ⟨point.nested, outputs⟩
  | _ => simp [Machine.demand, here] at demand

theorem Goes.fits (valid : d.Valid) {t : Timing} {m after : Machine} (goes : Goes d t m after)
    (fits : m.Fits d) : after.Fits d := by
  cases goes with
  | moves moves => exact moves.fits valid fits
  | notified demand => exact fits.notified demand
  | answered answer demand => exact fits.answered answer demand
  | stays => exact fits

end Machine

end MacroGraph.Engine
