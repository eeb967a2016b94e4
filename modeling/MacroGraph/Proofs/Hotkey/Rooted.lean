import MacroGraph.Proofs.Document.Rooting
import MacroGraph.Proofs.Hotkey.Bound

namespace MacroGraph

/-- The node is a start that is assigned this hotkey. -/
structure Node.StartsOn (n : Node) (hotkey : String) : Prop where
  start : n.kind = .start
  assigns : Assigns ((n.value? Bindings.hotkeyField).getD .null).toText hotkey

theorem Node.startsOn_iff {n : Node} {hotkey : String} : n.StartsOn hotkey ↔
    n.kind = .start ∧ Bindings.hotkeyOf? (n.value? Bindings.hotkeyField) = some (trim hotkey) := by
  rw [Bindings.hotkeyOf?, ← assigns_iff]
  exact ⟨fun h => ⟨h.start, h.assigns⟩, fun h => ⟨h.1, h.2⟩⟩

def LastOn (order : List Node) (hotkey : String) (n : Node) : Prop :=
  ∃ before after, order = before ++ n :: after ∧ n.StartsOn hotkey ∧
    ∀ m ∈ after, ¬ m.StartsOn hotkey

theorem LastOn.mem {order : List Node} {hotkey : String} {n : Node}
    (last : LastOn order hotkey n) : n ∈ order := by
  obtain ⟨before, after, rfl, _⟩ := last
  exact List.mem_append_right before List.mem_cons_self

theorem LastOn.startsOn {order : List Node} {hotkey : String} {n : Node}
    (last : LastOn order hotkey n) : n.StartsOn hotkey := by
  obtain ⟨_, _, _, starts, _⟩ := last
  exact starts

theorem LastOn.of_cons {first : Node} {rest : List Node} {hotkey : String} {n : Node}
    (last : LastOn (first :: rest) hotkey n) : LastOn rest hotkey n ∨
      n = first ∧ first.StartsOn hotkey ∧ ∀ m ∈ rest, ¬ m.StartsOn hotkey := by
  obtain ⟨before, after, split, starts, none⟩ := last
  cases before with
  | nil =>
    cases split
    exact .inr ⟨rfl, starts, none⟩
  | cons _ before =>
    cases split
    exact .inl ⟨before, after, rfl, starts, none⟩

theorem exists_lastOn {order : List Node} {hotkey : String} {n : Node} (mem : n ∈ order)
    (starts : n.StartsOn hotkey) : ∃ last, LastOn order hotkey last := by
  rcases Bindings.exists_last (fun m => Node.StartsOn m hotkey) order with
    none | ⟨before, last, after, split, startsLast, later⟩
  · exact absurd starts (none n mem)
  · exact ⟨last, before, after, split, startsLast, later⟩

def HotkeyAction.start? : HotkeyAction → Option String
  | toggle d => some d.start
  | emergencyStop => none

namespace Bindings
variable {d : Document} {hotkey : String}

def ofNodes (d : Document) (order : List Node) (settings : HotkeySettings) :
    Except DocumentError Bindings :=
  (bindStarts d {} order).map fun b => b.bindEmergencyStop settings

theorem ofDocument_eq (d : Document) (settings : HotkeySettings) :
    ofDocument d settings = ofNodes d d.nodes settings := rfl

/-- Starts that can be rooted are all bound. The last one with a hotkey keeps it, and a hotkey that
no start has is left as it was. -/
theorem exists_bindStarts {order : List Node} (b : Bindings)
    (roots : ∀ n ∈ order, n.kind = .start → d.withStart n.id = .ok { d with start := n.id }) :
    ∃ bound, bindStarts d b order = .ok bound ∧ ∀ hotkey,
      (∀ n, LastOn order hotkey n →
        bound.get? hotkey = some (.toggle { d with start := n.id })) ∧
      ((∀ n ∈ order, ¬ n.StartsOn hotkey) → bound.get? hotkey = b.get? hotkey) := by
  induction order generalizing b with
  | nil =>
    refine ⟨b, rfl, fun hotkey => ⟨?_, fun _ => rfl⟩⟩
    intro n last
    cases last.mem
  | cons first rest ih =>
    have later := fun n mem => roots n (List.mem_cons_of_mem first mem)
    unfold bindStarts
    split
    · next key kind assigned =>
      have start : first.kind = .start := by simpa using kind
      have own : ∀ {h}, first.StartsOn h ↔ trim h = key := by
        intro h
        rw [Node.startsOn_iff, assigned]
        exact ⟨fun on => (Option.some.inj on.2).symm, fun same => ⟨start, congrArg some same.symm⟩⟩
      rw [roots first List.mem_cons_self start]
      obtain ⟨bound, binds, found⟩ := ih (b.bind key (.toggle { d with start := first.id })) later
      refine ⟨bound, binds, fun hotkey => ⟨?_, ?_⟩⟩
      · intro n last
        rcases last.of_cons with inRest | ⟨rfl, starts, none⟩
        · exact (found hotkey).1 n inRest
        · have plain : trim key = key := trim_of_assignedHotkey? assigned
          rw [(found hotkey).2 none, get?_bind, if_pos (by rw [own.1 starts, plain])]
      · intro none
        obtain ⟨other, none⟩ := List.forall_mem_cons.1 none
        have plain : trim key = key := trim_of_assignedHotkey? assigned
        rw [(found hotkey).2 none, get?_bind, if_neg (by rwa [plain, ← own])]
    · next idle =>
      have other : ∀ h, ¬ first.StartsOn h := by
        intro h starts
        obtain ⟨start, assigned⟩ := Node.startsOn_iff.1 starts
        exact idle (trim h) (by simp [start]) assigned
      obtain ⟨bound, binds, found⟩ := ih b later
      refine ⟨bound, binds, fun hotkey => ⟨?_, ?_⟩⟩
      · intro n last
        rcases last.of_cons with inRest | ⟨_, starts, _⟩
        · exact (found hotkey).1 n inRest
        · exact absurd starts (other hotkey)
      · intro none
        exact (found hotkey).2 (List.forall_mem_cons.1 none).2

theorem withStart_of_start (valid : d.Valid) {n : Node} (mem : n ∈ d.nodes)
    (start : n.kind = .start) : d.withStart n.id = .ok { d with start := n.id } := by
  have starts : Document.checkStart d.nodes n.id = .ok () :=
    (Document.checkStart_eq_ok_iff (Document.valid_iff.1 valid).1.distinct).2
      ⟨n, mem, rfl, start⟩
  rw [Document.withStart_eq, starts]
  rfl

/-- What bindings hold for a hotkey: the emergency stop, or else the document rooted at the last
start with this hotkey, or else nothing. -/
structure Rooted (d : Document) (order : List Node) (settings : HotkeySettings) (b : Bindings)
    (hotkey : String) : Prop where
  stops : settings.Stops hotkey → b.get? hotkey = some .emergencyStop
  last : ¬ settings.Stops hotkey → ∀ n, LastOn order hotkey n →
    b.get? hotkey = some (.toggle { d with start := n.id })
  none : ¬ settings.Stops hotkey → (∀ n ∈ order, ¬ n.StartsOn hotkey) → b.get? hotkey = none

theorem exists_ofNodes (valid : d.Valid) {order : List Node} (perm : order.Perm d.nodes)
    (settings : HotkeySettings) :
    ∃ b, ofNodes d order settings = .ok b ∧ ∀ hotkey, Rooted d order settings b hotkey := by
  obtain ⟨b, binds, found⟩ := exists_bindStarts {}
    fun n mem start => withStart_of_start valid (perm.mem_iff.1 mem) start
  refine ⟨b.bindEmergencyStop settings, by rw [ofNodes, binds]; rfl, fun hotkey => ?_⟩
  constructor
  case stops => exact get?_bindEmergencyStop.1
  case last =>
    intro free n last
    rw [get?_bindEmergencyStop.2 free, (found hotkey).1 n last]
  case none =>
    intro free never
    rw [get?_bindEmergencyStop.2 free, (found hotkey).2 never]
    rfl

theorem Rooted.emergencyStop_iff {order : List Node} {settings : HotkeySettings} {b : Bindings}
    (rooted : Rooted d order settings b hotkey) :
    b.get? hotkey = some .emergencyStop ↔ settings.Stops hotkey := by
  refine ⟨fun bound => ?_, rooted.stops⟩
  by_contra free
  by_cases never : ∀ n ∈ order, ¬ n.StartsOn hotkey
  · cases bound.symm.trans (rooted.none free never)
  · push Not at never
    obtain ⟨n, mem, starts⟩ := never
    obtain ⟨last, isLast⟩ := exists_lastOn mem starts
    cases bound.symm.trans (rooted.last free last isLast)

theorem Rooted.toggle_iff {order : List Node} {settings : HotkeySettings} {b : Bindings}
    (rooted : Rooted d order settings b hotkey) {doc : Document} :
    b.get? hotkey = some (.toggle doc) ↔ ¬ settings.Stops hotkey ∧
      ∃ n, LastOn order hotkey n ∧ doc = { d with start := n.id } := by
  constructor
  · intro bound
    have free : ¬ settings.Stops hotkey := by
      intro stops
      cases bound.symm.trans (rooted.stops stops)
    by_cases never : ∀ n ∈ order, ¬ n.StartsOn hotkey
    · cases bound.symm.trans (rooted.none free never)
    · push Not at never
      obtain ⟨n, mem, starts⟩ := never
      obtain ⟨last, isLast⟩ := exists_lastOn mem starts
      cases bound.symm.trans (rooted.last free last isLast)
      exact ⟨free, last, isLast, rfl⟩
  · rintro ⟨free, n, isLast, rfl⟩
    exact rooted.last free n isLast

/-- In whatever order the nodes of a valid document are gone through, it is bound. A hotkey is bound
to the emergency stop exactly when it is that of the settings. Otherwise it is bound exactly when
some start has it, to a copy of the document that is rooted at such a start and has the same nodes,
connections and lookups. -/
theorem document_hotkeys_are_bound (valid : d.Valid) (settings : HotkeySettings) :
    ofDocument d settings = ofNodes d d.nodes settings ∧
      ∀ order : List Node, order.Perm d.nodes → ∃ b, ofNodes d order settings = .ok b ∧
        ∀ hotkey,
          (b.get? hotkey = some .emergencyStop ↔ settings.Stops hotkey) ∧
          (¬ settings.Stops hotkey → ((∃ doc, b.get? hotkey = some (.toggle doc)) ↔
            ∃ n ∈ d.nodes, n.StartsOn hotkey)) ∧
          ∀ doc, b.get? hotkey = some (.toggle doc) →
            doc.isCopyOf d = true ∧ (∃ n ∈ d.nodes, n.StartsOn hotkey ∧ doc.start = n.id) ∧
            doc.nodes = d.nodes ∧ doc.connections = d.connections ∧
            (∀ id, doc.node? id = d.node? id) ∧
            ∀ id pin, doc.nextExec id pin = d.nextExec id pin ∧
              doc.dataSource id pin = d.dataSource id pin := by
  refine ⟨ofDocument_eq d settings, fun order perm => ?_⟩
  obtain ⟨b, binds, rooted⟩ := exists_ofNodes valid perm settings
  refine ⟨b, binds, fun hotkey => ⟨(rooted hotkey).emergencyStop_iff, ?_, ?_⟩⟩
  · intro free
    simp only [(rooted hotkey).toggle_iff]
    constructor
    · rintro ⟨_, _, n, last, _⟩
      exact ⟨n, perm.mem_iff.1 last.mem, last.startsOn⟩
    · rintro ⟨n, mem, starts⟩
      obtain ⟨last, isLast⟩ := exists_lastOn (perm.mem_iff.2 mem) starts
      exact ⟨_, free, last, isLast, rfl⟩
  · intro doc bound
    obtain ⟨_, n, last, rfl⟩ := (rooted hotkey).toggle_iff.1 bound
    refine ⟨?_, ⟨n, perm.mem_iff.1 last.mem, last.startsOn, rfl⟩, rfl, rfl, fun _ => rfl,
      fun _ _ => ⟨rfl, rfl⟩⟩
    simp [Document.isCopyOf]

def starters : List Node :=
  [⟨"a", .start, [("Hotkey", .text " <f6> ")]⟩, ⟨"b", .start, [("Hotkey", .text "<esc>")]⟩,
    ⟨"c", .start, [("Hotkey", .text "Not Set")]⟩]

/-- The emergency stop keeps its hotkey, and what was never set is not bound. -/
theorem starters_are_bound :
    ∃ b, ofDocument ⟨0, starters, [], "c", {}⟩ { emergencyStop := some "<esc>" } = .ok b ∧
      (∃ doc, b.get? "<f6>" = some (.toggle doc) ∧ doc.start = "a") ∧
      b.get? "<esc> " = some .emergencyStop ∧ ¬ ∃ doc, b.get? "Not Set" = some (.toggle doc) := by
  have valid : (⟨0, starters, [], "c", {}⟩ : Document).Valid := by
    rw [Document.Valid]
    decide +kernel
  obtain ⟨listed, orders⟩ := document_hotkeys_are_bound valid { emergencyStop := some "<esc>" }
  obtain ⟨b, binds, found⟩ := orders starters (.refl _)
  have stops : ∀ {hotkey}, HotkeySettings.Stops { emergencyStop := some "<esc>" } hotkey →
      trim hotkey = "<esc>" := by
    rintro hotkey ⟨text, set, same, _⟩
    cases set
    rw [← same]
    decide +kernel
  have freeKey : ¬ HotkeySettings.Stops { emergencyStop := some "<esc>" } "<f6>" :=
    fun taken => absurd (stops taken) (by decide +kernel)
  have freeUnset : ¬ HotkeySettings.Stops { emergencyStop := some "<esc>" } "Not Set" :=
    fun taken => absurd (stops taken) (by decide +kernel)
  refine ⟨b, listed.trans binds, ?key, ?stop, ?unset⟩
  case key =>
    obtain ⟨doc, bound⟩ := ((found "<f6>").2.1 freeKey).2
      ⟨⟨"a", .start, [("Hotkey", .text " <f6> ")]⟩, List.mem_cons_self, rfl,
        by decide +kernel, by decide +kernel, by decide +kernel⟩
    obtain ⟨_, ⟨n, mem, starts, same⟩, _⟩ := (found "<f6>").2.2 doc bound
    refine ⟨doc, bound, same.trans ?_⟩
    simp only [starters, List.mem_cons, List.not_mem_nil, or_false] at mem
    rcases mem with rfl | rfl | rfl
    · rfl
    · exact absurd starts.assigns.1 (by decide +kernel)
    · exact absurd starts.assigns.1 (by decide +kernel)
  case stop =>
    exact (found "<esc> ").1.2
      ⟨"<esc>", rfl, by decide +kernel, by decide +kernel, by decide +kernel⟩
  case unset =>
    intro bound
    obtain ⟨n, _, starts⟩ := ((found "Not Set").2.1 freeUnset).1 bound
    exact starts.assigns.2.2 (by decide +kernel)

/-- Two starts or more have a hotkey, and it is not that of the emergency stop. -/
structure Contested (nodes : List Node) (settings : HotkeySettings) (hotkey : String)
    (n m : Node) : Prop where
  free : ¬ settings.Stops hotkey
  first : n ∈ nodes ∧ n.StartsOn hotkey
  second : m ∈ nodes ∧ m.StartsOn hotkey
  apart : n.id ≠ m.id

/-- Both bindings do the same at a hotkey: it is bound in both or in neither, to the same kind of
action with the same start. -/
def AgreeAt (b b' : Bindings) (hotkey : String) : Prop :=
  (b.get? hotkey).map HotkeyAction.start? = (b'.get? hotkey).map HotkeyAction.start?

/-- A start with a hotkey that no other takes away comes last in some order. -/
theorem exists_order {nodes : List Node} {n : Node} (mem : n ∈ nodes)
    (starts : n.StartsOn hotkey) :
    ∃ order : List Node, order.Perm nodes ∧ LastOn order hotkey n := by
  obtain ⟨before, after, rfl⟩ := List.append_of_mem mem
  refine ⟨before ++ after ++ [n], ?_, before ++ after, [], rfl, starts, nofun⟩
  calc before ++ after ++ [n]
    _ = before ++ (after ++ [n]) := List.append_assoc before after [n]
    List.Perm _ (before ++ n :: after) := (List.perm_append_singleton n after).append_left before

theorem Rooted.agree {d' : Document} {order order' : List Node} {settings : HotkeySettings}
    {b b' : Bindings} (rooted : Rooted d order settings b hotkey)
    (rooted' : Rooted d' order' settings b' hotkey) (same : ∀ n, n ∈ order ↔ n ∈ order') :
    ((b.get? hotkey).map fun action => action.start?.isSome) =
        ((b'.get? hotkey).map fun action => action.start?.isSome) ∧
      ((∀ n m, ¬ Contested order settings hotkey n m) → AgreeAt b b' hotkey) := by
  by_cases stops : settings.Stops hotkey
  · rw [AgreeAt, rooted.stops stops, rooted'.stops stops]
    exact ⟨rfl, fun _ => rfl⟩
  by_cases never : ∀ n ∈ order, ¬ n.StartsOn hotkey
  · have never' : ∀ n ∈ order', ¬ n.StartsOn hotkey := fun n mem => never n ((same n).2 mem)
    rw [AgreeAt, rooted.none stops never, rooted'.none stops never']
    exact ⟨rfl, fun _ => rfl⟩
  · push Not at never
    obtain ⟨n, mem, starts⟩ := never
    obtain ⟨last, isLast⟩ := exists_lastOn mem starts
    obtain ⟨last', isLast'⟩ := exists_lastOn ((same n).1 mem) starts
    rw [AgreeAt, rooted.last stops last isLast, rooted'.last stops last' isLast']
    refine ⟨rfl, fun single => ?_⟩
    have oneStart : last.id = last'.id := by
      by_contra apart
      exact single last last' ⟨stops, ⟨isLast.mem, isLast.startsOn⟩,
        ⟨(same last').2 isLast'.mem, isLast'.startsOn⟩, apart⟩
    simp only [Option.map_some, HotkeyAction.start?, oneStart]

/-- Two documents of the same nodes in different orders, connections and start are bound alike,
in whatever order their nodes are gone through: the same hotkeys to the same kinds of action,
and with the same start but for hotkeys that several starts have. There it is the order that
decides, and each of these starts wins in some. -/
theorem node_order_decides_contested_hotkeys {nodes nodes' : List Node} (perm : nodes'.Perm nodes)
    {connections : List Connection} {start : String} {serial : Nat}
    (built : Document.build serial nodes connections start = .ok d) (serial' : Nat)
    (settings : HotkeySettings) :
    ∃ d', Document.build serial' nodes' connections start = .ok d' ∧
      (∀ order order' : List Node, order.Perm nodes → order'.Perm nodes' →
        ∃ b b', ofNodes d order settings = .ok b ∧ ofNodes d' order' settings = .ok b' ∧
          ∀ hotkey,
            ((b.get? hotkey).map fun action => action.start?.isSome) =
              ((b'.get? hotkey).map fun action => action.start?.isSome) ∧
            ((∀ n m, ¬ Contested nodes settings hotkey n m) → AgreeAt b b' hotkey)) ∧
      ∀ hotkey n m, Contested nodes settings hotkey n m →
        ∃ order order' : List Node, order.Perm nodes ∧ order'.Perm nodes' ∧
          ∃ b b', ofNodes d order settings = .ok b ∧ ofNodes d' order' settings = .ok b' ∧
            (b.get? hotkey).map HotkeyAction.start? = some (some n.id) ∧
            (b'.get? hotkey).map HotkeyAction.start? = some (some m.id) := by
  obtain ⟨w, rfl⟩ := Document.build_eq_ok_iff.1 built
  have again : Document.build serial' nodes' connections start =
      .ok ⟨serial', nodes', connections, start, .ofConnections connections⟩ :=
    Document.build_eq_ok_iff.2 ⟨w.perm perm, rfl⟩
  have valid := Document.valid_of_build built
  have valid' := Document.valid_of_build again
  refine ⟨_, again, ?_, ?_⟩
  · intro order order' listed listed'
    obtain ⟨b, binds, rooted⟩ := exists_ofNodes valid listed settings
    obtain ⟨b', binds', rooted'⟩ := exists_ofNodes valid' listed' settings
    have same : ∀ n, n ∈ order ↔ n ∈ order' :=
      fun n => (listed.trans (perm.symm.trans listed'.symm)).mem_iff
    refine ⟨b, b', binds, binds', fun hotkey => ?_⟩
    obtain ⟨kinds, starts⟩ := (rooted hotkey).agree (rooted' hotkey) same
    refine ⟨kinds, fun single => starts fun n m contested => single n m ?_⟩
    exact ⟨contested.free, ⟨listed.mem_iff.1 contested.first.1, contested.first.2⟩,
      ⟨listed.mem_iff.1 contested.second.1, contested.second.2⟩, contested.apart⟩
  · intro hotkey n m contested
    obtain ⟨order, listed, last⟩ := exists_order contested.first.1 contested.first.2
    obtain ⟨order', listed', last'⟩ :=
      exists_order (perm.mem_iff.2 contested.second.1) contested.second.2
    obtain ⟨b, binds, rooted⟩ := exists_ofNodes valid listed settings
    obtain ⟨b', binds', rooted'⟩ := exists_ofNodes valid' listed' settings
    refine ⟨order, order', listed, listed', b, b', binds, binds', ?_, ?_⟩
    · rw [(rooted hotkey).last contested.free n last]
      rfl
    · rw [(rooted' hotkey).last contested.free m last']
      rfl

def twins : List Node :=
  [⟨"a", .start, [("Hotkey", .text "<f6>")]⟩, ⟨"b", .start, [("Hotkey", .text " <f6> ")]⟩]

/-- Of two documents of the same two starts one binds the hotkey to the first and one to the second,
and when they are listed in two orders so do these. -/
theorem twins_are_contested :
    (∃ d', Document.build 1 twins.reverse [] "a" = .ok d' ∧
      ∃ order order' : List Node, order.Perm twins ∧ order'.Perm twins.reverse ∧
        ∃ b b', ofNodes ⟨0, twins, [], "a", {}⟩ order {} = .ok b ∧
          ofNodes d' order' {} = .ok b' ∧ ¬ AgreeAt b b' "<f6>") ∧
      ∃ b b', ofDocument ⟨0, twins, [], "a", {}⟩ {} = .ok b ∧
        ofDocument ⟨1, twins.reverse, [], "a", {}⟩ {} = .ok b' ∧
        (b.get? "<f6>").map HotkeyAction.start? = some (some "b") ∧
        (b'.get? "<f6>").map HotkeyAction.start? = some (some "a") := by
  have built : Document.build 0 twins [] "a" = .ok ⟨0, twins, [], "a", {}⟩ := by decide +kernel
  have contested : Contested twins {} "<f6>" ⟨"a", .start, [("Hotkey", .text "<f6>")]⟩
      ⟨"b", .start, [("Hotkey", .text " <f6> ")]⟩ := by
    refine ⟨?_, ⟨?_, rfl, ?_⟩, ⟨?_, rfl, ?_⟩, ?_⟩
    · rintro ⟨text, set, _⟩
      cases set
    · exact List.mem_cons_self
    · exact ⟨by decide +kernel, by decide +kernel, by decide +kernel⟩
    · exact List.mem_cons_of_mem _ List.mem_cons_self
    · exact ⟨by decide +kernel, by decide +kernel, by decide +kernel⟩
    · decide
  obtain ⟨d', built', _, decides⟩ :=
    node_order_decides_contested_hotkeys (List.reverse_perm twins) built 1 {}
  obtain ⟨order, order', listed, listed', b, b', binds, binds', toFirst, toSecond⟩ :=
    decides "<f6>" _ _ contested
  refine ⟨⟨d', built', order, order', listed, listed', b, b', binds, binds', ?_⟩, ?_⟩
  · rw [AgreeAt, toFirst, toSecond]
    decide
  · exact ⟨_, _, rfl, rfl, by decide +kernel, by decide +kernel⟩

end Bindings
end MacroGraph
