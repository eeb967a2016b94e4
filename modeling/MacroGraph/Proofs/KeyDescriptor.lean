import MacroGraph.Proofs.Engine.Slicing
import MacroGraph.Proofs.Text.Blank

namespace MacroGraph
namespace KeyDescriptor

/-- A key is the plus sign, or a word without blanks at its ends, plus signs and angle brackets. -/
def IsKey (cs : List Char) : Prop :=
  cs = ['+'] ∨ cs ≠ [] ∧ trimChars cs = cs ∧ ∀ c ∈ cs, c ∉ ['+', '<', '>']

/-- A text spells a key when the key is left of it without angle brackets and the blanks around. -/
def Spells (key text : String) : Prop := trimChars (withoutBrackets text.toList) = key.toList

theorem IsKey.trimChars {cs : List Char} (isKey : IsKey cs) : trimChars cs = cs := by
  rcases isKey with rfl | ⟨-, trimmed, -⟩
  · rfl
  · exact trimmed

theorem IsKey.withoutBrackets {cs : List Char} (isKey : IsKey cs) : withoutBrackets cs = cs := by
  rcases isKey with rfl | ⟨-, -, plain⟩
  · rfl
  · refine List.filter_eq_self.2 fun c mem => ?_
    have apart := plain c mem
    simp_all

theorem withoutBrackets_append (cs more : List Char) :
    withoutBrackets (cs ++ more) = withoutBrackets cs ++ withoutBrackets more :=
  List.filter_append _ _

theorem withoutBrackets_of_isBlank {cs : List Char} (blank : ∀ c ∈ cs, isBlank c = true) :
    withoutBrackets cs = cs := by
  refine List.filter_eq_self.2 fun c mem => ?_
  have apart : ∀ d, isBlank d = false → c ≠ d := by
    rintro d dark rfl
    cases dark.symm.trans (blank c mem)
  simp [apart '<' (by decide), apart '>' (by decide)]

theorem spells_self {key : String} (isKey : IsKey key.toList) : Spells key key := by
  rw [Spells, isKey.withoutBrackets, isKey.trimChars]

theorem spells_wrapped {key before after : String} (isKey : IsKey key.toList)
    (blank : ∀ c ∈ before.toList, isBlank c = true)
    (blank' : ∀ c ∈ after.toList, isBlank c = true) :
    Spells key (before ++ "<" ++ key ++ ">" ++ after) := by
  have opening : withoutBrackets "<".toList = [] := rfl
  have closing : withoutBrackets ">".toList = [] := rfl
  simp only [Spells, String.toList_append, withoutBrackets_append, opening, closing,
    List.append_nil, isKey.withoutBrackets, withoutBrackets_of_isBlank blank,
    withoutBrackets_of_isBlank blank']
  rw [trimChars_append _ blank blank', isKey.trimChars]

/-- A scan that has read these keys expects another one. -/
structure Scan.Ready (s : Scan) (keys : List (List Char)) : Prop where
  keys : s.keys.reverse = keys
  expects : s.expectsKey = true
  blank : ∀ c ∈ s.current, isBlank c = true

/-- A scan that has read these keys may end, or go on behind a plus sign. -/
structure Scan.Past (s : Scan) (keys : List (List Char)) : Prop where
  finish : s.finish = keys
  ready : (s.next '+').Ready keys

namespace Scan
variable {s : Scan} {keys : List (List Char)}

/-- Without a plus sign, characters are only collected. -/
theorem foldl_next {cs : List Char} (plain : ∀ c ∈ cs, c ≠ '+') (s : Scan) :
    cs.foldl next s = { s with current := cs.reverse ++ s.current } := by
  induction cs generalizing s with
  | nil => rfl
  | cons c rest ih =>
    rw [List.foldl_cons, ih fun d mem => plain d (List.mem_cons_of_mem _ mem), next,
      if_pos (plain c List.mem_cons_self)]
    simp

theorem pending_of_isBlank (blank : ∀ c ∈ s.current, isBlank c = true) : s.pending = [] :=
  trimChars_of_isBlank fun c mem => blank c (List.mem_reverse.1 mem)

theorem Ready.finish (ready : s.Ready keys) : s.finish = keys := by
  rw [Scan.finish, if_neg (not_not.2 (pending_of_isBlank ready.blank)), ready.keys]

theorem ne_plus_of_isBlank {c : Char} (blank : isBlank c = true) : c ≠ '+' := by
  rintro rfl
  cases blank

theorem Past.of_word (some_name : s.pending ≠ []) : s.Past (s.keys.reverse ++ [s.pending]) := by
  refine ⟨by rw [Scan.finish, if_pos some_name, List.reverse_cons], ?_⟩
  rw [next, if_neg (not_not.2 rfl), if_pos some_name]
  exact ⟨List.reverse_cons, rfl, nofun⟩

theorem Past.of_plus (blank : ∀ c ∈ s.current, isBlank c = true) (joins : s.expectsKey = false) :
    s.Past s.keys.reverse := by
  have nothing := not_not.2 (pending_of_isBlank blank)
  refine ⟨by rw [Scan.finish, if_neg nothing], ?_⟩
  rw [next, if_neg (not_not.2 rfl), if_neg nothing, if_neg (by simp [joins])]
  exact ⟨rfl, rfl, blank⟩

theorem Ready.reads_plus (ready : s.Ready keys) {cs : List Char} (plus : trimChars cs = ['+']) :
    (cs.foldl next s).Past (keys ++ [['+']]) := by
  obtain ⟨before, after, parts, blank, blank'⟩ := exists_trimChars cs
  have collected : ∀ c ∈ before.reverse ++ s.current, isBlank c = true := by
    intro c mem
    rcases List.mem_append.1 mem with early | late
    · exact blank c (List.mem_reverse.1 early)
    · exact ready.blank c late
  have read : cs.foldl next s = ⟨['+'] :: s.keys, after.reverse, false⟩ := by
    rw [parts, plus, List.foldl_append, List.foldl_append,
      foldl_next fun c mem => ne_plus_of_isBlank (blank c mem),
      foldl_next fun c mem => ne_plus_of_isBlank (blank' c mem), List.foldl_cons, List.foldl_nil,
      next, if_neg (not_not.2 rfl), if_neg (not_not.2 (pending_of_isBlank collected)),
      if_pos ready.expects, List.append_nil]
  have past := Past.of_plus (s := cs.foldl next s)
    (by rw [read]; exact fun c mem => blank' c (List.mem_reverse.1 mem)) (by rw [read])
  rwa [read, List.reverse_cons, ready.keys, ← read] at past

theorem Ready.reads_word (ready : s.Ready keys) {cs : List Char} (some_name : trimChars cs ≠ [])
    (plain : ∀ c ∈ trimChars cs, c ≠ '+') : (cs.foldl next s).Past (keys ++ [trimChars cs]) := by
  have word : ∀ c ∈ cs, c ≠ '+' := by
    obtain ⟨before, after, parts, blank, blank'⟩ := exists_trimChars cs
    intro c mem
    rw [parts, List.mem_append, List.mem_append] at mem
    rcases mem with (early | inside) | late
    · exact ne_plus_of_isBlank (blank c early)
    · exact plain c inside
    · exact ne_plus_of_isBlank (blank' c late)
  have read := foldl_next word s
  have pending : (cs.foldl next s).pending = trimChars cs := by
    rw [read, Scan.pending, List.reverse_append, List.reverse_reverse]
    exact trimChars_blank_append _ fun c mem => ready.blank c (List.mem_reverse.1 mem)
  have past := Past.of_word (s := cs.foldl next s) (by rwa [pending])
  rwa [pending, show (cs.foldl next s).keys = s.keys by rw [read], ready.keys] at past

theorem Ready.reads (ready : s.Ready keys) (cs : List Char) (isKey : IsKey (trimChars cs)) :
    (cs.foldl next s).Past (keys ++ [trimChars cs]) := by
  rcases isKey with plus | ⟨some_name, -, plain⟩
  · exact plus ▸ ready.reads_plus plus
  · refine ready.reads_word some_name fun c mem => ?_
    rintro rfl
    exact plain _ mem List.mem_cons_self

/-- Between two texts the scan expects a key again, whatever it has read before. -/
theorem Ready.reads_all (ready : s.Ready keys) {names texts : List String}
    (areKeys : ∀ key ∈ names, IsKey key.toList) (spelled : List.Forall₂ Spells names texts) :
    ((withoutBrackets ("+".intercalate texts).toList).foldl next s).finish =
      keys ++ names.map String.toList := by
  induction spelled generalizing s keys with
  | nil => simpa [withoutBrackets] using ready.finish
  | @cons key text names texts spells rest ih =>
    have past := ready.reads (withoutBrackets text.toList)
      (by rw [spells]; exact areKeys key List.mem_cons_self)
    rw [spells] at past
    cases rest with
    | nil => simpa using past.finish
    | @cons next_key next_text names texts spells' rest =>
      have more := ih past.ready fun key mem => areKeys key (List.mem_cons_of_mem _ mem)
      have plus : withoutBrackets "+".toList = ['+'] := rfl
      rw [String.intercalate_cons_cons, String.toList_append, String.toList_append,
        withoutBrackets_append, withoutBrackets_append, plus, List.foldl_append, List.foldl_append,
        List.foldl_cons, List.foldl_nil, more]
      simp

end Scan

theorem parse_intercalate {names texts : List String} (areKeys : ∀ key ∈ names, IsKey key.toList)
    (spelled : List.Forall₂ Spells names texts) : parse ("+".intercalate texts) = names := by
  have begins : ({} : Scan).Ready [] := ⟨rfl, rfl, nofun⟩
  rw [parse, parseChars, begins.reads_all areKeys spelled]
  simp

/-- What a scan has read are keys, and what it is reading is a part of one. -/
structure Scan.Sound (s : Scan) : Prop where
  keys : ∀ key ∈ s.keys, IsKey key
  current : ∀ c ∈ s.current, c ∉ ['+', '<', '>']

namespace Scan
variable {s : Scan}

theorem Sound.isKey_pending (sound : s.Sound) (some_name : s.pending ≠ []) : IsKey s.pending := by
  refine .inr ⟨some_name, trimChars_trimChars _, fun c mem => ?_⟩
  exact sound.current c (List.mem_reverse.1 (mem_of_mem_trimChars mem))

theorem Sound.next (sound : s.Sound) {c : Char} (plain : c ∉ ['<', '>']) : (s.next c).Sound := by
  unfold Scan.next
  split
  · next name =>
    refine ⟨sound.keys, fun d mem => ?_⟩
    rcases List.mem_cons.1 mem with rfl | old
    · simp_all
    · exact sound.current d old
  split
  · next some_name =>
    exact ⟨List.forall_mem_cons.2 ⟨sound.isKey_pending some_name, sound.keys⟩, nofun⟩
  split
  · exact ⟨List.forall_mem_cons.2 ⟨.inl rfl, sound.keys⟩, nofun⟩
  · exact ⟨sound.keys, sound.current⟩

theorem Sound.foldl_next {cs : List Char} (sound : s.Sound) (plain : ∀ c ∈ cs, c ∉ ['<', '>']) :
    (cs.foldl Scan.next s).Sound := by
  induction cs generalizing s with
  | nil => exact sound
  | cons c rest ih =>
    exact ih (sound.next (plain c List.mem_cons_self))
      fun d mem => plain d (List.mem_cons_of_mem _ mem)

theorem Sound.finish (sound : s.Sound) : ∀ key ∈ s.finish, IsKey key := by
  intro key mem
  unfold Scan.finish at mem
  split at mem
  · next some_name =>
    rcases List.mem_cons.1 (List.mem_reverse.1 mem) with rfl | old
    · exact sound.isKey_pending some_name
    · exact sound.keys key old
  · exact sound.keys key (List.mem_reverse.1 mem)

end Scan

theorem isKey_of_mem_parse {text key : String} (mem : key ∈ parse text) : IsKey key.toList := by
  obtain ⟨cs, read, rfl⟩ := List.mem_map.1 mem
  have sound : ({} : Scan).Sound := ⟨nofun, nofun⟩
  rw [String.toList_ofList]
  refine (sound.foldl_next fun c mem => ?_).finish cs read
  have kept := (List.mem_filter.1 mem).2
  simp_all

theorem parse_intercalate_parse (text : String) :
    parse ("+".intercalate (parse text)) = parse text :=
  parse_intercalate (fun _ => isKey_of_mem_parse)
    (List.forall₂_same.2 fun _ mem => spells_self (isKey_of_mem_parse mem))

end KeyDescriptor

namespace Engine
variable {σ : Type}

/-- What is asked for to press these keys. -/
def pressed : List String → List Event
  | [] => []
  | [key] => [.action (.key key)]
  | keys => [.action (.combo keys)]

theorem pressing_cases (n : Node) (keys : List String) :
    (Machine.pressing n keys).point = .leave n (some Pin.exec) ∧ pressed keys = [] ∨
      ∃ a, (Machine.pressing n keys).point = Machine.acting n a ∧ pressed keys = [.action a] := by
  match keys with
  | [] => exact .inl ⟨rfl, rfl⟩
  | [key] => exact .inr ⟨.key key, rfl, rfl⟩
  | first :: second :: rest => exact .inr ⟨.combo (first :: second :: rest), rfl, rfl⟩

/-- A node that presses keys asks for its keys and nothing else, and the run goes on behind it. -/
theorem Run.presses (host : Host σ) {r : Run σ} (alive : r.worker.isAlive = true)
    (up : r.worker.running = true) {n : Node} (here : r.worker.machine.point = .execute n)
    (kind : n.kind = .keyPress) :
    let keys := KeyDescriptor.parse
      (Evaluation.text r.worker.document r.worker.machine.outputs n "Key" "")
    ∃ k, (r.steps host k).events.toList = r.events.toList ++ pressed keys ∧
      (host.Obliges r.world (pressed keys) →
        (r.steps host k).worker = r.worker.goto (.leave n (some Pin.exec))) := by
  intro keys
  have intact := intact_of_isAlive alive
  have executes : (r.worker.machine.step r.worker.document r.worker.timing true).1 =
      r.worker.machine.goto (Machine.pressing n keys).point := by
    simp [Machine.step, here, Machine.executed, Machine.execution, kind, keys]
  have silent : r.worker.machine.demand = .nothing := by simp [Machine.demand, here]
  rcases pressing_cases n keys with ⟨leaves, none⟩ | ⟨a, asks, one⟩
  case inl =>
    rw [leaves] at executes
    obtain ⟨goes, quiet, -⟩ := steps_goto host intact up silent executes (by simp)
    exact ⟨1, by rw [quiet, none, List.append_nil], fun _ => goes⟩
  case inr =>
    rw [asks] at executes
    obtain ⟨goes, made, -⟩ := steps_request host intact up silent executes
    refine ⟨2, by rw [made, one], fun obliges => ?_⟩
    rw [one] at obliges
    obtain ⟨still_up, done, -⟩ := obliges
    rw [goes, still_up, done]
    simp [Worker.answered, Worker.goto, Machine.answered, Machine.goto, up]

end Engine

namespace KeyDescriptor
open Engine

/-- Keys joined with plus signs are read as just these keys, however each of them is spelled: as it
is, or wrapped in angle brackets with blanks around. Whatever a text is read as are keys, and joined
they are read again. A node that presses keys asks for a single one by itself and for several as a
combination of just these. -/
theorem key_descriptors_round_trip :
    (∀ names texts : List String, (∀ key ∈ names, IsKey key.toList) →
      List.Forall₂ Spells names texts → parse ("+".intercalate texts) = names) ∧
    (∀ key before after : String, IsKey key.toList → (∀ c ∈ before.toList, isBlank c = true) →
      (∀ c ∈ after.toList, isBlank c = true) →
      Spells key key ∧ Spells key (before ++ "<" ++ key ++ ">" ++ after)) ∧
    (∀ text, (∀ key ∈ parse text, IsKey key.toList) ∧
      parse ("+".intercalate (parse text)) = parse text) ∧
    ∀ {σ : Type} (host : Host σ) (r : Run σ) (n : Node), r.worker.isAlive = true →
      r.worker.running = true → r.worker.machine.point = .execute n → n.kind = .keyPress →
      let keys := parse (Evaluation.text r.worker.document r.worker.machine.outputs n "Key" "")
      ∃ k, (r.steps host k).events.toList = r.events.toList ++ pressed keys ∧
        (host.Obliges r.world (pressed keys) →
          (r.steps host k).worker = r.worker.goto (.leave n (some Pin.exec))) :=
  ⟨fun _ _ => parse_intercalate,
    fun _ _ _ isKey blank blank' => ⟨spells_self isKey, spells_wrapped isKey blank blank'⟩,
    fun text => ⟨fun _ => isKey_of_mem_parse, parse_intercalate_parse text⟩,
    fun host _ _ alive up here kind => Run.presses host alive up here kind⟩

def zoom : Document where
  serial := 0
  nodes := [⟨"s", .start, []⟩, ⟨"k", .keyPress, [("Key", .text "<ctrl>+ <+> ++")]⟩]
  connections := [⟨"s", Pin.exec, "k", Pin.exec, .exec⟩]
  start := "s"
  index := { exec := [(("s", Pin.exec), "k")] }

def zooming : Run Unit := (Run.begin zoom {} none true ()).steps willing 9

theorem zoom_is_read_and_pressed :
    parse "<ctrl>+ <+> ++" = ["ctrl", "+", "+"] ∧
      ∃ k, (zooming.steps willing k).events.toList =
        [.notice .cleared, .notice (.entered "s"), .notice (.entered "k"),
          .action (.combo ["ctrl", "+", "+"])] := by
  obtain ⟨joined, spelled, -, presses⟩ := key_descriptors_round_trip
  have ctrl : IsKey "ctrl".toList := .inr ⟨by decide, by decide, by simp⟩
  have plus : IsKey "+".toList := .inl rfl
  have blank : ∀ c ∈ " ".toList, isBlank c = true := List.forall_mem_singleton.2 rfl
  have texts : List.Forall₂ Spells ["ctrl", "+", "+"] ["<ctrl>", " <+> ", "+"] :=
    .cons (spelled "ctrl" "" "" ctrl nofun nofun).2
      (.cons (spelled "+" " " " " plus blank blank).2
        (.cons (spelled "+" "" "" plus nofun nofun).1 .nil))
  obtain ⟨k, asks, -⟩ := presses willing zooming
    ⟨"k", .keyPress, [("Key", .text "<ctrl>+ <+> ++")]⟩ (by decide +kernel) rfl rfl rfl
  have written : "+".intercalate ["<ctrl>", " <+> ", "+"] = "<ctrl>+ <+> ++" := by decide +kernel
  have read := joined _ _ (by simpa using ⟨ctrl, plus⟩) texts
  rw [written] at read
  refine ⟨read, k, ?_⟩
  rw [asks]
  decide +kernel

end KeyDescriptor
end MacroGraph
