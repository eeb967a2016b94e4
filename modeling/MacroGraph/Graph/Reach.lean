namespace MacroGraph

abbrev Edges := List (String × String)

/-- Zero or more edges from one name to another. -/
inductive Path (edges : Edges) : String → String → Prop where
  | refl (a : String) : Path edges a a
  | tail {a b c : String} : Path edges a b → (b, c) ∈ edges → Path edges a c

def ends (edges : Edges) (a : String) : List String :=
  (edges.filter fun e => e.1 == a).map Prod.snd

/-- Repeats a step until there is none, at most `limit` times. -/
def exhaust (step? : σ → Option σ) : Nat → σ → σ
  | 0, s => s
  | limit + 1, s =>
    match step? s with
    | none => s
    | some next => exhaust step? limit next

structure Spread where
  seen : List String := []
  /-- Names to be taken up, the next one first. -/
  pending : List String
  deriving DecidableEq, Repr

/-- Takes up the next pending name. When it is new, the ends of its edges become pending. -/
def Spread.step? (edges : Edges) (s : Spread) : Option Spread :=
  match s.pending with
  | [] => none
  | a :: rest =>
    if s.seen.contains a then some { s with pending := rest }
    else some ⟨a :: s.seen, ends edges a ++ rest⟩

/-- The search from one name. Each step uses up a pending name, and each edge makes one name
pending, so there are enough steps. -/
def Spread.final (edges : Edges) (start : String) : Spread :=
  exhaust (Spread.step? edges) (edges.length + 1) { pending := [start] }

def reachable (edges : Edges) (start : String) : List String := (Spread.final edges start).seen

theorem Path.exists_head {edges : Edges} {a b c : String} (h : Path edges a b)
    (e : (b, c) ∈ edges) : ∃ d, (a, d) ∈ edges ∧ Path edges d c := by
  induction h generalizing c with
  | refl => exact ⟨c, e, .refl c⟩
  | tail _ first ih =>
    obtain ⟨d, head, rest⟩ := ih first
    exact ⟨d, head, rest.tail e⟩

theorem mem_ends {edges : Edges} {a b : String} : b ∈ ends edges a ↔ (a, b) ∈ edges := by
  simp only [ends, List.mem_map, List.mem_filter, beq_iff_eq]
  constructor
  · rintro ⟨⟨_, _⟩, ⟨mem, rfl⟩, rfl⟩
    exact mem
  · intro mem
    exact ⟨(a, b), ⟨mem, rfl⟩, rfl⟩

/-- What every step keeps holds at the end. -/
theorem exhaust_preserves {step? : σ → Option σ} {keeps : σ → Prop}
    (step : ∀ s next, keeps s → step? s = some next → keeps next) (limit : Nat) {s : σ}
    (h : keeps s) : keeps (exhaust step? limit s) := by
  induction limit generalizing s with
  | zero => exact h
  | succ limit ih =>
    unfold exhaust
    split
    · exact h
    · next next found => exact ih (step s next h found)

/-- A measure that falls with every step bounds the number of steps. -/
theorem exhaust_rests {step? : σ → Option σ} (keeps : σ → Prop) (measure : σ → Nat)
    (step : ∀ s next, keeps s → step? s = some next → keeps next ∧ measure next < measure s)
    {limit : Nat} {s : σ} (h : keeps s) (enough : measure s ≤ limit) :
    step? (exhaust step? limit s) = none := by
  induction limit generalizing s with
  | zero =>
    cases found : step? s with
    | none => exact found
    | some next =>
      have := (step s next h found).2
      omega
  | succ limit ih =>
    unfold exhaust
    split
    · assumption
    · next next found =>
      obtain ⟨kept, less⟩ := step s next h found
      exact ih kept (by omega)

end MacroGraph
