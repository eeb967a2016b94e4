namespace MacroGraph.Table

/-- Replaces the value of a name, or adds it at the end. -/
def put (table : List (String × α)) (name : String) (value : α) : List (String × α) :=
  match table with
  | [] => [(name, value)]
  | (n, v) :: rest => if n = name then (n, value) :: rest else (n, v) :: put rest name value

theorem lookup_put (table : List (String × α)) (name : String) (value : α) (other : String) :
    (put table name value).lookup other =
      if other = name then some value else table.lookup other := by
  induction table with
  | nil =>
    by_cases h : other = name
    · simp [put, h]
    · have no : (other == name) = false := by simpa using h
      simp [put, List.lookup_cons, h, no]
  | cons f rest ih =>
    obtain ⟨n, v⟩ := f
    by_cases hn : n = name
    · subst hn
      by_cases h : other = n
      · simp [put, h]
      · have no : (other == n) = false := by simpa using h
        simp [put, List.lookup_cons, h, no]
    · by_cases h : other = n
      · subst h
        simp [put, hn]
      · have no : (other == n) = false := by simpa using h
        simp [put, hn, List.lookup_cons, no, ih]

end MacroGraph.Table
