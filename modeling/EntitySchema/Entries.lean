/-! Named entries in the order in which their names were first written. Fields
of an object, documents of a store and component groups all keep this order,
since answers show it. Looking a name up is `List.lookup`. -/
namespace EntitySchema.Entries

variable {α : Type}

/-- Writes a value under a name. A name that is present keeps its place, a new
one goes to the end. -/
def put (name : String) (value : α) : List (String × α) → List (String × α)
  | [] => [(name, value)]
  | (other, held) :: rest =>
    if other = name then (name, value) :: rest else (other, held) :: put name value rest

private theorem lookup_entry (name : String) (value : α) (rest : List (String × α))
    (asked : String) :
    ((name, value) :: rest).lookup asked =
      if asked = name then some value else rest.lookup asked := by
  by_cases same : asked = name
  · subst same
    simp
  · have differs : (asked == name) = false := beq_eq_false_iff_ne.mpr same
    rw [List.lookup_cons, differs, if_neg same]

/-- What is found after a write: the new value under its name, and what was
there under every other. -/
theorem lookup_put (name : String) (value : α) (entries : List (String × α)) (asked : String) :
    (put name value entries).lookup asked =
      if asked = name then some value else entries.lookup asked := by
  induction entries with
  | nil => simp only [put, lookup_entry, List.lookup_nil]
  | cons entry rest ih =>
    obtain ⟨other, held⟩ := entry
    by_cases replaced : other = name
    · subst replaced
      by_cases same : asked = other
      · simp only [put, ↓reduceIte, lookup_entry, same]
      · simp only [put, ↓reduceIte, lookup_entry, same]
    · by_cases same : asked = other
      · subst same
        simp only [put, replaced, ↓reduceIte, lookup_entry]
      · simp only [put, replaced, same, ↓reduceIte, lookup_entry, ih]

theorem mem_put {name : String} {value : α} {entries : List (String × α)} {entry : String × α}
    (member : entry ∈ put name value entries) : entry = (name, value) ∨ entry ∈ entries := by
  induction entries with
  | nil => exact .inl (List.mem_singleton.mp member)
  | cons first rest ih =>
    obtain ⟨other, held⟩ := first
    rw [put] at member
    split at member
    · exact (List.mem_cons.mp member).imp_right (List.mem_cons_of_mem _)
    · rcases List.mem_cons.mp member with rfl | later
      · exact .inr List.mem_cons_self
      · exact (ih later).imp_right (List.mem_cons_of_mem _)

/-- Writes several entries in turn. -/
def putAll (entries new : List (String × α)) : List (String × α) :=
  new.foldl (fun all entry => put entry.1 entry.2 all) entries

theorem putAll_cons (entries : List (String × α)) (name : String) (value : α)
    (new : List (String × α)) :
    putAll entries ((name, value) :: new) = putAll (put name value entries) new :=
  rfl

/-- The names in order. -/
def names (entries : List (String × α)) : List String :=
  entries.map Prod.fst

theorem lookup_absent {name : String} {entries : List (String × α)}
    (absent : name ∉ names entries) : entries.lookup name = none := by
  rw [List.lookup_eq_none_iff]
  intro entry member
  refine bne_iff_ne.mpr ?_
  rintro rfl
  exact absent (List.mem_map.mpr ⟨entry, member, rfl⟩)

theorem lookup_present {name : String} {entries : List (String × α)}
    (present : name ∈ names entries) : ∃ value, entries.lookup name = some value := by
  rw [← Option.isSome_iff_exists, List.lookup_isSome_iff]
  obtain ⟨entry, member, rfl⟩ := List.mem_map.mp present
  exact ⟨entry, member, beq_self_eq_true _⟩

/-- A write adds its name at the end, unless it is there. -/
theorem names_put (name : String) (value : α) (entries : List (String × α)) :
    names (put name value entries) =
      if name ∈ names entries then names entries else names entries ++ [name] := by
  induction entries with
  | nil => simp [names, put]
  | cons entry rest ih =>
    obtain ⟨other, held⟩ := entry
    by_cases same : other = name
    · simp [names, put, same]
    · have later : name ≠ other := Ne.symm same
      simp only [names] at ih
      simp only [names, put, same, ↓reduceIte, List.map_cons, List.mem_cons, later, false_or, ih]
      by_cases present : name ∈ rest.map Prod.fst
      · simp only [present, ↓reduceIte]
      · simp only [present, ↓reduceIte, List.cons_append]

/-- What is found after several writes, no two of them under one name: what was
written under the name, or else what was there. -/
theorem lookup_putAll (entries : List (String × α)) {new : List (String × α)}
    (distinct : (names new).Nodup) (asked : String) :
    (putAll entries new).lookup asked = (new.lookup asked).or (entries.lookup asked) := by
  induction new generalizing entries with
  | nil => rfl
  | cons entry rest ih =>
    obtain ⟨name, value⟩ := entry
    obtain ⟨fresh, later⟩ := List.nodup_cons.mp distinct
    rw [putAll_cons, ih _ later, lookup_put, lookup_entry]
    by_cases same : asked = name
    · subst same
      simp only [↓reduceIte, lookup_absent fresh, Option.none_or, Option.some_or]
    · simp only [same, ↓reduceIte]

/-- Several writes add the names that were not there, in their order. -/
theorem names_putAll (entries : List (String × α)) {new : List (String × α)}
    (distinct : (names new).Nodup) :
    names (putAll entries new) =
      names entries ++ (names new).filter (fun name => name ∉ names entries) := by
  induction new generalizing entries with
  | nil => simp [putAll, names]
  | cons entry rest ih =>
    obtain ⟨name, value⟩ := entry
    obtain ⟨fresh, later⟩ := List.nodup_cons.mp distinct
    have listed : names ((name, value) :: rest) = name :: names rest := rfl
    rw [putAll_cons, ih _ later, names_put, listed]
    by_cases present : name ∈ names entries
    · simp [present]
    · have apart : ∀ other ∈ names rest,
          decide (other ∉ names entries ++ [name]) = decide (other ∉ names entries) := by
        intro other member
        have differs : other ≠ name := by
          rintro rfl
          exact fresh member
        simp [differs]
      rw [if_neg present, List.filter_congr apart]
      simp [present]

end EntitySchema.Entries
