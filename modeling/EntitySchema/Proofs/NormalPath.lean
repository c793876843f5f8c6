import EntitySchema.Location

/-! The one spelling of a path. Walking a path leaves names that no further
walk would change: none of them is empty or `.`, none holds a slash, and `..`
stands only at the front of a relative path. Spelling such names and walking
the text again gives the same names back, so normalizing twice is normalizing
once. -/
namespace EntitySchema.NormalPath
open Location

variable {absolute : Bool} {slashes : Nat} {name : Name} {names reached : List Name}

/-- A name that a walk keeps, written without slashes. -/
structure Plain (name : Name) : Prop where
  filled : name ≠ []
  notDot : name ≠ ['.']
  noSlash : '/' ∉ name
  noBackslash : '\\' ∉ name

/-- Names that a walk may have reached, innermost first: once one of them is
`..`, all those further out are, and the path is relative. -/
def Settled (absolute : Bool) : List Name → Prop
  | [] => True
  | inner :: outer =>
    Plain inner ∧ (inner = up → absolute = false ∧ ∀ name ∈ outer, name = up) ∧
      Settled absolute outer

theorem up_plain : Plain up :=
  ⟨by decide, by decide, by decide, by decide⟩

private theorem settled_plain (settled : Settled absolute reached) :
    ∀ name ∈ reached, Plain name := by
  induction reached with
  | nil => simp
  | cons inner outer ih =>
    intro name member
    rcases List.mem_cons.mp member with rfl | member
    · exact settled.1
    · exact ih settled.2.2 name member

theorem enter_stays (blank : name = [] ∨ name = ['.']) :
    enter absolute reached name = reached := by
  unfold enter
  rcases blank with rfl | rfl <;> rfl

private theorem enter_settled (settled : Settled absolute reached) (noSlash : '/' ∉ name)
    (noBackslash : '\\' ∉ name) : Settled absolute (enter absolute reached name) := by
  by_cases blank : name = [] ∨ name = ['.']
  · rw [enter_stays blank]
    exact settled
  · obtain ⟨filled, notDot⟩ := not_or.mp blank
    simp only [enter, filled, notDot, decide_false, Bool.or_self, Bool.false_eq_true, ↓reduceIte]
    by_cases upward : name = up
    · simp only [upward, ↓reduceIte]
      cases reached with
      | nil =>
        cases absolute with
        | true => exact settled
        | false => exact ⟨up_plain, fun _ => ⟨rfl, by simp⟩, trivial⟩
      | cons inner outer =>
        by_cases same : inner = up
        · simp only [same, ↓reduceIte]
          subst same
          obtain ⟨relative, above⟩ := settled.2.1 rfl
          refine ⟨up_plain, fun _ => ⟨relative, ?_⟩, settled⟩
          intro name member
          rcases List.mem_cons.mp member with rfl | member
          · rfl
          · exact above name member
        · simp only [same, ↓reduceIte]
          exact settled.2.2
    · simp only [upward, ↓reduceIte]
      exact ⟨⟨filled, notDot, noSlash, noBackslash⟩, fun same => absurd same upward, settled⟩

private theorem walk_settled (settled : Settled absolute reached)
    (clean : ∀ name ∈ names, '/' ∉ name ∧ '\\' ∉ name) :
    Settled absolute (names.foldl (enter absolute) reached) := by
  induction names generalizing reached with
  | nil => exact settled
  | cons name rest ih =>
    obtain ⟨noSlash, noBackslash⟩ := clean name List.mem_cons_self
    exact ih (enter_settled settled noSlash noBackslash)
      fun name member => clean name (List.mem_cons_of_mem _ member)

private theorem enter_again {inner : Name} {outer : List Name}
    (settled : Settled absolute (inner :: outer)) :
    enter absolute outer inner = inner :: outer := by
  obtain ⟨plain, upward, _⟩ := settled
  simp only [enter, plain.filled, plain.notDot, decide_false, Bool.or_self, Bool.false_eq_true,
    ↓reduceIte]
  by_cases same : inner = up
  · obtain ⟨relative, above⟩ := upward same
    simp only [same, ↓reduceIte]
    cases outer with
    | nil => simp [relative]
    | cons next further => simp [above next List.mem_cons_self]
  · simp only [same, ↓reduceIte]

/-- Names that a walk has reached are reached again by walking them. -/
private theorem walk_again (settled : Settled absolute reached) :
    reached.reverse.foldl (enter absolute) [] = reached := by
  induction reached with
  | nil => rfl
  | cons inner outer ih =>
    rw [List.reverse_cons, List.foldl_append, ih settled.2.2]
    exact enter_again settled

/-- The names of a normal path, outermost first, behind at most two slashes. -/
structure Normal (slashes : Nat) (names : List Name) : Prop where
  few : slashes ≤ 2
  settled : Settled (slashes != 0) names.reverse

/-- The text of a normal path. -/
def spell (slashes : Nat) (names : List Name) : List Char :=
  if (List.replicate slashes '/' ++ joinNames names).isEmpty then ['.']
  else List.replicate slashes '/' ++ joinNames names

theorem normal_plain (normal : Normal slashes names) : ∀ name ∈ names, Plain name := by
  intro name member
  exact settled_plain normal.settled name (List.mem_reverse.mpr member)

theorem split_clean {c d : Char} (text : List Char) (absent : d ∉ text) :
    ∀ name ∈ text.splitOn c, c ∉ name ∧ d ∉ name := by
  induction text with
  | nil => simp
  | cons first rest ih =>
    simp only [List.mem_cons, not_or] at absent
    have tail := ih absent.2
    rw [List.splitOn_cons_eq_if_modifyHead]
    intro name member
    split at member
    · rcases List.mem_cons.mp member with rfl | member
      · simp
      · exact tail name member
    · rename_i differs
      cases pieces : rest.splitOn c with
      | nil => exact absurd pieces (List.splitOn_ne_nil _ _)
      | cons piece more =>
        rw [pieces] at member tail
        rcases List.mem_cons.mp member with rfl | member
        · obtain ⟨noSeparator, noOther⟩ := tail piece List.mem_cons_self
          refine ⟨?_, by simp [absent.1, noOther]⟩
          simp only [beq_iff_eq] at differs
          simp [Ne.symm differs, noSeparator]
        · exact tail name (List.mem_cons_of_mem _ member)

private theorem turned_clean (path : List Char) : '\\' ∉ turnSlashes path := by
  simp only [turnSlashes, List.mem_map, not_exists, not_and]
  intro c _
  split
  · decide
  · assumption

/-- What normalizing spells: the names that are left after the walk. -/
theorem normalChars_walk (path : List Char) :
    Normal (leadingSlashes (turnSlashes path))
        (walk (leadingSlashes (turnSlashes path) != 0) ((turnSlashes path).splitOn '/')) ∧
      normalChars path = spell (leadingSlashes (turnSlashes path))
        (walk (leadingSlashes (turnSlashes path) != 0) ((turnSlashes path).splitOn '/')) := by
  refine ⟨⟨?_, ?_⟩, rfl⟩
  · unfold leadingSlashes
    split <;> decide
  · rw [walk, List.reverse_reverse]
    exact walk_settled trivial (split_clean _ (turned_clean path))

theorem normalChars_spelled (path : List Char) :
    ∃ slashes names, Normal slashes names ∧ normalChars path = spell slashes names :=
  ⟨_, _, normalChars_walk path⟩

theorem turned_again {path : List Char} (clean : '\\' ∉ path) :
    turnSlashes path = path := by
  unfold turnSlashes
  conv => rhs; rw [← List.map_id path]
  apply List.map_congr_left
  intro c member
  have other : c ≠ '\\' := by
    rintro rfl
    exact clean member
  simp [other]

theorem joined_avoids {c : Char} (notSlash : c ≠ '/') (absent : ∀ name ∈ names, c ∉ name) :
    c ∉ joinNames names := by
  unfold joinNames
  induction names with
  | nil => simp
  | cons name rest ih =>
    have first := absent name List.mem_cons_self
    have later := ih fun name member => absent name (List.mem_cons_of_mem _ member)
    cases rest with
    | nil => simpa using first
    | cons next more =>
      rw [List.intercalate_cons_cons]
      simp only [List.mem_append, List.mem_singleton, not_or]
      exact ⟨⟨first, notSlash⟩, later⟩

theorem joined_head (plain : ∀ name ∈ names, Plain name) :
    (joinNames names).head? ≠ some '/' := by
  cases names with
  | nil => simp [joinNames]
  | cons name rest =>
    have first := plain name List.mem_cons_self
    obtain ⟨c, more, rfl⟩ := List.exists_cons_of_ne_nil first.filled
    have other : c ≠ '/' := by
      rintro rfl
      exact first.noSlash List.mem_cons_self
    cases rest with
    | nil => simpa [joinNames] using other
    | cons next further => simpa [joinNames, List.intercalate_cons_cons] using other

private theorem leading_spelled (few : slashes ≤ 2) (plain : ∀ name ∈ names, Plain name) :
    leadingSlashes (List.replicate slashes '/' ++ joinNames names) = slashes := by
  have front : (joinNames names).takeWhile (· = '/') = [] := by
    have head := joined_head plain
    cases text : joinNames names with
    | nil => rfl
    | cons c rest =>
      rw [text] at head
      have other : c ≠ '/' := by simpa using head
      simp [other]
  unfold leadingSlashes
  rw [List.takeWhile_append_of_pos (by simp), front, List.append_nil, List.length_replicate]
  match slashes, few with
  | 0, _ | 1, _ | 2, _ => rfl

/-- The slashes in front add empty names only, which a walk passes over. -/
private theorem walk_spelled (plain : ∀ name ∈ names, Plain name) :
    ((List.replicate slashes '/' ++ joinNames names).splitOn '/').foldl (enter absolute) [] =
      names.foldl (enter absolute) [] := by
  induction slashes with
  | zero =>
    simp only [List.replicate_zero, List.nil_append]
    cases names with
    | nil => simp [joinNames, enter]
    | cons name rest =>
      rw [joinNames, List.splitOn_intercalate '/' (fun name member => (plain name member).noSlash)
        (by simp)]
  | succ more ih =>
    rw [List.replicate_succ, List.cons_append, List.splitOn_cons_eq_if_modifyHead]
    simpa [enter_stays] using ih

/-- Walking names that a walk has left gives them back. -/
theorem joined_walked (normal : Normal slashes names) :
    walk (slashes != 0) ((List.replicate slashes '/' ++ joinNames names).splitOn '/') = names := by
  have again := walk_again normal.settled
  rw [List.reverse_reverse] at again
  rw [walk, walk_spelled (normal_plain normal), again, List.reverse_reverse]

/-- A normal path is its own spelling. -/
theorem normalChars_spell (normal : Normal slashes names) :
    normalChars (spell slashes names) = spell slashes names := by
  have plain := normal_plain normal
  unfold spell
  split
  · rfl
  · have clean : '\\' ∉ List.replicate slashes '/' ++ joinNames names := by
      simp only [List.mem_append, List.mem_replicate, not_or]
      exact ⟨by simp, joined_avoids (by decide) fun name member => (plain name member).noBackslash⟩
    simp only [normalChars, turned_again clean, leading_spelled normal.few plain,
      joined_walked normal]
    rename_i filled
    simp only [filled, Bool.false_eq_true, ↓reduceIte]

theorem normalize_settles (path : String) : normalize (normalize path) = normalize path := by
  obtain ⟨slashes, names, normal, spelled⟩ := normalChars_spelled path.toList
  simp only [Location.normalize, spelled, String.toList_ofList, normalChars_spell normal]

private theorem enter_member {other : Name} (member : other ∈ enter absolute reached name) :
    other ∈ reached ∨ other = name := by
  by_cases blank : name = [] ∨ name = ['.']
  · rw [enter_stays blank] at member
    exact .inl member
  · obtain ⟨filled, notDot⟩ := not_or.mp blank
    simp only [enter, filled, notDot, decide_false, Bool.or_self, Bool.false_eq_true,
      ↓reduceIte] at member
    by_cases upward : name = up
    · simp only [upward, ↓reduceIte] at member ⊢
      cases reached with
      | nil =>
        cases absolute with
        | true => cases member
        | false => exact .inr (List.mem_singleton.mp member)
      | cons inner outer =>
        by_cases same : inner = up
        · simp only [same, ↓reduceIte] at member ⊢
          exact (List.mem_cons.mp member).symm
        · simp only [same, ↓reduceIte] at member
          exact .inl (List.mem_cons_of_mem _ member)
    · simp only [upward, ↓reduceIte] at member
      exact (List.mem_cons.mp member).symm

/-- A walk leaves none but the names it was given. -/
private theorem walk_member (member : name ∈ walk absolute names) : name ∈ names := by
  have given : ∀ start : List Name, name ∈ names.foldl (enter absolute) start →
      name ∈ start ∨ name ∈ names := by
    clear member
    induction names with
    | nil => exact fun start member => .inl member
    | cons first rest ih =>
      intro start member
      rcases ih _ member with entered | later
      · rcases enter_member entered with before | rfl
        · exact .inl before
        · exact .inr List.mem_cons_self
      · exact .inr (List.mem_cons_of_mem _ later)
  rcases given [] (List.mem_reverse.mp member) with nowhere | member
  · cases nowhere
  · exact member

/-- Normalizing brings no character into a path but slashes and dots. -/
theorem normalChars_avoids {c : Char} {path : List Char} (notSlash : c ≠ '/') (notDot : c ≠ '.')
    (absent : c ∉ path) : c ∉ normalChars path := by
  have turned : c ∉ turnSlashes path := by
    simp only [turnSlashes, List.mem_map, not_exists, not_and]
    intro other member
    split
    · exact Ne.symm notSlash
    · rintro rfl
      exact absent member
  have names : ∀ name ∈ walk (leadingSlashes (turnSlashes path) != 0)
      ((turnSlashes path).splitOn '/'), c ∉ name :=
    fun name member => (split_clean _ turned name (walk_member member)).2
  rw [(normalChars_walk path).2, spell]
  split
  · exact fun member => notDot (List.mem_singleton.mp member)
  · simp only [List.mem_append, List.mem_replicate, not_or, not_and]
    exact ⟨fun _ => notSlash, joined_avoids notSlash names⟩

end EntitySchema.NormalPath
