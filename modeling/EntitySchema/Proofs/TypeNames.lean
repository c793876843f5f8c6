import EntitySchema.Proofs.RecordKeys
import EntitySchema.TypeModule
import Mathlib

/-! Names of component types. A name is the first of its base, the base with
2, with 3 and so on that no earlier component has. There are more of these than
earlier components, so one is always found, and names are distinct. A base is
the prefix and the words of a key, each with no small letter in front, so behind
the prefix stand letters and digits only, and never the single `s` that would
make a name that of the interface. -/
namespace EntitySchema.TypeNames
open Component RecordKeys

variable {base name typePrefix : String} {taken : List String}

/-- The names that are tried for a base, in turn. -/
def candidate (base : String) : Nat → String
  | 0 => base
  | tries + 1 => base ++ toString (tries + 2)

/-- The first name tried for the base that is not taken. -/
def FirstFree (base : String) (taken : List String) (name : String) : Prop :=
  ∃ tries, name = candidate base tries ∧ name ∉ taken ∧
    ∀ earlier < tries, candidate base earlier ∈ taken

section Trying

private theorem candidate_text (base : String) (tries : Nat) :
    (candidate base (tries + 1)).toList = base.toList ++ Nat.toDigits 10 (tries + 2) := by
  rw [candidate, String.toList_append, Nat.toString_eq_repr, Nat.toList_repr]

private theorem candidate_injective (base : String) : Function.Injective (candidate base) := by
  have differs : ∀ tries, candidate base (tries + 1) ≠ base := by
    intro tries same
    have text := candidate_text base tries
    rw [same] at text
    exact Nat.toDigits_ne_nil (List.append_right_eq_self.mp text.symm)
  intro first second same
  cases first with
  | zero =>
    cases second with
    | zero => rfl
    | succ later => exact absurd same.symm (differs later)
  | succ more =>
    cases second with
    | zero => exact absurd same (differs more)
    | succ later =>
      have digits := congrArg String.toList same
      rw [candidate_text, candidate_text] at digits
      have values := congrArg (Nat.ofDigitChars 10 · 0) (List.append_cancel_left digits)
      simp only [Nat.ofDigitChars_ten_toDigits] at values
      omega

/-- No more names can be taken than there are in the list. -/
private theorem taken_bounded {count : Nat}
    (all : ∀ earlier < count, candidate base earlier ∈ taken) : count ≤ taken.length := by
  have distinct : ((List.range count).map (candidate base)).Nodup :=
    List.Nodup.map (candidate_injective base) List.nodup_range
  have held : (List.range count).map (candidate base) ⊆ taken := by
    intro name member
    obtain ⟨earlier, within, rfl⟩ := List.mem_map.mp member
    exact all earlier (List.mem_range.mp within)
  simpa using (distinct.subperm held).length_le

private theorem numbered_held {tries suffix : Nat} (held : base ++ toString suffix ∈ taken) :
    numbered base taken (tries + 1) suffix = numbered base taken tries (suffix + 1) :=
  if_pos (List.contains_iff_mem.mpr held)

private theorem numbered_free {tries suffix : Nat} (free : base ++ toString suffix ∉ taken) :
    numbered base taken (tries + 1) suffix = base ++ toString suffix :=
  if_neg (mt List.contains_iff_mem.mp free)

/-- The numbers are tried one after the other, until a name is free or the tries
run out. -/
private theorem numbered_tries (base : String) (taken : List String) (tries start : Nat) :
    ∃ steps ≤ tries, numbered base taken tries (start + 2) = candidate base (start + 1 + steps) ∧
      (∀ earlier < steps, candidate base (start + 1 + earlier) ∈ taken) ∧
      (steps < tries → numbered base taken tries (start + 2) ∉ taken) := by
  induction tries generalizing start with
  | zero => exact ⟨0, le_rfl, rfl, by simp, by simp⟩
  | succ tries ih =>
    by_cases held : base ++ toString (start + 2) ∈ taken
    · obtain ⟨steps, within, found, before, free⟩ := ih (start + 1)
      rw [numbered_held held, show start + 2 + 1 = start + 1 + 2 by omega]
      refine ⟨steps + 1, by omega, by rw [found]; congr 1; omega, ?_, ?_⟩
      · intro earlier below
        cases earlier with
        | zero => exact held
        | succ earlier =>
          have later := before earlier (by omega)
          rwa [show start + 1 + (earlier + 1) = start + 1 + 1 + earlier by omega]
      · intro below
        exact free (by omega)
    · rw [numbered_free held]
      exact ⟨0, Nat.zero_le _, rfl, by simp, fun _ => held⟩

/-- The tries do not run out: the first free name is found, whatever is taken. -/
theorem freshName_firstFree (base : String) (taken : List String) :
    FirstFree base taken (freshName base taken) := by
  by_cases held : base ∈ taken
  · obtain ⟨steps, within, found, before, free⟩ := numbered_tries base taken taken.length 0
    have earlierTaken : ∀ earlier < steps + 1, candidate base earlier ∈ taken := by
      intro earlier below
      cases earlier with
      | zero => exact held
      | succ earlier =>
        have later := before earlier (by omega)
        rwa [show 0 + 1 + earlier = earlier + 1 by omega] at later
    have enough := taken_bounded earlierTaken
    rw [freshName, if_pos (List.contains_iff_mem.mpr held)]
    exact ⟨steps + 1, by rw [found]; congr 1; omega, free (by omega), earlierTaken⟩
  · rw [freshName, if_neg (mt List.contains_iff_mem.mp held)]
    exact ⟨0, rfl, held, by simp⟩

end Trying

section Words

theorem isWordChar_eq (c : Char) : isWordChar c = c.isAlphanum := by
  have upper : c.isUpper = ('A' ≤ c && c ≤ 'Z') := Bool.decide_and _ _
  have lower : c.isLower = ('a' ≤ c && c ≤ 'z') := rfl
  have digit : c.isDigit = ('0' ≤ c && c ≤ '9') := rfl
  rw [isWordChar, Char.isAlphanum, Char.isAlpha, ← upper, ← lower, ← digit, Bool.or_comm c.isLower]

/-- Between separators stand letters and digits only. -/
private theorem pieces_plain (text : List Char) :
    ∀ piece ∈ text.splitOnP fun c => !isWordChar c, ∀ c ∈ piece, c.isAlphanum = true := by
  induction text with
  | nil => simp
  | cons first rest ih =>
    rw [List.splitOnP_cons_eq_if_modifyHead]
    intro piece listed
    split at listed
    · rcases List.mem_cons.mp listed with rfl | later
      · simp
      · exact ih piece later
    · rename_i within
      have plain : first.isAlphanum = true := by
        rw [← isWordChar_eq]
        simpa using within
      -- The first character goes to the first piece of the rest.
      cases split : rest.splitOnP fun c => !isWordChar c with
      | nil => exact absurd split (List.splitOnP_ne_nil _ _)
      | cons piece more =>
        rw [split] at listed ih
        rcases List.mem_cons.mp listed with rfl | later
        · exact List.forall_mem_cons.mpr ⟨plain, ih piece List.mem_cons_self⟩
        · exact ih _ (List.mem_cons_of_mem _ later)

theorem words_plain {text word : List Char} (member : word ∈ words text) :
    ∀ c ∈ word, c.isAlphanum = true :=
  pieces_plain text word (List.mem_filter.mp member).1

private theorem toUpper_alphanum {c : Char} (plain : c.isAlphanum = true) :
    c.toUpper.isAlphanum = true := by
  by_cases letter : c.isAlpha = true
  · have upper : c.toUpper.isUpper = true := by rw [Char.isUpper_toUpper_eq_isAlpha, letter]
    simp only [Char.isAlphanum, Char.isAlpha, upper, Bool.true_or]
  · have small : ¬c.isLower = true := by
      intro lower
      exact letter (by simp [Char.isAlpha, lower])
    rwa [Char.toUpper_eq_of_not_isLower small]

/-- Behind the prefix of a name: letters and digits, of which the first is no
small letter. -/
structure Plain (ending : List Char) : Prop where
  alphanumeric : ∀ c ∈ ending, c.isAlphanum = true
  capital : ∀ c ∈ ending.head?, c.isLower = false

theorem capitalize_plain {word : List Char} (plain : ∀ c ∈ word, c.isAlphanum = true) :
    Plain (capitalize word) := by
  cases word with
  | nil => exact ⟨by simp [capitalize], by simp [capitalize]⟩
  | cons c rest =>
    obtain ⟨first, others⟩ := List.forall_mem_cons.mp plain
    refine ⟨List.forall_mem_cons.mpr ⟨toUpper_alphanum first, others⟩, ?_⟩
    rintro d ⟨⟩
    exact Char.isLower_toUpper_eq_false c

theorem plain_append {first second : List Char} (one : Plain first) (other : Plain second) :
    Plain (first ++ second) := by
  refine ⟨fun c member => ?_, fun c head => ?_⟩
  · exact (List.mem_append.mp member).elim (one.alphanumeric c) (other.alphanumeric c)
  · cases first with
    | nil => exact other.capital c head
    | cons d more => exact one.capital c head

theorem pascalCase_plain (key : String) : Plain (pascalCase key).toList := by
  have all : ∀ listed : List (List Char), (∀ word ∈ listed, ∀ c ∈ word, c.isAlphanum = true) →
      Plain (listed.flatMap capitalize) := by
    intro listed plain
    induction listed with
    | nil => exact ⟨by simp, by simp⟩
    | cons word rest ih =>
      obtain ⟨first, others⟩ := List.forall_mem_cons.mp plain
      exact plain_append (capitalize_plain first) (ih others)
  rw [pascalCase, String.toList_ofList]
  exact all _ fun word => words_plain

private theorem digits_plain (n : Nat) : Plain (Nat.toDigits 10 n) := by
  have digits : ∀ c ∈ Nat.toDigits 10 n, c.isDigit = true :=
    fun _ member => Nat.isDigit_of_mem_toDigits (by decide) (by decide) member
  refine ⟨fun c member => by simp [Char.isAlphanum, digits c member], fun c head => ?_⟩
  have digit := digits c (List.mem_of_mem_head? head)
  rw [Char.isDigit, Bool.and_eq_true, decide_eq_true_iff, decide_eq_true_iff] at digit
  rw [Char.isLower, Bool.and_eq_false_iff, decide_eq_false_iff_not]
  exact .inl (UInt32.not_le.mpr (UInt32.lt_of_le_of_lt digit.2 (by decide)))

/-- Whatever is tried for the key of a component is the prefix and a plain ending. -/
theorem candidate_plain (typePrefix key : String) (tries : Nat) :
    ∃ ending : String, candidate (typePrefix ++ pascalCase key) tries = typePrefix ++ ending ∧
      Plain ending.toList := by
  cases tries with
  | zero => exact ⟨pascalCase key, rfl, pascalCase_plain key⟩
  | succ tries =>
    refine ⟨pascalCase key ++ toString (tries + 2), String.append_assoc, ?_⟩
    rw [String.toList_append, Nat.toString_eq_repr, Nat.toList_repr]
    exact plain_append (pascalCase_plain key) (digits_plain _)

end Words

section Lists

/-- Names that were given count as taken, the last of them first. -/
private theorem typeNamesFrom_append (taken front back : List String) :
    typeNamesFrom typePrefix taken (front ++ back) = typeNamesFrom typePrefix taken front ++
      typeNamesFrom typePrefix ((typeNamesFrom typePrefix taken front).reverse ++ taken) back := by
  induction front generalizing taken with
  | nil => rfl
  | cons key rest ih =>
    simp only [List.cons_append, typeNamesFrom, ih, List.reverse_cons, List.append_assoc,
      List.nil_append]

/-- One more component gets the first free name and changes no other. -/
theorem typeNames_concat (typePrefix : String) (front : List Component) (component : Component) :
    ∃ name, typeNames typePrefix (front ++ [component]) = typeNames typePrefix front ++ [name] ∧
      FirstFree (typePrefix ++ pascalCase component.name) (typeNames typePrefix front) name := by
  obtain ⟨tries, found, free, before⟩ := freshName_firstFree
    (typePrefix ++ pascalCase component.name) (typeNames typePrefix front).reverse
  refine ⟨_, ?_, tries, found, by simpa using free, by simpa using before⟩
  simp only [typeNames, List.map_append, typeNamesFrom_append, List.append_nil]
  rfl

theorem typeNames_prefix (typePrefix : String) (front back : List Component) :
    typeNames typePrefix front <+: typeNames typePrefix (front ++ back) := by
  rw [typeNames, typeNames, List.map_append, typeNamesFrom_append]
  exact List.prefix_append _ _

theorem typeNames_length (typePrefix : String) (components : List Component) :
    (typeNames typePrefix components).length = components.length := by
  induction components using List.reverseRecOn with
  | nil => rfl
  | append_singleton front component ih =>
    obtain ⟨name, names, _⟩ := typeNames_concat typePrefix front component
    simp [names, ih]

private theorem typeNames_nodup (typePrefix : String) (components : List Component) :
    (typeNames typePrefix components).Nodup := by
  induction components using List.reverseRecOn with
  | nil => exact List.nodup_nil
  | append_singleton front component ih =>
    obtain ⟨name, names, _, _, free, _⟩ := typeNames_concat typePrefix front component
    rw [names, ← List.concat_eq_append]
    exact ih.concat free

/-- Every name is the prefix and a plain ending. -/
theorem typeNames_plain {components : List Component}
    (member : name ∈ typeNames typePrefix components) :
    ∃ ending : String, name = typePrefix ++ ending ∧ Plain ending.toList := by
  induction components using List.reverseRecOn with
  | nil => cases member
  | append_singleton front component ih =>
    obtain ⟨last, names, tries, rfl, _, _⟩ := typeNames_concat typePrefix front component
    rw [names] at member
    rcases List.mem_append.mp member with earlier | new
    · exact ih earlier
    · rw [List.mem_singleton.mp new]
      exact candidate_plain typePrefix component.name tries

/-- With the usual prefix, all names are identifiers. -/
theorem typeNames_identifier {components : List Component}
    (member : name ∈ typeNames "EntityComponent" components) : Identifier name := by
  obtain ⟨ending, rfl, plain⟩ := typeNames_plain member
  have fixed : "ntityComponent".toList.all withinIdentifier = true := by decide
  refine ⟨'E', "ntityComponent".toList ++ ending.toList, ?_, by decide, ?_⟩
  · rw [String.toList_append]
    rfl
  · intro d within
    rcases List.mem_append.mp within with given | free
    · exact List.all_eq_true.mp fixed d given
    · simp [withinIdentifier, plain.alphanumeric d free]

end Lists

/-- **Type names are sound.** For every prefix and every list of components,
there are as many names as components, all different, each of them the prefix
with letters and digits behind it. Every component's name is the first of those
tried that no component before it has, so a free one is always found, and
components that follow have no say in it. With the prefix and the interface name
that modules have by default, names are identifiers other than the interface's. -/
theorem type_names_sound (typePrefix : String) (components : List Component) :
    (typeNames typePrefix components).length = components.length ∧
      (typeNames typePrefix components).Nodup ∧
      (∀ name ∈ typeNames typePrefix components,
        ∃ ending : String, name = typePrefix ++ ending ∧
          ∀ c ∈ ending.toList, c.isAlphanum = true) ∧
      (∀ front back, components = front ++ back →
        typeNames typePrefix front <+: typeNames typePrefix components) ∧
      (∀ front component back, components = front ++ component :: back →
        ∃ name, typeNames typePrefix front ++ [name] <+: typeNames typePrefix components ∧
          FirstFree (typePrefix ++ pascalCase component.name) (typeNames typePrefix front) name) ∧
      ∀ name ∈ typeNames ({} : TypeModule).typePrefix components,
        Identifier name ∧ name ≠ ({} : TypeModule).interfaceName := by
  refine ⟨typeNames_length _ _, typeNames_nodup _ _, ?_, ?_, ?_, ?_⟩
  · intro name member
    obtain ⟨ending, same, plain⟩ := typeNames_plain member
    exact ⟨ending, same, plain.alphanumeric⟩
  · rintro front back rfl
    exact typeNames_prefix typePrefix front back
  · rintro front component back rfl
    obtain ⟨name, names, free⟩ := typeNames_concat typePrefix front component
    refine ⟨name, ?_, free⟩
    have split : front ++ component :: back = front ++ [component] ++ back := by simp
    rw [← names, split]
    exact typeNames_prefix typePrefix _ back
  · intro name member
    refine ⟨typeNames_identifier member, ?_⟩
    -- Only a small `s` behind the prefix gives the name of the interface.
    obtain ⟨ending, rfl, plain⟩ := typeNames_plain member
    intro same
    have letters := congrArg String.toList same
    rw [String.toList_append, show ({} : TypeModule).interfaceName.toList =
      ({} : TypeModule).typePrefix.toList ++ ['s'] by decide] at letters
    rw [List.append_cancel_left letters] at plain
    exact absurd (plain.capital 's' rfl) (by decide)

/-- Three keys with the same words, as they stand or with a number, and one
without any. -/
def collidingComponents : List Component :=
  ["a.b", "a_b", "AB2", "…"].map fun key => { name := key, type := .unknown }

/-- The number that one name needs is passed over by the component that has it
in its key. -/
theorem type_names_sound_colliding :
    typeNames "EntityComponent" collidingComponents =
        ["EntityComponentAB", "EntityComponentAB2", "EntityComponentAB22", "EntityComponent"] ∧
      Identifier "EntityComponentAB22" ∧ "EntityComponentAB22" ≠ "EntityComponents" := by
  have names : typeNames "EntityComponent" collidingComponents =
      ["EntityComponentAB", "EntityComponentAB2", "EntityComponentAB22", "EntityComponent"] := by
    decide
  obtain ⟨_, _, _, _, _, usual⟩ := type_names_sound "EntityComponent" collidingComponents
  exact ⟨names, usual "EntityComponentAB22" (by decide)⟩

end EntitySchema.TypeNames
