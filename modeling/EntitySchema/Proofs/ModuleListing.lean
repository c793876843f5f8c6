import EntitySchema.Proofs.TypeNames
import Mathlib

/-! Modules are read back. The interface at the end of a module has a line for
each component, with its key in quotes and the name of its type; no key can end
its line or its quotes, so the lines are told apart and read as they were meant.
The section of each component, behind its comment, declares the very name that
the interface gives to its key. -/
namespace EntitySchema.ModuleListing
open Component RecordText RecordKeys UniqueReading TypeNames

variable {name : String} {rest : List Char} {names : List String} {components : List Component}

/-- The identifier that a text starts with, and what follows it. -/
def readIdentifier (text : List Char) : Option (String × List Char) :=
  if text.head?.any opensIdentifier then readKey text else none

/-- The key and the type name in a line of an interface. -/
def readEntry (line : List Char) : Option (String × String) := do
  let (key, marked) ← readQuoted (← line.dropPrefix? "  '".toList)
  let (typeName, ending) ← readIdentifier (← marked.dropPrefix? "?: ".toList)
  if ending = ";".toList then some (String.ofList key, typeName) else none

/-- What follows the comment at the head of a text and its line feed, or the text
itself when it has none. -/
def pastComment (text : List Char) : List Char :=
  if "/**".toList.isPrefixOf text then (afterComment text).drop 1 else text

/-- The type name that a section declares. -/
def readDeclared (text : List Char) : Option String := do
  let (typeName, meaning) ←
    readIdentifier (← (pastComment text).dropPrefix? "export type ".toList)
  if " = ".toList.isPrefixOf meaning then some typeName else none

/-- The line that opens the interface. -/
def opening : List Char :=
  "export interface EntityComponents \x7b".toList

/-- The lines that close the interface and name it as what the module is for. -/
def closing : List (List Char) :=
  ["\x7d".toList, [], "export default EntityComponents;".toList]

/-- All keys and type names that a module lists: those in the lines between the
last opening of an interface and the end. -/
def listing? (text : String) : Option (List (String × String)) := do
  let body ← (text.toList.splitOn '\n').dropSuffix? (closing ++ [[]])
  (body.rtakeWhile (· ≠ opening)).mapM readEntry

section Lines

private theorem lead_dropped (lead rest : List Char) :
    (lead ++ rest).dropPrefix? lead = some rest :=
  List.dropPrefix?_append_of_beq rest (beq_self_eq_true lead)

private theorem readIdentifier_name (identifier : Identifier name)
    (stops : Stops withinIdentifier rest) :
    readIdentifier (name.toList ++ rest) = some (name, rest) := by
  have opens : (name.toList ++ rest).head?.any opensIdentifier = true := by
    obtain ⟨c, more, same, opens, _⟩ := identifier
    rw [same]
    exact opens
  rw [readIdentifier, if_pos opens, read_identifier identifier stops]

private theorem interfaceLine_text (component : Component) (name : String) :
    (TypeModule.interfaceLine component name).toList =
      "  '".toList ++ (component.name.toList.flatMap quoteChar ++
        '\'' :: ("?: ".toList ++ (name.toList ++ ";".toList))) := by
  simp [TypeModule.interfaceLine, String.toList_append, quoted_text]

/-- A line of the interface is read as the key and the type name in it. -/
private theorem interfaceLine_read (component : Component) (identifier : Identifier name) :
    readEntry (TypeModule.interfaceLine component name).toList = some (component.name, name) := by
  have stops : Stops withinIdentifier ";".toList := by
    rintro c ⟨⟩
    decide
  rw [interfaceLine_text]
  simp only [readEntry, lead_dropped, Option.bind_eq_bind, Option.bind_some, read_quoted,
    readIdentifier_name identifier stops, ↓reduceIte, String.ofList_toList]

example : readEntry (TypeModule.interfaceLine { name := "a'?: b;\n  'c\\", type := .unknown }
    "EntityComponentABC").toList = some ("a'?: b;\n  'c\\", "EntityComponentABC") := by decide

private theorem quoteChar_unbroken (c : Char) : '\n' ∉ quoteChar c := by
  unfold quoteChar
  split_ifs with slash quote newline carriage
  all_goals simp
  exact Ne.symm newline

private theorem identifier_unbroken (identifier : Identifier name) : '\n' ∉ name.toList := by
  intro member
  exact absurd (identifier_within identifier _ member) (by decide)

/-- A line of the interface is one line, whatever the key. -/
private theorem interfaceLine_unbroken (component : Component) (identifier : Identifier name) :
    '\n' ∉ (TypeModule.interfaceLine component name).toList := by
  rw [interfaceLine_text]
  simp [quoteChar_unbroken, identifier_unbroken identifier]

end Lines

section Declarations

/-- The comment of a component is passed over, whatever its texts. -/
private theorem declaration_uncommented (component : Component) (name : String) :
    pastComment (TypeModule.declaration component name).toList =
      "export type ".toList ++ (name.toList ++ (" = ".toList ++
        (component.type.text.toList ++ ";".toList))) := by
  unfold TypeModule.declaration
  simp only
  split
  · simp [pastComment, String.toList_append]
  · rename_i filled
    have unindented : "".toList = List.replicate 0 ' ' := rfl
    have skipped := comment_skipped unindented filled
    simp only [String.toList_append, List.append_assoc, pastComment, skipped]
    rw [if_pos]
    · rfl
    · rw [comment_text filled]
      rfl

/-- The section of a component declares the name it is given. -/
private theorem declaration_read (component : Component) (identifier : Identifier name) :
    readDeclared (TypeModule.declaration component name).toList = some name := by
  have stops (meaning : List Char) : Stops withinIdentifier (" = ".toList ++ meaning) := by
    rintro c ⟨⟩
    decide
  have means (meaning : List Char) : " = ".toList.isPrefixOf (" = ".toList ++ meaning) = true :=
    List.isPrefixOf_iff_prefix.mpr (List.prefix_append _ _)
  simp only [readDeclared, declaration_uncommented, lead_dropped, Option.bind_eq_bind,
    Option.bind_some, readIdentifier_name identifier (stops _), means, ↓reduceIte]

end Declarations

section Sections

variable {target : TypeModule}

/-- The lines of the interface between its opening and its end. -/
def entryLines (components : List Component) (names : List String) : List (List Char) :=
  (components.zip names).map fun entry => (TypeModule.interfaceLine entry.1 entry.2).toList

/-- The lines above the one that opens the interface. -/
def remark : List (List Char) :=
  ["/**".toList, " * All known Minecraft entity components with strong TypeScript types.".toList,
    " */".toList]

/-- What stands in the lines of the interface is read from each of them. -/
private theorem entryLines_read (identifiers : ∀ name ∈ names, Identifier name) :
    (entryLines components names).map readEntry =
      (components.zip names).map fun entry => some (entry.1.name, entry.2) := by
  rw [entryLines, List.map_map]
  apply List.map_congr_left
  rintro ⟨component, name⟩ member
  exact interfaceLine_read component (identifiers name (List.of_mem_zip member).2)

private theorem entryLines_unbroken (identifiers : ∀ name ∈ names, Identifier name) :
    ∀ line ∈ entryLines components names, '\n' ∉ line := by
  intro line member
  obtain ⟨⟨component, name⟩, listed, rfl⟩ := List.mem_map.mp member
  exact interfaceLine_unbroken component (identifiers name (List.of_mem_zip listed).2)

/-- No key makes a line that looks like the opening of the interface. -/
private theorem entryLines_within : ∀ line ∈ entryLines components names, line ≠ opening := by
  intro line member same
  obtain ⟨⟨component, name⟩, _, rfl⟩ := List.mem_map.mp member
  have heads := congrArg List.head? same
  rw [interfaceLine_text, show opening.head? = some 'e' from rfl] at heads
  cases heads

private theorem remark_unbroken : ∀ line ∈ remark, '\n' ∉ line := by
  simp only [remark, List.forall_mem_cons, List.not_mem_nil, false_implies, implies_true, and_true]
  exact ⟨by decide, by decide, by decide⟩

private theorem closing_unbroken : ∀ line ∈ closing, '\n' ∉ line := by
  simp only [closing, List.forall_mem_cons, List.not_mem_nil, false_implies, implies_true, and_true]
  exact ⟨by decide, by decide, by decide⟩

/-- The interface is cut at its line feeds into the lines it was made of. -/
private theorem interface_lines (usual : target.interfaceName = "EntityComponents")
    (identifiers : ∀ name ∈ names, Identifier name) :
    (target.interface components names).toList.splitOn '\n' =
      remark ++ opening :: entryLines components names ++ closing := by
  have text : (target.interface components names).toList =
      ['\n'].intercalate (remark ++ opening :: entryLines components names ++ closing) := by
    rw [TypeModule.interface, usual, String.toList_intercalate, List.map_append, List.map_append,
      List.map_zipWith, entryLines, List.map_zip_eq_zipWith]
    rfl
  rw [text, List.splitOn_intercalate '\n' _ (by simp)]
  intro line member
  simp only [List.mem_append, List.mem_cons] at member
  rcases member with (above | rfl | entry) | below
  · exact remark_unbroken line above
  · decide
  · exact entryLines_unbroken identifiers line entry
  · exact closing_unbroken line below

/-- Every section declares the name of its component's type. -/
private theorem sections_read (identifiers : ∀ name ∈ names, Identifier name)
    (each : names.length = components.length) :
    (List.zipWith TypeModule.declaration components names).map
      (fun text => readDeclared text.toList) = names.map some := by
  induction components generalizing names with
  | nil => rw [List.length_eq_zero_iff.mp each, List.zipWith_nil_right, List.map_nil, List.map_nil]
  | cons component more ih =>
    obtain ⟨name, others, rfl⟩ := List.exists_cons_of_length_eq_add_one each
    obtain ⟨first, later⟩ := List.forall_mem_cons.mp identifiers
    rw [List.zipWith_cons_cons, List.map_cons, declaration_read component first,
      ih later (Nat.succ.inj each), List.map_cons]

/-- The interface stands at the end of the module. -/
private theorem render_ends (target : TypeModule) (components : List Component) :
    ∃ earlier, target.render components =
      earlier ++ "\n\n" ++ target.interface components (typeNames target.typePrefix components) ++
        "\n" := by
  refine ⟨"\n\n".intercalate (target.banner :: List.zipWith TypeModule.declaration components
    (typeNames target.typePrefix components)), ?_⟩
  rw [TypeModule.render, String.intercalate_append_of_ne_nil (by simp) (by simp),
    String.intercalate_singleton]

/-- From the end, the entries are the lines down to the opening. -/
private theorem entries_taken (before : List (List Char)) :
    (before ++ opening :: entryLines components names).rtakeWhile (· ≠ opening) =
      entryLines components names := by
  have within : ∀ line ∈ (entryLines components names).reverse, decide (line ≠ opening) = true := by
    intro line member
    exact decide_eq_true (entryLines_within line (List.mem_reverse.mp member))
  rw [List.rtakeWhile, List.reverse_append, List.reverse_cons, List.append_assoc,
    List.takeWhile_append_of_pos within, List.singleton_append,
    List.takeWhile_cons_of_neg (by simp), List.append_nil, List.reverse_reverse]

private theorem entries_read {lines : List (List Char)} {entries : List (String × String)}
    (each : lines.map readEntry = entries.map some) : lines.mapM readEntry = some entries := by
  induction lines generalizing entries with
  | nil =>
    rw [List.map_eq_nil_iff.mp each.symm]
    rfl
  | cons line more ih =>
    obtain ⟨entry, others, rfl, first, later⟩ := List.map_eq_cons_iff.mp each.symm
    rw [List.mapM_cons, ← first, ih later.symm]
    rfl

/-- The lines of a module end with those of its interface and an empty one. -/
private theorem module_lines (earlier : String) (components : List Component)
    (usual : target.interfaceName = "EntityComponents")
    (identifiers : ∀ name ∈ names, Identifier name) :
    (earlier ++ "\n\n" ++ target.interface components names ++ "\n").toList.splitOn '\n' =
      ((earlier.toList.splitOn '\n' ++ [[]] ++ remark) ++
        opening :: entryLines components names) ++ (closing ++ [[]]) := by
  have text : (earlier ++ "\n\n" ++ target.interface components names ++ "\n").toList =
      earlier.toList ++ '\n' :: ([] ++ '\n' ::
        ((target.interface components names).toList ++ '\n' :: [])) := by
    simp [String.toList_append]
  rw [text, List.splitOn_append_cons_self, List.splitOn_append_cons_self,
    List.splitOn_append_cons_self, interface_lines usual identifiers]
  simp

/-- All entries are read from the module's text alone. -/
private theorem listing_read (earlier : String) (usual : target.interfaceName = "EntityComponents")
    (identifiers : ∀ name ∈ names, Identifier name) :
    listing? (earlier ++ "\n\n" ++ target.interface components names ++ "\n") =
      some ((components.zip names).map fun entry => (entry.1.name, entry.2)) := by
  have body := List.dropSuffix?_eq_some_iff.mpr
    ⟨closing ++ [[]], module_lines earlier components usual identifiers, beq_self_eq_true _⟩
  rw [listing?, body, Option.bind_eq_bind, Option.bind_some, entries_taken]
  exact entries_read (by rw [entryLines_read identifiers, List.map_map]; rfl)

end Sections

/-- **The interface is read back.** Let a module have the usual prefix and
interface name, any origin and any components. Its text is the banner, a section
for each component and the interface, with a line feed at the end. Cut at its line
feeds, the interface has one line for each component between its opening and its
closing brace, and each is read as the key and the type name of its component,
whatever the key. The sections declare these type names in the same order. The
entries are even found from the module's text alone. -/
theorem interface_read_back (repository revision rootSchema : String)
    (components : List Component) :
    let target : TypeModule :=
      { repository := repository, revision := revision, rootSchema := rootSchema }
    let names := typeNames target.typePrefix components
    let entries := (components.zip names).map fun entry => (entry.1.name, entry.2)
    names.length = components.length ∧
      (∃ earlier, target.render components =
        earlier ++ "\n\n" ++ target.interface components names ++ "\n") ∧
      (∃ lines, (target.interface components names).toList.splitOn '\n' =
          remark ++ opening :: lines ++ closing ∧
        lines.map readEntry = entries.map some) ∧
      (∃ sections, target.render components = "\n\n".intercalate
          (target.banner :: sections ++ [target.interface components names]) ++ "\n" ∧
        sections.map (fun text => readDeclared text.toList) = names.map some) ∧
      listing? (target.render components) = some entries := by
  intro target names entries
  have each : names.length = components.length := typeNames_length _ _
  have identifiers : ∀ name ∈ names, Identifier name := fun name => typeNames_identifier
  obtain ⟨earlier, ends⟩ := render_ends target components
  refine ⟨each, ⟨earlier, ends⟩, ⟨_, interface_lines rfl identifiers, ?_⟩,
    ⟨_, rfl, sections_read identifiers each⟩, ?_⟩
  · rw [entryLines_read identifiers, List.map_map]
    rfl
  · rw [ends]
    exact listing_read earlier rfl identifiers

end EntitySchema.ModuleListing
