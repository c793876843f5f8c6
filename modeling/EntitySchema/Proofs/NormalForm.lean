import EntitySchema.Proofs.DistinctNames
import EntitySchema.Proofs.NormalTypes

/-! Converted types are in normal form at every level. Combining takes members
of its own kind apart one level deep only, which is enough because the types it
is given are in normal form already; and a record has the names of the
properties that its node declares, which no document has twice. -/
namespace EntitySchema.NormalForm
open Synthesis TypeExpr NormalTypes DistinctNames Loading

variable {part type : TypeExpr} {types : List TypeExpr} {fields : List (Field × TypeExpr)}
  {index : Option TypeExpr}

/-- The type stands in the other, at any depth. -/
inductive Part (part : TypeExpr) : TypeExpr → Prop where
  | self : Part part part
  | element {element : TypeExpr} (inner : Part part element) : Part part (.array element)
  | value {value : TypeExpr} (inner : Part part value) : Part part (.map value)
  | item {elements : List TypeExpr} {element : TypeExpr} (member : element ∈ elements)
    (inner : Part part element) : Part part (.tuple elements)
  | alternative {members : List TypeExpr} {alternative : TypeExpr}
    (member : alternative ∈ members) (inner : Part part alternative) : Part part (.union members)
  | operand {members : List TypeExpr} {operand : TypeExpr} (member : operand ∈ members)
    (inner : Part part operand) : Part part (.intersection members)
  | field {fields : List (Field × TypeExpr)} {index : Option TypeExpr} {entry : Field × TypeExpr}
    (member : entry ∈ fields) (inner : Part part entry.2) : Part part (.record fields index)
  | index {fields : List (Field × TypeExpr)} {index : Option TypeExpr} {type : TypeExpr}
    (member : type ∈ index) (inner : Part part type) : Part part (.record fields index)

/-- What is asked of a type, apart from the types inside it: a union and an
intersection have several members, none of their own kind and each with a text
of its own, primitive types are those that schemas name, and no two fields of a
record have one name. -/
def InForm : TypeExpr → Prop
  | .union members => Members isUnion members
  | .intersection members => Members isIntersection members
  | .primitive name => name ∈ primitiveNames
  | .record fields _ => (fields.map (·.1.name)).Nodup
  | _ => True

private theorem part_normal (normal : Normal type) (inside : Part part type) : Normal part := by
  induction inside with
  | self => exact normal
  | element _ ih =>
    cases normal with
    | array inner => exact ih inner
  | value _ ih =>
    cases normal with
    | map inner => exact ih inner
  | item member _ ih =>
    cases normal with
    | tuple inner => exact ih (inner _ member)
  | alternative member _ ih =>
    cases normal with
    | union inner _ => exact ih (inner _ member)
  | operand member _ ih =>
    cases normal with
    | intersection inner _ => exact ih (inner _ member)
  | field member _ ih =>
    cases normal with
    | record inner _ => exact ih (inner _ member)
  | index member _ ih =>
    cases normal with
    | record _ others => exact ih (others _ member)

/-- No record in the type has two fields of one name. -/
def Named (type : TypeExpr) : Prop :=
  ∀ fields index, Part (.record fields index) type → (fields.map (·.1.name)).Nodup

section Combining

/-- A record in a combination stands in one of the types combined. -/
private theorem collapse_record {combine : List TypeExpr → TypeExpr}
    (opens : ∀ members, Part (.record fields index) (combine members) →
      ∃ member ∈ members, Part (.record fields index) member)
    (inside : Part (.record fields index) (collapse combine types)) :
    ∃ type ∈ types, Part (.record fields index) type := by
  match types with
  | [] => cases inside
  | [type] => exact ⟨type, List.mem_singleton_self type, inside⟩
  | first :: second :: rest => exact opens _ inside

theorem anyOf_named (named : ∀ type ∈ types, Named type) : Named (anyOf types) := by
  intro fields index inside
  obtain ⟨member, kept, inner⟩ := collapse_record (fun members opened => by
    cases opened with
    | alternative listed inner => exact ⟨_, listed, inner⟩) inside
  obtain ⟨type, listed, among⟩ := List.mem_flatMap.mp (distinct_member kept)
  refine named type listed fields index ?_
  cases type with
  | union members => exact .alternative among inner
  | _ =>
    cases List.mem_singleton.mp among
    exact inner

theorem allOf_named (named : ∀ type ∈ types, Named type) : Named (allOf types) := by
  intro fields index inside
  obtain ⟨member, kept, inner⟩ := collapse_record (fun members opened => by
    cases opened with
    | operand listed inner => exact ⟨_, listed, inner⟩) inside
  obtain ⟨type, listed, among⟩ := List.mem_flatMap.mp (distinct_member kept)
  refine named type listed fields index ?_
  cases type with
  | intersection members => exact .operand among inner
  | _ =>
    cases List.mem_singleton.mp among
    exact inner

end Combining

/-- The fields made for properties have their names. -/
private theorem fields_names (required : List String) (properties : List (String × Json))
    (types : List TypeExpr) :
    (((properties.zipWith (fun entry type => (fieldOf required entry.1 entry.2, type)) types).map
      (·.1.name)).Sublist (Entries.names properties)) := by
  induction properties generalizing types with
  | nil => exact List.Sublist.refl _
  | cons property rest ih =>
    cases types with
    | nil => exact List.nil_sublist _
    | cons type more => exact (ih more).cons_cons _

/-- A shape builds such types from such types, if the properties it names are
named once each. -/
theorem build_named {shape : Shape} (named : ∀ type ∈ types, Named type)
    (once : ∀ properties required others, shape = .record properties required others →
      (Entries.names properties).Nodup) : Named (shape.build types) := by
  have simple {type : TypeExpr} (bare : ∀ fields index, ¬ Part (.record fields index) type) :
      Named type := fun fields index inside => absurd inside (bare fields index)
  cases shape with
  | unknown => exact simple (by rintro fields index ⟨⟩)
  | reference ref => exact simple (by rintro fields index ⟨⟩)
  | anyOf nodes => exact anyOf_named named
  | allOf nodes => exact allOf_named named
  | values options =>
    refine anyOf_named fun type member => ?_
    obtain ⟨value, _, rfl⟩ := List.mem_map.mp member
    exact simple (by rintro fields index ⟨⟩)
  | value fixed => exact simple (by rintro fields index ⟨⟩)
  | tuple items =>
    intro fields index inside
    cases inside with
    | item member inner => exact named _ member fields index inner
  | array item =>
    intro fields index inside
    cases inside with
    | element inner =>
      cases types with
      | nil => cases inner
      | cons type rest => exact named type List.mem_cons_self fields index inner
  | anyArray =>
    intro fields index inside
    cases inside with
    | element inner => cases inner
  | anyObject =>
    intro fields index inside
    cases inside with
    | value inner => cases inner
  | record properties required others =>
    intro fields index inside
    cases inside with
    | self => exact (fields_names required properties types).nodup (once _ _ _ rfl)
    | field member inner =>
      rw [← List.map_uncurry_zip_eq_zipWith, List.mem_map] at member
      obtain ⟨⟨property, type⟩, paired, rfl⟩ := member
      exact named type (List.of_mem_zip paired).2 fields index inner
    | index member inner =>
      cases others with
      | closed => cases member
      | anything =>
        cases member
        cases inner
      | typed node =>
        exact named _ (List.mem_of_mem_drop (List.mem_of_mem_head? member)) fields index inner
  | primitive name => exact simple (by rintro fields index ⟨⟩)

/-- The record made for a node has the names of the properties it declares. -/
private theorem ofNode_once {node : Json} (distinct : Distinct node)
    {properties : List (String × Json)} {required : List String} {others : Others}
    (shape : Shape.ofNode node = .record properties required others) :
    (Entries.names properties).Nodup := by
  have calls := Dispatch.ofNode_calls node
  rw [shape] at calls
  cases calls with
  | record => exact declared_distinct distinct

/-- Where no object has a name twice, no record that conversion gives has one. -/
theorem convert_named {source : Source} {budget : Nat} {node : Json} {context : Context}
    {seen : List Reference.Key} {before after : Store} (stocked : Stocked before)
    (located : Distinct context.schema) (distinct : Distinct node)
    (ran : (convert source budget node context seen).run before = (.ok type, after)) :
    Named type := by
  induction budget generalizing node context seen before after type with
  | zero =>
    cases ran
    rintro fields index ⟨⟩
  | succ budget ih =>
    by_cases referring : ∃ ref, Shape.ofNode node = .reference ref
    · obtain ⟨ref, shape⟩ := referring
      simp only [convert, shape, Action.run_bind] at ran
      rcases hopped : (Reference.hop? source ref context seen).run before with ⟨_ | found, middle⟩
      · simp [hopped] at ran
      · have reads := hop_onlyReads source ref context seen before
        rw [hopped] at reads
        simp only [hopped] at ran
        cases found with
        | none =>
          cases ran
          rintro fields index ⟨⟩
        | some hop =>
          obtain ⟨name, _, _, _, resolved⟩ := Reference.hop_found hopped
          have target := resolve_distinct stocked located resolved
          exact ih (reads_stocked reads stocked) target target ran
    · rw [convert_structural source budget context seen fun ref shape => referring ⟨ref, shape⟩,
        Action.run_bind] at ran
      rcases children : (Action.each (fun child => convert source budget child context seen)
        (Shape.ofNode node).children).run before with ⟨_ | types, middle⟩
      · simp [children] at ran
      · simp only [children, Action.run_pure, Prod.mk.injEq, Except.ok.injEq] at ran
        obtain ⟨rfl, rfl⟩ := ran
        refine build_named ?_ fun _ _ _ shape => ofNode_once distinct shape
        intro type member
        -- Each child is converted from a store that only gained documents since the start.
        obtain ⟨child, listed, early, late, held, converted⟩ :=
          each_member Stocked (fun child _ early held => reads_stocked
            (convert_onlyReads source budget child context seen early) held) stocked children
            type member
        exact ih held located (children_distinct distinct listed) converted

/-- **Converted types are in normal form at every level.** For every node,
budget and set of references followed before, from every store and in every
context: each type inside the result, at any depth, is in form. Of the node, the
context and the store it is asked only that no object has a name twice, which
holds of everything that is read from a file. -/
theorem converted_types_normal {source : Source} {budget : Nat} {node : Json} {context : Context}
    {seen : List Reference.Key} {before after : Store} (stocked : Stocked before)
    (located : Distinct context.schema) (distinct : Distinct node)
    (ran : (convert source budget node context seen).run before = (.ok type, after)) :
    ∀ part, Part part type → InForm part := by
  intro part inside
  have normal := part_normal (convert_normal ran) inside
  have named := convert_named stocked located distinct ran
  cases normal with
  | union inner form => exact form
  | intersection inner form => exact form
  | primitive known => exact known
  | record inner others => exact named _ _ inside
  | _ => trivial

/-- Text or nothing, or an object with a number and a value of this kind again. -/
def nestedNode : Json :=
  .obj [("oneOf", .arr [.obj [("type", .arr [.str "string", .str "null"])],
    .obj [("properties", .obj [("a", .obj [("type", .str "integer")]),
      ("b", .obj [("$ref", .str "#")])])]])]

/-- Its type, with the reference followed once. -/
def nestedType (inner : TypeExpr) : TypeExpr :=
  .union [.primitive "string", .primitive "null",
    .record [({ name := "a" }, .primitive "number"), ({ name := "b" }, inner)] none]

private theorem nested_distinct : Distinct nestedNode := by
  simp [nestedNode, Entries.names]

/-- The list of types is taken apart in the union, and the union under `b` is in
form as well. -/
theorem converted_types_normal_nested :
    Stocked {} ∧ Distinct nestedNode ∧
      (convert ⟨{}, ⟨0, []⟩⟩ 9 nestedNode ⟨nestedNode, "d"⟩ []).run {} =
        (.ok (nestedType (nestedType .unknown)), {}) ∧
      InForm (nestedType .unknown) := by
  have stocked : Stocked {} := by
    rintro entry ⟨⟩
  have ran : (convert ⟨{}, ⟨0, []⟩⟩ 9 nestedNode ⟨nestedNode, "d"⟩ []).run {} =
      (.ok (nestedType (nestedType .unknown)), {}) := by rfl
  refine ⟨stocked, nested_distinct, ran, ?_⟩
  refine converted_types_normal stocked nested_distinct nested_distinct ran _ ?_
  refine .alternative (List.mem_cons_of_mem _ (List.mem_cons_of_mem _ List.mem_cons_self)) ?_
  exact .field (List.mem_cons_of_mem _ List.mem_cons_self) .self

end EntitySchema.NormalForm
