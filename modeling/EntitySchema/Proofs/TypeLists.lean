import EntitySchema.Proofs.Combining
import EntitySchema.Proofs.Inhabitation
import EntitySchema.Proofs.StoreView

/-! Nodes with a list of types. Such a node stands for itself with each of the
types in turn, and all its other keywords stay. Items count for arrays only, so
they leave the other types of the list alone; named fields make a record of any
type that has no items, so beside them no primitive type of the list is left. -/
namespace EntitySchema.TypeLists
open Synthesis TypeExpr NormalTypes
open StoreView (noFiles)

variable {source : Source} {context : Context} {seen : List Reference.Key} {budget : Nat}
  {before after : Store} {node held : Json} {type part : TypeExpr} {types : List TypeExpr}
  {fieldless : Prop} {name kind : String}

/-- The type is the alternative, or a union with it as a member. -/
def Offers (type alternative : TypeExpr) : Prop :=
  type = alternative ∨ ∃ members, type = .union members ∧ alternative ∈ members

/-- The keywords that are tried before the type of a node. -/
def combining : List String :=
  ["$ref", "oneOf", "anyOf", "allOf", "enum", "const"]

/-- A node that has none of these keywords. -/
def Typed (node : Json) : Prop :=
  ∀ keyword ∈ combining, node.field? keyword = none

instance (node : Json) : Decidable (Typed node) :=
  inferInstanceAs (Decidable (∀ keyword ∈ combining, node.field? keyword = none))

private theorem offers_primitive :
    Offers type (.primitive kind) ↔ .primitive kind ∈ unionMembers type := by
  cases type <;> simp [Offers, unionMembers, eq_comm]

private theorem ofNode_typed (typed : Typed node) (found : node.field? "type" = some held) :
    Shape.ofNode node = Shape.ofTyped node := by
  cases node with
  | obj fields =>
    have absent : ∀ keyword ∈ combining, fields.lookup keyword = none := typed
    simp only [combining, List.forall_mem_cons] at absent
    obtain ⟨ref, one, any, all, options, fixed, _⟩ := absent
    simp only [Shape.ofNode, ref, one, any, all, options, fixed, Option.or_none]
  | _ => cases found

private theorem typed_withField (typed : Typed node) (found : node.field? "type" = some held)
    (given : Json) : Typed (node.withField "type" given) := by
  intro keyword listed
  have other : keyword ≠ "type" := by
    rintro rfl
    exact absurd listed (by decide)
  rw [Json.field?_withField given keyword found, if_neg other]
  exact typed keyword listed

private theorem type_withField (found : node.field? "type" = some held) (given : Json) :
    (node.withField "type" given).field? "type" = some given := by
  rw [Json.field?_withField given "type" found, if_pos rfl]

private theorem properties_withField (found : node.field? "type" = some held) (given : Json) :
    Shape.properties? (node.withField "type" given) = Shape.properties? node := by
  rw [Shape.properties?, Json.field?_withField given "properties" found, if_neg (by decide),
    Shape.properties?]

/-- What the type of a node with its own type name can be. Only a node without
named fields is primitive, and none is a combination or a single value. -/
inductive Alternative (fieldless : Prop) : TypeExpr → Prop where
  | unknown : Alternative fieldless .unknown
  | array {element : TypeExpr} : Alternative fieldless (.array element)
  | map {value : TypeExpr} : Alternative fieldless (.map value)
  | tuple {elements : List TypeExpr} : Alternative fieldless (.tuple elements)
  | record {fields : List (Field × TypeExpr)} {index : Option TypeExpr} :
    Alternative fieldless (.record fields index)
  | primitive {name : String} (absent : fieldless) : Alternative fieldless (.primitive name)

private theorem alternative_flat (alternative : Alternative fieldless type) :
    isUnion type = false := by
  cases alternative <;> rfl

private theorem alternative_alone (alternative : Alternative fieldless type) :
    ∀ part ∈ unionMembers type, Alternative fieldless part := by
  intro part member
  have single : unionMembers type = [type] := by cases alternative <;> rfl
  rw [single, List.mem_singleton] at member
  rwa [member]

/-- The members of a union that is made of anything at all. -/
private theorem anyOf_members (flat : ∀ part ∈ types.flatMap unionMembers, isUnion part = false)
    (made : part ∈ distinct (types.flatMap unionMembers)) :
    unionMembers (anyOf types) = distinct (types.flatMap unionMembers) := by
  have filled : types.flatMap unionMembers ≠ [] := List.ne_nil_of_mem (distinct_member made)
  rw [Combining.distinct_firsts]
  exact Combining.Operator.union.members_apply filled flat

/-- The members of a union come from the types it was made of. -/
private theorem anyOf_alternatives
    (each : ∀ part ∈ types.flatMap unionMembers, Alternative fieldless part) :
    ∀ part ∈ unionMembers (anyOf types), Alternative fieldless part := by
  cases found : distinct (types.flatMap unionMembers) with
  | nil =>
    rw [anyOf, found]
    exact alternative_alone .unknown
  | cons first rest =>
    have made : first ∈ distinct (types.flatMap unionMembers) := by simp [found]
    rw [anyOf_members (fun part member => alternative_flat (each part member)) made]
    exact fun part member => each part (distinct_member member)

/-- A primitive type is kept in a union that has no literal beside it. -/
private theorem anyOf_keeps (normal : ∀ type ∈ types, Normal type)
    (each : ∀ part ∈ types.flatMap unionMembers, Alternative fieldless part)
    (member : .primitive kind ∈ types) : .primitive kind ∈ unionMembers (anyOf types) := by
  have inside : .primitive kind ∈ types.flatMap unionMembers :=
    List.mem_flatMap.mpr ⟨_, member, List.mem_singleton_self _⟩
  obtain ⟨kept, made, same⟩ := Inhabitation.distinct_covers inside List.not_mem_nil
  change kept ∈ distinct _ at made
  have kept_eq : kept = .primitive kind := by
    obtain ⟨type, listed, part⟩ := List.mem_flatMap.mp (distinct_member made)
    have alike := TypeText.text_canonical (unionMembers_normal (normal type listed) kept part).1
      (normal _ member) same
    -- Only the literal `null` could have the same text, and there are no literals.
    cases each kept (distinct_member made) with
    | primitive absent => exact alike
    | _ => simp [CanonicalTypes.canonical] at alike
  rw [anyOf_members (fun part member => alternative_flat (each part member)) made, ← kept_eq]
  exact made

private theorem ofObject_alternative (types : List TypeExpr) :
    Alternative fieldless ((Shape.ofObject node).build types) := by
  unfold Shape.ofObject
  split
  · exact .record
  · exact .record
  · exact .record
  · exact .record
  · exact .map

private theorem ofItems_alternative {shape : Shape} (found : Shape.ofItems? node = some shape)
    (types : List TypeExpr) : Alternative fieldless (shape.build types) := by
  unfold Shape.ofItems? at found
  split at found <;> cases found
  · exact .tuple
  · exact .array

/-- A node that has one type name or none is of one of these types. -/
private theorem ofType_alternative (asked : Option String) (types : List TypeExpr) :
    Alternative (Shape.properties? node = none) ((Shape.ofType node asked).build types) := by
  unfold Shape.ofType
  split
  · rename_i items
    split at items
    · exact ofItems_alternative items types
    · cases items
  · split
    · exact ofObject_alternative types
    · rename_i plain
      have absent : Shape.properties? node = none := by
        simp only [Bool.or_eq_true, not_or, Bool.not_eq_true, Option.isSome_eq_false_iff,
          Option.isNone_iff_eq_none] at plain
        exact plain.2
      unfold Shape.ofName
      split
      · exact .array
      · split
        · exact .primitive absent
        · exact .unknown

/-- Without named fields, a primitive type name alone decides. -/
private theorem ofType_primitive (absent : Shape.properties? node = none)
    (named : Shape.primitives.lookup name = some kind) :
    Shape.ofType node (some name) = .primitive kind := by
  have array : name ≠ "array" := by
    rintro rfl
    cases named
  have object : name ≠ "object" := by
    rintro rfl
    cases named
  simp [Shape.ofType, Shape.ofName, array, object, absent, named]

/-- A node with a list of types has the union of the types of its copies. -/
private theorem convert_list {listed : List Json} (typed : Typed node)
    (found : node.field? "type" = some (.arr listed))
    (ran : (convert source (budget + 1) node context seen).run before = (.ok type, after)) :
    ∃ types, type = anyOf types ∧
      (Action.each (fun given => convert source budget (node.withField "type" given) context seen)
        listed).run before = (.ok types, after) := by
  have shape : Shape.ofNode node =
      .anyOf (listed.map fun given => node.withField "type" given) := by
    rw [ofNode_typed typed found, Shape.ofTyped, found]
  rw [convert, shape] at ran
  simp only [Action.each_map] at ran
  obtain ⟨types, reached, each, done⟩ := Action.bind_ran ran
  cases done
  exact ⟨types, rfl, each⟩

/-- A node with one type, or with a `type` that names none, has the type of its
shape. -/
private theorem convert_single (typed : Typed node) (found : node.field? "type" = some held)
    (single : ∀ listed, held ≠ .arr listed)
    (ran : (convert source (budget + 1) node context seen).run before = (.ok type, after)) :
    ∃ asked types, type = (Shape.ofType node asked).build types := by
  obtain ⟨asked, shape⟩ : ∃ asked, Shape.ofNode node = Shape.ofType node asked := by
    rw [ofNode_typed typed found, Shape.ofTyped, found]
    cases held with
    | arr listed => exact absurd rfl (single listed)
    | str name => exact ⟨some name, rfl⟩
    | _ => exact ⟨none, rfl⟩
  have inside : ∀ ref, Shape.ofNode node ≠ .reference ref := by
    intro ref leaves
    rw [Dispatch.ofNode_reference, typed "$ref" (by decide)] at leaves
    cases leaves
  rw [convert_structural source budget context seen inside] at ran
  obtain ⟨types, reached, _, done⟩ := Action.bind_ran ran
  rw [shape] at done
  cases done
  exact ⟨asked, types, rfl⟩

/-- With this budget, whatever a node with a type is converted to has no other
alternatives than these. -/
private def Confined (source : Source) (budget : Nat) (context : Context)
    (seen : List Reference.Key) : Prop :=
  ∀ node held before after type, Typed node → node.field? "type" = some held →
    (convert source budget node context seen).run before = (.ok type, after) →
    ∀ part ∈ unionMembers type, Alternative (Shape.properties? node = none) part

private theorem list_alternatives {listed : List Json}
    (confined : Confined source budget context seen) (typed : Typed node)
    (found : node.field? "type" = some held)
    (each : (Action.each (fun given => convert source budget (node.withField "type" given) context
      seen) listed).run before = (.ok types, after)) :
    ∀ part ∈ types.flatMap unionMembers, Alternative (Shape.properties? node = none) part := by
  intro part member
  obtain ⟨type, converted, inside⟩ := List.mem_flatMap.mp member
  obtain ⟨given, _, early, late, child⟩ := each_origin each converted
  rw [← properties_withField found given]
  exact confined _ _ _ _ type (typed_withField typed found given) (type_withField found given) child
    part inside

private theorem typed_confined (source : Source) (budget : Nat) (context : Context)
    (seen : List Reference.Key) : Confined source budget context seen := by
  induction budget with
  | zero =>
    intro node held before after type typed found ran
    cases ran
    exact alternative_alone .unknown
  | succ budget ih =>
    intro node held before after type typed found ran
    -- A member of the list may be a list again, with one level less.
    by_cases several : ∃ listed, held = .arr listed
    · obtain ⟨listed, rfl⟩ := several
      obtain ⟨types, rfl, each⟩ := convert_list typed found ran
      exact anyOf_alternatives (list_alternatives ih typed found each)
    · obtain ⟨asked, types, rfl⟩ :=
        convert_single typed found (fun listed same => several ⟨listed, same⟩) ran
      exact alternative_alone (ofType_alternative asked types)

/-- Without named fields, a member that names a primitive type is converted to it. -/
private theorem convert_primitive (typed : Typed node) (found : node.field? "type" = some held)
    (absent : Shape.properties? node = none)
    (named : Shape.primitives.lookup name = some kind) :
    convert source (budget + 1) (node.withField "type" (.str name)) context seen =
      pure (.primitive kind) := by
  have here := type_withField found (.str name)
  have shape : Shape.ofNode (node.withField "type" (.str name)) = .primitive kind := by
    rw [ofNode_typed (typed_withField typed found _) here, Shape.ofTyped, here]
    exact ofType_primitive (by rwa [properties_withField found]) named
  rw [convert, shape]

/-- A pass gives what an element gives from every state. -/
private theorem each_fixed {σ ε α β : Type} {f : α → Action σ ε β} {items : List α} {item : α}
    {results : List β} {result : β} {s reached : σ} (member : item ∈ items)
    (fixed : f item = pure result) (ran : (Action.each f items).run s = (.ok results, reached)) :
    result ∈ results := by
  induction items generalizing s results with
  | nil => cases member
  | cons first rest ih =>
    obtain ⟨value, values, middle, rfl, head, others⟩ := Action.each_cons_ran ran
    rcases List.mem_cons.mp member with rfl | later
    · rw [fixed] at head
      cases head
      exact List.mem_cons_self
    · exact List.mem_cons_of_mem _ (ih later others)

/-- **A member of a type list keeps its own alternative, unless there are named
fields.** Let a node have a list of types and none of the keywords that are
tried before, and be converted above the depth limit. For every primitive type
name in the list, the type is or offers that primitive type exactly when the
node has no value under `properties`; its items and its other keywords make no
difference. -/
theorem type_list_alternatives {maxDepth depth : Int} {listed : List Json} (typed : Typed node)
    (found : node.field? "type" = some (.arr listed)) (above : depth < maxDepth)
    (ran : (convert source (budgetAt maxDepth depth) node context seen).run before =
      (.ok type, after))
    (member : .str name ∈ listed) (named : Shape.primitives.lookup name = some kind) :
    Offers type (.primitive kind) ↔ Shape.properties? node = none := by
  rw [offers_primitive]
  obtain ⟨budget, levels⟩ : ∃ budget, budgetAt maxDepth depth = budget + 2 :=
    ⟨(maxDepth - depth - 1).toNat, by unfold budgetAt; omega⟩
  rw [levels] at ran
  have confined := typed_confined source
  constructor
  · intro offered
    cases confined _ context seen _ _ _ _ type typed found ran _ offered with
    | primitive absent => exact absent
  · intro absent
    obtain ⟨types, rfl, each⟩ := convert_list typed found ran
    refine anyOf_keeps ?_ (list_alternatives (confined _ context seen) typed found each) ?_
    · intro type converted
      obtain ⟨given, _, early, late, child⟩ := each_origin each converted
      exact convert_normal child
    · exact each_fixed member (convert_primitive typed found absent named) each

/-- An array of numbers or a string. -/
def itemsNode : Json :=
  .obj [("type", .arr [.str "array", .str "string"]), ("items", .obj [("type", .str "number")])]

/-- A string, or an object with a field. -/
def fieldsNode : Json :=
  .obj [("type", .arr [.str "string", .str "object"]),
    ("properties", .obj [("a", .obj [("type", .str "number")])])]

/-- Items leave the string beside them alone. -/
theorem type_list_alternatives_items :
    Typed itemsNode ∧ (convert noFiles (budgetAt 20 0) itemsNode ⟨.null, "d"⟩ []).run {} =
        (.ok (.union [.array (.primitive "number"), .primitive "string"]), {}) ∧
      Offers (.union [.array (.primitive "number"), .primitive "string"])
        (.primitive "string") := by
  have typed : Typed itemsNode := by decide
  have ran : (convert noFiles (budgetAt 20 0) itemsNode ⟨.null, "d"⟩ []).run {} =
      (.ok (.union [.array (.primitive "number"), .primitive "string"]), {}) := by rfl
  refine ⟨typed, ran, ?_⟩
  have offered := type_list_alternatives typed rfl (by decide) ran
    (List.mem_cons_of_mem _ List.mem_cons_self) (show _ = some "string" from rfl)
  exact offered.mpr rfl

/-- A field takes the place of the string beside it. -/
theorem named_fields_take_over :
    Typed fieldsNode ∧ fieldsNode.field? "type" = some (.arr [.str "string", .str "object"]) ∧
      Shape.primitives.lookup "string" = some "string" ∧
      (convert noFiles (budgetAt 20 0) fieldsNode ⟨.null, "d"⟩ []).run {} =
        (.ok (.record [({ name := "a" }, .primitive "number")] none), {}) ∧
      ¬ Offers (.record [({ name := "a" }, .primitive "number")] none) (.primitive "string") := by
  refine ⟨by decide, rfl, rfl, by rfl, ?_⟩
  rintro (same | ⟨members, same, _⟩) <;> cases same

end EntitySchema.TypeLists
