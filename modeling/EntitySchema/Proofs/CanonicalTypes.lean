import EntitySchema.TypeExpr.Basic

/-! One form for each text. Documentation is not part of what a type means, and
a few literals are written like another type; the canonical form of a type is
without the one and takes the others for that type. It is built by recursion on
the type, as everything is that goes through the types inside a type. -/
namespace EntitySchema.CanonicalTypes

/-- A literal as the type that is written like it: the value `null`, an empty
object or list, and a list of one value that is no string. -/
def literalType : Json → TypeExpr
  | .null => .primitive "null"
  | .arr [] => .tuple []
  | .arr [.str value] => .literal (.arr [.str value])
  | .arr [item] => .tuple [literalType item]
  | .obj [] => .record [] none
  | value => .literal value

mutual

/-- The type without documentation, and with one form for each text. -/
def canonical : TypeExpr → TypeExpr
  | .literal value => literalType value
  | .array element => .array (canonical element)
  | .map value => .map (canonical value)
  | .tuple elements => .tuple (canonicalAll elements)
  | .union members => .union (canonicalAll members)
  | .intersection members => .intersection (canonicalAll members)
  | .record fields index => .record (canonicalFields fields) (canonicalIndex index)
  | .unknown => .unknown
  | .unspecified => .unspecified
  | .primitive name => .primitive name

/-- Each of the types without documentation. -/
def canonicalAll : List TypeExpr → List TypeExpr
  | [] => []
  | type :: rest => canonical type :: canonicalAll rest

/-- The fields without documentation. -/
def canonicalFields : List (Field × TypeExpr) → List (Field × TypeExpr)
  | [] => []
  | (field, type) :: rest => ({ field with docs := none }, canonical type) :: canonicalFields rest

/-- The type of other fields without documentation. -/
def canonicalIndex : Option TypeExpr → Option TypeExpr
  | none => none
  | some type => some (canonical type)

end

theorem canonicalAll_map (types : List TypeExpr) :
    canonicalAll types = types.map canonical := by
  induction types with
  | nil => rfl
  | cons type rest ih => rw [canonicalAll, ih, List.map_cons]

theorem canonicalFields_map (fields : List (Field × TypeExpr)) :
    canonicalFields fields =
      fields.map fun entry => ({ entry.1 with docs := none }, canonical entry.2) := by
  induction fields with
  | nil => rfl
  | cons entry rest ih => rw [canonicalFields, ih, List.map_cons]

theorem literalType_single {item : Json} (plain : ∀ value, item ≠ .str value) :
    literalType (.arr [item]) = .tuple [literalType item] := by
  cases item with
  | str value => exact absurd rfl (plain value)
  | _ => rfl

variable {type : TypeExpr}

theorem value_smaller (type : TypeExpr) : sizeOf type < sizeOf (TypeExpr.map type) := by
  simp only [TypeExpr.map.sizeOf_spec]
  omega

theorem element_smaller {elements : List TypeExpr} (member : type ∈ elements) :
    sizeOf type < sizeOf (TypeExpr.tuple elements) := by
  have smaller := List.sizeOf_lt_of_mem member
  simp only [TypeExpr.tuple.sizeOf_spec]
  omega

theorem alternative_smaller {members : List TypeExpr} (member : type ∈ members) :
    sizeOf type < sizeOf (TypeExpr.union members) := by
  have smaller := List.sizeOf_lt_of_mem member
  simp only [TypeExpr.union.sizeOf_spec]
  omega

theorem operand_smaller {members : List TypeExpr} (member : type ∈ members) :
    sizeOf type < sizeOf (TypeExpr.intersection members) := by
  have smaller := List.sizeOf_lt_of_mem member
  simp only [TypeExpr.intersection.sizeOf_spec]
  omega

theorem item_smaller {item : Json} {items : List Json} (member : item ∈ items) :
    sizeOf (TypeExpr.literal item) < sizeOf (TypeExpr.literal (.arr items)) := by
  have smaller := List.sizeOf_lt_of_mem member
  simp only [TypeExpr.literal.sizeOf_spec, Json.arr.sizeOf_spec]
  omega

theorem field_smaller {fields : List (Field × TypeExpr)} {index : Option TypeExpr}
    {entry : Field × TypeExpr} (member : entry ∈ fields) :
    sizeOf entry.2 < sizeOf (TypeExpr.record fields index) := by
  have smaller := List.sizeOf_lt_of_mem member
  obtain ⟨field, type⟩ := entry
  simp only [Prod.mk.sizeOf_spec, TypeExpr.record.sizeOf_spec] at smaller ⊢
  omega

theorem index_smaller {fields : List (Field × TypeExpr)} {index : Option TypeExpr}
    (member : type ∈ index) : sizeOf type < sizeOf (TypeExpr.record fields index) := by
  cases member
  simp only [TypeExpr.record.sizeOf_spec, Option.some.sizeOf_spec]
  omega

/-- Types are built from the types inside them. -/
theorem type_induction {motive : TypeExpr → Prop} (unknown : motive .unknown)
    (unspecified : motive .unspecified) (primitive : ∀ name, motive (.primitive name))
    (literal : ∀ fixed, motive (.literal fixed))
    (array : ∀ element, motive element → motive (.array element))
    (map : ∀ type, motive type → motive (.map type))
    (tuple : ∀ elements, (∀ element ∈ elements, motive element) → motive (.tuple elements))
    (union : ∀ members, (∀ member ∈ members, motive member) → motive (.union members))
    (intersection : ∀ members, (∀ member ∈ members, motive member) →
      motive (.intersection members))
    (record : ∀ fields index, (∀ entry ∈ fields, motive entry.2) →
      (∀ type ∈ index, motive type) → motive (.record fields index)) (type : TypeExpr) :
    motive type := by
  induction size : sizeOf type using Nat.strongRecOn generalizing type with
  | _ bound ih =>
    subst size
    cases type with
    | unknown => exact unknown
    | unspecified => exact unspecified
    | primitive name => exact primitive name
    | literal fixed => exact literal fixed
    | array element => exact array element (ih _ (by simp) element rfl)
    | map type => exact map type (ih _ (value_smaller type) type rfl)
    | tuple elements =>
      exact tuple elements fun element member => ih _ (element_smaller member) element rfl
    | union members =>
      exact union members fun member inside => ih _ (alternative_smaller inside) member rfl
    | intersection members =>
      exact intersection members fun member inside => ih _ (operand_smaller inside) member rfl
    | record fields index =>
      exact record fields index (fun entry member => ih _ (field_smaller member) entry.2 rfl)
        fun type member => ih _ (index_smaller member) type rfl

end EntitySchema.CanonicalTypes
