import EntitySchema.Proofs.Combining
import EntitySchema.Proofs.JsonText

/-! Enumerations keep their values. The alternatives of an enumeration are told
apart by their texts, and a literal is written like no other: strings stand in
single quotes, which start no document, and documents are unambiguous. So what
is dropped is a value that stood in the list before, of the same kind and with
its fields in the same order. -/
namespace EntitySchema.Enumerations
open Synthesis TypeExpr Combining UniqueReading JsonText

variable {node value another : Json} {values : List Json}

theorem literalText_document (plain : ∀ text, value ≠ .str text) :
    value.literalText = value.render := by
  cases value with
  | str text => exact absurd rfl (plain text)
  | _ => rfl

/-- A string in single quotes is no document. -/
private theorem quoted_not_document (text : String) (value : Json) :
    quoteString text ≠ value.render := by
  intro same
  have starts := (congrArg String.toList same).symm
  rw [quoted_text, ← List.append_nil value.render.toList] at starts
  exact render_not_starts rfl starts

/-- No two values are written alike as literals. -/
theorem literalText_injective (value another : Json)
    (same : value.literalText = another.literalText) : value = another := by
  by_cases quoted : ∃ text, value = .str text <;> by_cases also : ∃ text, another = .str text
  · obtain ⟨text, rfl⟩ := quoted
    obtain ⟨other, rfl⟩ := also
    have texts : (quoteString text).toList ++ [] = (quoteString other).toList ++ [] :=
      congrArg (String.toList · ++ []) same
    rw [(quoted_unique texts).1]
  · obtain ⟨text, rfl⟩ := quoted
    rw [literalText_document (not_exists.mp also)] at same
    exact absurd same (quoted_not_document text another)
  · obtain ⟨text, rfl⟩ := also
    rw [literalText_document (not_exists.mp quoted)] at same
    exact absurd same.symm (quoted_not_document text value)
  · rw [literalText_document (not_exists.mp quoted),
      literalText_document (not_exists.mp also)] at same
    have ends : Stops NumberText.isNumberChar [] := by
      rintro c ⟨⟩
    exact (json_unique ends ends (congrArg (String.toList · ++ []) same)).1

/-- The type of one of these values: nothing is known where there are none, and
a single value needs no union. -/
def valueType : List Json → TypeExpr
  | [] => .unknown
  | [value] => .literal value
  | values => .union (values.map .literal)

private theorem valueType_members (filled : values ≠ []) :
    unionMembers (valueType values) = values.map .literal := by
  match values with
  | [] => exact absurd rfl filled
  | [_] | _ :: _ :: _ => rfl

/-- The combination of literals drops a value only where it stood before. -/
private theorem anyOf_literals (values : List Json) :
    anyOf (values.map .literal) = valueType (firstsBy id values) := by
  have single : (values.map TypeExpr.literal).flatMap unionMembers = values.map .literal := by
    rw [List.flatMap_map]
    exact List.flatMap_pure_eq_map _ values
  have kept : firstsBy text (values.map TypeExpr.literal) = (firstsBy id values).map .literal := by
    have told : firstsBy (text ∘ TypeExpr.literal) values = firstsBy id values :=
      firstsBy_injective literalText_injective values
    rw [firstsBy_map, told]
  rw [anyOf, single, distinct_firsts, kept]
  cases firstsBy id values with
  | nil => rfl
  | cons first rest => cases rest <;> rfl

/-- The keywords that are tried before an enumeration. -/
def earlier : List String :=
  ["$ref", "oneOf", "anyOf", "allOf"]

private theorem ofNode_values (given : node.field? "enum" = some (.arr values))
    (alone : ∀ keyword ∈ earlier, node.field? keyword = none) :
    Shape.ofNode node = .values values := by
  cases node with
  | obj fields =>
    have listed : fields.lookup "enum" = some (.arr values) := given
    have absent : ∀ keyword ∈ earlier, fields.lookup keyword = none := alone
    simp only [earlier, List.forall_mem_cons] at absent
    obtain ⟨ref, one, any, all, _⟩ := absent
    simp only [Shape.ofNode, ref, one, any, all, listed, Option.or_none, Shape.listed]
  | _ => cases given

/-- **Enumerations lose no value.** A node with a list under `enum`, and with none
of the keywords that are tried before, is converted without loading anything, at
any depth that the limit allows: to nothing known for an empty list, and otherwise
to the value or the union of the values, where of the same value only the first
stays. Every value of the list is an alternative of the result. -/
theorem enumerations_keep_values {maxDepth depth : Int}
    (given : node.field? "enum" = some (.arr values))
    (alone : ∀ keyword ∈ earlier, node.field? keyword = none) (allowed : depth ≤ maxDepth)
    (source : Source) (context : Context) (seen : List Reference.Key) (store : Store) :
    (convert source (budgetAt maxDepth depth) node context seen).run store =
        (.ok (valueType (firstsBy id values)), store) ∧
      ∀ value ∈ values, .literal value ∈ unionMembers (valueType (firstsBy id values)) := by
  constructor
  · obtain ⟨budget, levels⟩ : ∃ budget, budgetAt maxDepth depth = budget + 1 :=
      ⟨(maxDepth - depth).toNat, by unfold budgetAt; omega⟩
    rw [levels, convert, ofNode_values given alone, ← anyOf_literals]
    rfl
  · intro value listed
    have kept : value ∈ firstsBy id values := by
      have found := (firstsBy_keys id values value).mpr (List.mem_map_of_mem listed)
      rwa [List.map_id] at found
    rw [valueType_members (List.ne_nil_of_mem kept)]
    exact List.mem_map_of_mem kept

/-- Four values that are equal by one measure or another. -/
def lookalikes : List Json := [1, 1.0, .bool true, .str "1"]

/-- A number that is one of them, the first of them being named twice. -/
def lookalikeNode : Json :=
  .obj [("type", .str "number"), ("enum", .arr (lookalikes ++ [1]))]

/-- All four are kept, at the depth limit itself. -/
theorem enumerations_keep_values_lookalikes :
    (∀ keyword ∈ earlier, lookalikeNode.field? keyword = none) ∧
      (convert ⟨{}, ⟨0, []⟩⟩ (budgetAt 20 20) lookalikeNode ⟨.null, "d"⟩ []).run {} =
        (.ok (.union (lookalikes.map .literal)), {}) := by
  have alone : ∀ keyword ∈ earlier, lookalikeNode.field? keyword = none := by decide
  have kept : firstsBy id (lookalikes ++ [1]) = lookalikes := by decide
  obtain ⟨ran, _⟩ :=
    enumerations_keep_values rfl alone (Int.le_refl 20) ⟨{}, ⟨0, []⟩⟩ ⟨.null, "d"⟩ [] {}
  rw [kept] at ran
  exact ⟨alone, ran⟩

end EntitySchema.Enumerations
