import EntitySchema.Proofs.OperandText
import EntitySchema.Synthesis
import Mathlib

/-! Documentation that says nothing is printed as nothing, and only that is. A
text with any character has a line, be it a line break alone, and a title that
repeats the description leaves the description; so there is a comment unless there
is no text and no value at all. A record therefore reads the same whether such
documentation is kept with a field or left out, at whatever place in a type. -/
namespace EntitySchema.EmptyDocs
open TypeExpr OperandText

variable {docs : Docs} {field : Field} {type silent : TypeExpr} {level : Int}

/-- The second type is the first with empty documentation taken away from some of
the fields in it. -/
inductive Silenced : TypeExpr → TypeExpr → Prop where
  | same (type : TypeExpr) : Silenced type type
  | again {first second third : TypeExpr} (one : Silenced first second)
    (other : Silenced second third) : Silenced first third
  | element {type silent : TypeExpr} (inside : Silenced type silent) :
    Silenced (.array type) (.array silent)
  | value {type silent : TypeExpr} (inside : Silenced type silent) :
    Silenced (.map type) (.map silent)
  | item {type silent : TypeExpr} (inside : Silenced type silent) (before after : List TypeExpr) :
    Silenced (.tuple (before ++ type :: after)) (.tuple (before ++ silent :: after))
  | alternative {type silent : TypeExpr} (inside : Silenced type silent)
    (before after : List TypeExpr) :
    Silenced (.union (before ++ type :: after)) (.union (before ++ silent :: after))
  | operand {type silent : TypeExpr} (inside : Silenced type silent)
    (before after : List TypeExpr) :
    Silenced (.intersection (before ++ type :: after)) (.intersection (before ++ silent :: after))
  | field {type silent : TypeExpr} (inside : Silenced type silent) (field : Field)
    (before after : List (Field × TypeExpr)) (index : Option TypeExpr) :
    Silenced (.record (before ++ (field, type) :: after) index)
      (.record (before ++ (field, silent) :: after) index)
  | index {type silent : TypeExpr} (inside : Silenced type silent)
    (fields : List (Field × TypeExpr)) :
    Silenced (.record fields (some type)) (.record fields (some silent))
  | docs {docs : Docs} (empty : docs.isEmpty = true) (field : Field) (type : TypeExpr)
    (before after : List (Field × TypeExpr)) (index : Option TypeExpr) :
    Silenced (.record (before ++ ({ field with docs := some docs }, type) :: after) index)
      (.record (before ++ ({ field with docs := none }, type) :: after) index)

/-- The field of a record for one property, with its documentation even if that
is empty. -/
def documented (required : List String) (name : String) (node : Json) : Field :=
  { name := name, optional := !required.contains name, docs := some (Docs.ofNode node) }

section Comments

/-- A title that says something is dropped only if the description says it too. -/
private theorem title_kept (undescribed : Docs.written docs.description = none) :
    (Docs.written docs.title).filter (some · ≠ docs.description) = Docs.written docs.title := by
  cases titled : Docs.written docs.title with
  | none => rfl
  | some title =>
    have differs : some title ≠ docs.description := by
      intro repeated
      rw [← repeated, Docs.written, Option.filter_eq_none_iff] at undescribed
      exact undescribed title rfl (Option.filter_eq_some_iff.mp titled).2
    simp [Option.filter, differs]

/-- Each part of the documentation that is there gives a line or more. -/
private theorem lines_empty (docs : Docs) : docs.lines = [] ↔ docs.isEmpty = true := by
  cases described : Docs.written docs.description with
  | none =>
    simp only [Docs.lines, Docs.isEmpty, described, title_kept described, Option.getD_none]
    cases Docs.written docs.title <;> cases docs.defaultValue <;> cases docs.exampleValue <;>
      simp [Text.splitLines, Text.splitLinesFrom]
  | some description =>
    have written : description ≠ "" := by
      simpa using (Option.filter_eq_some_iff.mp described).2
    have describedLines := Text.splitLines_filled (mt String.toList_eq_nil_iff.mp written)
    refine iff_of_false ?_ (by simp [Docs.isEmpty, described])
    simp [Docs.lines, described, describedLines]

/-- A comment has its opening and its end unless it has no lines. -/
private theorem comment_silent (docs : Docs) (indent : String) :
    docs.comment indent = "" ↔ docs.isEmpty = true :=
  (RecordText.comment_empty docs indent).trans (lines_empty docs)

end Comments

section Types

private theorem fieldLines_silent (empty : docs.isEmpty = true) (indent : String) (field : Field)
    (type : String) : fieldLines indent { field with docs := some docs } type =
      fieldLines indent { field with docs := none } type := by
  have nothing : docs.comment indent = "" := (comment_silent docs indent).mpr empty
  simp only [fieldLines, Option.map_some, Option.map_none, Option.getD_some, Option.getD_none,
    nothing]

/-- Empty documentation is not seen on a field that conversion makes. -/
private theorem fieldLines_documented (indent : String) (required : List String) (name : String)
    (node : Json) (type : String) :
    fieldLines indent (Synthesis.fieldOf required name node) type =
      fieldLines indent (documented required name node) type := by
  cases empty : (Docs.ofNode node).isEmpty with
  | false => simp only [Synthesis.fieldOf, documented, empty, Bool.false_eq_true, ↓reduceIte]
  | true =>
    simp only [Synthesis.fieldOf, empty, ↓reduceIte]
    exact (fieldLines_silent empty indent (documented required name node) type).symm

private theorem renderFields_flatMap (fields : List (Field × TypeExpr)) :
    renderFields level fields = fields.flatMap fun entry =>
      fieldLines (indentation level) entry.1 (entry.2.render level) := by
  induction fields with
  | nil => rfl
  | cons entry rest ih => rw [renderFields, ih, List.flatMap_cons]

private theorem renderOperands_map (types : List TypeExpr) :
    renderOperands level types =
      types.map fun type => enclose type.isUnion (type.render level) := by
  induction types with
  | nil => rfl
  | cons type rest ih => rw [renderOperands, ih, List.map_cons]

/-- Records are told apart by the lines of their fields and of their index only. -/
private theorem record_congr {fields others : List (Field × TypeExpr)}
    {index otherIndex : Option TypeExpr} (both : fields.isEmpty = others.isEmpty)
    (indexed : index.isNone = otherIndex.isNone)
    (lines : renderFields (level + 1) fields = renderFields (level + 1) others)
    (last : renderIndex (level + 1) index = renderIndex (level + 1) otherIndex) :
    (TypeExpr.record fields index).render level =
      (TypeExpr.record others otherIndex).render level := by
  rw [render, render, both, indexed, lines, last]

/-- Another field in the place of one that has the same lines. -/
private theorem record_replaced {entry other : Field × TypeExpr}
    (lines : fieldLines (indentation (level + 1)) entry.1 (entry.2.render (level + 1)) =
      fieldLines (indentation (level + 1)) other.1 (other.2.render (level + 1)))
    (before after : List (Field × TypeExpr)) (index : Option TypeExpr) :
    (TypeExpr.record (before ++ entry :: after) index).render level =
      (TypeExpr.record (before ++ other :: after) index).render level := by
  refine record_congr ?_ rfl ?_ rfl
  · cases before <;> rfl
  · simp only [renderFields_flatMap, List.flatMap_append, List.flatMap_cons, lines]

/-- Taking empty documentation away changes no text at any level, nor where
parentheses are needed. -/
private theorem silenced_text (silenced : Silenced type silent) :
    (∀ level, type.render level = silent.render level) ∧
      type.isUnion = silent.isUnion ∧ type.isIntersection = silent.isIntersection := by
  induction silenced with
  | same type => exact ⟨fun _ => rfl, rfl, rfl⟩
  | again one other ih further =>
    exact ⟨fun level => (ih.1 level).trans (further.1 level), ih.2.1.trans further.2.1,
      ih.2.2.trans further.2.2⟩
  | element inside ih =>
    obtain ⟨texts, union, intersection⟩ := ih
    exact ⟨fun level => by rw [render, render, texts, union, intersection], rfl, rfl⟩
  | value inside ih => exact ⟨fun level => by rw [render, render, ih.1], rfl, rfl⟩
  | item inside before after ih =>
    refine ⟨fun level => ?_, rfl, rfl⟩
    simp only [render, renderAll_map, List.map_append, List.map_cons, ih.1]
  | alternative inside before after ih =>
    refine ⟨fun level => ?_, rfl, rfl⟩
    simp only [render, renderAll_map, List.map_append, List.map_cons, ih.1]
  | operand inside before after ih =>
    refine ⟨fun level => ?_, rfl, rfl⟩
    simp only [render, renderOperands_map, List.map_append, List.map_cons, ih.1, ih.2.1]
  | field inside field before after index ih =>
    exact ⟨fun level => record_replaced (by rw [ih.1]) before after index, rfl, rfl⟩
  | index inside fields ih =>
    refine ⟨fun level => record_congr rfl rfl rfl ?_, rfl, rfl⟩
    rw [renderIndex, renderIndex, ih.1]
  | docs empty field type before after index =>
    refine ⟨fun level => record_replaced ?_ before after index, rfl, rfl⟩
    exact fieldLines_silent empty _ field _

end Types

/-- **Empty documentation is not seen.** Documentation is printed as nothing
exactly when it is empty. So no type has another text, at any level, when empty
documentation is taken away from fields in it; and a record of the fields that
conversion makes reads like the one with all their documentation. -/
theorem empty_docs_unseen :
    (∀ (docs : Docs) (indent : String), docs.comment indent = "" ↔ docs.isEmpty = true) ∧
      (∀ type silent, Silenced type silent → ∀ level, type.render level = silent.render level) ∧
      ∀ (required : List String) (properties : List (String × Json × TypeExpr))
        (index : Option TypeExpr) (level : Int),
        (TypeExpr.record (properties.map fun (name, node, type) =>
          (Synthesis.fieldOf required name node, type)) index).render level =
        (TypeExpr.record (properties.map fun (name, node, type) =>
          (documented required name node, type)) index).render level := by
  refine ⟨comment_silent, fun type silent silenced => (silenced_text silenced).1, ?_⟩
  intro required properties index level
  refine record_congr ?_ rfl ?_ rfl
  · simp
  · simp only [renderFields_flatMap, List.flatMap_map, fieldLines_documented]

/-- A title without a character is taken away from a field of a record in a list.
A description of one line break is not empty, nor is one that the title repeats. -/
theorem empty_docs_unseen_blank :
    (TypeExpr.array (.record [({ name := "a", docs := some { title := some "" } }, .unknown)]
        none)).render 1 =
      (TypeExpr.array (.record [({ name := "a" }, .unknown)] none)).render 1 ∧
      ({ title := some "\n", description := some "\n" } : Docs).comment "" ≠ "" := by
  obtain ⟨printed, texts, _⟩ := empty_docs_unseen
  constructor
  · apply texts
    apply Silenced.element
    exact @Silenced.docs { title := some "" } (by decide) { name := "a" } .unknown [] [] none
  · rw [Ne, printed]
    decide

end EntitySchema.EmptyDocs
