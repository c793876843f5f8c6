import EntitySchema.Proofs.NormalForm
import EntitySchema.Proofs.QuotedText

/-! The level of a type is its indentation. Wherever a type is printed, its lines
are those of the type on its own, each but the first moved to the right by two
blanks for every level. Literals, defaults and examples have no line feed in
them and descriptions are cut at theirs, so the only line feeds that could come
from a name are those of titles, primitive types and keys without quotes. -/
namespace EntitySchema.Indentation
open TypeExpr NormalForm CanonicalTypes RecordText TypeText OperandText JsonText QuotedText

variable {depth : Nat} {level : Int} {type : TypeExpr} {text : List Char}

/-- The text with the blanks of `depth` levels behind every line feed. -/
def deepen (depth : Nat) (text : List Char) : List Char :=
  text.flatMap fun c => c :: if c = '\n' then List.replicate (2 * depth) ' ' else []

/-- What is asked of a type, apart from the types inside it: the name of a
primitive type has no line feed, nor has a key that is printed without quotes or
the title of a field. -/
def OneLine : TypeExpr → Prop
  | .primitive name => '\n' ∉ name.toList
  | .record fields _ => ∀ entry ∈ fields,
    (fieldKey entry.1.name = entry.1.name → '\n' ∉ entry.1.name.toList) ∧
      ∀ docs ∈ entry.1.docs, ∀ title ∈ docs.title, '\n' ∉ title.toList
  | _ => True

/-- No title, no name of a primitive type and no bare key in the type has a line
feed. -/
def Unbroken (type : TypeExpr) : Prop :=
  ∀ part, Part part type → OneLine part

section Deepening

@[simp] theorem deepen_append (first second : List Char) :
    deepen depth (first ++ second) = deepen depth first ++ deepen depth second :=
  List.flatMap_append

@[simp] theorem deepen_break (text : List Char) :
    deepen depth ('\n' :: text) = '\n' :: (List.replicate (2 * depth) ' ' ++ deepen depth text) := by
  rw [deepen, List.flatMap_cons, if_pos rfl, List.cons_append, ← deepen]

theorem deepen_cons {c : Char} (sameLine : c ≠ '\n') (text : List Char) :
    deepen depth (c :: text) = c :: deepen depth text := by
  rw [deepen, List.flatMap_cons, if_neg sameLine, List.cons_append, List.nil_append, ← deepen]

theorem deepen_line (unbroken : '\n' ∉ text) : deepen depth text = text := by
  induction text with
  | nil => rfl
  | cons c rest ih =>
    obtain ⟨sameLine, later⟩ := List.ne_and_not_mem_of_not_mem_cons unbroken
    rw [deepen_cons (Ne.symm sameLine), ih later]

theorem deepen_intercalate {separator : List Char} (unbroken : '\n' ∉ separator)
    (texts : List (List Char)) :
    deepen depth (separator.intercalate texts) =
      separator.intercalate (texts.map (deepen depth)) := by
  induction texts with
  | nil => rfl
  | cons text more ih =>
    cases more with
    | nil => simp
    | cons next later =>
      rw [List.intercalate_cons_cons, deepen_append, deepen_append, ih, deepen_line unbroken]
      simp only [List.map_cons, List.intercalate_cons_cons]

theorem deepen_flatMap {α : Type} (items : List α) (text : α → List Char) :
    deepen depth (items.flatMap text) = items.flatMap fun item => deepen depth (text item) :=
  List.flatMap_assoc

/-- One level more is two blanks more. -/
theorem indentation_deeper (nonnegative : 0 ≤ level) :
    (indentation (level + depth)).toList =
      List.replicate (2 * depth) ' ' ++ (indentation level).toList := by
  have blanks : 2 * (level + depth).toNat = 2 * depth + 2 * level.toNat := by omega
  simp only [indentation, String.toList_ofList, blanks, List.replicate_append_replicate]

/-- A line with its indentation. -/
theorem deepen_indented (nonnegative : 0 ≤ level) (text : List Char) :
    deepen depth ('\n' :: ((indentation level).toList ++ text)) =
      '\n' :: ((indentation (level + depth)).toList ++ deepen depth text) := by
  have blanks : '\n' ∉ (indentation level).toList := by
    rw [indentation, String.toList_ofList]
    simp
  rw [deepen_break, deepen_append, deepen_line blanks, indentation_deeper nonnegative,
    List.append_assoc]

/-- No two texts look alike once they are indented. -/
theorem deepen_injective : Function.Injective (deepen depth) := by
  intro first second same
  unfold deepen at same
  induction first generalizing second with
  | nil =>
    cases second with
    | nil => rfl
    | cons d further => cases same
  | cons c rest ih =>
    cases second with
    | nil => cases same
    | cons d further =>
      rw [List.flatMap_cons, List.flatMap_cons] at same
      obtain ⟨rfl, tails⟩ := List.cons.inj same
      rw [ih (List.append_cancel_left tails)]

end Deepening

section Comments

variable {docs : Docs} {field : Field}

private theorem splitLines_unbroken {current : List Char} (text : List Char)
    (begun : '\n' ∉ current) : ∀ line ∈ Text.splitLinesFrom current text, '\n' ∉ line := by
  fun_induction Text.splitLinesFrom current text with
  | case1 => simp
  | case2 current filled => simpa using begun
  | case3 current rest ih => exact List.forall_mem_cons.mpr ⟨by simpa using begun, ih (by simp)⟩
  | case4 current c rest _ ends ih =>
    exact List.forall_mem_cons.mpr ⟨by simpa using begun, ih (by simp)⟩
  | case5 current c rest _ goesOn ih =>
    have sameLine : '\n' ≠ c := by
      rintro rfl
      exact goesOn rfl
    exact ih (List.not_mem_cons_of_ne_of_not_mem sameLine begun)

private theorem render_unbroken (value : Json) : '\n' ∉ value.render.toList := by
  intro member
  have printable : 32 ≤ '\n'.toNat := render_printable value _ member
  exact absurd printable (by decide)

/-- Each line of a comment is one line, if the title is. -/
private theorem lines_unbroken (titled : ∀ title ∈ docs.title, '\n' ∉ title.toList) :
    ∀ line ∈ docs.lines, '\n' ∉ line := by
  intro line member
  simp only [Docs.lines, Docs.written, List.mem_append, Option.mem_toList, Option.map_eq_some_iff,
    Option.filter_eq_some_iff] at member
  rcases member with ((⟨title, ⟨⟨given, _⟩, _⟩, rfl⟩ | described) | ⟨value, _, rfl⟩) | ⟨value, _, rfl⟩
  · exact titled title given
  · exact splitLines_unbroken _ (by simp) line described
  · simp [render_unbroken]
  · simp [render_unbroken]

private theorem trimmed_unbroken (unbroken : '\n' ∉ text) :
    '\n' ∉ Text.trimEnd ([' ', '*', ' '] ++ Docs.guardComment text) := by
  intro member
  have inside := (List.dropWhile_sublist _).subset (List.mem_reverse.mp member)
  have guarded := guardComment_unbroken unbroken
  simp_all

/-- A comment moves with its field. -/
private theorem comment_deepened (nonnegative : 0 ≤ level)
    (titled : ∀ docs ∈ field.docs, ∀ title ∈ docs.title, '\n' ∉ title.toList) :
    commentText (indentation (level + depth)) field =
      deepen depth (commentText (indentation level) field) := by
  unfold commentText commentOf
  cases given : field.docs with
  | none => rfl
  | some docs =>
    simp only [Option.map_some, Option.getD_some, comment_empty]
    split
    · rfl
    · rename_i filled
      have lines := lines_unbroken (titled docs given)
      rw [comment_text (mt (comment_empty docs _).mp filled),
        comment_text (mt (comment_empty docs _).mp filled)]
      have each : ∀ line ∈ docs.lines,
          '\n' :: (Docs.commentLine (indentation (level + depth)) line).toList =
            deepen depth ('\n' :: (Docs.commentLine (indentation level) line).toList) := by
        intro line member
        rw [commentLine_text, commentLine_text, deepen_indented nonnegative,
          deepen_line (trimmed_unbroken (lines line member))]
      have ending : deepen depth [' ', '*', '/'] = [' ', '*', '/'] := deepen_line (by simp)
      have opening : deepen depth ['/', '*', '*'] = ['/', '*', '*'] := deepen_line (by simp)
      simp only [List.append_assoc]
      rw [deepen_indented nonnegative, deepen_append, deepen_append, deepen_flatMap,
        deepen_indented nonnegative, List.flatMap_congr each, opening, ending]

end Comments

section Types

private theorem quoted_unbroken (value : String) : '\n' ∉ (quoteString value).toList := by
  have inside := enclosable_one_line (escaped_enclosable value.toList)
  rw [UniqueReading.quoted_text]
  intro member
  simp only [List.mem_cons, List.mem_append, List.not_mem_nil, or_false] at member
  rcases member with quote | inner | quote
  · cases quote
  · exact (inside _ inner).1 rfl
  · cases quote

private theorem literal_unbroken (value : Json) : '\n' ∉ value.literalText.toList := by
  unfold Json.literalText
  split
  · exact quoted_unbroken _
  · exact render_unbroken value

private theorem key_unbroken {name : String} (bare : fieldKey name = name → '\n' ∉ name.toList) :
    '\n' ∉ (fieldKey name).toList := by
  by_cases same : fieldKey name = name
  · rw [same]
    exact bare same
  · unfold fieldKey at same ⊢
    split at same
    · exact absurd rfl same
    · rename_i quoted
      rw [if_neg quoted]
      exact quoted_unbroken name

/-- The lines of a field move with its record. -/
private theorem entry_deepened {field : Field} {shown moved : String} (nonnegative : 0 ≤ level)
    (bare : fieldKey field.name = field.name → '\n' ∉ field.name.toList)
    (titled : ∀ docs ∈ field.docs, ∀ title ∈ docs.title, '\n' ∉ title.toList)
    (inner : moved.toList = deepen depth shown.toList) :
    entryText (indentation (level + depth)) field moved =
      deepen depth (entryText (indentation level) field shown) := by
  have key : deepen depth (fieldKey field.name).toList = (fieldKey field.name).toList :=
    deepen_line (key_unbroken bare)
  have ending : deepen depth [';'] = [';'] := deepen_line (by simp)
  have mark : deepen depth (if field.optional then ['?'] else []) =
      if field.optional then ['?'] else [] := deepen_line (by split <;> simp)
  rw [entry_text, entry_text, ← commentText, ← commentText, comment_deepened nonnegative titled,
    deepen_append, deepen_indented nonnegative]
  simp only [lineText, deepen_append, key, mark, inner]
  rw [deepen_cons (by decide), deepen_cons (by decide), deepen_append, ending]

private theorem enclose_deepened {shown moved : String} (needed : Bool)
    (inner : moved.toList = deepen depth shown.toList) :
    (enclose needed moved).toList = deepen depth (enclose needed shown).toList := by
  cases needed with
  | false => exact inner
  | true =>
    have opening : deepen depth "(".toList = "(".toList := deepen_line (by simp)
    have closing : deepen depth ")".toList = ")".toList := deepen_line (by simp)
    simp only [enclose, ↓reduceIte, String.toList_append, deepen_append, opening, closing, inner]

private theorem operands_deepened {members : List TypeExpr}
    (inner : ∀ member ∈ members, (member.render (level + depth)).toList =
      deepen depth (member.render level).toList) :
    (renderOperands (level + depth) members).map String.toList =
      ((renderOperands level members).map String.toList).map (deepen depth) := by
  induction members with
  | nil => rfl
  | cons member rest ih =>
    obtain ⟨first, others⟩ := List.forall_mem_cons.mp inner
    simp only [renderOperands, List.map_cons, ih others, enclose_deepened _ first]

private theorem separated_deepened {types : List TypeExpr} {separator : List Char}
    (unbroken : '\n' ∉ separator)
    (inner : ∀ type ∈ types, (type.render (level + depth)).toList =
      deepen depth (type.render level).toList) :
    separator.intercalate (types.map fun type => (type.render (level + depth)).toList) =
      deepen depth (separator.intercalate (types.map fun type => (type.render level).toList)) := by
  rw [deepen_intercalate unbroken, List.map_map]
  congr 1
  exact List.map_congr_left inner

private theorem record_deepened {fields : List (Field × TypeExpr)} {index : Option TypeExpr}
    (nonnegative : 0 ≤ level) (own : OneLine (.record fields index))
    (inner : ∀ entry ∈ fields, (entry.2.render (level + 1 + depth)).toList =
      deepen depth (entry.2.render (level + 1)).toList)
    (others : ∀ type ∈ index, (type.render (level + 1 + depth)).toList =
      deepen depth (type.render (level + 1)).toList) :
    ((TypeExpr.record fields index).render (level + depth)).toList =
      deepen depth ((TypeExpr.record fields index).render level).toList := by
  have next : level + depth + 1 = level + 1 + depth := by omega
  have lines : fieldsText (level + depth + 1) fields =
      deepen depth (fieldsText (level + 1) fields) := by
    rw [fieldsText, fieldsText, deepen_flatMap, next]
    apply List.flatMap_congr
    intro entry member
    exact entry_deepened (by omega) (own entry member).1 (own entry member).2 (inner entry member)
  have close : closeText (level + depth) index = deepen depth (closeText level index) := by
    have brace : deepen depth ['\x7d'] = ['\x7d'] := deepen_line (by simp)
    unfold closeText
    rw [deepen_append, deepen_indented nonnegative, brace]
    cases index with
    | none => rfl
    | some type =>
      have key : deepen depth "[key: string]: ".toList = "[key: string]: ".toList :=
        deepen_line (by simp)
      have ending : deepen depth [';'] = [';'] := deepen_line (by simp)
      simp only [Option.elim_some]
      rw [deepen_indented (by omega), deepen_append, deepen_append, key, ending, next,
        others type rfl]
  cases empty : fields.isEmpty && index.isNone with
  | true =>
    simp only [render, empty, ↓reduceIte]
    exact (deepen_line (by simp)).symm
  | false =>
    rw [record_text empty, record_text empty, lines, close, deepen_cons (by decide), deepen_append]

/-- The text of a type at a deeper level: by induction over the types inside it,
since a record raises the level and everything else hands it on. -/
theorem render_deepened (nonnegative : 0 ≤ level) (unbroken : Unbroken type) :
    (type.render (level + depth)).toList = deepen depth (type.render level).toList := by
  induction type using type_induction generalizing level with
  | unknown => exact (deepen_line (by simp [render])).symm
  | unspecified => exact (deepen_line (by simp [render])).symm
  | primitive name => exact (deepen_line (unbroken _ .self)).symm
  | literal value => exact (deepen_line (literal_unbroken value)).symm
  | array element ih =>
    have inner := ih nonnegative fun part inside => unbroken part (.element inside)
    have brackets : deepen depth "[]".toList = "[]".toList := deepen_line (by simp)
    simp only [render, String.toList_append, deepen_append, brackets, enclose_deepened _ inner]
  | map value ih =>
    have inner := ih nonnegative fun part inside => unbroken part (.value inside)
    have opening : deepen depth "Record<string, ".toList = "Record<string, ".toList :=
      deepen_line (by simp)
    have closing : deepen depth ['>'] = ['>'] := deepen_line (by simp)
    rw [map_text, map_text, inner, deepen_append, deepen_append, opening, closing]
  | tuple elements ih =>
    have inner := fun element member =>
      ih element member nonnegative fun part inside => unbroken part (.item member inside)
    have closing : deepen depth [']'] = [']'] := deepen_line (by simp)
    rw [tuple_text, tuple_text, separated_deepened (by simp) inner, deepen_cons (by decide),
      deepen_append, closing]
  | union members ih =>
    have inner := fun alternative member =>
      ih alternative member nonnegative fun part inside => unbroken part (.alternative member inside)
    rw [alternatives_text, alternatives_text (.union members)]
    exact separated_deepened (by simp) inner
  | intersection members ih =>
    have inner := fun operand member =>
      ih operand member nonnegative fun part inside => unbroken part (.operand member inside)
    simp only [render, String.toList_intercalate]
    rw [deepen_intercalate (by simp), operands_deepened inner]
  | record fields index ih others =>
    apply record_deepened nonnegative (unbroken _ .self)
    · intro entry member
      exact ih entry member (by omega) fun part inside => unbroken part (.field member inside)
    · intro type member
      exact others type member (by omega) fun part inside => unbroken part (.index member inside)

end Types

/-- **Rendering at a level is indentation.** If no title, no name of a primitive
type and no bare key in a type has a line feed, its text at any level is its text
on its own with two blanks for each level put behind every line feed. So two such
types have one text at a level exactly when they have one text on their own, which
is what decides whether they count as the same alternative. -/
theorem levels_indent (type : TypeExpr) (unbroken : Unbroken type) :
    (∀ level : Nat, type.render level = String.ofList (deepen level type.text.toList)) ∧
      ∀ other, Unbroken other → ∀ level : Nat,
        (type.text = other.text ↔ type.render level = other.render level) := by
  have shown : ∀ type, Unbroken type → ∀ level : Nat,
      type.render level = String.ofList (deepen level type.text.toList) := by
    intro type unbroken level
    have moved : (type.render (0 + level)).toList = deepen level type.text.toList :=
      render_deepened (Int.le_refl 0) unbroken
    rw [← moved, Int.zero_add, String.ofList_toList]
  refine ⟨shown type unbroken, ?_⟩
  intro other otherUnbroken level
  rw [shown type unbroken, shown other otherUnbroken, String.ofList_inj, deepen_injective.eq_iff,
    String.toList_inj]

/-- A record in a list in a record, with a key that has to be quoted and a
description with an empty line. -/
def layeredType : TypeExpr :=
  .record [({ name := "it's\n", docs := some { title := some "A", description := some "b\n\nc" } },
    .array (.record [({ name := "x" }, .primitive "string")] none))] none

private theorem layered_unbroken : Unbroken layeredType := by
  have quoted : fieldKey "it's\n" ≠ "it's\n" := by decide
  intro part inside
  cases inside with
  | self =>
    intro entry member
    cases List.mem_singleton.mp member
    refine ⟨fun bare => absurd bare quoted, ?_⟩
    rintro docs ⟨⟩ title ⟨⟩
    simp
  | field member deeper =>
    cases List.mem_singleton.mp member
    cases deeper with
    | self => trivial
    | element deeper =>
      cases deeper with
      | self =>
        intro entry member
        cases List.mem_singleton.mp member
        exact ⟨by simp, by simp⟩
      | field member deeper =>
        cases List.mem_singleton.mp member
        cases deeper with
        | self => simp [OneLine]
      | index member _ => cases member
  | index member _ => cases member

/-- Two levels move every line but the first by four blanks. -/
theorem levels_indent_layered :
    Unbroken layeredType ∧
      layeredType.render 2 = String.ofList (deepen 2 layeredType.text.toList) ∧
      layeredType.render 1 =
        "\x7b\n    /**\n     * A\n     * b\n     *\n     * c\n     */\n    'it\\'s\\n'?: \x7b\n" ++
          "      x?: string;\n    \x7d[];\n  \x7d" := by
  refine ⟨layered_unbroken, (levels_indent layeredType layered_unbroken).1 2, ?_⟩
  decide

end EntitySchema.Indentation
