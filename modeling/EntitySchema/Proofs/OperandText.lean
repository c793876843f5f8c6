import EntitySchema.Proofs.CanonicalTypes
import EntitySchema.Proofs.JsonText
import EntitySchema.Proofs.NormalTypes
import EntitySchema.Proofs.RecordText

/-! The text of a type in parts. Operators bind in three steps: a union is made
of intersections, an intersection of operands, and an operand is a core followed
by any number of `[]`; whatever does not fit its place stands in parentheses.
Each core shows its kind by its first character. -/
namespace EntitySchema.OperandText
open TypeExpr CanonicalTypes NormalTypes UniqueReading RecordText JsonText NumberText

variable {level : Int} {type another : TypeExpr} {rest other : List Char}

/-- The text of a type as an operand of `[]` or of an intersection. -/
def operandText (level : Int) (type : TypeExpr) : List Char :=
  (enclose (type.isUnion || type.isIntersection) (type.render level)).toList

/-- A type that needs parentheses as an operand. -/
def isCompound (type : TypeExpr) : Bool :=
  type.isUnion || type.isIntersection

theorem operand_compound (compound : isCompound type = true) :
    operandText level type = '(' :: ((type.render level).toList ++ [')']) := by
  unfold isCompound at compound
  simp [operandText, enclose, compound]

theorem operand_simple (simple : isCompound type = false) :
    operandText level type = (type.render level).toList := by
  unfold isCompound at simple
  simp [operandText, enclose, simple]

theorem renderAll_map (types : List TypeExpr) :
    renderAll level types = types.map (render level) := by
  induction types with
  | nil => rfl
  | cons type rest ih => rw [renderAll, ih, List.map_cons]

theorem tuple_text (elements : List TypeExpr) :
    ((TypeExpr.tuple elements).render level).toList =
      '[' :: ([',', ' '].intercalate (elements.map fun element => (element.render level).toList) ++
        [']']) := by
  simp only [render, renderAll_map, String.toList_append, String.toList_intercalate, List.map_map]
  rfl

theorem map_text (value : TypeExpr) : ((TypeExpr.map value).render level).toList =
    "Record<string, ".toList ++ ((value.render level).toList ++ ['>']) := by
  simp only [render, String.toList_append, List.append_assoc]
  rfl

/-- The text of any type, by the alternatives it has. -/
theorem alternatives_text (type : TypeExpr) : (type.render level).toList =
    [' ', '|', ' '].intercalate
      ((unionMembers type).map fun member => (member.render level).toList) := by
  cases type with
  | union members =>
    simp only [render, renderAll_map, String.toList_intercalate, unionMembers, List.map_map]
    rfl
  | _ => simp [unionMembers]

/-- The text of an alternative, by the operands it has. -/
private theorem operands_text (single : type.isUnion = false)
    (flat : ∀ operand ∈ intersectionMembers type, operand.isIntersection = false) :
    (type.render level).toList =
      [' ', '&', ' '].intercalate ((intersectionMembers type).map (operandText level)) := by
  cases type with
  | intersection members =>
    have texts : ∀ members : List TypeExpr,
        (∀ operand ∈ members, operand.isIntersection = false) →
        (renderOperands level members).map String.toList = members.map (operandText level) := by
      intro members flat
      induction members with
      | nil => rfl
      | cons member rest ih =>
        rw [renderOperands, List.map_cons, List.map_cons,
          ih fun operand later => flat operand (List.mem_cons_of_mem _ later), operandText,
          flat member List.mem_cons_self, Bool.or_false]
    simp only [render, String.toList_intercalate, intersectionMembers, texts members flat]
    rfl
  | union members => cases single
  | _ => simp [intersectionMembers, operandText, enclose, isUnion, isIntersection]

/-- What a type is an array of, through all levels. -/
def stem : TypeExpr → TypeExpr
  | .array element => stem element
  | type => type

/-- How many levels of arrays there are. -/
def depth : TypeExpr → Nat
  | .array element => depth element + 1
  | _ => 0

/-- As many levels of arrays around a type. -/
def arrays : Nat → TypeExpr → TypeExpr
  | 0, type => type
  | n + 1, type => .array (arrays n type)

def brackets : Nat → List Char
  | 0 => []
  | n + 1 => '[' :: ']' :: brackets n

private theorem brackets_after (n : Nat) : brackets n ++ ['[', ']'] = brackets (n + 1) := by
  induction n with
  | zero => rfl
  | succ n ih => rw [brackets, List.cons_append, List.cons_append, ih, ← brackets]

private theorem depth_core (core : ∀ element, type ≠ .array element) : depth type = 0 := by
  unfold depth
  split
  · exact absurd rfl (core _)
  · rfl

theorem operand_stem (type : TypeExpr) :
    operandText level type = operandText level (stem type) ++ brackets (depth type) := by
  fun_induction stem type with
  | case1 element ih =>
    have text : operandText level (.array element) = operandText level element ++ ['[', ']'] := by
      rw [operand_simple rfl, render, String.toList_append]
      rfl
    rw [text, ih, List.append_assoc, brackets_after, depth]
  | case2 type notArray => rw [depth_core notArray, brackets, List.append_nil]

theorem canonical_stem (type : TypeExpr) :
    canonical type = arrays (depth type) (canonical (stem type)) := by
  fun_induction stem type with
  | case1 element ih => rw [canonical, depth, arrays, ih]
  | case2 type notArray => rw [depth_core notArray, arrays]

theorem stem_normal (normal : Normal type) : Normal (stem type) := by
  fun_induction stem type with
  | case1 element ih =>
    cases normal with
    | array inner => exact ih inner
  | case2 type notArray => exact normal

theorem stem_simple (type element : TypeExpr) : stem type ≠ .array element := by
  fun_induction stem type with
  | case1 inner ih => exact ih
  | case2 type notArray => exact notArray element

theorem brackets_unique {n m : Nat} (stops : rest.head? ≠ some '[')
    (otherStops : other.head? ≠ some '[') (same : brackets n ++ rest = brackets m ++ other) :
    n = m ∧ rest = other := by
  induction n generalizing m with
  | zero =>
    cases m with
    | zero => exact ⟨rfl, same⟩
    | succ m => exact absurd (by rw [show rest = _ from same]; rfl) stops
  | succ n ih =>
    cases m with
    | zero => exact absurd (by rw [show other = _ from same.symm]; rfl) otherStops
    | succ m =>
      obtain ⟨rfl, rests⟩ := ih (List.cons.inj (List.cons.inj same).2).2
      exact ⟨rfl, rests⟩

/-- The kinds of cores that can be told by their first character. Arrays are no
cores, and there are characters that no type starts with. -/
inductive Kind where
  | word | number | text | list | braces | map | compound | array | nothing
  deriving DecidableEq

def kind : TypeExpr → Kind
  | .unknown | .unspecified | .primitive _ | .literal .null | .literal (.bool _) => .word
  | .literal (.num _) => .number
  | .literal (.str _) => .text
  | .literal (.arr _) | .tuple _ => .list
  | .literal (.obj _) | .record _ _ => .braces
  | .map _ => .map
  | .union _ | .intersection _ => .compound
  | .array _ => .array

/-- The kind that a first character announces. -/
def opening (c : Char) : Kind :=
  if c.isDigit || c = '-' || c = 'N' || c = 'I' then .number
  else if "usnbtf".toList.contains c then .word
  else if c = '\'' then .text
  else if c = '[' then .list
  else if c = '\x7b' then .braces
  else if c = 'R' then .map
  else if c = '(' then .compound
  else .nothing

/-- The types that are written as one word. -/
def words : List String :=
  ["unknown", "string", "number", "boolean", "null", "true", "false"]

/-- The type of a word. -/
def ofWord (word : String) : TypeExpr :=
  if word = "unknown" then .unknown
  else if word = "true" then .literal (.bool true)
  else if word = "false" then .literal (.bool false)
  else .primitive word

theorem word_form (level : Int) (normal : Normal type) (word : kind type = .word) :
    ∃ word ∈ words, operandText level type = word.toList ∧ canonical type = ofWord word := by
  cases normal with
  | unknown => exact ⟨"unknown", by decide, rfl, rfl⟩
  | primitive known =>
    rename_i name
    refine ⟨name, ?_, rfl, ?_⟩
    · have included : ∀ name ∈ primitiveNames, name ∈ words := by decide
      exact included name known
    · simp only [primitiveNames, List.mem_cons, List.not_mem_nil, or_false] at known
      rcases known with rfl | rfl | rfl | rfl <;> rfl
  | literal value =>
    cases value with
    | null => exact ⟨"null", by decide, rfl, rfl⟩
    | bool value =>
      cases value
      · exact ⟨"false", by decide, rfl, rfl⟩
      · exact ⟨"true", by decide, rfl, rfl⟩
    | _ => cases word
  | _ => cases word

private theorem number_opening {c : Char} (number : announced c = 2) : opening c = .number := by
  have numeric : (c.isDigit || c = '-' || c = 'N' || c = 'I') = true := by
    by_contra plain
    simp only [announced, plain, ↓reduceIte] at number
    repeat' split at number
    all_goals cases number
  rw [opening, if_pos numeric]

/-- The first character of a core tells its kind. -/
theorem core_starts (level : Int) (normal : Normal type) (core : ∀ element, type ≠ .array element) :
    ∃ c more, operandText level type = c :: more ∧ opening c = kind type := by
  have word : kind type = .word → ∃ c more, operandText level type = c :: more ∧ opening c = .word := by
    intro short
    obtain ⟨word, member, text, _⟩ := word_form level normal short
    have starts : ∀ word ∈ words, word.toList.head?.map opening = some .word := by decide
    obtain ⟨c, head, opens⟩ := Option.map_eq_some_iff.mp (starts word member)
    obtain ⟨more, spelled⟩ := List.head?_eq_some_iff.mp head
    exact ⟨c, more, text.trans spelled, opens⟩
  cases normal with
  | unknown => exact word rfl
  | primitive known => exact word rfl
  | literal value =>
    cases value with
    | null => exact word rfl
    | bool value => exact word rfl
    | num value =>
      obtain ⟨c, more, starts, announces⟩ := render_starts (.num value)
      exact ⟨c, more, starts, number_opening announces⟩
    | str value => exact ⟨'\'', _, quoted_text value, rfl⟩
    | arr items => exact ⟨'[', _, items_text items, rfl⟩
    | obj fields => exact ⟨'\x7b', _, fields_text fields, rfl⟩
  | array inner => exact absurd rfl (core _)
  | map inner => exact ⟨'R', _, map_text _, rfl⟩
  | tuple inner => exact ⟨'[', _, tuple_text _, rfl⟩
  | union inner form => exact ⟨'(', _, operand_compound rfl, rfl⟩
  | intersection inner form => exact ⟨'(', _, operand_compound rfl, rfl⟩
  | record inner others =>
    refine ⟨'\x7b', ?_⟩
    rw [operand_simple rfl, render]
    split
    · exact ⟨_, rfl, rfl⟩
    · rw [List.cons_append, List.cons_append, lines_joined]
      exact ⟨_, rfl, rfl⟩

private theorem kind_small (type : TypeExpr) : kind type ≠ .nothing := by
  unfold kind
  split <;> decide

private theorem operand_starts (level : Int) (normal : Normal type) :
    ∃ c more, operandText level type = c :: more ∧ opening c ≠ .nothing := by
  obtain ⟨c, more, starts, opens⟩ := core_starts level (stem_normal normal) (stem_simple type)
  rw [operand_stem, starts]
  exact ⟨c, _, rfl, opens ▸ kind_small _⟩

theorem members_filled (normal : Normal type) :
    unionMembers type ≠ [] ∧ intersectionMembers type ≠ [] := by
  cases normal with
  | union inner form =>
    refine ⟨?_, by simp [intersectionMembers]⟩
    intro empty
    have := form.several
    simp_all [unionMembers]
  | intersection inner form =>
    refine ⟨by simp [unionMembers], ?_⟩
    intro empty
    have := form.several
    simp_all [intersectionMembers]
  | _ => exact ⟨by simp [unionMembers], by simp [intersectionMembers]⟩

theorem alternative_text (normal : Normal type) (single : type.isUnion = false) :
    (type.render level).toList =
      [' ', '&', ' '].intercalate ((intersectionMembers type).map (operandText level)) :=
  operands_text single fun operand member => (intersectionMembers_normal normal operand member).2

theorem intercalate_starts {separator text : List Char} {texts : List (List Char)}
    {c : Char} {more : List Char} (starts : text = c :: more) :
    ∃ further, separator.intercalate (text :: texts) = c :: further := by
  cases texts with
  | nil => exact ⟨more, by simp [starts]⟩
  | cons next later =>
    rw [List.intercalate_cons_cons, starts]
    exact ⟨_, rfl⟩

/-- No type starts with a character that announces none. -/
private theorem type_starts (level : Int) (normal : Normal type) :
    ∃ c more, (type.render level).toList = c :: more ∧ opening c ≠ .nothing := by
  have alternative : ∀ {type : TypeExpr}, Normal type → type.isUnion = false →
      ∃ c more, (type.render level).toList = c :: more ∧ opening c ≠ .nothing := by
    intro type normal single
    obtain ⟨first, others, operands⟩ := List.exists_cons_of_ne_nil (members_filled normal).2
    have inner := (intersectionMembers_normal normal first (by simp [operands])).1
    obtain ⟨c, more, starts, opens⟩ := operand_starts level inner
    obtain ⟨further, text⟩ := intercalate_starts starts
    rw [alternative_text normal single, operands]
    exact ⟨c, further, text, opens⟩
  obtain ⟨first, others, members⟩ := List.exists_cons_of_ne_nil (members_filled normal).1
  obtain ⟨inner, single⟩ := unionMembers_normal normal first (by simp [members])
  obtain ⟨c, more, starts, opens⟩ := alternative inner single
  obtain ⟨further, text⟩ := intercalate_starts starts
  rw [alternatives_text, members]
  exact ⟨c, further, text, opens⟩

theorem type_not_starts (normal : Normal type) {c : Char} (never : opening c = .nothing) :
    (type.render level).toList ++ rest ≠ c :: other := by
  intro same
  obtain ⟨d, more, starts, opens⟩ := type_starts level normal
  rw [starts] at same
  rw [(List.cons.inj same).1] at opens
  exact opens never

end EntitySchema.OperandText
