import EntitySchema.TypeExpr.Basic

/-! Entity components and the names of their types. -/
namespace EntitySchema

/-- A component: its key in an entity, its type, and what is said of it. -/
structure Component where
  name : String
  type : TypeExpr
  title : Option String := none
  description : Option String := none

namespace Component

/-- An ASCII letter or digit. All other characters separate words. -/
def isWordChar (c : Char) : Bool :=
  ('a' ≤ c && c ≤ 'z') || ('A' ≤ c && c ≤ 'Z') || ('0' ≤ c && c ≤ '9')

/-- The words of a key. -/
def words (s : List Char) : List (List Char) :=
  (s.splitOnP fun c => !isWordChar c).filter (· ≠ [])

/-- A word with its first letter in upper case. -/
def capitalize : List Char → List Char
  | [] => []
  | c :: rest => c.toUpper :: rest

/-- The words of a key run together, each with an upper-case letter in front. -/
def pascalCase (s : String) : String :=
  String.ofList ((words s.toList).flatMap capitalize)

/-- The first of `base2`, `base3`, … that is not taken. -/
def numbered (base : String) (taken : List String) : Nat → Nat → String
  | 0, suffix => base ++ toString suffix
  | tries + 1, suffix =>
    let name := base ++ toString suffix
    if taken.contains name then numbered base taken tries (suffix + 1) else name

/-- A name that is not taken: the base itself or the base with a number. -/
def freshName (base : String) (taken : List String) : String :=
  if taken.contains base then numbered base taken taken.length 2 else base

/-- One type name for each key, no two of them the same. -/
def typeNamesFrom (typePrefix : String) (taken : List String) : List String → List String
  | [] => []
  | key :: rest =>
    let name := freshName (typePrefix ++ pascalCase key) taken
    name :: typeNamesFrom typePrefix (name :: taken) rest

/-- The type names of components, in their order. -/
def typeNames (typePrefix : String) (components : List Component) : List String :=
  typeNamesFrom typePrefix [] (components.map (·.name))

end Component
end EntitySchema
