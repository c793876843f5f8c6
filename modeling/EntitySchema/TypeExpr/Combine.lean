import EntitySchema.TypeExpr.Printer

/-! Unions and intersections of types. Members that are themselves of the same
kind are taken apart, a member whose text came before is dropped, and a
combination of one member is that member. -/
namespace EntitySchema.TypeExpr

/-- The alternatives of a type. -/
def unionMembers : TypeExpr → List TypeExpr
  | .union members => members
  | other => [other]

/-- The operands of a type taken as an intersection. -/
def intersectionMembers : TypeExpr → List TypeExpr
  | .intersection members => members
  | other => [other]

/-- The types whose text is not among `seen` and did not come before. -/
def distinctFrom (seen : List String) : List TypeExpr → List TypeExpr
  | [] => []
  | type :: rest =>
    let text := type.text
    if seen.contains text then distinctFrom seen rest
    else type :: distinctFrom (text :: seen) rest

/-- The first type of each text. -/
def distinct (types : List TypeExpr) : List TypeExpr :=
  distinctFrom [] types

/-- Builds a combination, unless there is nothing or only one type to combine. -/
def collapse (combine : List TypeExpr → TypeExpr) : List TypeExpr → TypeExpr
  | [] => .unknown
  | [type] => type
  | types => combine types

/-- The type of values that have one of the given types. -/
def anyOf (types : List TypeExpr) : TypeExpr :=
  collapse .union (distinct (types.flatMap unionMembers))

/-- The type of values that have all of the given types. -/
def allOf (types : List TypeExpr) : TypeExpr :=
  collapse .intersection (distinct (types.flatMap intersectionMembers))

end EntitySchema.TypeExpr
