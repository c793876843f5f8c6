import EntitySchema.Docs

/-! Structural types. A type is a tree of TypeScript type expressions, before
it is given any text. -/
namespace EntitySchema

/-- What a record says about one of its fields, apart from its type. -/
structure Field where
  name : String
  optional : Bool := true
  docs : Option Docs := none
  deriving DecidableEq, Repr

/-- A type expression. -/
inductive TypeExpr where
  /-- No information: every value has this type. -/
  | unknown
  /-- A type given without a form of its own. It prints like `unknown`, but it
  is a type someone asked for, not a lack of information. -/
  | unspecified
  /-- A named type such as `string`. -/
  | primitive (name : String)
  /-- The type of one value. -/
  | literal (value : Json)
  | array (element : TypeExpr)
  /-- Objects whose values all have one type. -/
  | map (value : TypeExpr)
  | tuple (elements : List TypeExpr)
  | union (members : List TypeExpr)
  | intersection (members : List TypeExpr)
  /-- Objects with named fields and, if there is an index, any others. -/
  | record (fields : List (Field × TypeExpr)) (index : Option TypeExpr)
  deriving Repr, Inhabited

end EntitySchema
