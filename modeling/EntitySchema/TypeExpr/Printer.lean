import EntitySchema.TypeExpr.Basic

/-! Types as TypeScript text. Parentheses are written where an operator would
otherwise bind differently, and records take one line a field, indented by
their level. -/
namespace EntitySchema

/-- Characters that stand in a quoted string only behind a backslash. -/
def quoteChar (c : Char) : List Char :=
  if c = '\\' then ['\\', '\\']
  else if c = '\'' then ['\\', '\'']
  else if c = '\n' then ['\\', 'n']
  else if c = '\r' then ['\\', 'r']
  else [c]

/-- A string in single quotes, on one line. -/
def quoteString (s : String) : String :=
  "'" ++ String.ofList (s.toList.flatMap quoteChar) ++ "'"

/-- A value as a literal: strings in single quotes, all else as in a document. -/
def Json.literalText : Json → String
  | .str value => quoteString value
  | other => other.render

/-- The first character of a name that needs no quotes. -/
def startsName (c : Char) : Bool :=
  ('A' ≤ c && c ≤ 'Z') || ('a' ≤ c && c ≤ 'z') || c == '_' || c == '$'

/-- The other characters of such a name. -/
def continuesName (c : Char) : Bool :=
  startsName c || ('0' ≤ c && c ≤ '9')

/-- A name made of the characters above. -/
def isPlainName : List Char → Bool
  | [] => false
  | c :: rest => startsName c && rest.all continuesName

/-- The text without one line feed at its end. -/
def dropFinalNewline (s : List Char) : List Char :=
  if s.getLast? = some '\n' then s.dropLast else s

/-- A field name as a record shows it. A plain name stands bare, and so does
one that only a final line feed keeps from being plain; others are quoted. -/
def fieldKey (name : String) : String :=
  if isPlainName (dropFinalNewline name.toList) then name else quoteString name

/-- The indentation of a level; levels below zero have none. -/
def indentation (level : Int) : String :=
  String.ofList (List.replicate (2 * level.toNat) ' ')

namespace TypeExpr

/-- Is this a union? -/
def isUnion : TypeExpr → Bool
  | .union _ => true
  | _ => false

/-- Is this an intersection? -/
def isIntersection : TypeExpr → Bool
  | .intersection _ => true
  | _ => false

/-- The text in parentheses, if they are called for. -/
def enclose (needed : Bool) (text : String) : String :=
  if needed then "(" ++ text ++ ")" else text

/-- The line of one field, its comment above it. -/
def fieldLines (indent : String) (field : Field) (type : String) : List String :=
  let comment := (field.docs.map (·.comment indent)).getD ""
  (if comment = "" then [] else [comment]) ++
    [indent ++ fieldKey field.name ++ (if field.optional then "?" else "") ++ ": " ++ type ++ ";"]

mutual

/-- The text of a type, for a place `level` records deep. -/
def render (level : Int) : TypeExpr → String
  | .unknown => "unknown"
  | .unspecified => "unknown"
  | .primitive name => name
  | .literal value => value.literalText
  | .array element =>
    enclose (element.isUnion || element.isIntersection) (render level element) ++ "[]"
  | .map value => "Record<string, " ++ render level value ++ ">"
  | .tuple elements => "[" ++ ", ".intercalate (renderAll level elements) ++ "]"
  | .union members => " | ".intercalate (renderAll level members)
  | .intersection members => " & ".intercalate (renderOperands level members)
  | .record fields index =>
    if fields.isEmpty && index.isNone then "\x7b\x7d"
    else
      "\n".intercalate
        ("\x7b" :: renderFields (level + 1) fields ++ renderIndex (level + 1) index ++
          [indentation level ++ "\x7d"])

/-- The texts of types. -/
def renderAll (level : Int) : List TypeExpr → List String
  | [] => []
  | type :: rest => render level type :: renderAll level rest

/-- The operands of an intersection; a union binds less tightly. -/
def renderOperands (level : Int) : List TypeExpr → List String
  | [] => []
  | type :: rest => enclose type.isUnion (render level type) :: renderOperands level rest

/-- The lines of a record's fields, which stand at `level`. -/
def renderFields (level : Int) : List (Field × TypeExpr) → List String
  | [] => []
  | (field, type) :: rest =>
    fieldLines (indentation level) field (render level type) ++ renderFields level rest

/-- The line for the fields a record does not name. -/
def renderIndex (level : Int) : Option TypeExpr → List String
  | none => []
  | some type => [indentation level ++ "[key: string]: " ++ render level type ++ ";"]

end

/-- The text of a type on its own. Two types count as the same alternative
when this text is the same. -/
def text (type : TypeExpr) : String :=
  type.render 0

end TypeExpr
end EntitySchema
