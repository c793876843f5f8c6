import EntitySchema.Json.Prose
import EntitySchema.Text.Lines

/-! Documentation carried by schema nodes and the comment it is printed as. -/
namespace EntitySchema

/-- What a node says about itself. A default or an example may be the value
`null`, which is not the same as having none. -/
structure Docs where
  title : Option String := none
  description : Option String := none
  defaultValue : Option Json := none
  exampleValue : Option Json := none
  deriving DecidableEq, Repr

namespace Docs

/-- The text under a keyword of a node. An absent keyword, `null` and the empty
string count as no text. -/
def text? (node : Json) (keyword : String) : Option String :=
  match node.field? keyword with
  | none | some .null | some (.str "") => none
  | some value => some value.prose

/-- The first of a node's examples. -/
def firstExample? (node : Json) : Option Json :=
  match node.field? "examples" with
  | some (.arr (first :: _)) => some first
  | _ => none

/-- The documentation of a node. A title that only repeats the description is
left out. -/
def ofNode (node : Json) : Docs :=
  let title := text? node "title"
  let description := text? node "description"
  { title := if title = description then none else title
    description := description
    defaultValue := node.field? "default"
    exampleValue := firstExample? node }

/-- A text that has something to say. -/
def written (text : Option String) : Option String :=
  text.filter (· ≠ "")

/-- Nothing to say at all. -/
def isEmpty (docs : Docs) : Bool :=
  (written docs.title).isNone && (written docs.description).isNone &&
    docs.defaultValue.isNone && docs.exampleValue.isNone

/-- The lines of the comment: title, description line by line, default and
example. -/
def lines (docs : Docs) : List (List Char) :=
  let title := (written docs.title).filter (some · ≠ docs.description)
  let description := (written docs.description).getD ""
  (title.map (·.toList)).toList ++
    Text.splitLines description.toList ++
    (docs.defaultValue.map fun value => ("@default " ++ value.render).toList).toList ++
    (docs.exampleValue.map fun value => ("@example " ++ value.render).toList).toList

/-- Text in which no comment can end: the slash of `*/` gets a backslash. -/
def guardComment : List Char → List Char
  | '*' :: '/' :: rest => '*' :: '\\' :: '/' :: guardComment rest
  | c :: rest => c :: guardComment rest
  | [] => []

/-- One line of a comment, without blanks at its end. -/
def commentLine (indent : String) (line : List Char) : String :=
  String.ofList (Text.trimEnd (indent.toList ++ [' ', '*', ' '] ++ guardComment line))

/-- The documentation as a comment, or nothing when there is none. -/
def comment (docs : Docs) (indent : String) : String :=
  if docs.lines.isEmpty then ""
  else
    "\n".intercalate
      ((indent ++ "/**") :: docs.lines.map (commentLine indent) ++ [indent ++ " */"])

end Docs
end EntitySchema
