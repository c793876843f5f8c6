import EntitySchema.Json.Basic

/-! What a schema node asks for. The keywords of a node are tried in a fixed
order and the first one that applies decides, so each node has one shape. -/
namespace EntitySchema

/-- What a record allows beyond its named fields. -/
inductive Others where
  | closed
  | anything
  | typed (node : Json)
  deriving DecidableEq

/-- The rule that a node falls under, with the parts the rule needs. -/
inductive Shape where
  /-- Nothing is known of the values. -/
  | unknown
  /-- Whatever the reference leads to; nothing else on the node counts. -/
  | reference (ref : Json)
  /-- Values that fit one of the nodes. -/
  | anyOf (nodes : List Json)
  /-- Values that fit all of the nodes. -/
  | allOf (nodes : List Json)
  /-- One of the values listed. -/
  | values (values : List Json)
  /-- This value only. -/
  | value (value : Json)
  | tuple (items : List Json)
  | array (item : Json)
  /-- An array of anything. -/
  | anyArray
  /-- An object with anything in it. -/
  | anyObject
  | record (properties : List (String × Json)) (required : List String) (others : Others)
  | primitive (name : String)

namespace Shape

/-- The type names of schemas that stand for a primitive type. -/
def primitives : List (String × String) :=
  [("string", "string"), ("number", "number"), ("integer", "number"), ("boolean", "boolean"),
   ("null", "null")]

/-- The nodes under a keyword, when it lists them. -/
def listed (rule : List Json → Shape) : Json → Shape
  | .arr nodes => rule nodes
  | _ => .unknown

/-- The names under `required` that are strings. -/
def requiredNames (node : Json) : List String :=
  match node.field? "required" with
  | some (.arr names) => names.filterMap fun name =>
    match name with
    | .str name => some name
    | _ => none
  | _ => []

/-- What a node says about fields it does not name. -/
def othersOf (node : Json) : Others :=
  match node.field? "additionalProperties" with
  | some (.bool true) => .anything
  | some (.obj fields) => .typed (.obj fields)
  | _ => .closed

/-- The value under `properties`, when there is one. -/
def properties? (node : Json) : Option Json :=
  (node.field? "properties").bind Json.present?

/-- The shape of an object node. Without named fields it is a record only if
the node says something definite about the others. -/
def ofObject (node : Json) : Shape :=
  match properties? node, node.field? "additionalProperties" with
  | some (.obj fields), _ => .record fields (requiredNames node) (othersOf node)
  | some _, _ | none, some (.bool false) | none, some (.obj _) =>
    .record [] (requiredNames node) (othersOf node)
  | none, _ => .anyObject

/-- The shape of an array node that says what its items are. -/
def ofItems? (node : Json) : Option Shape :=
  match node.field? "items" with
  | none | some .null | some (.bool false) => none
  | some (.arr items) => some (.tuple items)
  | some item => some (.array item)

/-- The shape of a node of which only the type name is known. -/
def ofName (type : Option String) : Shape :=
  if type = some "array" then .anyArray
  else
    match type.bind fun name => primitives.lookup name with
    | some name => .primitive name
    | none => .unknown

/-- The shape of a node by its type name, which may be absent. Items count for
arrays only; named fields make a record of any type. -/
def ofType (node : Json) (type : Option String) : Shape :=
  match if type = some "array" then ofItems? node else none with
  | some shape => shape
  | none =>
    if type = some "object" || (properties? node).isSome then ofObject node else ofName type

/-- The shape of an object node without combining keywords. A list of types
means the same node with each of them in turn. -/
def ofTyped (node : Json) : Shape :=
  match node.field? "type" with
  | some (.arr types) => .anyOf (types.map fun type => node.withField "type" type)
  | some (.str type) => ofType node (some type)
  | _ => ofType node none

/-- The shape of a node: the first keyword that applies decides. -/
def ofNode (node : Json) : Shape :=
  match node with
  | .obj fields =>
    match fields.lookup "$ref", (fields.lookup "oneOf").or (fields.lookup "anyOf"),
      fields.lookup "allOf", fields.lookup "enum", fields.lookup "const" with
    | some ref, _, _, _, _ => .reference ref
    | none, some options, _, _, _ => listed .anyOf options
    | none, none, some options, _, _ => listed .allOf options
    | none, none, none, some options, _ => listed .values options
    | none, none, none, none, some fixed => .value fixed
    | none, none, none, none, none => ofTyped node
  | _ => .unknown

end Shape
end EntitySchema
