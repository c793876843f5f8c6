import EntitySchema.Fault
import EntitySchema.Json.Basic
import EntitySchema.Text.Digits

/-! Pointers into a document. A pointer `#/a/b` is a list of steps from the
root; a step names a field of an object or a position in an array. -/
namespace EntitySchema.Pointer

/-- A step as it is meant: `~1` is a slash, `~0` a tilde, and `%3A` a colon. -/
def unescape : List Char → List Char
  | '~' :: '1' :: rest => '/' :: unescape rest
  | '~' :: '0' :: rest => '~' :: unescape rest
  | '%' :: '3' :: 'A' :: rest => ':' :: unescape rest
  | c :: rest => c :: unescape rest
  | [] => []

/-- The steps of a pointer. Only a text that starts with `#/` has any. -/
def steps : List Char → List (List Char)
  | '#' :: '/' :: rest => (rest.splitOn '/').map unescape
  | _ => []

/-- The node one step further. A position may be written in the digits of any
script, but not with more of them than an integer may have. -/
def child? (step : List Char) : Json → Except Fault (Option Json)
  | .obj fields => .ok (fields.lookup (String.ofList step))
  | .arr items =>
    if !Text.isDecimal step then .ok none
    else if Number.digitLimit < step.length then .error (.longPosition step.length)
    else .ok items[Text.decimalValue step]?
  | _ => .ok none

/-- The node that a list of steps leads to. -/
def descend (node : Json) : List (List Char) → Except Fault (Option Json)
  | [] => .ok (some node)
  | step :: rest =>
    match child? step node with
    | .error fault => .error fault
    | .ok none => .ok none
    | .ok (some next) => descend next rest

/-- The node a pointer names. A text that is no `#/` pointer names the root. -/
def get? (root : Json) (pointer : String) : Except Fault (Option Json) :=
  descend root (steps pointer.toList)

end EntitySchema.Pointer
