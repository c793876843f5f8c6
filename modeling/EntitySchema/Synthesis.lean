import EntitySchema.Reference
import EntitySchema.Shape
import EntitySchema.TypeExpr.Combine

/-! Types from schema nodes. References are replaced by what they lead to, so
the result is a type of its own. A reference that comes up again below itself
is unknown, and so is everything beyond the depth that a node may reach. -/
namespace EntitySchema

namespace Synthesis

open Reference

/-- How deep nodes may nest when nothing else is asked for. -/
def defaultDepth : Int := 20

/-- The field of a record for one property, its type being known. -/
def fieldOf (required : List String) (name : String) (node : Json) : Field :=
  let docs := Docs.ofNode node
  { name := name
    optional := !required.contains name
    docs := if docs.isEmpty then none else some docs }

/-- The type of a node. `budget` is how many levels may still be entered, and
`seen` holds the references on the way from the root down to this node, so that
siblings may use the same definition. -/
def convert (source : Source) (budget : Nat) (node : Json) (context : Context)
    (seen : List Key) : Load TypeExpr :=
  match budget with
  | 0 => pure .unknown
  | budget + 1 =>
    match Shape.ofNode node with
    | .unknown => pure .unknown
    | .reference ref => do
      match ← hop? source ref context seen with
      | none => pure .unknown
      | some (target, key) => convert source budget target.schema target (key :: seen)
    | .anyOf nodes => do
      let types ← Action.each (fun node => convert source budget node context seen) nodes
      pure (TypeExpr.anyOf types)
    | .allOf nodes => do
      let types ← Action.each (fun node => convert source budget node context seen) nodes
      pure (TypeExpr.allOf types)
    | .values values => pure (TypeExpr.anyOf (values.map .literal))
    | .value value => pure (.literal value)
    | .tuple items => do
      let types ← Action.each (fun node => convert source budget node context seen) items
      pure (.tuple types)
    | .array item => do
      let type ← convert source budget item context seen
      pure (.array type)
    | .anyArray => pure (.array .unknown)
    | .anyObject => pure (.map .unknown)
    | .record properties required others => do
      let fields ← Action.each (fun (name, node) => do
        let type ← convert source budget node context seen
        pure (fieldOf required name node, type)) properties
      match others with
      | .closed => pure (.record fields none)
      | .anything => pure (.record fields (some .unknown))
      | .typed node => do
        let type ← convert source budget node context seen
        pure (.record fields (some type))
    | .primitive name => pure (.primitive name)

/-- How many levels may be entered from a depth. -/
def budgetAt (maxDepth depth : Int) : Nat :=
  (maxDepth + 1 - depth).toNat

/-- The type of a node in a context, `depth` levels below where counting
started. -/
def synthesize (source : Source) (maxDepth : Int) (node : Json) (context : Context)
    (depth : Int) : Load TypeExpr :=
  convert source (budgetAt maxDepth depth) node context []

end Synthesis
end EntitySchema
