import EntitySchema.Json.Prose
import EntitySchema.Pointer
import EntitySchema.Store
import EntitySchema.Text.Lines

/-! References between schema nodes. A reference is resolved in the document
that holds it: it names that node, a place in the same document, another
document, or a place in another document. -/
namespace EntitySchema.Reference

/-- A reference together with the document it is written in. A chain that
comes to the same one twice is a loop. -/
abbrev Key := String × String

/-- The node at a pointer, as a context. A node that is `null` is no target. -/
def target? (document : Json) (pointer path : String) : Load (Option Context) :=
  match Pointer.get? document pointer with
  | .error fault => Action.fail fault
  | .ok none | .ok (some .null) => pure none
  | .ok (some node) => pure (some ⟨node, path⟩)

/-- The target of a reference. A blank one and a `#` that starts no pointer
mean the node that holds it. A local pointer starts at the root of the loaded
document, or at the node at hand when there is none. -/
def resolve (source : Source) (ref : String) (context : Context) : Load (Option Context) := do
  let chars := ref.toList
  if chars.all Text.isBlank then pure (some context)
  else if "#/".toList.isPrefixOf chars then
    let document := ((← Action.state).cached? context.path).bind Json.present?
    target? (document.getD context.schema) ref context.path
  else if chars.head? = some '#' then pure (some context)
  else
    let file := String.ofList (chars.takeWhile (· ≠ '#'))
    let fragment := (chars.dropWhile (· ≠ '#')).drop 1
    let found ← Store.context source (Location.relativeTo context.path file)
    if fragment.head? = some '/' then
      target? found.schema (String.ofList ('#' :: fragment)) found.path
    else pure (some found)

/-- One hop along the reference `ref` of a node in `context`. The keys followed
before are refused; the new one is returned with the target. -/
def step (source : Source) (ref : Json) (context : Context) (seen : List Key) :
    Load (Context × Key) := do
  match ref with
  | .str ref =>
    let key := (context.path, ref)
    if seen.contains key then Action.fail (.cyclic ref context.path)
    else
      match ← resolve source ref context with
      | none => Action.fail (.unresolved ref context.path)
      | some target => pure (target, key)
  | other => Action.fail (.unresolved other.prose context.path)

/-- One hop, with nothing for a reference that leads nowhere or loops. -/
def hop? (source : Source) (ref : Json) (context : Context) (seen : List Key) :
    Load (Option (Context × Key)) :=
  (some <$> step source ref context seen).orElse fun fault =>
    if fault.isReferenceFault then pure none else Action.fail fault

/-- Goes on along a chain of references, from the node `current` whose
references are read in `owner`. A chain that ends in nothing or returns to
itself stops where it is. -/
def followFrom (source : Source) : Nat → List Key → Context → Context → Load Context
  | 0, _, current, _ => pure current
  | fuel + 1, seen, current, owner =>
    match current.schema.field? "$ref" with
    | none => pure current
    | some ref => do
      match ← hop? source ref owner seen with
      | none => pure current
      | some (target, key) => followFrom source fuel (key :: seen) target target

/-- No chain takes more hops than there are pairs of a document and a node. -/
def hopBound (source : Source) (store : Store) (node : Json) (context : Context) : Nat :=
  (source.disk.entries.length + store.documents.length + 1) *
    (source.disk.weight + store.weight + context.schema.size + node.size) + 1

/-- Follows the references from a node to the first node that is none. -/
def follow (source : Source) (node : Json) (context : Context) : Load Context := do
  let bound := hopBound source (← Action.state) node context
  followFrom source bound [] ⟨node, context.path⟩ context

end EntitySchema.Reference
