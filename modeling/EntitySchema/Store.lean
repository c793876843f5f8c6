import EntitySchema.Action
import EntitySchema.Disk.Basic
import EntitySchema.Fault
import EntitySchema.Json.Reader
import EntitySchema.Location

/-! Schema documents by logical path. Each document is read and parsed at most
once; what was read stays, in the order of loading, whatever happens to the
files afterwards. -/
namespace EntitySchema

/-- Where documents come from: a directory on a disk. -/
structure Source where
  disk : Disk
  root : Disk.Path

/-- The documents read so far, in the order of loading. -/
structure Store where
  documents : List (String × Json) := []

/-- A schema node together with the path of the document it stands in. -/
structure Context where
  schema : Json
  path : String
  deriving DecidableEq

/-- A computation that may load documents. Documents loaded before a fault
stay in the store. -/
abbrev Load := Action Store Fault

/-- Reads and parses the document at a normal path. A path that leaves the
root is refused before anything is read. -/
def Source.document (source : Source) (path : String) : Except Fault Json :=
  if Location.leavesRoot path then .error (.notFound path)
  else
    match source.disk.read (source.root.child path) with
    | .error .zeroCharacter => .error .zeroCharacter
    | .error .nameTooLong => .error .nameTooLong
    | .error _ => .error (.notFound path)
    | .ok content => (Json.ofBytes content.data.toList).mapError (.malformed path)

namespace Store

/-- The document at a path, if it was loaded. -/
def cached? (store : Store) (path : String) : Option Json :=
  store.documents.lookup (Location.normalize path)

/-- The paths of all documents in the order of loading. -/
def paths (store : Store) : List String :=
  store.documents.map Prod.fst

/-- How many nodes all documents hold together. -/
def weight (store : Store) : Nat :=
  store.documents.foldl (fun total document => total + document.2.size) 0

/-- Adds a document at the end. -/
def add (key : String) (document : Json) (store : Store) : Store :=
  { store with documents := store.documents ++ [(key, document)] }

/-- The document at a path, which is read the first time it is asked for. -/
def load (source : Source) (path : String) : Load Json := do
  let key := Location.normalize path
  match (← Action.state).documents.lookup key with
  | some document => pure document
  | none => do
    let document ← Action.ofExcept (source.document key)
    Action.update (add key document)
    pure document

/-- The root node of the document at a path. -/
def context (source : Source) (path : String) : Load Context := do
  let key := Location.normalize path
  let document ← load source key
  pure ⟨document, key⟩

end Store
end EntitySchema
