import EntitySchema.Action
import EntitySchema.Disk.Path

/-! Files and directories. A disk lists what stands at each place, a place
being the list of names that leads to it from the top; the top itself is
always a directory. There are no links, so `..` is the place above. -/
namespace EntitySchema

namespace Disk

/-- Names from the top of the disk. -/
abbrev Place := List String

/-- What stands at a place. -/
inductive Entry where
  | directory
  | file (content : ByteArray)

/-- Two contents are the same when their bytes are. -/
def sameContent (a b : ByteArray) : Decidable (a = b) :=
  decidable_of_iff (a.data = b.data) ByteArray.ext_iff.symm

/-- Both directories, or files with the same content. -/
def Entry.same : (a b : Entry) → Decidable (a = b)
  | .directory, .directory => isTrue rfl
  | .file a, .file b =>
    match sameContent a b with
    | isTrue h => isTrue (by rw [h])
    | isFalse h => isFalse (by simpa using h)
  | .directory, .file _ | .file _, .directory => isFalse (by simp)

instance : DecidableEq Entry := Entry.same

/-- Why an operation on files is refused. -/
inductive Fault where
  | missing
  | isDirectory
  | notDirectory
  | alreadyThere
  | nameTooLong
  | zeroCharacter
  deriving DecidableEq, Repr

end Disk

open Disk

/-- The files and directories that exist, and the current directory, from
which relative paths are followed. What stands at a place that is held cannot
be removed. -/
structure Disk where
  entries : List (Place × Entry) := []
  current : Place := []
  held : List Place := []

namespace Disk

/-- What stands at a place, if anything does. -/
def find? (disk : Disk) (place : Place) : Option Entry :=
  if place = [] then some .directory else disk.entries.lookup place

/-- Puts an entry at a place, over what was there. -/
def set (disk : Disk) (place : Place) (entry : Entry) : Disk :=
  { disk with entries := (place, entry) :: disk.entries.filter (·.1 ≠ place) }

/-- Takes away what stands at the places that `gone` picks. -/
def erase (disk : Disk) (gone : Place → Bool) : Disk :=
  { disk with entries := disk.entries.filter fun entry => !gone entry.1 }

/-- Follows names from a directory, each of which has to lead to a directory. -/
def follow (disk : Disk) (place : Place) : List String → Except Fault Place
  | [] => .ok place
  | name :: rest =>
    if name = ".." then disk.follow place.dropLast rest
    else if Path.nameLimit < name.utf8ByteSize then .error .nameTooLong
    else
      match disk.find? (place ++ [name]) with
      | none => .error .missing
      | some (.file _) => .error .notDirectory
      | some .directory => disk.follow (place ++ [name]) rest

/-- Where relative and absolute paths start. -/
def start (disk : Disk) (path : Path) : Place :=
  if path.slashes = 0 then disk.current else []

/-- The place that a name means in a directory, whether anything stands there or
not. -/
def advance (place : Place) (name : String) : Except Fault Place :=
  if name = ".." then .ok place.dropLast
  else if Path.nameLimit < name.utf8ByteSize then .error .nameTooLong
  else .ok (place ++ [name])

/-- The place a path names, all but its last name having to exist. -/
def locate (disk : Disk) (path : Path) : Except Fault Place :=
  if path.hasZero then .error .zeroCharacter
  else if Path.textLimit < path.toString.utf8ByteSize then .error .nameTooLong
  else
    match path.names.getLast? with
    | none => .ok (disk.start path)
    | some last =>
      (disk.follow (disk.start path) path.names.dropLast).bind fun place => advance place last

/-- What stands where a path leads. -/
def entry? (disk : Disk) (path : Path) : Option Entry :=
  match disk.locate path with
  | .ok place => disk.find? place
  | .error _ => none

/-- Does a path lead to anything? -/
def exists? (disk : Disk) (path : Path) : Bool :=
  (disk.entry? path).isSome

/-- Does a path lead to a directory? -/
def isDirectory (disk : Disk) (path : Path) : Bool :=
  disk.entry? path = some .directory

/-- The content of a file. -/
def read (disk : Disk) (path : Path) : Except Fault ByteArray :=
  match disk.locate path with
  | .error fault => .error fault
  | .ok place =>
    match disk.find? place with
    | none => .error .missing
    | some .directory => .error .isDirectory
    | some (.file content) => .ok content

/-- Writes a file, over the one that may be there. -/
def write (path : Path) (content : ByteArray) : Action Disk Fault Unit := fun disk =>
  match disk.locate path with
  | .error fault => (.error fault, disk)
  | .ok place =>
    match disk.find? place with
    | some .directory => (.error .isDirectory, disk)
    | _ => (.ok (), disk.set place (.file content))

/-- Makes one directory where nothing stands yet. -/
def makeDirectory (path : Path) : Action Disk Fault Unit := fun disk =>
  match disk.locate path with
  | .error fault => (.error fault, disk)
  | .ok place =>
    match disk.find? place with
    | some _ => (.error .alreadyThere, disk)
    | none => (.ok (), disk.set place .directory)

/-- Lets a refusal pass when the directory is there all the same. -/
def acceptExisting (path : Path) (fault : Fault) : Action Disk Fault Unit := do
  if (← Action.state).isDirectory path then pure () else Action.fail fault

/-- Makes a directory and those above it that are missing; `names` are those of
the path from the last to the first. What was made stays when a later step is
refused. -/
def ensureDirectoriesFrom (slashes : Nat) : List String → Action Disk Fault Unit
  | [] => (makeDirectory ⟨slashes, []⟩).orElse (acceptExisting ⟨slashes, []⟩)
  | last :: above =>
    let path : Path := ⟨slashes, (last :: above).reverse⟩
    (makeDirectory path).orElse fun fault =>
      match fault with
      | .missing => do
        ensureDirectoriesFrom slashes above
        (makeDirectory path).orElse (acceptExisting path)
      | fault => acceptExisting path fault

/-- Makes a directory and those above it that are missing. -/
def ensureDirectories (path : Path) : Action Disk Fault Unit :=
  ensureDirectoriesFrom path.slashes path.names.reverse

/-- Is `place` strictly below `top`? -/
def below (top place : Place) : Bool :=
  top.isPrefixOf place && top != place

/-- Is a place held, or one below it, for which it has to stay? -/
def keeps (disk : Disk) (place : Place) : Bool :=
  disk.held.any fun other => place.isPrefixOf other

/-- Takes a directory away with all that is in it. Nothing happens when the path
leads to no directory; one named only by `.` or `..` is emptied and stays. What
cannot be removed is passed over. -/
def removeTree (disk : Disk) (path : Path) : Disk :=
  match disk.locate path with
  | .error _ => disk
  | .ok place =>
    match disk.find? place with
    | some .directory =>
      let named := path.names.getLast?.any (· ≠ "..")
      disk.erase fun other =>
        (below place other || (named && other = place)) && !disk.keeps other
    | _ => disk

/-- The place a path names by its text alone, whatever exists there. -/
def resolve (disk : Disk) (path : Path) : Place :=
  path.names.foldl (fun place name => if name = ".." then place.dropLast else place ++ [name])
    (disk.start path)

/-- How many bytes an entry holds. -/
def Entry.size : Entry → Nat
  | .directory => 0
  | .file content => content.size

/-- How many bytes all files hold together. -/
def weight (disk : Disk) : Nat :=
  disk.entries.foldl (fun total entry => total + entry.2.size) 0

end Disk
end EntitySchema
