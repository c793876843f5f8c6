import EntitySchema.Shell

/-! Unpacking an archive into a directory. Only entries under a given prefix
are taken; what would land outside of the directory is skipped, and nothing
but directories and regular files is ever made. -/
namespace EntitySchema

namespace Archive

/-- The kinds of entries that are told apart. Links and devices are `other`. -/
inductive Kind where
  | directory
  | file
  | other
  deriving DecidableEq, Repr

/-- An entry as it was packed. -/
structure Member where
  name : String
  kind : Kind := .file
  content : ByteArray := ByteArray.empty

end Archive

/-- An archive as it arrives: its entries in order, or those that can be read
before something stops the reading. The last of these may have only the first
part of its content, down to none. -/
inductive Archive where
  | entries (entries : List Archive.Member)
  | cut (entries : List Archive.Member) (damage : Damage)

namespace Archive

/-- The name of an entry; slashes at the end of a directory's do not count. -/
def Member.path (member : Member) : List Char :=
  let name := member.name.toList
  match member.kind with
  | .directory => (name.reverse.dropWhile (· = '/')).reverse
  | _ => name

/-- The part of a name under a prefix, when there is one. The prefix itself and
names that only share its letters have none. -/
def relative? (top name : List Char) : Option (List Char) :=
  if (top ++ ['/']).isPrefixOf name then
    let rest := (name.drop top.length).dropWhile (· = '/')
    if rest.isEmpty then none else some rest
  else none

/-- Where an entry goes: `relative` followed by its text from `root`. -/
def destination (root : Disk.Place) (relative : List Char) : Disk.Place :=
  (Disk.Path.namesOf relative).foldl
    (fun place name => if name = ".." then place.dropLast else place ++ [name]) root

/-- Unpacks one entry and says whether a file was written. `shown` is the
directory as it was asked for. -/
def extractMember (root : Disk.Place) (shown top : String) (member : Member) : Shell Bool := do
  match relative? top.toList member.path with
  | none => pure false
  | some relative =>
    let place := destination root relative
    if relative.contains '\x00' then Action.fail (.disk .zeroCharacter)
    else if !Disk.below root place then do
      Shell.print ("Skipping " ++ String.ofList member.path ++ ": outside of " ++ shown)
      pure false
    else
      match member.kind with
      | .directory => do
        Shell.ensureDirectories ⟨1, place⟩
        pure false
      | .file => do
        Shell.ensureDirectories ⟨1, place.dropLast⟩
        Shell.writeFile ⟨1, place⟩ member.content
        pure true
      | .other => pure false

/-- Unpacks entries in order and counts the files written. -/
def extractAll (root : Disk.Place) (shown top : String) : List Member → Shell Nat
  | [] => pure 0
  | member :: rest => do
    let written ← extractMember root shown top member
    let count ← extractAll root shown top rest
    pure (if written then count + 1 else count)

/-- Unpacks what stands under `top` into a directory and counts the files
written. Entries are unpacked as they are read, so those before a damage are. -/
def extract (archive : Archive) (directory : Disk.Path) (shown top : String) : Shell Nat := do
  if directory.hasZero then Action.fail (.disk .zeroCharacter)
  else
    let root := (← Shell.disk).resolve directory
    match archive with
    | .entries packed => extractAll root shown top packed
    | .cut packed damage => do
      let _ ← extractAll root shown top packed
      Action.fail (.archive damage)

end Archive
end EntitySchema
