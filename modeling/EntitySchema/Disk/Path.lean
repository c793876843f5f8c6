/-! Names of files as they are written on a command line. A written path is a
list of names behind up to two slashes; empty names and `.` say nothing and
are dropped, while `..` is kept until the path is followed on a disk. -/
namespace EntitySchema.Disk

/-- A path as written: no leading slash makes it relative. -/
structure Path where
  slashes : Nat
  names : List String
  deriving DecidableEq, Repr

namespace Path

/-- The names of a text, without the ones that say nothing. -/
def namesOf (s : List Char) : List String :=
  ((s.splitOn '/').filter fun name => name != [] && name != ['.']).map String.ofList

/-- Reads a path. Exactly two leading slashes are kept, more count as one. -/
def ofString (s : String) : Path :=
  let chars := s.toList
  let slashes := (chars.takeWhile (· = '/')).length
  ⟨if slashes ≤ 2 then slashes else 1, namesOf chars⟩

/-- The text of a path; the relative path without names is `.`. -/
def toString (path : Path) : String :=
  if path.slashes = 0 && path.names.isEmpty then "."
  else String.ofList (List.replicate path.slashes '/') ++ "/".intercalate path.names

instance : ToString Path := ⟨toString⟩

/-- The path without its last name; one without names is its own parent. -/
def parent (path : Path) : Path :=
  { path with names := path.names.dropLast }

/-- `relative` seen from a path. -/
def child (path : Path) (relative : String) : Path :=
  let relative := ofString relative
  if relative.slashes = 0 then { path with names := path.names ++ relative.names } else relative

/-- No file name holds a zero character. -/
def hasZero (path : Path) : Bool :=
  path.names.any fun name => name.toList.contains '\x00'

/-- How many bytes a name may have. -/
def nameLimit : Nat := 255

/-- How many bytes the text of a path may have. -/
def textLimit : Nat := 4095

/-- Neither a path as a whole nor one of its names may be too long. -/
def isLong (path : Path) : Bool :=
  textLimit < path.toString.utf8ByteSize || path.names.any (nameLimit < ·.utf8ByteSize)

end Path
end EntitySchema.Disk
