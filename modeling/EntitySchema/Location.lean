/-! Logical paths of documents. Documents are known by their path below the
schema root, written with either kind of slash; normalizing gives each place
one spelling, under which the store keeps it. -/
namespace EntitySchema.Location

/-- One step of a path. -/
abbrev Name := List Char

/-- The step to the directory above. -/
def up : Name := ['.', '.']

/-- Takes one step from the place reached, whose names are held innermost
first. An empty step and `.` stay; `..` leaves the innermost directory, and
where there is none it is kept on a relative path and dropped on an absolute
one. -/
def enter (absolute : Bool) (reached : List Name) (name : Name) : List Name :=
  if name = [] || name = ['.'] then reached
  else if name = up then
    match reached with
    | [] => if absolute then [] else [up]
    | inner :: outer => if inner = up then up :: reached else outer
  else name :: reached

/-- The names left after all steps, outermost first. -/
def walk (absolute : Bool) (names : List Name) : List Name :=
  (names.foldl (enter absolute) []).reverse

/-- The text with backslashes turned. -/
def turnSlashes (path : List Char) : List Char :=
  path.map fun c => if c = '\\' then '/' else c

/-- How many slashes a normal path keeps in front: none, one, or exactly the
two it was written with. -/
def leadingSlashes (path : List Char) : Nat :=
  match (path.takeWhile (· = '/')).length with
  | 0 => 0
  | 2 => 2
  | _ => 1

/-- Names with a slash between each two. -/
def joinNames (names : List Name) : List Char :=
  ['/'].intercalate names

/-- The one spelling of a path: single slashes, no `.` steps, and `..` only at
the front of a relative path. Nothing at all is spelled `.`. -/
def normalChars (path : List Char) : List Char :=
  let path := turnSlashes path
  let slashes := leadingSlashes path
  let names := walk (slashes != 0) (path.splitOn '/')
  let joined := List.replicate slashes '/' ++ joinNames names
  if joined.isEmpty then ['.'] else joined

/-- The one spelling of a path. -/
def normalize (path : String) : String :=
  String.ofList (normalChars path.toList)

/-- The directory part of a path, without the slashes that end it unless there
is nothing else. -/
def directoryChars (path : List Char) : List Char :=
  let head := (path.reverse.dropWhile (· != '/')).reverse
  if head.all (· = '/') then head else (head.reverse.dropWhile (· = '/')).reverse

/-- `path` seen from the directory `base`. An absolute path stays as it is. -/
def joinChars (base path : List Char) : List Char :=
  if path.head? = some '/' then path
  else if base.isEmpty || base.getLast? = some '/' then base ++ path
  else base ++ '/' :: path

/-- The path that `target`, written in the document `path`, names. -/
def relativeTo (path target : String) : String :=
  String.ofList (normalChars (joinChars (directoryChars path.toList) target.toList))

/-- Normal paths that do not lead below the schema root. -/
def leavesRoot (path : String) : Bool :=
  path == ".." || "../".toList.isPrefixOf path.toList || path.toList.head? == some '/'

end EntitySchema.Location
