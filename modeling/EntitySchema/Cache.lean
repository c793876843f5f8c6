import EntitySchema.Archive
import EntitySchema.Repository

/-! The local copy of the schemas. A marker is written last, so a copy without
one is incomplete and is fetched anew. -/
namespace EntitySchema.Cache

/-- Where the copy is kept unless another place is given. -/
def defaultDirectory : String := ".cache/repo"

/-- The file that says the copy is complete. -/
def marker : String := ".ready"

/-- What the network does when it is asked for an archive. -/
inductive Answer where
  | failed (text : String)
  | answered (status : Int) (archive : Archive)

/-- The question for an archive. -/
def request (url : String) : Request :=
  { url := url, headers := [("User-Agent", "bedrock-component-types")], timeout := 60 }

/-- The second part of `owner/name`, when there is one. -/
def repositoryName? (repository : String) : Option String :=
  ((repository.toList.splitOn '/')[1]?).map String.ofList

/-- The directory at the top of an archive. -/
def archivePrefix (name revision : String) : String :=
  name ++ "-" ++ revision

/-- Unpacks an archive into the cache, marks the copy as complete and says how
many files there are. -/
def fill (archive : Archive) (path : Disk.Path) (top : String) : Shell Bool := do
  let count ← archive.extract path path.toString top
  Shell.writeFile (path.child marker) "ready".toUTF8
  Shell.print ("Extracted " ++ toString count ++ " files into " ++ path.toString)
  pure true

/-- Says that an archive could not be had. -/
def giveUp (activity url reason : String) : Shell Bool := do
  Shell.print ("Failed to " ++ activity ++ " " ++ url ++ " (" ++ reason ++ ")")
  pure false

/-- Makes use of an answer. Damage of the archive itself is reported; other
failures end the command. -/
def accept (answer : Answer) (path : Disk.Path) (url repository revision : String) :
    Shell Bool :=
  match answer with
  | .failed text => giveUp "download" url text
  | .answered status archive =>
    if status ≠ 200 then giveUp "download" url ("status " ++ toString status)
    else
      match repositoryName? repository with
      | none => Action.fail .namelessRepository
      | some name =>
        (fill archive path (archivePrefix name revision)).orElse fun failure =>
          match failure with
          | .archive damage =>
            if damage.ofArchive then giveUp "extract" url damage.message
            else Action.fail failure
          | other => Action.fail other

/-- Notes a question to the network. -/
def ask (url : String) : Shell Unit :=
  Action.update fun host => { host with requests := host.requests ++ [request url] }

/-- Fetches a new copy in place of what is there. -/
def fetch (answer : Answer) (path : Disk.Path) (repository revision : String) : Shell Bool := do
  Shell.print "Downloading Minecraft schema archive..."
  Shell.setDisk ((← Shell.disk).removeTree path)
  Shell.ensureDirectories path
  let url := Repository.archiveUrl repository revision
  ask url
  accept answer path url repository revision

/-- Makes sure that a complete copy is there, fetching it if need be. The
answer says whether it is. -/
def ensure (answer : Answer) (directory repository revision : String) : Shell Bool := do
  let path := Disk.Path.ofString directory
  if ← Shell.exists? (path.child marker) then pure true
  else fetch answer path repository revision

end EntitySchema.Cache
