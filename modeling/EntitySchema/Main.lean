import EntitySchema.Command
import EntitySchema.Disk.Changes

/-! The command line. What the named directories hold is read into a disk, the
command runs on that disk, and what it changed there is carried out. There is
no network here, so a download is answered as failed. -/
namespace EntitySchema.Main

/-- The text of a place. -/
def textOf (place : Disk.Place) : String :=
  "/" ++ "/".intercalate place

/-- Everything at a place and below it. -/
partial def snapshot (place : Disk.Place) : IO (List (Disk.Place × Disk.Entry)) := do
  try
    let inside ← (System.mkFilePath [textOf place]).readDir
    let mut found := [(place, Disk.Entry.directory)]
    for item in inside do
      found := found ++ (← snapshot (place ++ [item.fileName]))
    return found
  catch _ =>
    try
      return [(place, .file (← IO.FS.readBinFile (textOf place)))]
    catch _ =>
      return []

/-- What stands on the way to a place, without the contents of directories. -/
def trail (place : Disk.Place) : IO (List (Disk.Place × Disk.Entry)) := do
  let mut found := []
  for length in List.range (place.length + 1) do
    let step := place.take length
    try
      discard (System.mkFilePath [textOf step]).readDir
      found := found ++ [(step, Disk.Entry.directory)]
    catch _ =>
      try
        found := found ++ [(step, .file (← IO.FS.readBinFile (textOf step)))]
      catch _ =>
        pure ()
  return found

/-- The disk as far as a command reads it: the way to each place that is named,
and all that the folders hold. -/
def diskFor (folders files : List String) : IO Disk := do
  let current := Disk.Path.namesOf (toString (← IO.currentDir)).toList
  let base : Disk := { current := current }
  let mut disk := base
  for name in folders ++ files do
    for item in ← trail (base.resolve (.ofString name)) do
      disk := disk.set item.1 item.2
  for name in folders do
    for item in ← snapshot (base.resolve (.ofString name)) do
      disk := disk.set item.1 item.2
  return disk

/-- Carries out one change. -/
def carryOut (change : String × Disk.Change) : IO Unit := do
  let path := "/" ++ change.1
  match change.2 with
  | .written content => IO.FS.writeBinFile path content
  | .made => IO.FS.createDirAll path
  | .gone => if change.1.endsWith "/" then IO.FS.removeDir path else IO.FS.removeFile path

/-- Carries out changes: what is gone goes from the inside out, and the rest
comes from the outside in. -/
def carryOutAll (changes : List (String × Disk.Change)) : IO Unit := do
  let (gone, made) := changes.partition fun change => change.2.isGone
  for change in gone.reverse do
    carryOut change
  for change in made do
    carryOut change

/-- Runs a command on a disk, carries out its changes and prints its lines. -/
def perform (disk : Disk) (command : Shell Nat) : IO UInt32 := do
  let (outcome, host) := command.run { disk := disk }
  carryOutAll (disk.changes host.disk [])
  for line in host.output do
    IO.println line
  for line in host.errors do
    IO.eprintln line
  match outcome with
  | .ok code => return UInt32.ofNat code
  | .error (.exit code) => return UInt32.ofNat code
  | .error failure =>
    IO.eprintln ((failure.message?).getD "The file system refuses the operation")
    return 1

/-- The answer to every download. -/
def offline : Cache.Answer := .failed "offline"

/-- Picks the command by its name. -/
def dispatch : List String → IO UInt32
  | "compile" :: args => do
    let disk ← diskFor (Cache.defaultDirectory :: (args.drop 1).take 1)
      [args.headD Command.defaultOutput]
    perform disk (Command.compile offline args)
  | ["download"] => do
    let disk ← diskFor [Cache.defaultDirectory] []
    perform disk ((fun _ => 0) <$> Command.download offline)
  | "behavior" :: args => perform {} (Command.behavior args)
  | _ => do
    IO.println "Usage: compile [output_file] [schema_folder]"
    IO.println "       download"
    IO.println "       behavior <name> <primary_type> [secondary_type]"
    return 1

end EntitySchema.Main

def main (args : List String) : IO UInt32 :=
  EntitySchema.Main.dispatch args
