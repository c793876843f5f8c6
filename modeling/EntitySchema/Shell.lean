import EntitySchema.Action
import EntitySchema.Disk.Basic
import EntitySchema.Fault

/-! The surroundings of a command: the disk it works on, what it prints, and
what it asks of the network. All of them keep what happened before a failure. -/
namespace EntitySchema

/-- What can stop the reading of an archive. -/
inductive Damage where
  | empty
  | notCompressed
  /-- The archive breaks off or holds no entry where one should be. -/
  | unreadable (detail : String)
  /-- The compressed data break off or are wrong. -/
  | compression (detail : String)
  deriving DecidableEq, Repr

/-- What is said of a damaged archive. -/
def Damage.message : Damage → String
  | .empty => "empty file"
  | .notCompressed => "not a gzip file"
  | .unreadable detail | .compression detail => detail

/-- Is this damage of the archive itself? Compressed data that break off are
another kind of damage, which fetching does not look for. -/
def Damage.ofArchive : Damage → Bool
  | .compression _ => false
  | _ => true

/-- Why a command stops. -/
inductive Failure where
  | schema (fault : Fault)
  | disk (fault : Disk.Fault)
  | archive (damage : Damage)
  /-- A repository is given without its owner. -/
  | namelessRepository
  /-- The command ends at once with an exit code. -/
  | exit (code : Nat)
  deriving DecidableEq, Repr

/-- What is said of a failure; refusals of the file system speak for
themselves. -/
def Failure.message? : Failure → Option String
  | .schema fault => some fault.message
  | .disk .zeroCharacter => some Fault.zeroCharacter.message
  | .disk _ => none
  | .archive damage => some damage.message
  | .namelessRepository => some "list index out of range"
  | .exit code => some (toString code)

/-- A question to the network. -/
structure Request where
  url : String
  headers : List (String × String)
  timeout : Nat
  deriving DecidableEq, Repr

/-- The state around a command. Lines are kept in the order of printing. -/
structure Host where
  disk : Disk
  output : List String := []
  errors : List String := []
  requests : List Request := []

/-- A command. -/
abbrev Shell := Action Host Failure

namespace Shell

/-- Prints a line. -/
def print (line : String) : Shell Unit :=
  Action.update fun host => { host with output := host.output ++ [line] }

/-- Prints several lines. -/
def printAll (lines : List String) : Shell Unit :=
  Action.update fun host => { host with output := host.output ++ lines }

/-- Prints a line among the errors. -/
def printError (line : String) : Shell Unit :=
  Action.update fun host => { host with errors := host.errors ++ [line] }

/-- The disk as it is now. -/
def disk : Shell Disk := do
  pure (← Action.state).disk

/-- Puts another state of the disk in place. -/
def setDisk (disk : Disk) : Shell Unit :=
  Action.update fun host => { host with disk := disk }

/-- Runs an action on the disk. -/
def onDisk {α : Type} (action : Action Disk Disk.Fault α) : Shell α :=
  action.onPart Host.disk (fun disk host => { host with disk := disk }) .disk

theorem run_onDisk {α : Type} (action : Action Disk Disk.Fault α) (host : Host) :
    (onDisk action).run host =
      ((action.run host.disk).1.mapError .disk, { host with disk := (action.run host.disk).2 }) :=
  rfl

/-- Does a path lead to anything? One that is too long cannot even be asked for. -/
def exists? (path : Disk.Path) : Shell Bool := do
  let disk ← Shell.disk
  match disk.locate path with
  | .error .nameTooLong => Action.fail (.disk .nameTooLong)
  | _ => pure (disk.exists? path)

/-- Makes a directory and those above it that are missing. -/
def ensureDirectories (path : Disk.Path) : Shell Unit :=
  onDisk (Disk.ensureDirectories path)

/-- Writes a file into a directory that exists. -/
def writeFile (path : Disk.Path) (content : ByteArray) : Shell Unit :=
  onDisk (Disk.write path content)

end Shell
end EntitySchema
