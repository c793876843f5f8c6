import EntitySchema.Cache
import EntitySchema.Compilation
import EntitySchema.Creature.Registry

/-! The commands: compiling the schemas into a module, fetching the schemas,
and printing the behavior of a creature. A command answers with its exit
code. -/
namespace EntitySchema.Command

open Disk (Path)

/-- Where the module is written unless another place is given. -/
def defaultOutput : String := "generated/entityComponents.ts"

/-- Finds the components of a root schema, printing the notices. -/
def components (source : Source) (rootSchema : String) : Shell (List Component) := do
  let (outcome, progress) := (Compilation.components source rootSchema).run {}
  Shell.printAll progress.notices
  Action.ofExcept (outcome.mapError .schema)

/-- Compiles a root schema and writes the module. The answer is the number of
components. Nothing is written before all components are found. -/
def write (folder : Path) (rootSchema : String) (output : Path) : Shell Nat := do
  Shell.print ("Compiling " ++ rootSchema)
  let found ← components ⟨← Shell.disk, folder⟩ rootSchema
  let text := TypeModule.render { rootSchema := rootSchema } found
  Shell.ensureDirectories output.parent
  Shell.writeFile output text.toUTF8
  Shell.print
    ("Generated " ++ output.toString ++ " (" ++ toString found.length ++ " entity components)")
  pure found.length

/-- Reports a fault of the schema; other failures end the command. -/
def reportFault (failure : Failure) : Shell Nat :=
  match failure with
  | .schema fault =>
    if fault.isSchemaFault then do
      Shell.printError ("Error compiling " ++ Repository.rootSchema ++ ": " ++ fault.message)
      pure 1
    else Action.fail failure
  | other => Action.fail other

/-- Writes the module and reports faults of the schema as errors. -/
def compileInto (folder output : Path) : Shell Nat :=
  (do
    let _ ← write folder Repository.rootSchema output
    Shell.print "Compilation complete!"
    pure 0 : Shell Nat).orElse reportFault

/-- The compiler: an output file and a schema folder, both of which may be left
out. Without a folder the pinned schemas are fetched first. -/
def compile (answer : Cache.Answer) (args : List String) : Shell Nat := do
  match args with
  | [output, folder] =>
    let folder := Path.ofString folder
    if (← Shell.disk).isDirectory folder then compileInto folder (Path.ofString output)
    else
      Shell.print ("Schema folder " ++ folder.toString ++ " does not exist")
      pure 1
  | [] | [_] =>
    let ready ←
      Cache.ensure answer Cache.defaultDirectory Repository.fullName Repository.revision
    if ready then
      compileInto (Path.ofString Cache.defaultDirectory)
        (Path.ofString (args.headD defaultOutput))
    else pure 1
  | _ =>
    Shell.print "Usage: python schema_compiler.py [output_file] [schema_folder]"
    pure 1

/-- The downloader, which ends at once with code 1 when it fails. -/
def download (answer : Cache.Answer) : Shell Unit := do
  let ready ← Cache.ensure answer Cache.defaultDirectory Repository.fullName Repository.revision
  if ready then pure () else Action.fail (.exit 1)

/-- A name and one or two elements. -/
def nameAndTypes? : List String → Option (String × Creature.Types)
  | [name, primary] => some (name, { primary := primary })
  | [name, primary, secondary] => some (name, { primary := primary, secondary := some secondary })
  | _ => none

/-- The behavior of a creature: its name and one or two elements. -/
def behavior (args : List String) : Shell Nat := do
  match nameAndTypes? args with
  | none =>
    Shell.print "Usage: python behaviors.py <name> <primary_type> [secondary_type]"
    pure 1
  | some (name, types) =>
    match Creature.Registry.behavior? name types with
    | .error fault =>
      Shell.printError ("Error: " ++ fault.message)
      pure 1
    | .ok none =>
      Shell.print ("Unknown Pokemon: " ++ name)
      pure 1
    | .ok (some found) =>
      Shell.print (found.toJson.renderIndented "")
      pure 0

end EntitySchema.Command
