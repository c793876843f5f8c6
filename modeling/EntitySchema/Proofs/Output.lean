import EntitySchema.Command
import EntitySchema.Proofs.Dependence
import EntitySchema.Proofs.DiskFrame

/-! A module is written as a whole or not at all. Nothing touches the disk until
all components are found, so a compilation that fails leaves the disk as it
was. One that succeeds writes the text that compiling the same schemas gives,
and makes the directories on the way to it; this holds also when the output
stands among the schemas or replaces one of them, since they are read before. -/
namespace EntitySchema.Output
open Compilation DiskFrame
open Disk (Path)

variable {host reached : Host} {folder output : Path} {rootSchema : String} {fault : Fault}
  {progress : Progress} {source : Source}

/-- What is on the screen once the components were looked for. -/
def announced (host : Host) (rootSchema : String) (progress : Progress) : Host :=
  { host with output := host.output ++ ["Compiling " ++ rootSchema] ++ progress.notices }

/-- Writing looks for the components on the disk as it is, and goes on only when
it has them. -/
theorem write_run (host : Host) (folder : Path) (rootSchema : String) (output : Path) :
    (Command.write folder rootSchema output).run host =
      match (components ⟨host.disk, folder⟩ rootSchema).run {} with
      | (.error fault, progress) => (.error (.schema fault), announced host rootSchema progress)
      | (.ok found, progress) =>
        (do
          Shell.ensureDirectories output.parent
          Shell.writeFile output (TypeModule.render { rootSchema := rootSchema } found).toUTF8
          Shell.print ("Generated " ++ output.toString ++ " (" ++ toString found.length ++
            " entity components)")
          pure found.length : Shell Nat).run (announced host rootSchema progress) := by
  unfold Command.write Command.components
  rcases found : (components ⟨host.disk, folder⟩ rootSchema).run {} with ⟨outcome, progress⟩
  simp only [Shell.print, Shell.disk, Shell.printAll, Action.run_bind, Action.run_update,
    Action.run_state, Action.run_pure, found, Action.run_ofExcept]
  cases outcome with
  | error fault => rfl
  | ok components => rfl

/-- A module that was written: nothing else was changed, and its text is what
compiling gives on the disk as it was before. -/
def Delivers (source : Source) (rootSchema : String) (output : Path) (after : Disk) : Prop :=
  ∃ text, ((compile source rootSchema { rootSchema := rootSchema }).run {}).1 = .ok text ∧
    Writes output text.toUTF8 source.disk after

/-- Once the components are found, their module is written unless the disk
refuses it. -/
theorem write_found {found : List Component} {outcome : Except Failure Nat}
    (listed : (components ⟨host.disk, folder⟩ rootSchema).run {} = (.ok found, progress))
    (ran : (Command.write folder rootSchema output).run host = (outcome, reached)) :
    (∃ refused, outcome = .error (.disk refused)) ∨
      outcome = .ok found.length ∧ Delivers ⟨host.disk, folder⟩ rootSchema output reached.disk := by
  have furnished := ensureDirectories_furnishes output.parent host.disk
  rw [write_run, listed] at ran
  simp only [Shell.ensureDirectories, Shell.writeFile, Shell.print, Action.run_bind,
    Shell.run_onDisk, Action.run_update, Action.run_pure, announced] at ran
  rcases made : (Disk.ensureDirectories output.parent).run host.disk with ⟨answer, middle⟩
  rw [made] at ran furnished
  cases answer with
  | error refused =>
    cases ran
    exact .inl ⟨refused, rfl⟩
  | ok _ =>
    simp only [Except.mapError] at ran
    generalize text : TypeModule.render { rootSchema := rootSchema } found = module at ran
    rcases wrote : (Disk.write output module.toUTF8).run middle with ⟨result, after⟩
    rw [wrote] at ran
    cases result with
    | error refused =>
      cases ran
      exact .inl ⟨refused, rfl⟩
    | ok _ =>
      cases ran
      refine .inr ⟨rfl, module, ?_, writes_after furnished wrote⟩
      rw [run_compile, listed]
      exact congrArg Except.ok text

/-- A successful write has found the components and written their module. -/
theorem write_delivers {count : Nat}
    (ran : (Command.write folder rootSchema output).run host = (.ok count, reached)) :
    ∃ found progress, (components ⟨host.disk, folder⟩ rootSchema).run {} = (.ok found, progress) ∧
      count = found.length ∧ Delivers ⟨host.disk, folder⟩ rootSchema output reached.disk := by
  rcases listed : (components ⟨host.disk, folder⟩ rootSchema).run {} with ⟨outcome, progress⟩
  cases outcome with
  | error fault =>
    rw [write_run, listed] at ran
    cases ran
  | ok found =>
    obtain ⟨refused, failed⟩ | ⟨counted, delivered⟩ := write_found listed ran
    · cases failed
    · cases counted
      exact ⟨found, progress, rfl, rfl, delivered⟩

/-- There is one component for each entry under `properties` of the root schema,
which is read from its file. -/
theorem components_length {found : List Component}
    (ran : (components source rootSchema).run {} = (.ok found, progress)) :
    ∃ root, source.document (Location.normalize rootSchema) = .ok root ∧
      found.length = ((declared? root).getD []).length := by
  simp only [components, Action.run_bind, run_onStore] at ran
  rcases opened : (Store.context source rootSchema).run {} with ⟨outcome, middle⟩
  have answered := (StoreView.context_ran opened).1
  rw [NormalPath.normalize_settles] at answered
  change outcome = (source.document (Location.normalize rootSchema)).map _ at answered
  rw [opened] at ran
  cases read : source.document (Location.normalize rootSchema) with
  | error fault =>
    rw [read] at answered
    subst answered
    cases ran
  | ok root =>
    rw [read] at answered
    subst answered
    refine ⟨root, rfl, ?_⟩
    simp only [Except.map] at ran
    cases declares : declared? root with
    | none =>
      rw [declares] at ran
      cases ran
      rfl
    | some properties =>
      rw [declares] at ran
      exact Action.each_length ran

/-- The command writes into a folder that exists, and says how that went. -/
theorem compile_run (answer : Cache.Answer) (output folder : String) (host : Host) :
    (Command.compile answer [output, folder]).run host =
      if host.disk.isDirectory (Path.ofString folder) then
        match (Command.write (Path.ofString folder) Repository.rootSchema
          (Path.ofString output)).run host with
        | (.ok _, reached) =>
          (.ok 0, { reached with output := reached.output ++ ["Compilation complete!"] })
        | (.error failure, reached) => (Command.reportFault failure).run reached
      else
        (.ok 1, { host with output := host.output ++
          ["Schema folder " ++ (Path.ofString folder).toString ++ " does not exist"] }) := by
  simp only [Command.compile, Shell.disk, Action.run_bind, Action.run_state, Action.run_pure]
  split
  · simp only [Command.compileInto, Action.run_orElse, Action.run_bind, Shell.print,
      Action.run_update, Action.run_pure]
    rcases (Command.write (Path.ofString folder) Repository.rootSchema
      (Path.ofString output)).run host with ⟨outcome, reached⟩
    cases outcome with
    | error failure => rfl
    | ok count => rfl
  · rfl

/-- A fault of the schemas is reported with code 1, and any other ends the
command; the disk is left alone. -/
theorem compile_refused {answer : Cache.Answer} {output folder : String}
    (present : host.disk.isDirectory (Path.ofString folder) = true)
    (failed : (components ⟨host.disk, Path.ofString folder⟩ Repository.rootSchema).run {} =
      (.error fault, progress)) :
    (Command.compile answer [output, folder]).run host =
      if fault.isSchemaFault then
        (.ok 1, { announced host Repository.rootSchema progress with
          errors := host.errors ++
            ["Error compiling " ++ Repository.rootSchema ++ ": " ++ fault.message] })
      else (.error (.schema fault), announced host Repository.rootSchema progress) := by
  rw [compile_run, if_pos present, write_run, failed]
  simp only [Command.reportFault]
  split
  · rfl
  · rfl

/-- **A failed compilation leaves no trace, and a successful one writes exactly
what compiling gives.** For writing and for the command alike: when the
components cannot be found, the disk is as before, and the command answers with
code 1 if the fault is one of the schemas. When the module is written, the
output file holds the text that compiling gives on the disk as it was, missing
directories on the way to it were made, and nothing else differs; the number
returned is that of the entries under `properties` of the root schema. -/
theorem write_all_or_nothing (host : Host) :
    (∀ folder rootSchema output outcome reached,
      (Command.write folder rootSchema output).run host = (outcome, reached) →
      (∀ fault progress,
        (components ⟨host.disk, folder⟩ rootSchema).run {} = (.error fault, progress) →
        outcome = .error (.schema fault) ∧ reached.disk = host.disk) ∧
      ∀ count, outcome = .ok count →
        Delivers ⟨host.disk, folder⟩ rootSchema output reached.disk ∧
        ∃ root, Source.document ⟨host.disk, folder⟩ (Location.normalize rootSchema) = .ok root ∧
          count = ((declared? root).getD []).length) ∧
    ∀ answer output folder outcome reached,
      (Command.compile answer [output, folder]).run host = (outcome, reached) →
      if host.disk.isDirectory (Path.ofString folder) then
        (∀ fault progress,
          (components ⟨host.disk, Path.ofString folder⟩ Repository.rootSchema).run {} =
            (.error fault, progress) →
          reached.disk = host.disk ∧
            outcome = if fault.isSchemaFault then .ok 1 else .error (.schema fault)) ∧
        ∀ count written,
          (Command.write (Path.ofString folder) Repository.rootSchema (Path.ofString output)).run
            host = (.ok count, written) →
          outcome = .ok 0 ∧ Delivers ⟨host.disk, Path.ofString folder⟩ Repository.rootSchema
            (Path.ofString output) reached.disk
      else outcome = .ok 1 ∧ reached.disk = host.disk := by
  constructor
  · intro folder rootSchema output outcome reached ran
    constructor
    · intro fault progress failed
      rw [write_run, failed] at ran
      cases ran
      exact ⟨rfl, rfl⟩
    · rintro count rfl
      obtain ⟨found, progress, listed, counted, delivered⟩ := write_delivers ran
      obtain ⟨root, read, length⟩ := components_length listed
      exact ⟨delivered, root, read, counted.trans length⟩
  · intro answer output folder outcome reached ran
    split
    · rename_i present
      constructor
      · intro fault progress failed
        rw [compile_refused present failed] at ran
        split at ran
        · rename_i known
          cases ran
          exact ⟨rfl, by rw [if_pos known]⟩
        · rename_i unknown
          cases ran
          exact ⟨rfl, by rw [if_neg unknown]⟩
      · intro count written wrote
        obtain ⟨_, _, _, _, delivered⟩ := write_delivers wrote
        rw [compile_run, if_pos present, wrote] at ran
        cases ran
        exact ⟨rfl, delivered⟩
    · rename_i absent
      rw [compile_run, if_neg absent] at ran
      cases ran
      exact ⟨rfl, rfl⟩

theorem current_directory : Disk.isDirectory {} (Path.ofString ".") = true := by
  cbv

/-- On an empty disk there is no root schema. -/
theorem nothing_found :
    (components ⟨{}, Path.ofString "."⟩ Repository.rootSchema).run {} =
      (.error (.notFound Repository.rootSchema), {}) := by
  have normal : Location.normalize Repository.rootSchema = Repository.rootSchema := by
    decide +kernel
  have missing : Source.document ⟨{}, Path.ofString "."⟩ Repository.rootSchema =
      .error (.notFound Repository.rootSchema) := by
    decide +kernel
  simp only [components, Action.run_bind, run_onStore, Store.context, Store.load,
    Action.run_state, List.lookup_nil, Action.run_ofExcept, normal, missing]

/-- A module of one component goes into a directory that is made for it, and
without a root schema nothing is made. -/
theorem write_all_or_nothing_two_files :
    (∃ reached, (Command.write ⟨1, []⟩ "e" ⟨1, ["o", "m"]⟩).run
        { disk := Memoisation.twoFiles.disk } = (.ok 1, reached) ∧
      Delivers Memoisation.twoFiles "e" ⟨1, ["o", "m"]⟩ reached.disk) ∧
    ∃ reached, (Command.compile (.failed "") ["m", "."]).run { disk := {} } = (.ok 1, reached) ∧
      reached.disk = {} := by
  constructor
  · have made : (Disk.ensureDirectories ⟨1, ["o"]⟩).run Memoisation.twoFiles.disk =
        (.ok (), Memoisation.twoFiles.disk.set ["o"] .directory) := by cbv
    have wrote (content : ByteArray) :
        (Disk.write ⟨1, ["o", "m"]⟩ content).run
          (Memoisation.twoFiles.disk.set ["o"] .directory) = (.ok (),
            (Memoisation.twoFiles.disk.set ["o"] .directory).set ["o", "m"] (.file content)) := by
      cbv
    have found : (components ⟨Memoisation.twoFiles.disk, ⟨1, []⟩⟩ "e").run {} = _ :=
      Dependence.twoFiles_found
    have counted : ((Command.write ⟨1, []⟩ "e" ⟨1, ["o", "m"]⟩).run
        { disk := Memoisation.twoFiles.disk }).1 = .ok 1 := by
      rw [write_run, found]
      simp only [Shell.ensureDirectories, Shell.writeFile, Shell.print, Action.run_bind,
        Shell.run_onDisk, Action.run_update, Action.run_pure, announced, Path.parent,
        List.dropLast, made, wrote, Except.mapError, List.length]
    rcases ran : (Command.write ⟨1, []⟩ "e" ⟨1, ["o", "m"]⟩).run
      { disk := Memoisation.twoFiles.disk } with ⟨outcome, reached⟩
    rw [ran] at counted
    cases counted
    exact ⟨reached, rfl, (((write_all_or_nothing _).1 _ _ _ _ _ ran).2 1 rfl).1⟩
  · rcases ran : (Command.compile (.failed "") ["m", "."]).run { disk := {} } with
      ⟨outcome, reached⟩
    have told := (write_all_or_nothing { disk := {} }).2 _ _ _ _ _ ran
    rw [if_pos current_directory] at told
    obtain ⟨kept, answered⟩ := told.1 _ _ nothing_found
    cases answered
    exact ⟨reached, rfl, kept⟩

end EntitySchema.Output
