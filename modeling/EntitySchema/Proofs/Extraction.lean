import EntitySchema.Archive
import EntitySchema.Proofs.DiskTree

/-! What unpacking does to a disk. An entry that is taken goes to a place
strictly below the root, whatever its name says; for it that one file is
written and directories on the way are made, and other entries leave no trace.
Nothing else changes, also when unpacking stops in the middle. When it goes
through, what stands at a place is told by the entries alone: the last file
that goes there, or a directory where one was needed. -/
namespace EntitySchema.Extraction
open Archive DiskFrame DiskTree
open Disk (Place Path Entry below)

variable {root place room : Place} {shown top : String} {member : Member}
  {rest members : List Member} {before middle after : Disk} {host reached : Host}

/-- The entries of an archive, as far as they can be read. -/
def packed : Archive → List Member
  | .entries members | .cut members _ => members

/-- Where an entry goes, if that is strictly below the root. -/
def target? (root : Place) (top : String) (member : Member) : Option Place :=
  ((relative? top.toList member.path).map (destination root)).filter fun place => below root place

/-- Where an entry is written as a file. -/
def file? (root : Place) (top : String) (member : Member) : Option Place :=
  match member.kind with
  | .file => target? root top member
  | _ => none

/-- The directory that an entry needs, with all those above it. -/
def room? (root : Place) (top : String) (member : Member) : Option Place :=
  match member.kind with
  | .directory => target? root top member
  | .file => (target? root top member).map List.dropLast
  | .other => none

section Targets

private theorem target_below (plain : ".." ∉ root) (found : target? root top member = some place) :
    ".." ∉ place ∧ below root place = true := by
  obtain ⟨mapped, inside⟩ := Option.filter_eq_some_iff.mp found
  obtain ⟨relative, _, rfl⟩ := Option.map_eq_some_iff.mp mapped
  exact ⟨textual_plain plain _, inside⟩

theorem file_target (found : file? root top member = some place) :
    member.kind = .file ∧ target? root top member = some place ∧
      room? root top member = some place.dropLast := by
  unfold file? at found
  split at found
  · rename_i kind
    exact ⟨kind, found, by simp [room?, kind, found]⟩
  · cases found

theorem room_target (found : room? root top member = some room) :
    member.kind ≠ .other ∧ ∃ target, target? root top member = some target ∧ room <+: target := by
  unfold room? at found
  split at found
  · rename_i kind
    exact ⟨by simp [kind], room, found, List.prefix_refl room⟩
  · rename_i kind
    obtain ⟨target, goes, rfl⟩ := Option.map_eq_some_iff.mp found
    exact ⟨by simp [kind], target, goes, List.dropLast_prefix target⟩
  · cases found

private theorem room_below (plain : ".." ∉ root) (found : room? root top member = some room) :
    ".." ∉ room ∧ root <+: room := by
  unfold room? at found
  split at found
  · obtain ⟨clean, inside⟩ := target_below plain found
    exact ⟨clean, (below_iff.mp inside).1⟩
  · obtain ⟨target, goes, rfl⟩ := Option.map_eq_some_iff.mp found
    obtain ⟨clean, inside⟩ := target_below plain goes
    obtain ⟨⟨further, rfl⟩, apart⟩ := below_iff.mp inside
    have deeper : further ≠ [] := by
      rintro rfl
      exact apart (List.append_nil root).symm
    refine ⟨fun held => clean (List.dropLast_subset _ held), ?_⟩
    rw [List.dropLast_append_of_ne_nil deeper]
    exact List.prefix_append _ _
  · cases found

end Targets

/-- What unpacking one entry can come to: nothing is made for it, its name is
refused, its directory cannot be made or is all that is made, or the file is
refused or written. -/
inductive Extracts (root : Place) (top : String) (member : Member) (before : Disk) :
    Except Failure Bool → Disk → Prop where
  | passed (bare : room? root top member = none) (unfiled : file? root top member = none) :
    Extracts root top member before (.ok false) before
  | unnamed : Extracts root top member before (.error (.disk .zeroCharacter)) before
  | blocked {room : Place} {fault : Disk.Fault} {after : Disk}
    (roomed : room? root top member = some room)
    (ran : (Disk.ensureDirectories ⟨1, room⟩).run before = (.error fault, after)) :
    Extracts root top member before (.error (.disk fault)) after
  | opened {room : Place} {after : Disk} (roomed : room? root top member = some room)
    (unfiled : file? root top member = none)
    (ran : (Disk.ensureDirectories ⟨1, room⟩).run before = (.ok (), after)) :
    Extracts root top member before (.ok false) after
  | unwritten {room : Place} {fault : Disk.Fault} {after : Disk}
    (roomed : room? root top member = some room)
    (ran : (Disk.ensureDirectories ⟨1, room⟩).run before = (.ok (), after)) :
    Extracts root top member before (.error (.disk fault)) after
  | written {place : Place} {middle after : Disk} (filed : file? root top member = some place)
    (ran : (Disk.ensureDirectories ⟨1, place.dropLast⟩).run before = (.ok (), middle))
    (wrote : (Disk.write ⟨1, place⟩ member.content).run middle = (.ok (), after)) :
    Extracts root top member before (.ok true) after

theorem extractMember_extracts {outcome : Except Failure Bool}
    (ran : (extractMember root shown top member).run host = (outcome, reached)) :
    Extracts root top member host.disk outcome reached.disk := by
  have nothing (nowhere : target? root top member = none) :
      Extracts root top member host.disk (.ok false) host.disk := by
    refine .passed ?_ ?_
    · cases kind : member.kind <;> simp [room?, kind, nowhere]
    · cases kind : member.kind <;> simp [file?, kind, nowhere]
  unfold extractMember at ran
  split at ran
  · rename_i unnamed
    cases ran
    exact nothing (by simp [target?, unnamed])
  · rename_i relative named
    simp only at ran
    split at ran
    · cases ran
      exact .unnamed
    · split at ran
      · rename_i escapes
        cases ran
        exact nothing (by simpa [target?, named] using escapes)
      · rename_i inside
        have goes : target? root top member = some (destination root relative) := by
          simpa [target?, named] using inside
        split at ran
        · rename_i kind
          have roomed : room? root top member = some (destination root relative) := by
            simp [room?, kind, goes]
          have unfiled : file? root top member = none := by simp [file?, kind]
          simp only [Shell.ensureDirectories, Action.run_bind, Shell.run_onDisk] at ran
          rcases made : (Disk.ensureDirectories ⟨1, destination root relative⟩).run host.disk with
            ⟨answer, opened⟩
          rw [made] at ran
          cases answer with
          | error fault =>
            cases ran
            exact .blocked roomed made
          | ok _ =>
            cases ran
            exact .opened roomed unfiled made
        · rename_i kind
          have filed : file? root top member = some (destination root relative) := by
            simp [file?, kind, goes]
          have roomed := (file_target filed).2.2
          simp only [Shell.ensureDirectories, Shell.writeFile, Action.run_bind,
            Shell.run_onDisk] at ran
          rcases made : (Disk.ensureDirectories ⟨1, (destination root relative).dropLast⟩).run
            host.disk with ⟨answer, opened⟩
          rw [made] at ran
          cases answer with
          | error fault =>
            cases ran
            exact .blocked roomed made
          | ok _ =>
            simp only [Except.mapError] at ran
            rcases wrote : (Disk.write ⟨1, destination root relative⟩ member.content).run opened
              with ⟨answer, written⟩
            rw [wrote] at ran
            cases answer with
            | error fault =>
              cases ran
              rw [write_refused wrote]
              exact .unwritten roomed made
            | ok _ =>
              cases ran
              exact .written filed made wrote
        · rename_i kind
          cases ran
          exact .passed (by simp [room?, kind]) (by simp [file?, kind])

/-- Nothing differs between two disks but new directories that entries need, and
files that hold the content of an entry that goes there. -/
structure Unpacks (root : Place) (top : String) (members : List Member) (before after : Disk) :
    Prop where
  current : after.current = before.current
  found (place : Place) : after.find? place = before.find? place ∨
    (before.find? place = none ∧ after.find? place = some .directory ∧
      ∃ member ∈ members, ∃ room, room? root top member = some room ∧ place <+: room) ∨
    (before.find? place ≠ some .directory ∧ ∃ member ∈ members,
      file? root top member = some place ∧ after.find? place = some (.file member.content))

section Frame

private theorem unpacks_refl (disk : Disk) : Unpacks root top members disk disk :=
  ⟨rfl, fun _ => .inl rfl⟩

private theorem unpacks_mono {more : List Member} (unpacks : Unpacks root top members before after)
    (included : members ⊆ more) : Unpacks root top more before after := by
  refine ⟨unpacks.current, fun place => (unpacks.found place).imp_right (Or.imp ?_ ?_)⟩
  · rintro ⟨absent, made, member, listed, needed⟩
    exact ⟨absent, made, member, included listed, needed⟩
  · rintro ⟨free, member, listed, written⟩
    exact ⟨free, member, included listed, written⟩

private theorem unpacks_trans (early : Unpacks root top members before middle)
    (late : Unpacks root top members middle after) : Unpacks root top members before after := by
  refine ⟨late.current.trans early.current, fun place => ?_⟩
  rcases late.found place with kept | ⟨absent, made, needed⟩ | ⟨free, written⟩
  · rw [kept]
    exact early.found place
  · rcases early.found place with same | ⟨_, present, _⟩ | ⟨_, _, _, _, present⟩
    · exact .inr (.inl ⟨same ▸ absent, made, needed⟩)
    · rw [present] at absent
      cases absent
    · rw [present] at absent
      cases absent
  · rcases early.found place with same | ⟨_, present, _⟩ | ⟨vacant, _⟩
    · exact .inr (.inr ⟨same ▸ free, written⟩)
    · exact absurd present free
    · exact .inr (.inr ⟨vacant, written⟩)

private theorem furnished_unpacks (plain : ".." ∉ room) (roomed : room? root top member = some room)
    {answer : Except Disk.Fault Unit}
    (ran : (Disk.ensureDirectories ⟨1, room⟩).run before = (answer, after)) :
    Unpacks root top [member] before after := by
  have furnished := ensureDirectories_furnishes ⟨1, room⟩ before
  rw [ran] at furnished
  refine ⟨furnished.current, fun place => (furnished.found place).imp_right ?_⟩
  rintro ⟨absent, made, led⟩
  have above := leading_above plain led
  rw [resolve_place plain] at above
  exact .inl ⟨absent, made, member, List.mem_singleton_self _, room, roomed, above⟩

/-- A file was written at a place, and nothing else was done. -/
private theorem write_place {content : ByteArray} (plain : ".." ∉ place)
    (wrote : (Disk.write ⟨1, place⟩ content).run middle = (.ok (), after)) :
    middle.find? place ≠ some .directory ∧ after.current = middle.current ∧
      ∀ other, after.find? other = if other = place then some (.file content)
        else middle.find? other := by
  obtain ⟨passed, rfl, _⟩ := write_ran wrote
  rw [resolve_place plain] at passed ⊢
  have named : place ≠ [] := by
    rintro rfl
    exact passed rfl
  exact ⟨passed, rfl, find_set middle _ named⟩

theorem extracts_unpacks {outcome : Except Failure Bool} (plain : ".." ∉ root)
    (extracts : Extracts root top member before outcome after) :
    Unpacks root top [member] before after := by
  cases extracts with
  | passed => exact unpacks_refl _
  | unnamed => exact unpacks_refl _
  | blocked roomed ran => exact furnished_unpacks (room_below plain roomed).1 roomed ran
  | opened roomed _ ran => exact furnished_unpacks (room_below plain roomed).1 roomed ran
  | unwritten roomed ran => exact furnished_unpacks (room_below plain roomed).1 roomed ran
  | @written target middle _ filed ran wrote =>
    obtain ⟨_, goes, roomed⟩ := file_target filed
    have early := furnished_unpacks (room_below plain roomed).1 roomed ran
    obtain ⟨passed, current, found⟩ := write_place (target_below plain goes).1 wrote
    refine unpacks_trans early ⟨current, fun place => ?_⟩
    rw [found]
    split
    · rename_i here
      subst here
      exact .inr (.inr ⟨passed, member, List.mem_singleton_self _, filed, rfl⟩)
    · exact .inl rfl

/-- Unpacking several entries is unpacking the first and then the others, unless
it stops at the first. -/
private theorem extractAll_step {outcome : Except Failure Nat}
    (ran : (extractAll root shown top (member :: rest)).run host = (outcome, reached)) :
    (∃ failure, outcome = .error failure ∧
      (extractMember root shown top member).run host = (.error failure, reached)) ∨
    ∃ written next answer, (extractMember root shown top member).run host = (.ok written, next) ∧
      (extractAll root shown top rest).run next = (answer, reached) ∧
      outcome = answer.map fun count => if written then count + 1 else count := by
  simp only [extractAll, Action.run_bind] at ran
  rcases first : (extractMember root shown top member).run host with ⟨answer, next⟩
  rw [first] at ran
  cases answer with
  | error failure =>
    cases ran
    exact .inl ⟨failure, rfl, rfl⟩
  | ok written =>
    refine .inr ⟨written, next, ((extractAll root shown top rest).run next).1, rfl, ?_⟩
    simp only at ran
    rcases second : (extractAll root shown top rest).run next with ⟨answer, last⟩
    rw [second] at ran
    cases answer with
    | error failure =>
      cases ran
      exact ⟨rfl, rfl⟩
    | ok count =>
      cases ran
      exact ⟨rfl, rfl⟩

/-- However unpacking ends, it did nothing but what its entries ask for. -/
theorem extractAll_unpacks {outcome : Except Failure Nat} (plain : ".." ∉ root)
    (ran : (extractAll root shown top members).run host = (outcome, reached)) :
    Unpacks root top members host.disk reached.disk := by
  induction members generalizing host outcome with
  | nil =>
    cases ran
    exact unpacks_refl _
  | cons member rest ih =>
    have alone : [member] ⊆ member :: rest := by simp
    obtain ⟨failure, _, first⟩ | ⟨written, next, answer, first, later, _⟩ := extractAll_step ran
    · exact unpacks_mono (extracts_unpacks plain (extractMember_extracts first)) alone
    · have early := unpacks_mono (extracts_unpacks plain (extractMember_extracts first)) alone
      exact unpacks_trans early (unpacks_mono (ih later) (List.subset_cons_self _ _))

theorem extract_unpacks {archive : Archive} {directory : Path} {outcome : Except Failure Nat}
    (plain : ".." ∉ host.disk.current)
    (ran : (archive.extract directory shown top).run host = (outcome, reached)) :
    Unpacks (host.disk.resolve directory) top (packed archive) host.disk reached.disk := by
  unfold Archive.extract at ran
  split at ran
  · cases ran
    exact unpacks_refl _
  · simp only [Shell.disk, Action.run_bind, Action.run_state, Action.run_pure] at ran
    cases archive with
    | entries members => exact extractAll_unpacks (resolve_plain plain directory) ran
    | cut members damage =>
      simp only [Action.run_bind] at ran
      rcases unpacked : (extractAll (host.disk.resolve directory) shown top members).run host
        with ⟨answer, stopped⟩
      have unpacks := extractAll_unpacks (resolve_plain plain directory) unpacked
      rw [unpacked] at ran
      cases answer with
      | error failure =>
        cases ran
        exact unpacks
      | ok count =>
        cases ran
        exact unpacks

end Frame

/-- What stands at a place once all entries are unpacked, if they are what put it
there: the content of the last file that goes there, or else a directory that
some entry needs. -/
def unpacked (root : Place) (top : String) (members : List Member) (place : Place) :
    Option Entry :=
  match (members.filter fun member => file? root top member = some place).getLast? with
  | some member => some (.file member.content)
  | none =>
    if members.any fun member => (room? root top member).any fun room => place.isPrefixOf room then
      some .directory
    else none

section Results

private theorem unpacked_single (place : Place) :
    unpacked root top [member] place =
      if file? root top member = some place then some (.file member.content)
      else if (room? root top member).any fun room => place.isPrefixOf room then some .directory
      else none := by
  unfold unpacked
  by_cases filed : file? root top member = some place <;> simp [filed]

/-- The entries after the first decide, and the first where they leave nothing. -/
private theorem unpacked_cons {place : Place}
    (apart : file? root top member = some place → unpacked root top rest place ≠ some .directory) :
    unpacked root top (member :: rest) place =
      (unpacked root top rest place).or (unpacked root top [member] place) := by
  rw [unpacked_single]
  unfold unpacked at apart ⊢
  cases later : (rest.filter fun member => file? root top member = some place).getLast? with
  | some last =>
    have kept : ((member :: rest).filter fun member =>
        file? root top member = some place).getLast? = some last := by
      rw [List.filter_cons]
      split
      · rw [List.getLast?_cons, later]
        rfl
      · exact later
    simp [kept]
  | none =>
    simp only [later] at apart
    have empty := List.getLast?_eq_none_iff.mp later
    by_cases filed : file? root top member = some place
    · have vacant := apart filed
      simp only [List.filter_cons, filed, decide_true, ↓reduceIte, empty, List.getLast?_singleton]
      split at vacant
      · exact absurd rfl vacant
      · rename_i unneeded
        simp [unneeded]
    · simp only [List.filter_cons, filed, decide_false, Bool.false_eq_true, ↓reduceIte, later,
        List.any_cons, Bool.or_eq_true]
      by_cases needed : (rest.any fun member =>
        (room? root top member).any fun room => place.isPrefixOf room) = true
      · simp [needed]
      · simp [needed]

/-- What one entry leaves on the disk when it is unpacked. -/
private theorem extracts_found {written : Bool} (plain : ".." ∉ root)
    (extracts : Extracts root top member before (.ok written) after) :
    written = (file? root top member).isSome ∧
      ∀ place, after.find? place = (unpacked root top [member] place).or (before.find? place) := by
  cases extracts with
  | passed bare unfiled => simp [unpacked_single, bare, unfiled]
  | @opened room _ roomed unfiled ran =>
    refine ⟨by simp [unfiled], fun place => ?_⟩
    rw [unpacked_single, ensured_place (room_below plain roomed).1 ran]
    by_cases above : place <+: room <;> simp [roomed, unfiled, above]
  | @written target middle _ filed ran wrote =>
    obtain ⟨_, goes, roomed⟩ := file_target filed
    obtain ⟨_, _, found⟩ := write_place (target_below plain goes).1 wrote
    refine ⟨by simp [filed], fun place => ?_⟩
    rw [unpacked_single, found, ensured_place (room_below plain roomed).1 ran]
    by_cases here : place = target
    · simp [filed, here]
    · by_cases above : place <+: target.dropLast <;>
        simp [filed, roomed, here, above, Ne.symm here]

/-- Where a file stands, unpacking makes no directory. -/
private theorem file_stays {content : ByteArray} {outcome : Except Failure Nat}
    (plain : ".." ∉ root)
    (ran : (extractAll root shown top members).run host = (outcome, reached))
    (held : host.disk.find? place = some (.file content)) :
    reached.disk.find? place ≠ some .directory := by
  rcases (extractAll_unpacks plain ran).found place with kept | ⟨absent, _⟩ | ⟨_, _, _, _, present⟩
  · simp [kept, held]
  · simp [held] at absent
  · simp [present]

/-- When all entries are unpacked, every place holds what they say, or what it
held before where they say nothing; and the files that are counted are those
that go below the root. -/
theorem extractAll_found {count : Nat} (plain : ".." ∉ root)
    (ran : (extractAll root shown top members).run host = (.ok count, reached)) :
    count = members.countP (fun member => (file? root top member).isSome) ∧
      ∀ place, reached.disk.find? place =
        (unpacked root top members place).or (host.disk.find? place) := by
  induction members generalizing host count with
  | nil =>
    cases ran
    exact ⟨rfl, fun place => by simp [unpacked]⟩
  | cons member rest ih =>
    obtain ⟨_, failed, _⟩ | ⟨written, next, answer, first, later, counted⟩ := extractAll_step ran
    · cases failed
    · cases answer with
      | error failure => cases counted
      | ok others =>
        obtain ⟨rfl, found⟩ := ih later
        obtain ⟨rfl, early⟩ := extracts_found plain (extractMember_extracts first)
        refine ⟨?_, fun place => ?_⟩
        · cases counted
          rw [List.countP_cons]
          split <;> rfl
        · -- The others need no directory where the first put a file: there they would have failed.
          have apart (filed : file? root top member = some place) :
              unpacked root top rest place ≠ some .directory := by
            intro needed
            have here : next.disk.find? place = some (.file member.content) := by
              rw [early, unpacked_single, if_pos filed, Option.some_or]
            refine file_stays plain later here ?_
            rw [found, needed, Option.some_or]
          rw [found, early, unpacked_cons apart, Option.or_assoc]

/-- An archive that is unpacked to its end came as a whole. -/
theorem extract_found {archive : Archive} {directory : Path} {count : Nat}
    (plain : ".." ∉ host.disk.current)
    (ran : (archive.extract directory shown top).run host = (.ok count, reached)) :
    directory.hasZero = false ∧ ∃ members, archive = .entries members ∧
      count = members.countP
        (fun member => (file? (host.disk.resolve directory) top member).isSome) ∧
      ∀ place, reached.disk.find? place =
        (unpacked (host.disk.resolve directory) top members place).or (host.disk.find? place) := by
  unfold Archive.extract at ran
  split at ran
  · cases ran
  · rename_i clean
    refine ⟨Bool.eq_false_iff.mpr clean, ?_⟩
    simp only [Shell.disk, Action.run_bind, Action.run_state, Action.run_pure] at ran
    cases archive with
    | entries members => exact ⟨members, rfl, extractAll_found (resolve_plain plain directory) ran⟩
    | cut members damage =>
      simp only [Action.run_bind] at ran
      split at ran <;> cases ran

end Results

/-- Changes that keep to a directory. Outside of it nothing differs but that the
directory and those above it may have been made. Below it nothing is taken away
either: where something differs there is a new directory, or a file with the
content of an entry that is a file and goes there. -/
structure Contained (root : Place) (top : String) (members : List Member) (before after : Disk) :
    Prop where
  outside (place : Place) : below root place = false → after.find? place = before.find? place ∨
    (before.find? place = none ∧ after.find? place = some .directory ∧ place <+: root)
  inside (place : Place) : below root place = true → after.find? place = before.find? place ∨
    (before.find? place = none ∧ after.find? place = some .directory) ∨
    (before.find? place ≠ some .directory ∧ ∃ member ∈ members, member.kind = .file ∧
      target? root top member = some place ∧ after.find? place = some (.file member.content))

private theorem unpacks_contained (plain : ".." ∉ root)
    (unpacks : Unpacks root top members before after) :
    Contained root top members before after := by
  constructor
  · intro place outside
    rcases unpacks.found place with kept | ⟨absent, made, member, _, room, roomed, above⟩ |
      ⟨_, member, _, filed, _⟩
    · exact .inl kept
    · -- Both the root and the place lie on the way to the directory that is needed.
      refine .inr ⟨absent, made, ?_⟩
      rcases List.prefix_or_prefix_of_prefix above (room_below plain roomed).2 with higher | lower
      · exact higher
      · by_cases same : root = place
        · exact same ▸ List.prefix_refl _
        · rw [below_iff.mpr ⟨lower, same⟩] at outside
          cases outside
    · rw [(target_below plain (file_target filed).2.1).2] at outside
      cases outside
  · intro place _
    rcases unpacks.found place with kept | ⟨absent, made, _⟩ | ⟨free, member, listed, filed, held⟩
    · exact .inl kept
    · exact .inr (.inl ⟨absent, made⟩)
    · obtain ⟨kind, goes, _⟩ := file_target filed
      exact .inr (.inr ⟨free, member, listed, kind, goes, held⟩)

/-- **Unpacking stays inside its directory.** For every archive, every prefix and
every directory, and whether unpacking goes through or stops in the middle: files
are written strictly below the directory only, directories are made there, at it
and above it only, and nothing else is made, changed or removed. Entries that
are neither directories nor files leave nothing behind. -/
theorem extraction_contained (archive : Archive) (directory : Path) (shown top : String)
    (host : Host) (plain : ".." ∉ host.disk.current) :
    Contained (host.disk.resolve directory) top (packed archive) host.disk
      ((archive.extract directory shown top).run host).2.disk := by
  rcases ran : (archive.extract directory shown top).run host with ⟨outcome, reached⟩
  exact unpacks_contained (resolve_plain plain directory) (extract_unpacks plain ran)

/-- A link and two files that leave the directory, one of them by a name that is
absolute behind the prefix, and a file that comes back into it. -/
def wayward : List Member :=
  [{ name := "p/l", kind := .other }, { name := "p/../x" }, { name := "p///a/../../../y" },
    { name := "p/b/../../r/c" }]

def waywardHost : Host :=
  { disk := { entries := [(["w"], .directory)], current := ["w"] } }

/-- Only the last file is written, although the directory was not there. -/
theorem extraction_contained_wayward :
    let run := ((Archive.entries wayward).extract ⟨0, ["r"]⟩ "r" "p").run waywardHost
    ".." ∉ waywardHost.disk.current ∧
      run.1 = .ok 1 ∧ run.2.disk.entries = [(["w", "r", "c"], .file ByteArray.empty),
        (["w", "r"], .directory), (["w"], .directory)] ∧
      Contained ["w", "r"] "p" wayward waywardHost.disk run.2.disk := by
  have plain : ".." ∉ waywardHost.disk.current := by decide
  refine ⟨plain, by decide +kernel, by decide +kernel, ?_⟩
  exact extraction_contained (.entries wayward) ⟨0, ["r"]⟩ "r" "p" waywardHost plain

end EntitySchema.Extraction
