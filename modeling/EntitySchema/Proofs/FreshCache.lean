import EntitySchema.Proofs.CacheMarker

/-! What a copy holds once it was fetched. The directory is emptied first, so
nothing of an older copy is left: every place below it is told by the entries of
the archive, and by the marker that is written over whatever they put in its
place. -/
namespace EntitySchema.FreshCache
open Archive Cache DiskFrame DiskTree Extraction CacheMarker
open Disk (Place Path Entry below)

variable {answer : Answer} {path : Path} {repository revision : String} {place : Place}
  {host reached : Host}

/-- What stands at a place below the root of a complete copy. -/
def copied (root : Place) (top : String) (members : List Member) (place : Place) : Option Entry :=
  if place = root ++ [marker] then some (.file "ready".toUTF8)
  else unpacked root top members place

/-- What is said of a complete copy: how many entries are files that go below
its root. -/
def summary (root : Place) (top : String) (members : List Member) (path : Path) : String :=
  "Extracted " ++ toString (members.countP fun member => (file? root top member).isSome) ++
    " files into " ++ path.toString

/-- A directory that was removed and made again is empty, if nothing in it is
held. -/
private theorem reopened_empty {disk opened : Disk} (grounded : Grounded disk)
    (down : ".." ∉ path.names) (yields : Yields disk (disk.resolve path))
    (ran : (Disk.ensureDirectories path).run (disk.removeTree path) = (.ok (), opened))
    (inside : below (disk.resolve path) place = true) : opened.find? place = none := by
  rcases (reopened_found ran).2 place with kept | ⟨_, _, led⟩
  · obtain ⟨clean, short⟩ := locate_clean (directory_located (ensureDirectories_made ran)).1
    rw [kept]
    exact removeTree_clears grounded down clean short yields inside
  · obtain ⟨lower, apart⟩ := below_iff.mp inside
    have higher := leading_above down led
    exact absurd (lower.eq_of_length_le higher.length_le) apart

/-- A copy that was fetched holds what the entries of the archive say. -/
theorem fetched_found (grounded : Grounded host.disk) (down : ".." ∉ path.names)
    (yields : Yields host.disk (host.disk.resolve path))
    (ran : (fetch answer path repository revision).run host = (.ok true, reached)) :
    ∃ members name, answer = .answered 200 (.entries members) ∧
      repositoryName? repository = some name ∧
      (∀ place, below (host.disk.resolve path) place = true → reached.disk.find? place =
        copied (host.disk.resolve path) (archivePrefix name revision) members place) ∧
      reached.output.getLast? =
        some (summary (host.disk.resolve path) (archivePrefix name revision) members path) := by
  rw [fetch_run] at ran
  rcases made : (Disk.ensureDirectories path).run (host.disk.removeTree path) with
    ⟨answered, opened⟩
  rw [made] at ran
  cases answered with
  | error fault => cases ran
  | ok _ =>
    obtain ⟨current, _⟩ := reopened_found made
    have root : (asking host repository revision opened).disk.resolve path =
        host.disk.resolve path := resolve_current current path
    cases accept_accepts ran with
    | declined unready => exact absurd rfl unready
    | spoilt _ _ _ unready => exact absurd rfl unready
    | @filled archive name count middle _ usable named extracted marked told =>
      have plain : ".." ∉ (asking host repository revision opened).disk.current := by
        exact current ▸ grounded.current
      obtain ⟨_, members, rfl, rfl, found⟩ := extract_found plain extracted
      have kept := (extract_unpacks plain extracted).current
      obtain ⟨_, written, _⟩ := write_ran marked
      rw [resolve_marker, resolve_current kept, root] at written
      rw [root] at found told
      refine ⟨members, name, usable, named, fun place inside => ?_, ?_⟩
      · have vacant : (asking host repository revision opened).disk.find? place = none :=
          reopened_empty grounded down yields made inside
        rw [written, find_set _ _ (List.concat_ne_nil _ _), found, vacant, Option.or_none]
        rfl
      · rw [told, List.getLast?_concat]
        rfl

/-- **A fresh copy is a function of the archive alone.** Whenever a call fetches
the copy and says that it is complete, the archive came undamaged, every place
below the directory holds what its entries say or the marker, and nothing else
stands there; the number that is printed is that of the entries that are files
and go below the directory. So two such calls with the same answer end with
equal copies of one place, whatever stood there before. This takes that what
stood in the directory could be removed: removing passes over what is held. -/
theorem fresh_copy_determined (answer : Answer) (directory repository revision : String)
    (host reached : Host) (grounded : Grounded host.disk)
    (down : ".." ∉ (Path.ofString directory).names)
    (yields : Yields host.disk (host.disk.resolve (Path.ofString directory)))
    (unmarked : host.disk.exists? ((Path.ofString directory).child marker) = false)
    (ran : (ensure answer directory repository revision).run host = (.ok true, reached)) :
    (∃ members name, answer = .answered 200 (.entries members) ∧
      repositoryName? repository = some name ∧
      (∀ place, below (host.disk.resolve (Path.ofString directory)) place = true →
        reached.disk.find? place = copied (host.disk.resolve (Path.ofString directory))
          (archivePrefix name revision) members place) ∧
      reached.output.getLast? = some (summary (host.disk.resolve (Path.ofString directory))
        (archivePrefix name revision) members (Path.ofString directory))) ∧
    ∀ other again, Grounded other.disk →
      other.disk.resolve (Path.ofString directory) =
        host.disk.resolve (Path.ofString directory) →
      Yields other.disk (other.disk.resolve (Path.ofString directory)) →
      other.disk.exists? ((Path.ofString directory).child marker) = false →
      (ensure answer directory repository revision).run other = (.ok true, again) →
      ∀ place, below (host.disk.resolve (Path.ofString directory)) place = true →
        again.disk.find? place = reached.disk.find? place := by
  obtain ⟨members, name, usable, named, found, told⟩ :=
    fetched_found grounded down yields (ensure_fetched unmarked ran)
  refine ⟨⟨members, name, usable, named, found, told⟩, ?_⟩
  intro other again upheld located empties absent repeated place inside
  obtain ⟨same, label, used, called, holds, _⟩ :=
    fetched_found upheld down empties (ensure_fetched absent repeated)
  cases usable.symm.trans used
  cases named.symm.trans called
  rw [located] at holds
  rw [holds place inside, found place inside]

/-- Two names for one file, a file in the place of the marker, and one that
leaves the directory. -/
def repetitive : List Member :=
  [{ name := "n-r/a/b", content := "1".toUTF8 },
    { name := "n-r/a/.//../a/b", content := "2".toUTF8 },
    { name := "n-r/.ready", content := "3".toUTF8 }, { name := "n-r/../x" }]

/-- The last of both names and the marker are what is left, also where there was
an older copy. -/
theorem fresh_copy_determined_repetitive :
    let answer := Answer.answered 200 (.entries repetitive)
    let run := (ensure answer "repo" "o/n" "r").run leftover
    let anew := (ensure answer "repo" "o/n" "r").run { disk := {} }
    Grounded leftover.disk ∧ ".." ∉ (Path.ofString "repo").names ∧
      Yields leftover.disk (leftover.disk.resolve (Path.ofString "repo")) ∧
      leftover.disk.exists? ((Path.ofString "repo").child marker) = false ∧ run.1 = .ok true ∧
      run.2.disk.entries = [(["repo", ".ready"], .file "ready".toUTF8),
        (["repo", "a", "b"], .file "2".toUTF8), (["repo", "a"], .directory),
        (["repo"], .directory)] ∧
      run.2.output.getLast? = some "Extracted 3 files into repo" ∧ anew.1 = .ok true ∧
      ∀ place, below ["repo"] place = true →
        anew.2.disk.find? place = run.2.disk.find? place := by
  intro answer run anew
  have grounded : Grounded leftover.disk := grounded_entries (by decide) (by decide +kernel)
  have down : ".." ∉ (Path.ofString "repo").names := by decide +kernel
  have yields : Yields leftover.disk (leftover.disk.resolve (Path.ofString "repo")) := by
    decide +kernel
  have unmarked : leftover.disk.exists? ((Path.ofString "repo").child marker) = false := by
    decide +kernel
  have ready : run.1 = .ok true := by decide +kernel
  have ran : run = (.ok true, run.2) := by rw [← ready]
  have again : anew.1 = .ok true := by decide +kernel
  have repeated : anew = (.ok true, anew.2) := by rw [← again]
  have root : leftover.disk.resolve (Path.ofString "repo") = ["repo"] := by decide +kernel
  have equal := (fresh_copy_determined answer "repo" "o/n" "r" leftover run.2 grounded down
    yields unmarked ran).2 { disk := {} } anew.2 (grounded_entries (by decide) (by decide))
    (by decide +kernel) (by decide +kernel) (by decide +kernel) repeated
  rw [root] at equal
  exact ⟨grounded, down, yields, unmarked, ready, by decide +kernel, by decide +kernel, again,
    equal⟩

/-- An older copy with a file that cannot be removed. -/
def stubborn : Host :=
  { leftover with disk := { leftover.disk with held := [["repo", "old"]] } }

/-- What is held stays in a copy that is said to be complete. -/
theorem held_file_stays :
    let run := (ensure (.answered 200 (.entries repetitive)) "repo" "o/n" "r").run stubborn
    run.1 = .ok true ∧ run.2.disk.find? ["repo", "old"] = some (.file "x".toUTF8) := by
  decide +kernel

end EntitySchema.FreshCache
