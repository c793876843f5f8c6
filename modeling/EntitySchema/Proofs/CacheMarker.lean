import EntitySchema.Cache
import EntitySchema.Proofs.Extraction

/-! A copy that was not completed is fetched again. Fetching that does not
succeed leaves no marker of its own, so the next call asks the network once
more. What it does leave are the files unpacked so far, and nothing keeps an
entry of the archive from the place of the marker: such an entry, or a step
upwards in the path over a directory that is made only then, lets the next call
take an incomplete copy for a complete one. -/
namespace EntitySchema.CacheMarker
open Archive Cache DiskFrame DiskTree Extraction
open Disk (Place Path)

variable {answer : Answer} {path : Path} {directory url repository revision : String}
  {place : Place} {host reached : Host} {outcome : Except Failure Bool} {α β : Type}

theorem child_marker (path : Path) :
    path.child marker = ⟨path.slashes, path.names ++ [marker]⟩ := by
  have relative : Path.ofString marker = ⟨0, [marker]⟩ := by decide +kernel
  simp only [Path.child, relative, ↓reduceIte]

/-- The marker stands in the directory of the copy. -/
theorem resolve_marker (disk : Disk) (path : Path) :
    disk.resolve (path.child marker) = disk.resolve path ++ [marker] := by
  have downward : marker ≠ ".." := by decide
  rw [child_marker, Disk.resolve, List.foldl_append]
  simp only [List.foldl_cons, List.foldl_nil, downward, ↓reduceIte]
  rfl

section Runs

/-- A path that can be named is looked for without a trace. -/
private theorem exists_run (named : host.disk.locate path ≠ .error .nameTooLong) :
    (Shell.exists? path).run host = (.ok (host.disk.exists? path), host) := by
  simp only [Shell.exists?, Shell.disk, Action.run_bind, Action.run_state, Action.run_pure]

/-- A copy with a marker is taken for complete. -/
theorem ensure_ready (answer : Answer) (repository revision : String)
    (marked : host.disk.exists? ((Path.ofString directory).child marker) = true) :
    (ensure answer directory repository revision).run host = (.ok true, host) := by
  have named : host.disk.locate ((Path.ofString directory).child marker) ≠
      .error .nameTooLong := by
    intro refused
    simp [Disk.exists?, Disk.entry?, refused] at marked
  simp only [ensure, Action.run_bind, exists_run named, marked, ↓reduceIte, Action.run_pure]

/-- A copy whose marker was looked for and is not there is fetched. -/
theorem ensure_fetches (answer : Answer) (repository revision : String)
    (named : host.disk.locate ((Path.ofString directory).child marker) ≠ .error .nameTooLong)
    (unmarked : host.disk.exists? ((Path.ofString directory).child marker) = false) :
    (ensure answer directory repository revision).run host =
      (fetch answer (Path.ofString directory) repository revision).run host := by
  simp only [ensure, Action.run_bind, exists_run named, unmarked, Bool.false_eq_true, ↓reduceIte]

/-- A marker that cannot be named ends the command before anything is done. -/
theorem ensure_unnamed (answer : Answer) (repository revision : String)
    (unnamed : host.disk.locate ((Path.ofString directory).child marker) = .error .nameTooLong) :
    (ensure answer directory repository revision).run host =
      (.error (.disk .nameTooLong), host) := by
  simp only [ensure, Shell.exists?, Shell.disk, Action.run_bind, Action.run_state, Action.run_pure,
    unnamed, Action.run_fail]

/-- A copy that is said to be complete and had no marker was fetched. -/
theorem ensure_fetched
    (unmarked : host.disk.exists? ((Path.ofString directory).child marker) = false)
    (ran : (ensure answer directory repository revision).run host = (.ok true, reached)) :
    (fetch answer (Path.ofString directory) repository revision).run host =
      (.ok true, reached) := by
  by_cases named : host.disk.locate ((Path.ofString directory).child marker) =
    .error .nameTooLong
  · rw [ensure_unnamed answer repository revision named] at ran
    cases ran
  · rw [← ensure_fetches answer repository revision named unmarked]
    exact ran

/-- The network is asked once there is a directory for its answer. -/
def asking (host : Host) (repository revision : String) (opened : Disk) : Host :=
  { host with
    disk := opened
    output := host.output ++ ["Downloading Minecraft schema archive..."]
    requests := host.requests ++ [request (Repository.archiveUrl repository revision)] }

theorem fetch_run (answer : Answer) (path : Path) (repository revision : String) (host : Host) :
    (fetch answer path repository revision).run host =
      match (Disk.ensureDirectories path).run (host.disk.removeTree path) with
      | (.error fault, after) =>
        (.error (.disk fault), { host with
          disk := after
          output := host.output ++ ["Downloading Minecraft schema archive..."] })
      | (.ok _, opened) =>
        (accept answer path (Repository.archiveUrl repository revision) repository revision).run
          (asking host repository revision opened) := by
  simp only [fetch, ask, Shell.print, Shell.disk, Shell.setDisk, Shell.ensureDirectories,
    Action.run_bind, Action.run_update, Action.run_state, Action.run_pure, Shell.run_onDisk]
  rcases (Disk.ensureDirectories path).run (host.disk.removeTree path) with ⟨answered, opened⟩
  cases answered with
  | error fault => rfl
  | ok _ => rfl

/-- What an answer of the network can come to: it is of no use, or its archive
is unpacked, and then the copy is given up or marked as complete. -/
inductive Accepts (answer : Answer) (path : Path) (repository revision : String) (host : Host) :
    Except Failure Bool → Host → Prop where
  | declined {outcome : Except Failure Bool} {reached : Host} (unready : outcome ≠ .ok true)
    (kept : reached.disk = host.disk) :
    Accepts answer path repository revision host outcome reached
  | spoilt {archive : Archive} {name : String} {result : Except Failure Nat} {middle : Host}
    {outcome : Except Failure Bool} {reached : Host} (usable : answer = .answered 200 archive)
    (named : repositoryName? repository = some name)
    (ran : (archive.extract path path.toString (archivePrefix name revision)).run host =
      (result, middle))
    (unready : outcome ≠ .ok true) (kept : reached.disk = middle.disk) :
    Accepts answer path repository revision host outcome reached
  | filled {archive : Archive} {name : String} {count : Nat} {middle reached : Host}
    (usable : answer = .answered 200 archive) (named : repositoryName? repository = some name)
    (ran : (archive.extract path path.toString (archivePrefix name revision)).run host =
      (.ok count, middle))
    (marked : (Disk.write (path.child marker) "ready".toUTF8).run middle.disk =
      (.ok (), reached.disk))
    (told : reached.output = middle.output ++
      ["Extracted " ++ toString count ++ " files into " ++ path.toString]) :
    Accepts answer path repository revision host (.ok true) reached

theorem accept_accepts
    (ran : (accept answer path url repository revision).run host = (outcome, reached)) :
    Accepts answer path repository revision host outcome reached := by
  cases answer with
  | failed text =>
    cases ran
    exact .declined (by simp) rfl
  | answered status archive =>
    simp only [accept] at ran
    split at ran
    · cases ran
      exact .declined (by simp) rfl
    · rename_i success
      have usable : Answer.answered status archive = .answered 200 archive := by
        rw [not_not.mp success]
      split at ran
      · cases ran
        exact .declined (by simp) rfl
      · rename_i name named
        simp only [fill, Shell.writeFile, Shell.print, Action.run_orElse, Action.run_bind,
          Shell.run_onDisk, Action.run_update, Action.run_pure] at ran
        rcases extracted : (archive.extract path path.toString
          (archivePrefix name revision)).run host with ⟨result, middle⟩
        rw [extracted] at ran
        cases result with
        | error failure =>
          cases failure with
          | archive damage =>
            simp only at ran
            split at ran
            · cases ran
              exact .spoilt usable named extracted (by simp) rfl
            · cases ran
              exact .spoilt usable named extracted (by simp) rfl
          | _ =>
            cases ran
            exact .spoilt usable named extracted (by simp) rfl
        | ok count =>
          simp only at ran
          rcases wrote : (Disk.write (path.child marker) "ready".toUTF8).run middle.disk with
            ⟨answered, after⟩
          rw [wrote] at ran
          cases answered with
          | error fault =>
            cases ran
            exact .spoilt usable named extracted (by simp) (write_refused wrote)
          | ok _ =>
            cases ran
            exact .filled usable named extracted wrote rfl

end Runs

section Requests

/-- The action asks nothing of the network. -/
def Silent (action : Shell α) : Prop :=
  ∀ host, (action.run host).2.requests = host.requests

private theorem silent_bind {action : Shell α} {next : α → Shell β} (first : Silent action)
    (second : ∀ value, Silent (next value)) : Silent (action >>= next) := by
  intro host
  have early := first host
  rw [Action.run_bind]
  rcases ran : action.run host with ⟨outcome, middle⟩
  rw [ran] at early
  cases outcome with
  | error failure => exact early
  | ok value => exact (second value middle).trans early

private theorem silent_orElse {action : Shell α} {handle : Failure → Shell α}
    (first : Silent action) (second : ∀ failure, Silent (handle failure)) :
    Silent (action.orElse handle) := by
  intro host
  have early := first host
  rw [Action.run_orElse]
  rcases ran : action.run host with ⟨outcome, middle⟩
  rw [ran] at early
  cases outcome with
  | error failure => exact (second failure middle).trans early
  | ok value => exact early

private theorem silent_pure (value : α) : Silent (pure value) := fun _ => rfl

private theorem silent_fail (failure : Failure) : Silent (Action.fail failure : Shell α) :=
  fun _ => rfl

private theorem silent_print (line : String) : Silent (Shell.print line) := fun _ => rfl

private theorem silent_onDisk (action : Action Disk Disk.Fault α) : Silent (Shell.onDisk action) :=
  fun _ => rfl

private theorem extractMember_silent (root : Place) (shown top : String) (member : Member) :
    Silent (extractMember root shown top member) := by
  unfold extractMember
  split
  · exact silent_pure _
  · simp only
    split
    · exact silent_fail _
    · split
      · exact silent_bind (silent_print _) fun _ => silent_pure _
      · split
        · exact silent_bind (silent_onDisk _) fun _ => silent_pure _
        · refine silent_bind (silent_onDisk _) fun _ => ?_
          exact silent_bind (silent_onDisk _) fun _ => silent_pure _
        · exact silent_pure _

private theorem extractAll_silent (root : Place) (shown top : String) (members : List Member) :
    Silent (extractAll root shown top members) := by
  induction members with
  | nil => exact silent_pure _
  | cons member rest ih =>
    refine silent_bind (extractMember_silent root shown top member) fun _ => ?_
    exact silent_bind ih fun _ => silent_pure _

private theorem extract_silent (archive : Archive) (path : Path) (shown top : String) :
    Silent (archive.extract path shown top) := by
  unfold Archive.extract
  split
  · exact silent_fail _
  · refine silent_bind (silent_bind (fun _ => rfl) fun _ => silent_pure _) fun disk => ?_
    cases archive with
    | entries members => exact extractAll_silent _ shown top members
    | cut members damage =>
      exact silent_bind (extractAll_silent _ shown top members) fun _ => silent_fail _

private theorem accept_silent (answer : Answer) (path : Path) (url repository revision : String) :
    Silent (accept answer path url repository revision) := by
  have givesUp (activity reason : String) : Silent (giveUp activity url reason) :=
    silent_bind (silent_print _) fun _ => silent_pure _
  unfold accept
  split
  · exact givesUp _ _
  · split
    · exact givesUp _ _
    · split
      · exact silent_fail _
      · refine silent_orElse ?_ fun failure => ?_
        · refine silent_bind (extract_silent _ _ _ _) fun _ => ?_
          refine silent_bind (silent_onDisk _) fun _ => ?_
          exact silent_bind (silent_print _) fun _ => silent_pure _
        · split
          · split
            · exact givesUp _ _
            · exact silent_fail _
          · exact silent_fail _

end Requests

/-- A directory that was removed and made again: new directories are on the way
to it, and all else is as it was left. -/
theorem reopened_found {disk opened : Disk} {answered : Except Disk.Fault Unit}
    (ran : (Disk.ensureDirectories path).run (disk.removeTree path) = (answered, opened)) :
    opened.current = disk.current ∧ ∀ place,
      opened.find? place = (disk.removeTree path).find? place ∨
        (disk.removeTree path).find? place = none ∧ opened.find? place = some .directory ∧
          Leading disk path place := by
  have furnished := ensureDirectories_furnishes path (disk.removeTree path)
  rw [ran] at furnished
  refine ⟨furnished.current.trans (removeTree_current disk path), fun place => ?_⟩
  refine (furnished.found place).imp_right ?_
  rintro ⟨absent, made, names, first, rfl⟩
  exact ⟨absent, made, names, first, resolve_current (removeTree_current disk path) _⟩

/-- The entries that an answer brings. -/
def brought : Answer → List Member
  | .failed _ => []
  | .answered status archive => if status = 200 then packed archive else []

/-- Some entry that is brought goes to a place or below it. -/
def Brings (root place : Place) (answer : Answer) (repository revision : String) : Prop :=
  ∃ name ∈ repositoryName? repository, ∃ member ∈ brought answer, member.kind ≠ .other ∧
    ∃ target ∈ target? root (archivePrefix name revision) member, place <+: target

instance (root place : Place) (answer : Answer) (repository revision : String) :
    Decidable (Brings root place answer repository revision) :=
  inferInstanceAs (Decidable (∃ name ∈ repositoryName? repository, ∃ member ∈ brought answer,
    member.kind ≠ .other ∧ ∃ target ∈ target? root (archivePrefix name revision) member,
      place <+: target))

/-- What unpacking put somewhere was there before, or an entry brought it. -/
private theorem unpacks_appears {root : Place} {archive : Archive} {name : String}
    {before after : Disk} (usable : answer = .answered 200 archive)
    (named : repositoryName? repository = some name)
    (unpacks : Unpacks root (archivePrefix name revision) (packed archive) before after)
    (found : after.find? place ≠ none) :
    before.find? place ≠ none ∨ Brings root place answer repository revision := by
  subst usable
  rcases unpacks.found place with kept | ⟨_, _, member, listed, room, roomed, above⟩ |
    ⟨_, member, listed, filed, _⟩
  · exact .inl (kept ▸ found)
  · obtain ⟨taken, target, goes, through⟩ := room_target roomed
    exact .inr ⟨name, named, member, listed, taken, target, goes, above.trans through⟩
  · obtain ⟨kind, goes, _⟩ := file_target filed
    exact .inr ⟨name, named, member, listed, by simp [kind], place, goes, List.prefix_refl _⟩

/-- Whatever stands somewhere after fetching without success stood there before,
is a directory on the way to the copy, or was brought. -/
theorem unready_appears (plain : ".." ∉ host.disk.current)
    (ran : (fetch answer path repository revision).run host = (outcome, reached))
    (unready : outcome ≠ .ok true) :
    reached.disk.current = host.disk.current ∧ (reached.disk.find? place ≠ none →
      host.disk.find? place ≠ none ∨ Leading host.disk path place ∨
        Brings (host.disk.resolve path) place answer repository revision) := by
  rw [fetch_run] at ran
  rcases made : (Disk.ensureDirectories path).run (host.disk.removeTree path) with
    ⟨answered, opened⟩
  obtain ⟨current, reopened⟩ := reopened_found made
  have early (found : opened.find? place ≠ none) :
      host.disk.find? place ≠ none ∨ Leading host.disk path place := by
    rcases reopened place with kept | ⟨_, _, led⟩
    · rcases removeTree_found host.disk path place with same | gone
      · exact .inl (same ▸ kept ▸ found)
      · exact absurd (kept.trans gone) found
    · exact .inr led
  rw [made] at ran
  cases answered with
  | error fault =>
    cases ran
    exact ⟨current, fun found => (early found).imp_right .inl⟩
  | ok _ =>
    cases accept_accepts ran with
    | declined _ kept =>
      rw [kept]
      exact ⟨current, fun found => (early found).imp_right .inl⟩
    | filled => exact absurd rfl unready
    | @spoilt archive name result middle _ _ usable named extracted _ kept =>
      have unpacks := extract_unpacks (by exact current ▸ plain) extracted
      have root : (asking host repository revision opened).disk.resolve path =
          host.disk.resolve path := resolve_current current path
      rw [root] at unpacks
      rw [kept]
      refine ⟨unpacks.current.trans current, fun found => ?_⟩
      rcases unpacks_appears usable named unpacks found with before | brings
      · exact (early before).imp_right .inl
      · exact .inr (.inr brings)

/-- The next call fetches the copy anew, whatever the network answers then: it
asks for the archive unless there is no making a directory for it. Only where the
marker cannot even be named, the call is refused again instead. -/
def Retries (directory repository revision : String) (host : Host) : Prop :=
  ∀ answer, let run := (ensure answer directory repository revision).run host
    (host.disk.locate ((Path.ofString directory).child marker) = .error .nameTooLong ∧
      run = (.error (.disk .nameTooLong), host)) ∨
    run = (fetch answer (Path.ofString directory) repository revision).run host ∧
      (run.2.requests = host.requests ++ [request (Repository.archiveUrl repository revision)] ∨
        ∃ fault, run.1 = .error (.disk fault) ∧
          ((Disk.ensureDirectories (Path.ofString directory)).run
            (host.disk.removeTree (Path.ofString directory))).1 = .error fault)

theorem unmarked_retries
    (unmarked : host.disk.exists? ((Path.ofString directory).child marker) = false) :
    Retries directory repository revision host := by
  intro answer
  by_cases named : host.disk.locate ((Path.ofString directory).child marker) =
    .error .nameTooLong
  · exact .inl ⟨named, ensure_unnamed answer repository revision named⟩
  · have fetches := ensure_fetches answer repository revision named unmarked
    refine .inr ⟨fetches, ?_⟩
    rw [fetches, fetch_run]
    rcases (Disk.ensureDirectories (Path.ofString directory)).run
      (host.disk.removeTree (Path.ofString directory)) with ⟨answered, opened⟩
    cases answered with
    | error fault => exact .inr ⟨fault, rfl, rfl⟩
    | ok _ => exact .inl (accept_silent _ _ _ _ _ _)

/-- A path that goes down only shows a marker that is there, and does not lead
through its place. -/
private theorem down_unmarked (grounded : Grounded host.disk) (down : ".." ∉ path.names)
    (clean : (path.child marker).hasZero = false) (short : (path.child marker).isLong = false)
    (unmarked : host.disk.exists? (path.child marker) = false) :
    host.disk.find? (host.disk.resolve path ++ [marker]) = none ∧
      ¬ Leading host.disk path (host.disk.resolve path ++ [marker]) := by
  constructor
  · by_contra found
    rw [← resolve_marker] at found
    have downward : ".." ∉ (path.child marker).names := by
      have name : ".." ≠ marker := by decide
      simp [child_marker, down, name]
    rw [grounded_exists grounded downward clean short found] at unmarked
    cases unmarked
  · intro led
    have shorter := (leading_above down led).length_le
    rw [List.length_append, List.length_singleton] at shorter
    omega

/-- **Fetching that does not succeed is done again.** On every disk where the
marker of the copy does not exist, for every repository, revision and answer of
the network: when the call gives up or fails, at whatever point, also behind some
entries of an archive that breaks off, the marker does not exist afterwards, and
the next call fetches the copy anew. Two things have to be excluded. No entry of
the archive may go to the place of the marker or below it; and if the path holds
`..`, nothing may stand at that place that the path does not lead to yet, nor may
the path lead through it. -/
theorem unready_copy_retried (answer : Answer) (directory repository revision : String)
    (host reached : Host) (outcome : Except Failure Bool) (grounded : Grounded host.disk)
    (unmarked : host.disk.exists? ((Path.ofString directory).child marker) = false)
    (ran : (ensure answer directory repository revision).run host = (outcome, reached))
    (unready : outcome ≠ .ok true)
    (unbrought : ¬ Brings (host.disk.resolve (Path.ofString directory))
      (host.disk.resolve (Path.ofString directory) ++ [marker]) answer repository revision)
    (upward : ".." ∈ (Path.ofString directory).names →
      host.disk.find? (host.disk.resolve (Path.ofString directory) ++ [marker]) = none ∧
        ¬ Leading host.disk (Path.ofString directory)
          (host.disk.resolve (Path.ofString directory) ++ [marker])) :
    reached.disk.exists? ((Path.ofString directory).child marker) = false ∧
      Retries directory repository revision reached := by
  suffices stays : reached.disk.exists? ((Path.ofString directory).child marker) = false from
    ⟨stays, unmarked_retries stays⟩
  by_cases named : host.disk.locate ((Path.ofString directory).child marker) =
    .error .nameTooLong
  · rw [ensure_unnamed answer repository revision named] at ran
    cases ran
    exact unmarked
  · rw [ensure_fetches answer repository revision named unmarked] at ran
    generalize Path.ofString directory = path at *
    by_contra marked
    obtain ⟨clean, short, found⟩ := exists_found (Bool.not_eq_false _ ▸ marked)
    obtain ⟨current, appears⟩ :=
      @unready_appears _ _ _ _ (host.disk.resolve path ++ [marker]) _ _ _ grounded.current ran
        unready
    rw [resolve_marker, resolve_current current] at found
    obtain ⟨vacant, apart⟩ : host.disk.find? (host.disk.resolve path ++ [marker]) = none ∧
        ¬ Leading host.disk path (host.disk.resolve path ++ [marker]) := by
      by_cases up : ".." ∈ path.names
      · exact upward up
      · exact down_unmarked grounded up clean short unmarked
    rcases appears found with before | led | brings
    · exact before vacant
    · exact apart led
    · exact unbrought brings

/-- A copy that was left without a marker. -/
def leftover : Host :=
  { disk := { entries := [(["repo", "old"], .file "x".toUTF8), (["repo"], .directory)] } }

/-- An archive with a file where a directory is needed. -/
def clashing : List Member :=
  [{ name := "n-r/a" }, { name := "n-r/a/b" }]

/-- An archive whose compressed data end in the middle of its second entry. -/
def torn : Archive :=
  .cut [{ name := "n-r/a" }, { name := "n-r/b", content := "x".toUTF8 }]
    (.compression "ended early")

/-- Unpacking stops in the middle, after a file was written: on a file that is in
the way, and where the data end. -/
theorem unready_copy_retried_clash :
    let clash := (ensure (.answered 200 (.entries clashing)) "repo" "o/n" "r").run leftover
    let cut := (ensure (.answered 200 torn) "repo" "o/n" "r").run leftover
    Grounded leftover.disk ∧ leftover.disk.exists? ((Path.ofString "repo").child marker) = false ∧
      (clash.1 = .error (.disk .alreadyThere) ∧
        clash.2.disk.entries = [(["repo", "a"], .file ByteArray.empty), (["repo"], .directory)] ∧
        clash.2.disk.exists? ((Path.ofString "repo").child marker) = false ∧
        Retries "repo" "o/n" "r" clash.2) ∧
      cut.1 = .error (.archive (.compression "ended early")) ∧
        cut.2.disk.entries = [(["repo", "b"], .file "x".toUTF8),
          (["repo", "a"], .file ByteArray.empty), (["repo"], .directory)] ∧
        cut.2.disk.exists? ((Path.ofString "repo").child marker) = false ∧
        Retries "repo" "o/n" "r" cut.2 := by
  intro clash cut
  have grounded : Grounded leftover.disk := grounded_entries (by decide) (by decide +kernel)
  have unmarked : leftover.disk.exists? ((Path.ofString "repo").child marker) = false := by
    decide +kernel
  have down : ".." ∉ (Path.ofString "repo").names := by decide +kernel
  have stopped : clash.1 = .error (.disk .alreadyThere) := by decide +kernel
  have ended : cut.1 = .error (.archive (.compression "ended early")) := by decide +kernel
  refine ⟨grounded, unmarked, ⟨stopped, by decide +kernel, ?_⟩, ended, by decide +kernel, ?_⟩
  · exact unready_copy_retried (.answered 200 (.entries clashing)) "repo" "o/n" "r" leftover
      clash.2 clash.1 grounded unmarked rfl (by rw [stopped]; simp) (by decide +kernel)
      fun up => absurd up down
  · exact unready_copy_retried (.answered 200 torn) "repo" "o/n" "r" leftover cut.2 cut.1
      grounded unmarked rfl (by rw [ended]; simp) (by decide +kernel) fun up => absurd up down

/-- An archive that brings a marker before it clashes. -/
def premature : List Member :=
  { name := "n-r/.ready" } :: clashing

/-- A complete copy of something else. -/
def neighbour : Host :=
  { disk := { entries := [(["b", ".ready"], .file "ready".toUTF8), (["b"], .directory)] } }

/-- The two exceptions are real. An archive that holds a file for the place of the
marker leaves it behind when unpacking stops, and a path over a missing directory
comes to see the marker of what it did not remove; in both cases there was no
marker at first, the call did not succeed, and every later call says that the
copy is complete. -/
theorem unready_copies_taken :
    (let run := (ensure (.answered 200 (.entries premature)) "repo" "o/n" "r").run leftover;
      Grounded leftover.disk ∧
        leftover.disk.exists? ((Path.ofString "repo").child marker) = false ∧
        run.1 = .error (.disk .alreadyThere) ∧
        ∀ next, (ensure next "repo" "o/n" "r").run run.2 = (.ok true, run.2)) ∧
    (let run := (ensure (.failed "offline") "a/../b" "o/n" "r").run neighbour;
      Grounded neighbour.disk ∧
        neighbour.disk.exists? ((Path.ofString "a/../b").child marker) = false ∧
        run.1 = .ok false ∧
        ∀ next, (ensure next "a/../b" "o/n" "r").run run.2 = (.ok true, run.2)) := by
  constructor
  · refine ⟨grounded_entries (by decide) (by decide +kernel), by decide +kernel,
      by decide +kernel, fun next => ?_⟩
    exact ensure_ready next "o/n" "r" (by decide +kernel)
  · refine ⟨grounded_entries (by decide) (by decide +kernel), by decide +kernel,
      by decide +kernel, fun next => ?_⟩
    exact ensure_ready next "o/n" "r" (by decide +kernel)

end EntitySchema.CacheMarker
