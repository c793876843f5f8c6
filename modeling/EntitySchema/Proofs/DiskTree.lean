import EntitySchema.Proofs.DiskFrame
import Mathlib.Data.List.Induction

/-! A disk as a tree. A path without `..` goes down only, so its text tells the
directories that it passes, and making it makes exactly these. Where everything
stands in a directory, nothing is below a place without one: such a path leads
to what stands where its text says, and removing it leaves nothing below. -/
namespace EntitySchema.DiskTree
open Disk DiskFrame

variable {disk before after : Disk} {path : Path} {place other : Place} {names : List String}

theorem below_iff : below other place = true ↔ other <+: place ∧ other ≠ place := by
  simp [below]

/-- Steps upwards are taken, never kept. -/
theorem textual_plain (plain : ".." ∉ place) (names : List String) :
    ".." ∉ textual place names := by
  induction names generalizing place with
  | nil => exact plain
  | cons name rest ih =>
    rw [textual, List.foldl_cons]
    by_cases upward : name = ".."
    · rw [if_pos upward]
      exact ih fun member => plain (List.dropLast_subset _ member)
    · rw [if_neg upward]
      refine ih fun member => ?_
      rcases List.mem_append.mp member with inside | last
      · exact plain inside
      · exact upward (List.mem_singleton.mp last).symm

theorem resolve_plain (plain : ".." ∉ disk.current) (path : Path) : ".." ∉ disk.resolve path := by
  refine textual_plain ?_ path.names
  unfold Disk.start
  split
  · exact plain
  · exact List.not_mem_nil

theorem resolve_down (down : ".." ∉ path.names) :
    disk.resolve path = disk.start path ++ path.names :=
  textual_down down

/-- A place without `..` is where its names lead from the top. -/
theorem resolve_place (plain : ".." ∉ place) : disk.resolve ⟨1, place⟩ = place :=
  resolve_down plain

/-- A path that goes down leads through the places above the one it names. -/
theorem leading_above (down : ".." ∉ path.names) (led : Leading disk path other) :
    other <+: disk.resolve path := by
  obtain ⟨names, first, rfl⟩ := led
  have shorter : ".." ∉ names := fun member => down (first.subset member)
  rw [resolve_down down, @resolve_down disk ⟨path.slashes, names⟩ shorter]
  exact (List.prefix_append_right_inj _).mpr first

private theorem follow_directories {start reached : Place} (down : ".." ∉ names)
    (followed : disk.follow start names = .ok reached) (between : other <+: names)
    (named : other ≠ []) : disk.find? (start ++ other) = some .directory := by
  induction names generalizing start other with
  | nil => exact absurd (List.prefix_nil.mp between) named
  | cons name rest ih =>
    rw [List.mem_cons, not_or] at down
    obtain ⟨deeper, rfl, inner⟩ := (List.prefix_cons_iff.mp between).resolve_left named
    obtain ⟨_, _, here, later⟩ :=
      (follow_cons.mp followed).resolve_left fun upward => down.1 upward.1.symm
    by_cases last : deeper = []
    · subst last
      exact here
    · rw [List.append_cons]
      exact ih down.2 later inner last

/-- The last name of a path is looked for in the directory that the others lead
to. -/
private theorem locate_follows {slashes : Nat} {last : String}
    (located : disk.locate ⟨slashes, names ++ [last]⟩ = .ok place) :
    ∃ reached, disk.follow (disk.start ⟨slashes, names ++ [last]⟩) names = .ok reached := by
  obtain ⟨_, _, ⟨empty, _⟩ | ⟨above, final, reached, split, followed, _⟩⟩ := locate_ok.mp located
  · exact absurd empty (List.concat_ne_nil _ _)
  · obtain ⟨rfl, _⟩ := List.append_inj' split rfl
    exact ⟨reached, followed⟩

private theorem follow_short {start reached : Place}
    (followed : disk.follow start names = .ok reached) :
    ∀ name ∈ names, name.utf8ByteSize ≤ Path.nameLimit := by
  induction names generalizing start with
  | nil => simp
  | cons name rest ih =>
    rcases follow_cons.mp followed with ⟨rfl, later⟩ | ⟨_, short, _, later⟩
    · exact List.forall_mem_cons.mpr ⟨by decide, ih later⟩
    · exact List.forall_mem_cons.mpr ⟨short, ih later⟩

private theorem advance_short {start reached : Place} {name : String}
    (entered : advance start name = .ok reached) : name.utf8ByteSize ≤ Path.nameLimit := by
  rcases advance_ok.mp entered with ⟨rfl, _⟩ | ⟨_, short, _⟩
  · decide
  · exact short

/-- A path is not too long, and neither is one of its names. -/
theorem isLong_iff : path.isLong = false ↔ path.toString.utf8ByteSize ≤ Path.textLimit ∧
    ∀ name ∈ path.names, name.utf8ByteSize ≤ Path.nameLimit := by
  simp [Path.isLong]

/-- A path that leads somewhere has no zero character and is not too long. -/
theorem locate_clean (located : disk.locate path = .ok place) :
    path.hasZero = false ∧ path.isLong = false := by
  obtain ⟨clean, short, ⟨empty, _⟩ | ⟨above, last, reached, split, followed, entered⟩⟩ :=
    locate_ok.mp located
  · exact ⟨clean, isLong_iff.mpr ⟨short, by simp [empty]⟩⟩
  · refine ⟨clean, isLong_iff.mpr ⟨short, fun name member => ?_⟩⟩
    rw [split] at member
    rcases List.mem_append.mp member with outer | final
    · exact follow_short followed name outer
    · rw [List.mem_singleton.mp final]
      exact advance_short entered

theorem directory_located (present : disk.isDirectory path = true) :
    disk.locate path = .ok (disk.resolve path) ∧
      disk.find? (disk.resolve path) = some .directory := by
  simp only [Disk.isDirectory, Disk.entry?] at present
  cases located : disk.locate path with
  | error fault => simp [located] at present
  | ok reached =>
    rw [locate_resolves located]
    simp only [located, decide_eq_true_eq] at present
    exact ⟨rfl, present⟩

/-- A directory stands in directories. -/
theorem directory_above (plain : ".." ∉ place) (made : disk.isDirectory ⟨1, place⟩ = true)
    (above : other <+: place) : disk.find? other = some .directory := by
  obtain ⟨located, present⟩ := directory_located made
  rw [resolve_place plain] at located present
  rcases List.eq_nil_or_concat' place with rfl | ⟨outer, last, rfl⟩
  · rw [List.prefix_nil.mp above]
    rfl
  · rcases List.prefix_concat_iff.mp above with rfl | outside
    · exact present
    · by_cases top : other = []
      · rw [top]
        rfl
      · obtain ⟨reached, followed⟩ := locate_follows located
        have down : ".." ∉ outer := fun member => plain (List.mem_append_left _ member)
        exact follow_directories down followed outside top

/-- Making a directory at a place makes it and those above it, and changes
nothing else. -/
theorem ensured_place (plain : ".." ∉ place)
    (ran : (ensureDirectories ⟨1, place⟩).run before = (.ok (), after)) (other : Place) :
    after.find? other = if other <+: place then some .directory else before.find? other := by
  have furnished := ensureDirectories_furnishes ⟨1, place⟩ before
  rw [ran] at furnished
  split
  · rename_i above
    exact directory_above plain (ensureDirectories_made ran) above
  · rename_i apart
    rcases furnished.found other with kept | ⟨_, _, led⟩
    · exact kept
    · rw [← @resolve_place before place plain] at apart
      exact absurd (leading_above plain led) apart

theorem write_refused {content : ByteArray} {fault : Disk.Fault}
    (ran : (Disk.write path content).run before = (.error fault, after)) : after = before := by
  simp only [Disk.write, Action.run] at ran
  split at ran
  · cases ran
    rfl
  · split at ran
    · cases ran
      rfl
    · cases ran

theorem removeTree_current (disk : Disk) (path : Path) :
    (disk.removeTree path).current = disk.current := by
  unfold Disk.removeTree
  split
  · rfl
  · split <;> rfl

/-- Removing changes nothing but what it takes away. -/
theorem removeTree_found (disk : Disk) (path : Path) (place : Place) :
    (disk.removeTree path).find? place = disk.find? place ∨
      (disk.removeTree path).find? place = none := by
  unfold Disk.removeTree
  split
  · exact .inl rfl
  · split
    · by_cases top : place = []
      · rw [top]
        exact .inl rfl
      · rw [find_erase disk _ top]
        split
        · exact .inr rfl
        · exact .inl rfl
    · exact .inl rfl

/-- A disk as there can be one: whatever stands somewhere stands in a directory,
and the current directory is a place and no way to one. -/
structure Grounded (disk : Disk) : Prop where
  current : ".." ∉ disk.current
  upheld {place : Place} {name : String} : disk.find? (place ++ [name]) ≠ none →
    disk.find? place = some .directory

theorem grounded_above (grounded : Grounded disk) {further : List String}
    (found : disk.find? (place ++ further) ≠ none) (below : further ≠ []) :
    disk.find? place = some .directory := by
  induction further using List.reverseRecOn with
  | nil => exact absurd rfl below
  | append_singleton between last ih =>
    rw [← List.append_assoc] at found
    have outer := grounded.upheld found
    by_cases next : between = []
    · rw [next, List.append_nil] at outer
      exact outer
    · exact ih (by rw [outer]; exact Option.some_ne_none _) next

private theorem grounded_follows (grounded : Grounded disk) (down : ".." ∉ names)
    (short : ∀ name ∈ names, name.utf8ByteSize ≤ Path.nameLimit)
    (found : disk.find? (place ++ names) = some .directory) :
    disk.follow place names = .ok (place ++ names) := by
  induction names generalizing place with
  | nil => simp [Disk.follow]
  | cons name rest ih =>
    rw [List.mem_cons, not_or] at down
    rw [List.forall_mem_cons] at short
    rw [List.append_cons] at found ⊢
    have here : disk.find? (place ++ [name]) = some .directory := by
      by_cases last : rest = []
      · rw [last, List.append_nil] at found
        exact found
      · exact grounded_above grounded (by rw [found]; exact Option.some_ne_none _) last
    exact follow_cons.mpr (.inr ⟨Ne.symm down.1, short.1, here, ih down.2 short.2 found⟩)

/-- What stands where the text of a path says is what the path leads to, if it
goes down only and is not too long. -/
theorem grounded_locates (grounded : Grounded disk) (down : ".." ∉ path.names)
    (clean : path.hasZero = false) (short : path.isLong = false)
    (found : disk.find? (disk.resolve path) ≠ none) :
    disk.locate path = .ok (disk.resolve path) := by
  rw [resolve_down down] at found ⊢
  obtain ⟨text, each⟩ := isLong_iff.mp short
  refine locate_ok.mpr ⟨clean, text, ?_⟩
  rcases List.eq_nil_or_concat' path.names with empty | ⟨above, last, split⟩
  · exact .inl ⟨empty, by rw [empty, List.append_nil]⟩
  · rw [split] at found down each ⊢
    rw [← List.append_assoc] at found ⊢
    have followed := grounded_follows grounded (fun member => down (List.mem_append_left _ member))
      (fun name member => each name (List.mem_append_left _ member)) (grounded.upheld found)
    have notUp : last ≠ ".." := by
      rintro rfl
      exact down (by simp)
    exact .inr ⟨above, last, _, rfl, followed,
      advance_ok.mpr (.inr ⟨notUp, each last (by simp), rfl⟩)⟩

theorem grounded_exists (grounded : Grounded disk) (down : ".." ∉ path.names)
    (clean : path.hasZero = false) (short : path.isLong = false)
    (found : disk.find? (disk.resolve path) ≠ none) : disk.exists? path = true := by
  simp only [Disk.exists?, Disk.entry?, grounded_locates grounded down clean short found]
  exact Option.isSome_iff_ne_none.mpr found

/-- What a path leads to stands where its text says. -/
theorem exists_found (present : disk.exists? path = true) :
    path.hasZero = false ∧ path.isLong = false ∧ disk.find? (disk.resolve path) ≠ none := by
  simp only [Disk.exists?, Disk.entry?] at present
  split at present
  · rename_i place located
    obtain ⟨clean, short⟩ := locate_clean located
    rw [locate_resolves located]
    exact ⟨clean, short, Option.isSome_iff_ne_none.mp present⟩
  · cases present

/-- Whether a disk is grounded is told by its entries. -/
theorem grounded_entries (current : ".." ∉ disk.current)
    (upheld : ∀ entry ∈ disk.entries, disk.find? entry.1.dropLast = some .directory) :
    Grounded disk := by
  refine ⟨current, fun {place name} found => ?_⟩
  rw [Disk.find?, if_neg (List.concat_ne_nil name place)] at found
  obtain ⟨held, listed⟩ := Option.ne_none_iff_exists'.mp found
  obtain ⟨_, _, split, _⟩ := List.lookup_eq_some_iff.mp listed
  have outer := upheld (place ++ [name], held) (by simp [split])
  rwa [List.dropLast_concat] at outer

/-- Nothing that is held is strictly below a place. -/
def Yields (disk : Disk) (place : Place) : Prop :=
  ∀ other ∈ disk.held, below place other = false

instance (disk : Disk) (place : Place) : Decidable (Yields disk place) :=
  inferInstanceAs (Decidable (∀ other ∈ disk.held, below place other = false))

/-- What stands below a place where nothing is held does not have to stay. -/
theorem yields_keeps {root : Place} (yields : Yields disk root)
    (inside : below root place = true) : disk.keeps place = false := by
  rw [Disk.keeps, List.any_eq_false]
  intro other member above
  obtain ⟨lower, apart⟩ := below_iff.mp inside
  have deeper := lower.trans (List.isPrefixOf_iff_prefix.mp above)
  have same : root = other := by
    by_contra differ
    exact absurd (below_iff.mpr ⟨deeper, differ⟩) (Bool.eq_false_iff.mp (yields other member))
  subst same
  exact apart (lower.eq_of_length_le (List.isPrefixOf_iff_prefix.mp above).length_le)

/-- Nothing is left below a path that was removed, unless it is held. -/
theorem removeTree_clears (grounded : Grounded disk) (down : ".." ∉ path.names)
    (clean : path.hasZero = false) (short : path.isLong = false)
    (yields : Yields disk (disk.resolve path)) (inside : below (disk.resolve path) place = true) :
    (disk.removeTree path).find? place = none := by
  obtain ⟨⟨further, rfl⟩, apart⟩ := below_iff.mp inside
  have deeper : further ≠ [] := by
    rintro rfl
    exact apart (List.append_nil _).symm
  by_cases held : disk.find? (disk.resolve path ++ further) = none
  · rcases removeTree_found disk path (disk.resolve path ++ further) with kept | gone
    · rw [kept]
      exact held
    · exact gone
  · have directory := grounded_above grounded held deeper
    have located := grounded_locates grounded down clean short (by rw [directory]; simp)
    have named : disk.resolve path ++ further ≠ [] := by simp [deeper]
    simp only [Disk.removeTree, located, directory]
    rw [find_erase disk _ named, inside, yields_keeps yields inside]
    rfl

end EntitySchema.DiskTree
