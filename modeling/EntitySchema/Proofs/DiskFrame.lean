import EntitySchema.Disk.Basic
import Mathlib.Data.List.Basic

/-! What operations on files leave alone. Making directories adds directories
and nothing else, and only at places that the path leads through; writing a
file changes the one place that the path names. There are no links, so the
places are told by the text of the path. -/
namespace EntitySchema.DiskFrame
open Disk

variable {base before middle after : Disk} {path : Path} {place target : Place}
  {content : ByteArray} {kind : Place → Prop} {α β : Type}

private theorem lookup_filter {entries : List (Place × Entry)} (kept : Place → Bool)
    (place : Place) :
    (entries.filter fun entry => kept entry.1).lookup place =
      if kept place then entries.lookup place else none := by
  induction entries with
  | nil => simp
  | cons entry rest ih =>
    obtain ⟨other, held⟩ := entry
    by_cases stays : kept other = true
    · rw [List.filter_cons_of_pos (by exact stays), List.lookup_cons, List.lookup_cons, ih]
      by_cases same : place = other
      · subst same
        simp [stays]
      · simp [beq_eq_false_iff_ne.mpr same]
    · rw [List.filter_cons_of_neg (by exact stays), ih]
      by_cases same : place = other
      · subst same
        simp [stays]
      · simp [List.lookup_cons, beq_eq_false_iff_ne.mpr same]

/-- An entry is found where it was put, and everything else where it was. -/
theorem find_set (disk : Disk) (entry : Entry) (named : target ≠ []) (place : Place) :
    (disk.set target entry).find? place =
      if place = target then some entry else disk.find? place := by
  by_cases top : place = []
  · subst top
    simp [Disk.find?, Ne.symm named]
  · by_cases same : place = target
    · subst same
      simp [Disk.find?, Disk.set, top]
    · have passed : (place == target) = false := beq_eq_false_iff_ne.mpr same
      have stays := @lookup_filter disk.entries (fun other => other ≠ target) place
      simp only [decide_eq_true same, ↓reduceIte] at stays
      simp only [Disk.find?, Disk.set, top, same, ↓reduceIte, List.lookup_cons, passed]
      exact stays

/-- Nothing is found where it was taken away, and everything else where it was. -/
theorem find_erase (disk : Disk) (gone : Place → Bool) (named : place ≠ []) :
    (disk.erase gone).find? place = if gone place then none else disk.find? place := by
  have stays := @lookup_filter disk.entries (fun other => !gone other) place
  simp only [Disk.find?, Disk.erase, named, ↓reduceIte, stays]
  cases gone place <;> rfl

/-- Where names lead by their text alone. -/
def textual (place : Place) (names : List String) : Place :=
  names.foldl (fun place name => if name = ".." then place.dropLast else place ++ [name]) place

theorem textual_down {names : List String} (down : ".." ∉ names) :
    textual place names = place ++ names := by
  induction names generalizing place with
  | nil => simp [textual]
  | cons name rest ih =>
    rw [List.mem_cons, not_or] at down
    calc textual place (name :: rest)
        = textual (place ++ [name]) rest := by
          rw [textual, List.foldl_cons, if_neg (Ne.symm down.1), textual]
      _ = place ++ name :: rest := by rw [ih down.2, List.append_assoc, List.singleton_append]

/-- Following a name and then others: `..` leads upwards, and every other name,
which may not be too long, to a directory. -/
theorem follow_cons {disk : Disk} {start reached : Place} {name : String} {rest : List String} :
    disk.follow start (name :: rest) = .ok reached ↔
      (name = ".." ∧ disk.follow start.dropLast rest = .ok reached) ∨
      (name ≠ ".." ∧ name.utf8ByteSize ≤ Path.nameLimit ∧
        disk.find? (start ++ [name]) = some .directory ∧
        disk.follow (start ++ [name]) rest = .ok reached) := by
  rw [Disk.follow]
  by_cases upward : name = ".."
  · simp [upward]
  · by_cases long : Path.nameLimit < name.utf8ByteSize
    · simp [upward, long, Nat.not_le.mpr long]
    · simp only [upward, long, Nat.not_lt.mp long, ↓reduceIte, false_and, ne_eq,
        not_false_eq_true, true_and, false_or]
      cases disk.find? (start ++ [name]) with
      | none => simp
      | some entry => cases entry <;> simp

/-- A path leads somewhere if it can be named at all, and its last name is one in
the directory that the others lead to. -/
theorem locate_ok {disk : Disk} :
    disk.locate path = .ok place ↔ path.hasZero = false ∧
      path.toString.utf8ByteSize ≤ Path.textLimit ∧
      (path.names = [] ∧ place = disk.start path ∨
        ∃ above last reached, path.names = above ++ [last] ∧
          disk.follow (disk.start path) above = .ok reached ∧
          advance reached last = .ok place) := by
  unfold Disk.locate
  cases clean : path.hasZero with
  | true => simp
  | false =>
    by_cases long : Path.textLimit < path.toString.utf8ByteSize
    · simp [long, Nat.not_le.mpr long]
    · simp only [long, Nat.not_lt.mp long, Bool.false_eq_true, ↓reduceIte, true_and]
      rcases List.eq_nil_or_concat' path.names with empty | ⟨above, last, split⟩
      · simp [empty, @eq_comm _ place]
      · simp only [split, List.getLast?_concat, List.dropLast_concat]
        cases followed : disk.follow (disk.start path) above with
        | error fault => simp [Except.bind, followed]
        | ok reached => simp [Except.bind, followed]

/-- A name means the directory above, or what it names if it is not too long. -/
theorem advance_ok {start reached : Place} {name : String} :
    advance start name = .ok reached ↔
      (name = ".." ∧ reached = start.dropLast) ∨
      (name ≠ ".." ∧ name.utf8ByteSize ≤ Path.nameLimit ∧ reached = start ++ [name]) := by
  rw [advance]
  by_cases upward : name = ".."
  · simp [upward, eq_comm]
  · by_cases long : Path.nameLimit < name.utf8ByteSize
    · simp [upward, long, Nat.not_le.mpr long]
    · simp [upward, long, Nat.not_lt.mp long, eq_comm]

private theorem advance_textual {start reached : Place} {name : String}
    (entered : advance start name = .ok reached) : textual start [name] = reached := by
  rw [textual, List.foldl_cons, List.foldl_nil]
  rcases advance_ok.mp entered with ⟨upward, rfl⟩ | ⟨downward, _, rfl⟩
  · rw [if_pos upward]
  · rw [if_neg downward]

theorem follow_textual {names : List String} {start reached : Place}
    (followed : before.follow start names = .ok reached) : textual start names = reached := by
  induction names generalizing start with
  | nil =>
    cases followed
    rfl
  | cons name rest ih =>
    rw [textual, List.foldl_cons]
    rcases follow_cons.mp followed with ⟨upward, later⟩ | ⟨downward, _, _, later⟩
    · rw [if_pos upward]
      exact ih later
    · rw [if_neg downward]
      exact ih later

/-- A path leads to the place that its text names. -/
theorem locate_resolves (located : before.locate path = .ok place) :
    before.resolve path = place := by
  obtain ⟨_, _, ⟨empty, rfl⟩ | ⟨above, last, reached, split, followed, entered⟩⟩ :=
    locate_ok.mp located
  · rw [Disk.resolve, empty]
    rfl
  · rw [← advance_textual entered, ← follow_textual followed, Disk.resolve, split,
      List.foldl_append]
    rfl

/-- Nothing differs between two disks but new directories, and these stand at
places of a kind. -/
structure Furnishes (kind : Place → Prop) (before after : Disk) : Prop where
  current : after.current = before.current
  found (place : Place) : after.find? place = before.find? place ∨
    before.find? place = none ∧ after.find? place = some .directory ∧ kind place

private theorem furnishes_refl (disk : Disk) : Furnishes kind disk disk :=
  ⟨rfl, fun _ => .inl rfl⟩

private theorem furnishes_trans (early : Furnishes kind before middle)
    (late : Furnishes kind middle after) : Furnishes kind before after := by
  refine ⟨late.current.trans early.current, fun place => ?_⟩
  rcases late.found place with kept | ⟨absent, made, allowed⟩
  · rw [kept]
    exact early.found place
  · rcases early.found place with same | ⟨_, present, _⟩
    · exact .inr ⟨by rw [← same]; exact absent, made, allowed⟩
    · rw [present] at absent
      cases absent

/-- A place that a path leads to or through, seen from the current directory of
a disk. -/
def Leading (base : Disk) (path : Path) (place : Place) : Prop :=
  ∃ names, names <+: path.names ∧ place = base.resolve ⟨path.slashes, names⟩

/-- From every disk with this current directory, the action makes directories on
the way of the path, and does nothing else, whether it succeeds or is refused. -/
def Furnishing (base : Disk) (path : Path) (action : Action Disk Disk.Fault α) : Prop :=
  ∀ before, before.current = base.current →
    Furnishes (Leading base path) before (action.run before).2

private theorem furnishing_bind {action : Action Disk Disk.Fault α}
    {next : α → Action Disk Disk.Fault β}
    (first : Furnishing base path action) (second : ∀ value, Furnishing base path (next value)) :
    Furnishing base path (action >>= next) := by
  intro before same
  have early := first before same
  rw [Action.run_bind]
  rcases ran : action.run before with ⟨outcome, middle⟩
  rw [ran] at early
  cases outcome with
  | error fault => exact early
  | ok value => exact furnishes_trans early (second value middle (early.current.trans same))

private theorem furnishing_orElse {action : Action Disk Disk.Fault α}
    {handle : Disk.Fault → Action Disk Disk.Fault α} (first : Furnishing base path action)
    (second : ∀ fault, Furnishing base path (handle fault)) :
    Furnishing base path (action.orElse handle) := by
  intro before same
  have early := first before same
  rw [Action.run_orElse]
  rcases ran : action.run before with ⟨outcome, middle⟩
  rw [ran] at early
  cases outcome with
  | error fault => exact furnishes_trans early (second fault middle (early.current.trans same))
  | ok value => exact early

private theorem accept_furnishing (other : Path) (fault : Disk.Fault) :
    Furnishing base path (acceptExisting other fault) := by
  intro before _
  simp only [acceptExisting, Action.run_bind, Action.run_state]
  split <;> exact furnishes_refl before

theorem resolve_current (same : before.current = base.current) (path : Path) :
    before.resolve path = base.resolve path := by
  simp only [Disk.resolve, Disk.start, same]

private theorem make_furnishing {slashes : Nat} {names whole : List String}
    (led : names <+: whole) :
    Furnishing base ⟨slashes, whole⟩ (makeDirectory ⟨slashes, names⟩) := by
  intro before same
  simp only [makeDirectory, Action.run]
  split
  · exact furnishes_refl before
  · rename_i target located
    split
    · exact furnishes_refl before
    · rename_i absent
      have named : target ≠ [] := by
        rintro rfl
        cases absent
      have reached := locate_resolves located
      rw [resolve_current same] at reached
      refine ⟨rfl, fun place => ?_⟩
      rw [find_set before .directory named]
      split
      · rename_i here
        rw [here]
        exact .inr ⟨absent, rfl, names, led, reached.symm⟩
      · exact .inl rfl

private theorem ensureFrom_furnishing {slashes : Nat} {names whole : List String}
    (led : names.reverse <+: whole) :
    Furnishing base ⟨slashes, whole⟩ (ensureDirectoriesFrom slashes names) := by
  induction names with
  | nil => exact furnishing_orElse (make_furnishing led) fun fault => accept_furnishing _ fault
  | cons last above ih =>
    have make : Furnishing base ⟨slashes, whole⟩
        (makeDirectory ⟨slashes, (last :: above).reverse⟩) := make_furnishing led
    have outer : above.reverse <+: whole := by
      rw [List.reverse_cons] at led
      exact (List.prefix_append _ _).trans led
    refine furnishing_orElse make fun fault => ?_
    cases fault with
    | missing =>
      refine furnishing_bind (ih outer) fun _ => ?_
      exact furnishing_orElse make fun fault => accept_furnishing _ fault
    | _ => exact accept_furnishing _ _

/-- Making a directory with those above it adds directories on the way of the
path and changes nothing else. -/
theorem ensureDirectories_furnishes (path : Path) (before : Disk) :
    Furnishes (Leading before path) before ((ensureDirectories path).run before).2 := by
  have led : path.names.reverse.reverse <+: path.names := by
    simp only [List.reverse_reverse, List.prefix_refl]
  exact ensureFrom_furnishing led before rfl

/-- What is no directory is on the way to nothing. -/
private theorem follow_kept {names : List String} {start reached : Place} {entry : Entry}
    (passed : before.find? target ≠ some .directory)
    (followed : before.follow start names = .ok reached) :
    (before.set target entry).follow start names = .ok reached := by
  have named : target ≠ [] := by
    rintro rfl
    exact passed rfl
  induction names generalizing start with
  | nil => exact followed
  | cons name rest ih =>
    rcases follow_cons.mp followed with ⟨upward, later⟩ | ⟨downward, short, directory, later⟩
    · exact follow_cons.mpr (.inl ⟨upward, ih later⟩)
    · have other : start ++ [name] ≠ target := by
        rintro rfl
        exact passed directory
      refine follow_cons.mpr (.inr ⟨downward, short, ?_, ih later⟩)
      rw [find_set before _ named, if_neg other, directory]

private theorem locate_kept {entry : Entry} (passed : before.find? target ≠ some .directory)
    (located : before.locate path = .ok place) :
    (before.set target entry).locate path = .ok place := by
  obtain ⟨clean, short, ⟨empty, here⟩ | ⟨above, last, reached, split, followed, entered⟩⟩ :=
    locate_ok.mp located
  · exact locate_ok.mpr ⟨clean, short, .inl ⟨empty, here⟩⟩
  · have again : (before.set target entry).follow (before.start path) above = .ok reached :=
      follow_kept passed followed
    exact locate_ok.mpr ⟨clean, short, .inr ⟨above, last, reached, split, again, entered⟩⟩

/-- A directory that was made stands where the path leads. -/
private theorem make_made (ran : (makeDirectory path).run before = (.ok (), after)) :
    after.isDirectory path = true := by
  simp only [makeDirectory, Action.run] at ran
  split at ran
  · cases ran
  · rename_i place located
    split at ran
    · cases ran
    · rename_i absent
      cases ran
      have named : place ≠ [] := by
        rintro rfl
        cases absent
      have passed : before.find? place ≠ some .directory := by simp [absent]
      have again : (before.set place .directory).locate path = .ok place :=
        locate_kept passed located
      simp only [Disk.isDirectory, Disk.entry?, again, find_set before _ named, ↓reduceIte,
        decide_true]

private theorem accept_made {fault : Disk.Fault}
    (ran : (acceptExisting path fault).run before = (.ok (), after)) :
    after.isDirectory path = true := by
  simp only [acceptExisting, Action.run_bind, Action.run_state] at ran
  split at ran
  · rename_i present
    cases ran
    exact present
  · cases ran

private theorem make_accepted {handle : Disk.Fault → Action Disk Disk.Fault Unit}
    (handled : ∀ fault middle, (handle fault).run middle = (.ok (), after) →
      after.isDirectory path = true)
    (ran : ((makeDirectory path).orElse handle).run before = (.ok (), after)) :
    after.isDirectory path = true := by
  rw [Action.run_orElse] at ran
  rcases made : (makeDirectory path).run before with ⟨outcome, middle⟩
  rw [made] at ran
  cases outcome with
  | ok _ =>
    cases ran
    exact make_made made
  | error fault => exact handled fault middle ran

/-- A directory stands where it was to be made, unless that was refused. -/
theorem ensureDirectories_made (ran : (ensureDirectories path).run before = (.ok (), after)) :
    after.isDirectory path = true := by
  obtain ⟨slashes, names⟩ := path
  unfold ensureDirectories at ran
  cases back : names.reverse with
  | nil =>
    rw [List.reverse_eq_nil_iff.mp back] at ran ⊢
    exact make_accepted (fun fault middle => accept_made) ran
  | cons last above =>
    have same : (last :: above).reverse = names := by rw [← back, List.reverse_reverse]
    simp only [back, ensureDirectoriesFrom, same] at ran
    refine make_accepted (fun fault middle handled => ?_) ran
    cases fault with
    | missing =>
      simp only [Action.run_bind] at handled
      rcases opened : (ensureDirectoriesFrom slashes above).run middle with ⟨outcome, reached⟩
      rw [opened] at handled
      cases outcome with
      | error fault => cases handled
      | ok _ => exact make_accepted (fun fault middle => accept_made) handled
    | _ => exact accept_made handled

/-- What a successful write did: the file stands at the place that the path
names, which was no directory, and is read back there. -/
theorem write_ran (ran : (Disk.write path content).run before = (.ok (), after)) :
    before.find? (before.resolve path) ≠ some .directory ∧
      after = before.set (before.resolve path) (.file content) ∧ after.read path = .ok content := by
  simp only [Disk.write, Action.run] at ran
  split at ran
  · cases ran
  · rename_i place located
    rw [locate_resolves located]
    split at ran
    · cases ran
    · rename_i passed
      cases ran
      have named : place ≠ [] := by
        rintro rfl
        exact passed rfl
      refine ⟨passed, rfl, ?_⟩
      rw [Disk.read, locate_kept passed located]
      simp only [find_set before _ named, ↓reduceIte]

/-- A file was written at a path, and directories that the path leads through
were made where nothing stood; all else is as before. -/
structure Writes (path : Path) (content : ByteArray) (before after : Disk) : Prop where
  current : after.current = before.current
  replaced : before.find? (before.resolve path) ≠ some .directory
  written : after.find? (before.resolve path) = some (.file content)
  readable : after.read path = .ok content
  elsewhere (place : Place) : place ≠ before.resolve path →
    after.find? place = before.find? place ∨
      before.find? place = none ∧ after.find? place = some .directory ∧
        Leading before path.parent place

/-- Writing a file after its directories were made. -/
theorem writes_after (furnished : Furnishes (Leading before path.parent) before middle)
    (ran : (Disk.write path content).run middle = (.ok (), after)) :
    Writes path content before after := by
  obtain ⟨passed, rfl, readable⟩ := write_ran ran
  have same : middle.resolve path = before.resolve path := resolve_current furnished.current path
  rw [same] at passed readable
  have named : before.resolve path ≠ [] := by
    intro top
    rw [top] at passed
    exact passed rfl
  constructor
  · exact furnished.current
  · rcases furnished.found (before.resolve path) with kept | ⟨_, made, _⟩
    · rwa [← kept]
    · exact absurd made passed
  · rw [same, find_set middle _ named, if_pos rfl]
  · rw [same]
    exact readable
  · intro place other
    rw [same, find_set middle _ named, if_neg other]
    exact furnished.found place

end EntitySchema.DiskFrame
