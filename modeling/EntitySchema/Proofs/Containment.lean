import EntitySchema.Proofs.StoreHistory

/-! No reference leaves the schema root. Which files a computation reads is told
by what it depends on: if nothing changes between two disks on which some files
read the same, no other file was read. For a path that is loaded this is at
most one file, and its names go down from the root; for a path that climbs
above the root or is absolute it is none, and the path is refused. -/
namespace EntitySchema.Containment
open Location NormalPath Reference Loading StoreHistory

variable {root : Disk.Path} {key : String} {names reached : List Name}

/-- The path that further names lead to from the root. -/
def below (root : Disk.Path) (names : List String) : Disk.Path :=
  { root with names := root.names ++ names }

/-- A single name that leads one level down. -/
structure Downward (name : String) : Prop where
  filled : name ≠ ""
  notDot : name ≠ "."
  notUp : name ≠ ".."
  single : '/' ∉ name.toList

/-- No file is read but these: on any two disks on which they read the same, the
same happens, whatever else is on the disks. -/
def ReadsOnly {α : Type} (root : Disk.Path) (files : List Disk.Path) (action : Source → Load α) :
    Prop :=
  ∀ first second : Disk, (∀ file ∈ files, first.read file = second.read file) →
    action ⟨first, root⟩ = action ⟨second, root⟩

/-- Every file that is read is named by the root and names that go down. -/
def StaysBelow {α : Type} (root : Disk.Path) (action : Source → Load α) : Prop :=
  ∃ files, ReadsOnly root files action ∧
    ∀ file ∈ files, ∃ names, (∀ name ∈ names, Downward name) ∧ file = below root names

/-- Do these steps lead above the place they start from, having come `depth`
names below it? -/
def climbs (depth : Nat) : List Name → Bool
  | [] => false
  | name :: rest =>
    if name = [] || name = ['.'] then climbs depth rest
    else if name = up then
      match depth with
      | 0 => true
      | depth + 1 => climbs depth rest
    else climbs (depth + 1) rest

/-- A path that climbs above the root, or is absolute once it is normal. -/
def Escapes (path : List Char) : Prop :=
  climbs 0 ((turnSlashes path).splitOn '/') = true ∨ (normalChars path).head? = some '/'

/-- The files that may be read for the document at a normal path. -/
def filesOf (root : Disk.Path) (key : String) : List Disk.Path :=
  if leavesRoot key then [] else [root.child key]

private theorem document_readsOnly {first second : Disk}
    (same : ∀ file ∈ filesOf root key, first.read file = second.read file) :
    Source.document ⟨first, root⟩ key = Source.document ⟨second, root⟩ key := by
  unfold Source.document
  by_cases leaves : leavesRoot key = true
  · simp only [leaves, ↓reduceIte]
  · have agreed : first.read (root.child key) = second.read (root.child key) :=
      same _ (by simp [filesOf, leaves])
    simp only [leaves, Bool.false_eq_true, ↓reduceIte, agreed]

theorem load_readsOnly (root : Disk.Path) (path : String) :
    ReadsOnly root (filesOf root (normalize path)) (Store.load · path) := by
  intro first second same
  simp only [Store.load, document_readsOnly same]

theorem context_readsOnly (root : Disk.Path) (path : String) :
    ReadsOnly root (filesOf root (normalize path)) (Store.context · path) := by
  intro first second same
  rw [← normalize_settles] at same
  simp only [Store.context, load_readsOnly root (normalize path) first second same]

/-- The text of a reference in front of its pointer. -/
def fileText (ref : String) : String :=
  String.ofList (ref.toList.takeWhile (· ≠ '#'))

/-- A reference that names a document: it is not blank and does not start with
its pointer. -/
def NamesFile (ref : String) : Prop :=
  ref.toList.all Text.isBlank = false ∧ ref.toList.head? ≠ some '#'

theorem resolve_file {ref : String} (named : NamesFile ref) (source : Source)
    (context : Context) :
    resolve source ref context = (do
      let found ← Store.context source (relativeTo context.path (fileText ref))
      if ((ref.toList.dropWhile (· ≠ '#')).drop 1).head? = some '/' then
        target? found.schema
          (String.ofList ('#' :: (ref.toList.dropWhile (· ≠ '#')).drop 1)) found.path
      else pure (some found)) := by
  obtain ⟨filled, notHash⟩ := named
  have notPointer : "#/".toList.isPrefixOf ref.toList = false := by
    cases text : ref.toList with
    | nil => rfl
    | cons c rest =>
      rw [text] at notHash
      have other : ¬ '#' = c := by
        rintro rfl
        exact notHash rfl
      simp [List.isPrefixOf, other]
  simp only [resolve, filled, notPointer, notHash, Bool.false_eq_true, ↓reduceIte, fileText]

private theorem resolve_within {ref : String} (unnamed : ¬ NamesFile ref) (root : Disk.Path)
    (context : Context) : ReadsOnly root [] (resolve · ref context) := by
  intro first second _
  by_cases blank : ref.toList.all Text.isBlank = true
  · simp only [resolve, blank, ↓reduceIte]
  · have hash : ref.toList.head? = some '#' := by
      by_contra notHash
      exact unnamed ⟨by simpa using blank, notHash⟩
    simp only [resolve, hash, ↓reduceIte]

private theorem relativeTo_spelled (path target : String) :
    relativeTo path target =
      normalize (String.ofList (joinChars (directoryChars path.toList) target.toList)) := by
  rw [relativeTo, Location.normalize, String.toList_ofList]

theorem relativeTo_normal (path target : String) :
    normalize (relativeTo path target) = relativeTo path target := by
  rw [relativeTo_spelled, normalize_settles]

theorem resolve_readsOnly {ref : String} (named : NamesFile ref) (root : Disk.Path)
    (context : Context) :
    ReadsOnly root (filesOf root (relativeTo context.path (fileText ref)))
      (resolve · ref context) := by
  intro first second same
  rw [← relativeTo_normal] at same
  simp only [resolve_file named,
    context_readsOnly root (relativeTo context.path (fileText ref)) first second same]

private theorem plain_downward {name : Name} (plain : Plain name) (down : name ≠ up) :
    Downward (String.ofList name) := by
  have spelled : ∀ text : String, String.ofList name = text → name = text.toList := by
    intro text same
    rw [← same, String.toList_ofList]
  refine ⟨?_, ?_, ?_, ?_⟩
  · exact fun same => plain.filled (spelled _ same)
  · exact fun same => plain.notDot (spelled _ same)
  · exact fun same => down (spelled _ same)
  · rw [String.toList_ofList]
    exact plain.noSlash

/-- The file of a normal path that stays inside is named by the root and names
that go down. -/
theorem file_below (normal : normalize key = key) (root : Disk.Path) :
    ∀ file ∈ filesOf root key,
      ∃ names, (∀ name ∈ names, Downward name) ∧ file = below root names := by
  intro file member
  obtain ⟨slashes, names, shape, spelled⟩ := normalChars_spelled key.toList
  have written : key = String.ofList (spell slashes names) := by
    rw [← normal, Location.normalize, spelled]
  by_cases leaves : leavesRoot key = true
  · simp [filesOf, leaves] at member
  · have named : file = root.child key := by simpa [filesOf, leaves] using member
    rw [Bool.not_eq_true, written] at leaves
    obtain ⟨rfl, down⟩ := SourcePaths.inside_names shape leaves
    refine ⟨names.map String.ofList, ?_, ?_⟩
    · intro name inside
      obtain ⟨piece, listed, rfl⟩ := List.mem_map.mp inside
      exact plain_downward (normal_plain shape piece listed) fun same => down (same ▸ listed)
    · rw [named, written, SourcePaths.child_spell shape]
      rfl

/-- Once a relative walk stands above its start, it never comes back. -/
private theorem up_stays (above : reached.getLast? = some up) :
    (names.foldl (enter false) reached).getLast? = some up := by
  induction names generalizing reached with
  | nil => exact above
  | cons name rest ih =>
    apply ih
    by_cases blank : name = [] ∨ name = ['.']
    · rw [enter_stays blank]
      exact above
    · obtain ⟨filled, notDot⟩ := not_or.mp blank
      simp only [enter, filled, notDot, decide_false, Bool.or_self, Bool.false_eq_true, ↓reduceIte]
      cases reached with
      | nil => cases above
      | cons inner outer =>
        by_cases upward : name = up
        · simp only [upward, ↓reduceIte]
          by_cases same : inner = up
          · simp only [same, ↓reduceIte]
            rw [same] at above
            rw [List.getLast?_cons_cons]
            exact above
          · simp only [same, ↓reduceIte]
            cases outer with
            | nil =>
              simp only [List.getLast?_singleton, Option.some.injEq] at above
              exact absurd above same
            | cons next further => rwa [List.getLast?_cons_cons] at above
        · simp only [upward, ↓reduceIte]
          rw [List.getLast?_cons_cons]
          exact above

private theorem climbs_up (climbing : climbs reached.length names = true) (inside : up ∉ reached) :
    (names.foldl (enter false) reached).getLast? = some up := by
  induction names generalizing reached with
  | nil => cases climbing
  | cons name rest ih =>
    rw [List.foldl_cons]
    by_cases blank : name = [] ∨ name = ['.']
    · rw [enter_stays blank]
      refine ih ?_ inside
      rcases blank with rfl | rfl <;> exact climbing
    · obtain ⟨filled, notDot⟩ := not_or.mp blank
      simp only [climbs, filled, notDot, decide_false, Bool.or_self, Bool.false_eq_true,
        ↓reduceIte] at climbing
      simp only [enter, filled, notDot, decide_false, Bool.or_self, Bool.false_eq_true, ↓reduceIte]
      by_cases upward : name = up
      · simp only [upward, ↓reduceIte] at climbing ⊢
        cases reached with
        | nil =>
          -- A step upwards from the start leads out, and no later step leads back in.
          exact up_stays rfl
        | cons inner outer =>
          simp only [List.mem_cons, not_or] at inside
          simp only [Ne.symm inside.1, ↓reduceIte]
          exact ih climbing inside.2
      · simp only [upward, ↓reduceIte] at climbing ⊢
        refine ih climbing ?_
        simp only [List.mem_cons, not_or]
        exact ⟨Ne.symm upward, inside⟩

/-- The guard in front of reading turns away every path that escapes. -/
theorem escapes_leaves {path : List Char} (escapes : Escapes path) :
    leavesRoot (String.ofList (normalChars path)) = true := by
  rcases escapes with climbing | absolute
  · by_contra stays
    obtain ⟨shape, spelled⟩ := normalChars_walk path
    rw [Bool.not_eq_true, spelled] at stays
    obtain ⟨relative, inside⟩ := SourcePaths.inside_names shape stays
    rw [relative] at inside
    have outermost : (((turnSlashes path).splitOn '/').foldl (enter false) []).getLast? = some up :=
      climbs_up climbing List.not_mem_nil
    exact inside (List.mem_reverse.mpr (List.mem_of_getLast? outermost))
  · simp [leavesRoot, absolute]

/-- No store ever holds a document outside the root. -/
theorem paths_inside (source : Source) (operations : List Operation) :
    ∀ key ∈ (Session.afterAll ⟨source, {}⟩ operations).store.paths, leavesRoot key = false := by
  induction operations using List.reverseRecOn with
  | nil => simp [Session.afterAll, Store.paths]
  | append_singleton past operation ih =>
    intro key member
    rw [Session.afterAll_concat] at member
    obtain ⟨document, stored⟩ := mem_paths.mp member
    by_cases held : (key, document) ∈ (Session.afterAll ⟨source, {}⟩ past).store.documents
    · exact ih key (mem_paths.mpr ⟨document, held⟩)
    · obtain ⟨_, _, read⟩ := reads_added (after_reads _ operation) stored held
      exact (SourcePaths.document_bytes read).1

section Refusal

variable {store : Store} {path : String}

private theorem load_turned_away (leaves : leavesRoot (normalize path) = true)
    (absent : normalize path ∉ store.paths) (source : Source) :
    (Store.load source path).run store = (.error (.notFound (normalize path)), store) := by
  have refused : source.document (normalize path) = .error (.notFound (normalize path)) := by
    simp only [Source.document, leaves, ↓reduceIte]
  simp only [Store.load, Action.run_bind, Action.run_state, absent_iff.mpr absent,
    Action.run_ofExcept, refused]

private theorem context_turned_away (leaves : leavesRoot (normalize path) = true)
    (absent : normalize path ∉ store.paths) (source : Source) :
    (Store.context source path).run store = (.error (.notFound (normalize path)), store) := by
  rw [← normalize_settles] at leaves absent
  simp only [Store.context, Action.run_bind, load_turned_away leaves absent source,
    normalize_settles]

theorem resolve_turned_away {ref : String} {context : Context} (named : NamesFile ref)
    (leaves : leavesRoot (relativeTo context.path (fileText ref)) = true)
    (absent : relativeTo context.path (fileText ref) ∉ store.paths) (source : Source) :
    (resolve source ref context).run store =
      (.error (.notFound (relativeTo context.path (fileText ref))), store) := by
  rw [← relativeTo_normal] at leaves absent
  simp only [resolve_file named, Action.run_bind, context_turned_away leaves absent source,
    relativeTo_normal]

end Refusal

/-- **No reference leaves the schema root.** Whatever path is loaded and whatever
reference is resolved, in any context, only files are read that the root and
names going down lead to, and these stand below the place of the root. A path
that climbs above the root or is absolute is refused as not found, in every
store there can be and on every disk: no file is read for it. -/
theorem reads_stay_below (root : Disk.Path) :
    (∀ path, StaysBelow root (Store.load · path) ∧ StaysBelow root (Store.context · path)) ∧
      (∀ ref context, StaysBelow root (resolve · ref context)) ∧
      (∀ (disk : Disk) names content, (∀ name ∈ names, Downward name) →
        disk.read (below root names) = .ok content →
        ∃ top, disk.locate root = .ok top ∧ disk.find? (top ++ names) = some (.file content)) ∧
      ∀ initial past store, store = (Session.afterAll ⟨⟨initial, root⟩, {}⟩ past).store →
        (∀ path, Escapes path.toList →
          ReadsOnly root [] (Store.load · path) ∧ ReadsOnly root [] (Store.context · path) ∧
          ∀ disk,
            (Store.load ⟨disk, root⟩ path).run store =
              (.error (.notFound (normalize path)), store) ∧
            (Store.context ⟨disk, root⟩ path).run store =
              (.error (.notFound (normalize path)), store)) ∧
        ∀ ref context, NamesFile ref →
          Escapes (joinChars (directoryChars context.path.toList) (fileText ref).toList) →
          ReadsOnly root [] (resolve · ref context) ∧
          ∀ disk, (resolve ⟨disk, root⟩ ref context).run store =
            (.error (.notFound (relativeTo context.path (fileText ref))), store) := by
  refine ⟨?_, ?_, ?_, ?_⟩
  · intro path
    have named := file_below (normalize_settles path) root
    exact ⟨⟨_, load_readsOnly root path, named⟩, ⟨_, context_readsOnly root path, named⟩⟩
  · intro ref context
    by_cases named : NamesFile ref
    · exact ⟨_, resolve_readsOnly named root context, file_below (relativeTo_normal _ _) root⟩
    · exact ⟨[], resolve_within named root context, by simp⟩
  · intro disk names content down read
    exact SourcePaths.read_place (fun upward => (down _ upward).notUp rfl) read
  · intro initial past store reached
    have outside : ∀ key, leavesRoot key = true → key ∉ store.paths := by
      intro key leaves member
      rw [reached] at member
      rw [paths_inside ⟨initial, root⟩ past key member] at leaves
      cases leaves
    refine ⟨?_, ?_⟩
    · intro path escapes
      have leaves : leavesRoot (normalize path) = true := escapes_leaves escapes
      have nothing : filesOf root (normalize path) = [] := by simp [filesOf, leaves]
      have load := load_readsOnly root path
      have context := context_readsOnly root path
      rw [nothing] at load context
      exact ⟨load, context, fun disk => ⟨load_turned_away leaves (outside _ leaves) _,
        context_turned_away leaves (outside _ leaves) _⟩⟩
    · intro ref context named escapes
      have leaves : leavesRoot (relativeTo context.path (fileText ref)) = true :=
        escapes_leaves escapes
      have nothing : filesOf root (relativeTo context.path (fileText ref)) = [] := by
        simp [filesOf, leaves]
      have read := resolve_readsOnly named root context
      rw [nothing] at read
      exact ⟨read, fun disk => resolve_turned_away named leaves (outside _ leaves) _⟩

/-- One step above the root, and a reference that climbs two levels from a
document one level down. -/
theorem reads_stay_below_parent :
    (Store.load ⟨{}, ⟨0, []⟩⟩ "../x").run {} = (.error (.notFound (normalize "../x")), {}) ∧
      (resolve ⟨{}, ⟨0, []⟩⟩ "../../x#/y" ⟨.null, "a/b"⟩).run {} =
        (.error (.notFound (relativeTo "a/b" (fileText "../../x#/y"))), {}) := by
  obtain ⟨_, _, _, refused⟩ := reads_stay_below ⟨0, []⟩
  obtain ⟨loads, resolves⟩ := refused {} [] {} rfl
  have path : Escapes "../x".toList := .inl (by decide)
  have target : Escapes (joinChars (directoryChars "a/b".toList)
      (fileText "../../x#/y").toList) := .inl (by decide)
  have named : NamesFile "../../x#/y" := ⟨by decide, by decide⟩
  constructor
  · exact ((loads "../x" path).2.2 {}).1
  · exact (resolves "../../x#/y" ⟨.null, "a/b"⟩ named target).2 {}

end EntitySchema.Containment
