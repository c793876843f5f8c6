import EntitySchema.Proofs.DiskFrame
import EntitySchema.Proofs.NormalPath
import EntitySchema.Store
import Mathlib.Data.Set.Finite.List

/-! Where documents are read. A normal path that does not leave the root is a
list of names without `..`, and the file it names stands at the place of the
root followed by these very names. A disk has finitely many places, so over
unchanging files only finitely many normal paths have a document. -/
namespace EntitySchema.SourcePaths
open Location NormalPath

variable {source : Source} {names : List Name} {key : String} {document : Json}

private theorem settled_up {absolute : Bool} {reached : List Name}
    (settled : Settled absolute reached) (upward : up ∈ reached) :
    absolute = false ∧ reached.getLast? = some up := by
  induction reached with
  | nil => cases upward
  | cons inner outer ih =>
    rcases List.mem_cons.mp upward with same | later
    · obtain ⟨relative, above⟩ := settled.2.1 same.symm
      refine ⟨relative, ?_⟩
      cases outer with
      | nil => rw [← same]; rfl
      | cons next further =>
        rw [List.getLast?_cons_cons, List.getLast?_eq_some_getLast (by simp)]
        exact congrArg some (above _ (List.getLast_mem _))
    · obtain ⟨relative, last⟩ := ih settled.2.2 later
      refine ⟨relative, ?_⟩
      cases outer with
      | nil => cases later
      | cons next further => rwa [List.getLast?_cons_cons]

private theorem spell_filled {slashes : Nat} {name : Name} (plain : Plain name) (rest : List Name) :
    spell slashes (name :: rest) = List.replicate slashes '/' ++ joinNames (name :: rest) := by
  obtain ⟨c, more, rfl⟩ := List.exists_cons_of_ne_nil plain.filled
  cases rest <;> simp [spell, joinNames, List.intercalate_cons_cons]

/-- A normal path that does not leave the root has no slash in front and no
step upwards. -/
theorem inside_names {slashes : Nat} (normal : Normal slashes names)
    (inside : leavesRoot (String.ofList (spell slashes names)) = false) :
    slashes = 0 ∧ up ∉ names := by
  simp only [leavesRoot, String.toList_ofList, Bool.or_eq_false_iff] at inside
  obtain ⟨⟨notUp, notBelow⟩, notAbsolute⟩ := inside
  have relative : slashes = 0 := by
    rcases slashes with _ | more
    · rfl
    · simp [spell, List.replicate_succ] at notAbsolute
  refine ⟨relative, fun upward => ?_⟩
  subst relative
  obtain ⟨_, first⟩ := settled_up normal.settled (List.mem_reverse.mpr upward)
  rw [List.getLast?_reverse, List.head?_eq_some_iff] at first
  obtain ⟨rest, rfl⟩ := first
  rw [spell_filled (normal_plain normal up List.mem_cons_self)] at notUp notBelow
  cases rest with
  | nil => exact absurd notUp (by decide)
  | cons next further =>
    simp [joinNames, List.intercalate_cons_cons, up] at notBelow

private theorem namesOf_spell (normal : Normal 0 names) :
    Disk.Path.namesOf (spell 0 names) = names.map String.ofList := by
  have plain := normal_plain normal
  cases names with
  | nil => rfl
  | cons name rest =>
    rw [spell_filled (plain name List.mem_cons_self), Disk.Path.namesOf]
    simp only [List.replicate_zero, List.nil_append]
    rw [joinNames, List.splitOn_intercalate '/' (fun name member => (plain name member).noSlash)
      (by simp), List.filter_eq_self.mpr]
    intro name member
    have kept := plain name member
    simp [kept.filled, kept.notDot]

private theorem relative_spell (normal : Normal 0 names) :
    ((spell 0 names).takeWhile (· = '/')).length = 0 := by
  cases names with
  | nil => rfl
  | cons name rest =>
    have plain := normal_plain normal name List.mem_cons_self
    rw [spell_filled plain]
    obtain ⟨c, more, rfl⟩ := List.exists_cons_of_ne_nil plain.filled
    have other : c ≠ '/' := by
      rintro rfl
      exact plain.noSlash List.mem_cons_self
    cases rest <;> simp [joinNames, List.intercalate_cons_cons, other]

theorem child_spell (normal : Normal 0 names) (root : Disk.Path) :
    root.child (String.ofList (spell 0 names)) =
      { root with names := root.names ++ names.map String.ofList } := by
  simp only [Disk.Path.child, Disk.Path.ofString, String.toList_ofList, relative_spell normal,
    Nat.zero_le, ↓reduceIte, namesOf_spell normal]

private theorem follow_append {disk : Disk} {place reached : Disk.Place}
    {first second : List String} :
    disk.follow place (first ++ second) = .ok reached ↔
      ∃ middle, disk.follow place first = .ok middle ∧ disk.follow middle second = .ok reached := by
  induction first generalizing place with
  | nil => simp [Disk.follow]
  | cons name rest ih =>
    simp only [List.cons_append, DiskFrame.follow_cons, ih]
    constructor
    · rintro (⟨upward, middle, early, late⟩ | ⟨downward, short, here, middle, early, late⟩)
      · exact ⟨middle, .inl ⟨upward, early⟩, late⟩
      · exact ⟨middle, .inr ⟨downward, short, here, early⟩, late⟩
    · rintro ⟨middle, ⟨upward, early⟩ | ⟨downward, short, here, early⟩, late⟩
      · exact .inl ⟨upward, middle, early, late⟩
      · exact .inr ⟨downward, short, here, middle, early, late⟩

/-- One name that can be followed as a directory leads where it does. -/
private theorem advance_followed {disk : Disk} {place reached : Disk.Place} {name : String}
    (followed : disk.follow place [name] = .ok reached) :
    Disk.advance place name = .ok reached := by
  rcases DiskFrame.follow_cons.mp followed with ⟨upward, here⟩ | ⟨downward, short, _, here⟩
  · exact DiskFrame.advance_ok.mpr (.inl ⟨upward, (Except.ok.inj here).symm⟩)
  · exact DiskFrame.advance_ok.mpr (.inr ⟨downward, short, (Except.ok.inj here).symm⟩)

/-- A path whose names can all be followed as directories leads where they do. -/
private theorem locate_followed {disk : Disk} {path : Disk.Path} {place : Disk.Place}
    (clean : path.hasZero = false) (short : path.toString.utf8ByteSize ≤ Disk.Path.textLimit)
    (followed : disk.follow (disk.start path) path.names = .ok place) :
    disk.locate path = .ok place := by
  refine DiskFrame.locate_ok.mpr ⟨clean, short, ?_⟩
  rcases List.eq_nil_or_concat' path.names with empty | ⟨above, last, split⟩
  · rw [empty] at followed
    exact .inl ⟨empty, (Except.ok.inj followed).symm⟩
  · rw [split] at followed
    obtain ⟨middle, early, late⟩ := follow_append.mp followed
    exact .inr ⟨above, last, middle, split, early, advance_followed late⟩

private theorem intercalate_front (separator : List Char) (first second : List (List Char)) :
    separator.intercalate first <+: separator.intercalate (first ++ second) := by
  induction first with
  | nil => exact List.nil_prefix
  | cons text rest ih =>
    cases rest with
    | nil => cases second <;> simp [List.intercalate_cons_cons]
    | cons next further =>
      rw [List.cons_append, List.cons_append, List.intercalate_cons_cons,
        List.intercalate_cons_cons, List.append_assoc, List.append_assoc]
      exact (List.prefix_append_right_inj _).mpr ((List.prefix_append_right_inj _).mpr ih)

/-- Where the text of a path fits, those of the directories above it do. -/
private theorem text_above {root : Disk.Path} {steps : List String}
    (short : (Disk.Path.mk root.slashes (root.names ++ steps)).toString.utf8ByteSize ≤
      Disk.Path.textLimit) : root.toString.utf8ByteSize ≤ Disk.Path.textLimit := by
  by_cases bare : root.slashes = 0 ∧ root.names = []
  · simp only [Disk.Path.toString, bare]
    decide
  · refine Nat.le_trans ?_ short
    have named : (root.slashes = 0 && root.names.isEmpty) = false := by simpa using bare
    have longer : (root.slashes = 0 && (root.names ++ steps).isEmpty) = false := by
      simp only [Bool.and_eq_false_iff, decide_eq_false_iff_not, List.isEmpty_eq_false_iff] at named ⊢
      exact named.imp_right fun filled empty => filled (List.append_eq_nil_iff.mp empty).1
    have front := intercalate_front ['/'] (root.names.map String.toList) (steps.map String.toList)
    rw [← List.map_append] at front
    obtain ⟨more, text⟩ := front
    have extended : "/".intercalate (root.names ++ steps) =
        "/".intercalate root.names ++ String.ofList more := by
      apply String.toList_injective
      rw [String.toList_append, String.toList_ofList, String.toList_intercalate,
        String.toList_intercalate]
      exact text.symm
    simp only [Disk.Path.toString, named, longer, Bool.false_eq_true, ↓reduceIte, extended,
      String.utf8ByteSize_append]
    omega

/-- A path that goes down from `root` is found below the place of the root. -/
theorem locate_below {disk : Disk} {root : Disk.Path} {steps : List String} {place : Disk.Place}
    (down : ".." ∉ steps)
    (located : disk.locate { root with names := root.names ++ steps } = .ok place) :
    ∃ top, disk.locate root = .ok top ∧ place = top ++ steps := by
  obtain ⟨noZero, short, names⟩ := DiskFrame.locate_ok.mp located
  have clean : root.hasZero = false := by
    simp only [Disk.Path.hasZero, List.any_append, Bool.or_eq_false_iff] at noZero
    exact noZero.1
  rcases List.eq_nil_or_concat' steps with rfl | ⟨above, last, rfl⟩
  · rw [List.append_nil] at located
    exact ⟨place, located, by simp⟩
  · have notUp : last ≠ ".." := by
      rintro rfl
      exact down (by simp)
    obtain ⟨empty, _⟩ | ⟨outer, final, reached, split, followed, entered⟩ := names
    · simp at empty
    · rw [← List.append_assoc] at split
      obtain ⟨rfl, same⟩ := List.append_inj' split rfl
      cases same
      obtain ⟨top, started, inner⟩ := follow_append.mp followed
      have below := DiskFrame.follow_textual inner
      rw [DiskFrame.textual_down fun member => down (by simp [member])] at below
      obtain ⟨_, _, rfl⟩ := (DiskFrame.advance_ok.mp entered).resolve_left fun up => notUp up.1
      exact ⟨top, locate_followed clean (text_above short) started,
        by rw [← below, List.append_assoc]⟩

/-- What is read below the root stands at the place of the root followed by the
very names. -/
theorem read_place {disk : Disk} {root : Disk.Path} {steps : List String} {content : ByteArray}
    (down : ".." ∉ steps)
    (read : disk.read { root with names := root.names ++ steps } = .ok content) :
    ∃ top, disk.locate root = .ok top ∧ disk.find? (top ++ steps) = some (.file content) := by
  unfold Disk.read at read
  split at read
  · cases read
  · rename_i place located
    obtain ⟨top, found, rfl⟩ := locate_below down located
    refine ⟨top, found, ?_⟩
    split at read
    · cases read
    · cases read
    · rename_i held entry
      cases read
      exact entry

/-- A document comes from the bytes of a file inside the root. -/
theorem document_bytes (held : source.document key = .ok document) :
    leavesRoot key = false ∧
      ∃ content, source.disk.read (source.root.child key) = .ok content ∧
        Json.ofBytes content.data.toList = .ok document := by
  unfold Source.document at held
  split at held
  · cases held
  · rename_i inside
    refine ⟨by simpa using inside, ?_⟩
    split at held
    · cases held
    · cases held
    · cases held
    · rename_i content read
      cases parsed : Json.ofBytes content.data.toList with
      | error detail =>
        rw [parsed] at held
        cases held
      | ok found =>
        rw [parsed] at held
        cases held
        exact ⟨content, read, parsed⟩

/-- The text of a path whose names are known. -/
def pathOf (steps : List String) : String :=
  String.ofList (spell 0 (steps.map String.toList))

/-- A normal path with a document is spelled by its names, and the document
comes from the entry that stands at these names below the root. -/
theorem document_place (normal : normalize key = key)
    (held : source.document key = .ok document) :
    pathOf (Disk.Path.namesOf key.toList) = key ∧
      ∃ top content, source.disk.locate source.root = .ok top ∧
        source.disk.entries.lookup (top ++ Disk.Path.namesOf key.toList) =
          some (.file content) ∧
        Json.ofBytes content.data.toList = .ok document := by
  obtain ⟨slashes, names, shape, spelled⟩ := normalChars_spelled key.toList
  have written : key = String.ofList (spell slashes names) := by
    rw [← normal, Location.normalize, spelled]
  obtain ⟨inside, content, read, parsed⟩ := document_bytes held
  rw [written] at inside
  obtain ⟨rfl, down⟩ := inside_names shape inside
  have named : Disk.Path.namesOf key.toList = names.map String.ofList := by
    rw [written, String.toList_ofList, namesOf_spell shape]
  have downward : ".." ∉ names.map String.ofList := by
    intro member
    obtain ⟨name, listed, same⟩ := List.mem_map.mp member
    have upward : name = up := by
      rw [← String.toList_ofList (l := name), same]
      rfl
    exact down (upward ▸ listed)
  rw [written, child_spell shape] at read
  obtain ⟨top, located, entry⟩ := read_place downward read
  rw [named]
  refine ⟨by simp [pathOf, written, Function.comp_def], top, content, located, ?_, parsed⟩
  unfold Disk.find? at entry
  split at entry
  · cases entry
  · exact entry

/-- Over unchanging files only finitely many normal paths have a document: each
is spelled by what is left of a place of the disk when names are taken away in
front. -/
theorem documents_finite (source : Source) :
    {key | normalize key = key ∧ ∃ document, source.document key = .ok document}.Finite := by
  let candidates := source.disk.entries.flatMap fun entry => entry.1.tails
  refine (candidates.finite_toSet.image pathOf).subset ?_
  rintro key ⟨normal, document, held⟩
  obtain ⟨written, top, content, _, found, _⟩ := document_place normal held
  obtain ⟨before, after, split, _⟩ := List.lookup_eq_some_iff.mp found
  refine ⟨Disk.Path.namesOf key.toList, ?_, written⟩
  refine List.mem_flatMap.mpr ⟨_, by rw [split]; exact List.mem_append_right _ List.mem_cons_self, ?_⟩
  exact (List.mem_tails _ _).mpr ⟨top, rfl⟩

end EntitySchema.SourcePaths
