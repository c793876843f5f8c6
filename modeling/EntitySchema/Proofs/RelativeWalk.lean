import EntitySchema.Proofs.Containment
import Mathlib

/-! References resolved by walking. Joining the text of a reference to the
directory of its document and normalizing the whole comes to the same as going
there: from the names of the directory, step by step through the names of the
reference. A walk that never leaves the root ends at the key of the document;
one that would leave it is refused. References that end at the same place
therefore share one document, wherever they are written. -/
namespace EntitySchema.RelativeWalk
open Location NormalPath Reference StoreView StoreHistory Containment

variable {name : Name} {names place steps : List Name} {path : String} {text : List Char}

/-- The steps of a path as it is written, with slashes of either kind. -/
def stepsOf (text : List Char) : List Name :=
  text.splitOnP fun c => c = '/' || c = '\\'

/-- Where steps lead from a place below the root, both by their names from the
root downwards. An empty step and `.` stay, `..` goes up, and any other goes
down. Nothing is above the root: a walk that goes up from there leads nowhere. -/
def walkFrom (place : List Name) : List Name → Option (List Name)
  | [] => some place
  | name :: rest =>
    if name = [] ∨ name = ['.'] then walkFrom place rest
    else if name = up then
      if place = [] then none else walkFrom place.dropLast rest
    else walkFrom (place ++ [name]) rest

/-- The names of the directory in which a document stands. -/
def directory (path : String) : List Name :=
  (path.toList.splitOn '/').dropLast

/-- Where a reference leads that is written in the document at a path. -/
def walked (path ref : String) : Option (List Name) :=
  walkFrom (directory path) (stepsOf (fileText ref).toList)

/-- The key of a document: its names with slashes between them, or `.` for the
root itself. -/
def keyOf (names : List Name) : String :=
  String.ofList (spell 0 names)

/-- Turning slashes and splitting at them is splitting at slashes of either kind. -/
theorem stepsOf_turned (text : List Char) :
    (turnSlashes text).splitOn '/' = stepsOf text := by
  induction text with
  | nil => rfl
  | cons c rest ih =>
    rw [stepsOf, List.splitOnP_cons_eq_if_modifyHead, turnSlashes, List.map_cons,
      List.splitOn_cons_eq_if_modifyHead, ← turnSlashes, ih, stepsOf]
    by_cases turned : c = '\\'
    · simp [turned]
    · simp [turned]

private theorem enter_down (plain : Plain name) (down : name ≠ up) (absolute : Bool)
    (reached : List Name) : enter absolute reached name = name :: reached := by
  simp only [enter, plain.filled, plain.notDot, decide_false, Bool.or_self, Bool.false_eq_true,
    ↓reduceIte, down]

/-- Names that go down from the root. -/
def Descending (names : List Name) : Prop :=
  ∀ name ∈ names, Plain name ∧ name ≠ up

private theorem enter_descending (descending : Descending names) (reached : List Name) :
    names.foldl (enter false) reached = names.reverse ++ reached := by
  induction names generalizing reached with
  | nil => rfl
  | cons name rest ih =>
    obtain ⟨⟨plain, down⟩, below⟩ := List.forall_mem_cons.mp descending
    rw [List.foldl_cons, enter_down plain down, ih below, List.reverse_cons, List.append_assoc,
      List.singleton_append]

private theorem climbs_descending (descending : Descending names) (depth : Nat) :
    climbs depth (names ++ steps) = climbs (depth + names.length) steps := by
  induction names generalizing depth with
  | nil => rfl
  | cons name rest ih =>
    obtain ⟨⟨plain, down⟩, below⟩ := List.forall_mem_cons.mp descending
    simp only [List.cons_append, climbs, plain.filled, plain.notDot, down, decide_false,
      Bool.or_self, Bool.false_eq_true, ↓reduceIte, ih below, List.length_cons, Nat.add_right_comm,
      Nat.add_assoc]

/-- A walk that stays below the root takes every step as normalizing does. -/
private theorem walkFrom_enter (walking : walkFrom place steps = some names) (inside : up ∉ place) :
    steps.foldl (enter false) place.reverse = names.reverse := by
  induction steps generalizing place with
  | nil =>
    cases walking
    rfl
  | cons name rest ih =>
    rw [List.foldl_cons]
    by_cases blank : name = [] ∨ name = ['.']
    · rw [enter_stays blank]
      rw [walkFrom, if_pos blank] at walking
      exact ih walking inside
    · rw [walkFrom, if_neg blank] at walking
      obtain ⟨filled, notDot⟩ := not_or.mp blank
      simp only [enter, filled, notDot, decide_false, Bool.or_self, Bool.false_eq_true, ↓reduceIte]
      by_cases upward : name = up
      · simp only [upward, ↓reduceIte] at walking ⊢
        rcases List.eq_nil_or_concat' place with rfl | ⟨above, last, rfl⟩
        · cases walking
        · simp only [List.mem_append, List.mem_singleton, not_or] at inside
          rw [if_neg (by simp), List.dropLast_concat] at walking
          rw [List.reverse_concat]
          simp only [Ne.symm inside.2, ↓reduceIte]
          exact ih walking inside.1
      · simp only [upward, ↓reduceIte] at walking ⊢
        rw [← List.reverse_concat]
        refine ih walking ?_
        simp only [List.mem_append, List.mem_singleton, not_or]
        exact ⟨inside, Ne.symm upward⟩

/-- A walk that leads nowhere has climbed above the root. -/
private theorem walkFrom_climbs (nowhere : walkFrom place steps = none) :
    climbs place.length steps = true := by
  induction steps generalizing place with
  | nil => cases nowhere
  | cons name rest ih =>
    by_cases blank : name = [] ∨ name = ['.']
    · rw [walkFrom, if_pos blank] at nowhere
      have further := ih nowhere
      rcases blank with rfl | rfl <;> exact further
    · rw [walkFrom, if_neg blank] at nowhere
      obtain ⟨filled, notDot⟩ := not_or.mp blank
      simp only [climbs, filled, notDot, decide_false, Bool.or_self, Bool.false_eq_true, ↓reduceIte]
      by_cases upward : name = up
      · simp only [upward, ↓reduceIte] at nowhere ⊢
        rcases List.eq_nil_or_concat' place with rfl | ⟨above, last, rfl⟩
        · rfl
        · rw [if_neg (by simp), List.dropLast_concat] at nowhere
          rw [List.length_append, List.length_singleton]
          exact ih nowhere
      · simp only [upward, ↓reduceIte] at nowhere ⊢
        have deeper := ih nowhere
        rwa [List.length_append, List.length_singleton] at deeper

/-- The path of a document as a store has it: in its one spelling, relative, and
with no step upwards in front. -/
structure Rooted (path : String) : Prop where
  normal : normalize path = path
  inside : leavesRoot path = false

/-- A reference to a file that is looked for from the directory of its document:
what stands in front of the pointer is not absolute by either kind of slash. -/
structure Relative (ref : String) : Prop where
  named : NamesFile ref
  notSlash : (fileText ref).toList.head? ≠ some '/'
  notBackslash : (fileText ref).toList.head? ≠ some '\\'

private theorem joined_concat {above : List Name} (filled : above ≠ []) (last : Name) :
    joinNames (above ++ [last]) = joinNames above ++ '/' :: last := by
  unfold joinNames
  induction above with
  | nil => exact absurd rfl filled
  | cons name rest ih =>
    cases rest with
    | nil => simp [List.intercalate_cons_cons]
    | cons next more =>
      rw [List.cons_append, List.cons_append, List.intercalate_cons_cons, ← List.cons_append,
        ih (List.cons_ne_nil _ _), List.intercalate_cons_cons]
      simp only [List.append_assoc]

theorem joined_ends (plain : ∀ name ∈ names, Plain name) (filled : names ≠ []) :
    ∃ front c, c ≠ '/' ∧ joinNames names = front ++ [c] := by
  rcases List.eq_nil_or_concat' names with empty | ⟨above, last, rfl⟩
  · exact absurd empty filled
  · have lastPlain := plain last (by simp)
    rcases List.eq_nil_or_concat' last with empty | ⟨front, c, rfl⟩
    · exact absurd empty lastPlain.filled
    · have notSlash : c ≠ '/' := by
        rintro rfl
        exact lastPlain.noSlash (by simp)
      by_cases alone : above = []
      · exact ⟨front, c, notSlash, by simp [alone, joinNames]⟩
      · exact ⟨joinNames above ++ '/' :: front, c, notSlash, by simp [joined_concat alone]⟩

/-- What comes after the last slash of a path does not count for its directory. -/
private theorem directoryChars_append {last : List Char} (flat : '/' ∉ last) (above : List Char) :
    directoryChars (above ++ last) = directoryChars above := by
  have skipped : (above ++ last).reverse.dropWhile (· != '/') =
      above.reverse.dropWhile (· != '/') := by
    rw [List.reverse_append, List.dropWhile_append_of_pos]
    intro c member
    refine bne_iff_ne.mpr ?_
    rintro rfl
    exact flat (List.mem_reverse.mp member)
  simp only [directoryChars, skipped]

private theorem directoryChars_slash {above : List Char} {c : Char} (notSlash : c ≠ '/') :
    directoryChars (above ++ [c] ++ ['/']) = above ++ [c] := by
  simp [directoryChars, notSlash]

/-- The directory of a document is spelled by the names above its own, and these
go down from the root. -/
private theorem directory_spelled (rooted : Rooted path) :
    Descending (directory path) ∧
      directoryChars path.toList = joinNames (directory path) := by
  obtain ⟨slashes, names, shape, spelled⟩ := normalChars_spelled path.toList
  have written : path = String.ofList (spell slashes names) := by
    rw [← rooted.normal, Location.normalize, spelled]
  have inside := rooted.inside
  rw [written] at inside
  obtain ⟨rfl, down⟩ := SourcePaths.inside_names shape inside
  have plain := normal_plain shape
  rcases List.eq_nil_or_concat' names with rfl | ⟨above, last, rfl⟩
  · subst written
    exact ⟨by rintro name ⟨⟩, rfl⟩
  · have abovePlain : ∀ name ∈ above, Plain name := fun name member => plain name (by simp [member])
    have flat : '/' ∉ last := (plain last (by simp)).noSlash
    obtain ⟨front, c, _, ends⟩ := joined_ends plain (by simp)
    have text : path.toList = joinNames (above ++ [last]) := by
      rw [written, String.toList_ofList, spell, List.replicate_zero, List.nil_append, ends]
      simp
    have parts : directory path = above := by
      rw [directory, text, joinNames, List.splitOn_intercalate '/'
        (fun name member => (plain name member).noSlash) (by simp), List.dropLast_concat]
    rw [parts, text]
    refine ⟨fun name member => ⟨abovePlain name member, ?_⟩, ?_⟩
    · rintro rfl
      exact down (by simp [member])
    · by_cases alone : above = []
      · subst alone
        have single : joinNames ([] ++ [last]) = [] ++ last := by simp [joinNames]
        rw [single, directoryChars_append flat]
        rfl
      · obtain ⟨front, c, notSlash, ends⟩ := joined_ends abovePlain alone
        rw [joined_concat alone, ← List.singleton_append, ← List.append_assoc,
          directoryChars_append flat, ends, directoryChars_slash notSlash]

theorem head_turned {text : List Char} (notSlash : text.head? ≠ some '/')
    (notBackslash : text.head? ≠ some '\\') : leadingSlashes (turnSlashes text) = 0 := by
  cases text with
  | nil => rfl
  | cons c rest =>
    have slash : c ≠ '/' := by simpa using notSlash
    have backslash : c ≠ '\\' := by simpa using notBackslash
    simp [leadingSlashes, turnSlashes, slash, backslash]

/-- Seen from a directory below the root, a path goes on from the names of the
directory, and it is not absolute. -/
private theorem joined_steps (descending : Descending names) (notSlash : text.head? ≠ some '/')
    (notBackslash : text.head? ≠ some '\\') :
    (turnSlashes (joinChars (joinNames names) text)).splitOn '/' = names ++ stepsOf text ∧
      leadingSlashes (turnSlashes (joinChars (joinNames names) text)) = 0 := by
  have plain : ∀ name ∈ names, Plain name := fun name member => (descending name member).1
  by_cases root : names = []
  · subst root
    have same : joinChars (joinNames []) text = text := by
      simp [joinChars, joinNames, notSlash]
    rw [same, stepsOf_turned]
    exact ⟨rfl, head_turned notSlash notBackslash⟩
  · obtain ⟨front, c, last, ends⟩ := joined_ends plain root
    have clean : '\\' ∉ joinNames names :=
      joined_avoids (by decide) fun name member => (plain name member).noBackslash
    have same : joinChars (joinNames names) text = joinNames names ++ '/' :: text := by
      simp [joinChars, notSlash, ends, last]
    have above : stepsOf (joinNames names) = names := by
      rw [← stepsOf_turned, turned_again clean, joinNames,
        List.splitOn_intercalate '/' (fun name member => (plain name member).noSlash) root]
    have head : (joinNames names ++ '/' :: text).head? = (joinNames names).head? := by
      simp [ends]
    rw [same]
    refine ⟨?_, head_turned ?_ ?_⟩
    · rw [stepsOf_turned, stepsOf, List.splitOnP_append_cons _ _ rfl, ← stepsOf, ← stepsOf, above]
    · rw [head]
      exact joined_head plain
    · rw [head]
      exact fun first => clean (List.mem_of_head? first)

/-- The path that a reference names is the key of the place it leads to. Where
it leads nowhere, the path escapes from the root. -/
private theorem relativeTo_walked {ref : String} (rooted : Rooted path) (relative : Relative ref) :
    (∀ names, walked path ref = some names → relativeTo path (fileText ref) = keyOf names) ∧
      (walked path ref = none →
        Escapes (joinChars (directoryChars path.toList) (fileText ref).toList)) := by
  obtain ⟨descending, spelled⟩ := directory_spelled rooted
  obtain ⟨steps, front⟩ := joined_steps descending relative.notSlash relative.notBackslash
  rw [← spelled] at steps front
  have below : up ∉ directory path := fun upward => (descending up upward).2 rfl
  refine ⟨fun names walking => ?_, fun nowhere => ?_⟩
  · have reached := walkFrom_enter walking below
    have start := enter_descending descending []
    rw [List.append_nil] at start
    have settled : walk (0 != 0) (directory path ++ stepsOf (fileText ref).toList) = names := by
      rw [walk, show (0 != 0) = false from rfl, List.foldl_append, start, reached,
        List.reverse_reverse]
    rw [relativeTo, (normalChars_walk _).2, front, steps, settled, keyOf]
  · left
    rw [steps, climbs_descending descending, Nat.zero_add]
    exact walkFrom_climbs nowhere

/-- What a reference names in the document it leads to: the node at its pointer,
or the root. -/
def nodeIn (document : Json) (key ref : String) : Except Fault (Option Context) :=
  let fragment := (ref.toList.dropWhile (· ≠ '#')).drop 1
  if fragment.head? = some '/' then pick document (String.ofList ('#' :: fragment)) key
  else .ok (some ⟨document, key⟩)

/-- A reference that names the document under a key is resolved by loading that
document and going on inside it. -/
private theorem resolve_loads {ref key : String} {context : Context} (named : NamesFile ref)
    (leads : relativeTo context.path (fileText ref) = key) (source : Source) :
    resolve source ref context = (do
      let document ← Store.load source key
      Action.ofExcept (nodeIn document key ref)) := by
  have normal : normalize key = key := leads ▸ relativeTo_normal _ _
  rw [resolve_file named, leads, Store.context]
  simp only [normal, bind_assoc, pure_bind]
  apply congrArg (Store.load source key >>= ·)
  funext document
  unfold nodeIn
  simp only
  split
  · exact Action.ext_run fun store => target_run _ _ _ store
  · rfl

section Sharing

variable {source : Source} {store : Store} {key ref : String} {document : Json} {context : Context}

private theorem load_cached (held : store.cached? key = some document) (source : Source) :
    (Store.load source key).run store = (.ok document, store) := by
  have found : store.documents.lookup (normalize key) = some document := held
  simp only [Store.load, Action.run_bind, Action.run_state, found, Action.run_pure]

private theorem resolve_cached (named : NamesFile ref)
    (leads : relativeTo context.path (fileText ref) = key)
    (held : store.cached? key = some document) (source : Source) :
    (resolve source ref context).run store = (nodeIn document key ref, store) := by
  rw [resolve_loads named leads, Action.run_bind, load_cached held]
  rfl

/-- Once a reference could load its document, the document is in the store, and
stays there whatever happens next. -/
private theorem resolve_keeps (named : NamesFile ref)
    (leads : relativeTo context.path (fileText ref) = key) {session : Session}
    (loaded : ((Store.load session.source key).run session.store).1 = .ok document)
    (future : List Operation) :
    ((resolve session.source ref context).run session.store).1 = nodeIn document key ref ∧
      ((session.after (.call (.resolve ref context))).afterAll future).store.cached? key =
        some document := by
  rcases ran : (Store.load session.source key).run session.store with ⟨outcome, reached⟩
  rw [ran] at loaded
  subst loaded
  have resolved : (resolve session.source ref context).run session.store =
      (nodeIn document key ref, reached) := by
    rw [resolve_loads named leads, Action.run_bind, ran]
    rfl
  have stored : (session.after (.call (.resolve ref context))).store = reached :=
    congrArg Prod.snd resolved
  refine ⟨congrArg Prod.fst resolved, ?_⟩
  apply lookup_kept (afterAll_kept _ future)
  rw [stored]
  exact (load_ran ran).2.2 document rfl

end Sharing

/-- **Relative references are resolved by walking.** In a document at a normal
path below the root, take a reference to a file that is not absolute, and walk
from the directory of the document through the steps of the file's path.

Where the walk leads somewhere, resolving the reference is loading the document
under the key of that place and going on inside it. Where it would go above the
root, the document is not found, in every store there can be and on every disk.
Two references that lead to one place, each in a document of its own, share one
entry: once the first could load the document, whatever happens to the store and
to the files, the second is resolved in that very document and loads nothing. -/
theorem relative_references_walk {context : Context} {ref : String} (rooted : Rooted context.path)
    (relative : Relative ref) :
    (∀ names, walked context.path ref = some names → ∀ source,
      resolve source ref context = (do
        let document ← Store.load source (keyOf names)
        Action.ofExcept (nodeIn document (keyOf names) ref))) ∧
      (walked context.path ref = none → ∀ source past disk,
        let store := (Session.afterAll ⟨source, {}⟩ past).store
        (resolve { source with disk := disk } ref context).run store =
          (.error (.notFound (relativeTo context.path (fileText ref))), store)) ∧
      ∀ (other : Context) (otherRef : String) (names : List Name), Rooted other.path →
        Relative otherRef → walked context.path ref = some names →
        walked other.path otherRef = some names → ∀ source past future document,
        let before := Session.afterAll ⟨source, {}⟩ past
        let after := Session.afterAll ⟨source, {}⟩ (past ++ .call (.resolve ref context) :: future)
        ((Store.load before.source (keyOf names)).run before.store).1 = .ok document →
        ((resolve before.source ref context).run before.store).1 =
            nodeIn document (keyOf names) ref ∧
          after.store.cached? (keyOf names) = some document ∧
          after.store.paths.count (keyOf names) = 1 ∧
          (resolve after.source otherRef other).run after.store =
            (nodeIn document (keyOf names) otherRef, after.store) := by
  obtain ⟨leads, escapes⟩ := relativeTo_walked rooted relative
  refine ⟨?_, ?_, ?_⟩
  · intro names walking source
    exact resolve_loads relative.named (leads names walking) source
  · intro nowhere source past disk store
    have leaves : leavesRoot (relativeTo context.path (fileText ref)) = true :=
      escapes_leaves (escapes nowhere)
    apply resolve_turned_away relative.named leaves
    intro stored
    have inside := paths_inside source past _ stored
    exact Bool.false_ne_true (inside.symm.trans leaves)
  · intro other otherRef names otherRooted otherRelative walking otherWalking source past future
      document before after loaded
    have key := leads names walking
    have otherKey := (relativeTo_walked otherRooted otherRelative).1 names otherWalking
    have reached : after =
        (before.after (.call (.resolve ref context))).afterAll future := by
      simp only [after, before, Session.afterAll, List.foldl_append, List.foldl_cons]
    obtain ⟨resolved, held⟩ := resolve_keeps relative.named key loaded future
    rw [← reached] at held
    have normal : normalize (keyOf names) = keyOf names := key ▸ relativeTo_normal _ _
    have stored : keyOf names ∈ after.store.paths := by
      by_contra absent
      rw [Store.cached?, normal, Loading.absent_iff.mpr absent] at held
      cases held
    have once := List.count_eq_one_of_mem (keyed_afterAll source _).distinct stored
    exact ⟨resolved, held, once, resolve_cached otherRelative.named otherKey held _⟩

/-- A list with one value. -/
def single : Json := .arr [.bool true]

/-- A disk on which the list stands in the file `c`. -/
def oneDocument : Source :=
  { disk :=
      { entries := [(["c"], .file ⟨("[true]".toList.map fun c => UInt8.ofNat c.toNat).toArray⟩)] }
    root := ⟨1, []⟩ }

private theorem single_loaded :
    (Store.load oneDocument "c").run {} = (.ok single, ⟨[("c", single)]⟩) := by cbv

/-- A reference from one directory down and one from two directories down, with
slashes of either kind, lead to one document; the second is resolved in it after
the disk has been emptied. One step more upwards leads nowhere. -/
theorem relative_references_walk_shared :
    walked "a/b" "../c#/0" = some ["c".toList] ∧
      walked "d/e/f" "..\\.\\x/../..//c" = some ["c".toList] ∧
      (resolve ⟨{}, ⟨1, []⟩⟩ "..\\.\\x/../..//c" ⟨.null, "d/e/f"⟩).run ⟨[("c", single)]⟩ =
        (.ok (some ⟨single, "c"⟩), ⟨[("c", single)]⟩) ∧
      (resolve oneDocument "../../c" ⟨.null, "a/b"⟩).run {} = (.error (.notFound "../c"), {}) := by
  have rooted : Rooted "a/b" := ⟨by decide, by decide⟩
  have relative : Relative "../c#/0" := ⟨⟨by decide, by decide⟩, by decide, by decide⟩
  have walking : walked "a/b" "../c#/0" = some ["c".toList] := by decide
  have otherRooted : Rooted "d/e/f" := ⟨by decide, by decide⟩
  have otherRelative : Relative "..\\.\\x/../..//c" :=
    ⟨⟨by decide, by decide⟩, by decide, by decide⟩
  have otherWalking : walked "d/e/f" "..\\.\\x/../..//c" = some ["c".toList] := by decide
  refine ⟨walking, otherWalking, ?_, ?_⟩
  · obtain ⟨resolves, _, shared⟩ :=
      @relative_references_walk ⟨.null, "a/b"⟩ "../c#/0" rooted relative
    have led : (resolve oneDocument "../c#/0" ⟨.null, "a/b"⟩).run {} =
        (nodeIn single "c" "../c#/0", ⟨[("c", single)]⟩) := by
      rw [resolves _ walking, Action.run_bind, show keyOf ["c".toList] = "c" from rfl,
        single_loaded]
      rfl
    have emptied : Session.afterAll ⟨oneDocument, {}⟩
        ([] ++ [.call (.resolve "../c#/0" ⟨.null, "a/b"⟩), .files {}]) =
        ⟨⟨{}, ⟨1, []⟩⟩, ⟨[("c", single)]⟩⟩ := by
      simp only [List.nil_append, Session.afterAll, List.foldl, Session.after, Call.reached, led]
      rfl
    have answer := (shared ⟨.null, "d/e/f"⟩ _ _ otherRooted otherRelative walking otherWalking
      oneDocument [] [.files {}] single (congrArg Prod.fst single_loaded)).2.2.2
    rw [emptied] at answer
    exact answer
  · have climbing : Relative "../../c" := ⟨⟨by decide, by decide⟩, by decide, by decide⟩
    have named : relativeTo "a/b" (fileText "../../c") = "../c" := by decide
    obtain ⟨_, refused, _⟩ := @relative_references_walk ⟨.null, "a/b"⟩ "../../c" rooted climbing
    have answer := refused (by decide) oneDocument [] oneDocument.disk
    rw [named] at answer
    exact answer

end EntitySchema.RelativeWalk
