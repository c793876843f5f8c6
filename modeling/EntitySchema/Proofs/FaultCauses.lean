import EntitySchema.Proofs.Anchoring
import EntitySchema.Proofs.DiskTree
import EntitySchema.Proofs.Output
import EntitySchema.Proofs.WrittenDocuments

/-! What can go wrong in a compilation, and whose fault it is. A document that
is missing or is no JSON is reported as such. Beyond that a compilation fails
only for a text that cannot be handled: a path with a zero character, a path
that is longer than the system takes, or an array position of too many digits.
Each of these is traced back to a reference written in a document that was
loaded, unless the root schema itself was named so. Where no such reference is
written, every fault is one that the command reports. -/
namespace EntitySchema.FaultCauses
open Reference Synthesis Compilation Loading Anchoring Containment
open Disk (Path)

variable {source : Source} {store final : Store} {context : Context}
  {fault : Fault} {key ref rootSchema : String} {node part whole document : Json}

/-- A fault of a document: it is not there, or it is no JSON. -/
inductive OfDocument : Fault → Prop where
  | missing (path : String) : OfDocument (.notFound path)
  | malformed (path detail : String) : OfDocument (.malformed path detail)

/-- A reference in the document at `key` that cannot be handled, with the fault
it leads to: the path of the file it names holds a zero character or is too
long, or its pointer has a position that is too long to be read as a number. -/
inductive Causes (source : Source) (key ref : String) : Fault → Prop where
  | zero (held : '\x00' ∈ ref.toList.takeWhile (· ≠ '#')) : Causes source key ref .zeroCharacter
  | length (named : NamesFile ref)
    (long : (source.root.child (Location.relativeTo key (fileText ref))).isLong = true) :
    Causes source key ref .nameTooLong
  | position {step : List Char} (member : step ∈ Pointer.steps (ref.toList.dropWhile (· ≠ '#')))
    (decimal : Text.isDecimal step = true) (long : Number.digitLimit < step.length) :
    Causes source key ref (.longPosition step.length)

/-- The reference is written somewhere in the document. -/
def Refers (document : Json) (ref : String) : Prop :=
  ∃ node, Inside node document ∧ node.field? "$ref" = some (.str ref)

/-- The reference is written in the document at `key`, which was loaded. -/
def Written (store : Store) (key ref : String) : Prop :=
  ∃ document, (key, document) ∈ store.documents ∧ Refers document ref

/-- What a fault comes from: a document, the name of the root schema, or a
reference in a document that was loaded. -/
inductive Explained (source : Source) (rootSchema : String) (store : Store) : Fault → Prop where
  | document {fault : Fault} (told : OfDocument fault) : Explained source rootSchema store fault
  | named (held : source.root.hasZero = true ∨ '\x00' ∈ rootSchema.toList) :
    Explained source rootSchema store .zeroCharacter
  | length (long : (source.root.child (Location.normalize rootSchema)).isLong = true) :
    Explained source rootSchema store .nameTooLong
  | reference {fault : Fault} {key ref : String} (written : Written store key ref)
    (causes : Causes source key ref fault) : Explained source rootSchema store fault

/-- What reading the document at a path can fail for. -/
inductive OfPath (source : Source) (path : String) : Fault → Prop where
  | document {fault : Fault} (told : OfDocument fault) : OfPath source path fault
  | zero (held : source.root.hasZero = true ∨ '\x00' ∈ path.toList) :
    OfPath source path .zeroCharacter
  | length (long : (source.root.child path).isLong = true) : OfPath source path .nameTooLong

section Files

private theorem namesOf_zero (text : List Char) :
    ((Path.namesOf text).any fun name => name.toList.contains '\x00') = true ↔ '\x00' ∈ text := by
  constructor
  · intro held
    by_contra absent
    obtain ⟨name, member, zero⟩ := List.any_eq_true.mp held
    obtain ⟨piece, kept, rfl⟩ := List.mem_map.mp member
    have clean := NormalPath.split_clean text absent piece (List.mem_filter.mp kept).1
    rw [String.toList_ofList, List.contains_iff_mem] at zero
    exact clean.2 zero
  · intro held
    by_contra absent
    have clean : ∀ piece ∈ text.splitOn '/', '\x00' ∉ piece := by
      intro piece member zero
      refine absent (List.any_eq_true.mpr
        ⟨String.ofList piece, List.mem_map.mpr ⟨piece, ?_, rfl⟩, ?_⟩)
      · have filled : piece ≠ [] := List.ne_nil_of_mem zero
        have notDot : piece ≠ ['.'] := by
          rintro rfl
          exact absurd zero (by decide)
        exact List.mem_filter.mpr ⟨member, by simp [filled, notDot]⟩
      · rw [String.toList_ofList, List.contains_iff_mem]
        exact zero
    have joined := NormalPath.joined_avoids (by decide) clean
    rw [Location.joinNames, List.intercalate_splitOn] at joined
    exact joined held

/-- The file of a path inside the root has a zero character in its name exactly
if the root or the path has one. -/
private theorem child_zero (root : Path) (inside : Location.leavesRoot key = false) :
    (root.child key).hasZero = true ↔ root.hasZero = true ∨ '\x00' ∈ key.toList := by
  have relative : (key.toList.takeWhile (· = '/')).length = 0 := by
    simp only [Location.leavesRoot, Bool.or_eq_false_iff] at inside
    cases text : key.toList with
    | nil => rfl
    | cons c rest =>
      have other : c ≠ '/' := by
        rintro rfl
        rw [text] at inside
        exact absurd inside.2 (by simp)
      simp [other]
  simp only [Path.child, Path.ofString, relative, Nat.zero_le, ↓reduceIte, Path.hasZero,
    List.any_append, Bool.or_eq_true, namesOf_zero]

private theorem follow_fault {disk : Disk} {place : Disk.Place} {names : List String}
    {refused : Disk.Fault} (failed : disk.follow place names = .error refused) :
    refused ≠ .zeroCharacter ∧
      (refused = .nameTooLong → ∃ inner ∈ names, Path.nameLimit < inner.utf8ByteSize) := by
  induction names generalizing place with
  | nil => cases failed
  | cons name rest ih =>
    have later {place : Disk.Place} (failed : disk.follow place rest = .error refused) :
        refused ≠ .zeroCharacter ∧ (refused = .nameTooLong →
          ∃ inner ∈ name :: rest, Path.nameLimit < inner.utf8ByteSize) := by
      refine ⟨(ih failed).1, fun same => ?_⟩
      obtain ⟨inner, member, long⟩ := (ih failed).2 same
      exact ⟨inner, List.mem_cons_of_mem _ member, long⟩
    rw [Disk.follow] at failed
    split at failed
    · exact later failed
    · split at failed
      · rename_i long
        cases failed
        exact ⟨Disk.Fault.noConfusion, fun _ => ⟨name, List.mem_cons_self, long⟩⟩
      · split at failed
        · cases failed
          exact ⟨Disk.Fault.noConfusion, Disk.Fault.noConfusion⟩
        · cases failed
          exact ⟨Disk.Fault.noConfusion, Disk.Fault.noConfusion⟩
        · exact later failed

private theorem advance_fault {place : Disk.Place} {name : String} {refused : Disk.Fault}
    (failed : Disk.advance place name = .error refused) :
    refused = .nameTooLong ∧ Path.nameLimit < name.utf8ByteSize := by
  unfold Disk.advance at failed
  split at failed
  · cases failed
  · split at failed
    · rename_i long
      cases failed
      exact ⟨rfl, long⟩
    · cases failed

/-- A path is refused for a zero character or for its length only where it has the
one or is over the other. -/
private theorem locate_fault {disk : Disk} {path : Path} {refused : Disk.Fault}
    (failed : disk.locate path = .error refused) :
    (refused = .zeroCharacter → path.hasZero = true) ∧
      (refused = .nameTooLong → path.isLong = true) := by
  unfold Disk.locate at failed
  split at failed
  · rename_i zero
    cases failed
    exact ⟨fun _ => zero, Disk.Fault.noConfusion⟩
  · split at failed
    · rename_i long
      cases failed
      exact ⟨Disk.Fault.noConfusion, fun _ => by simp [Path.isLong, long]⟩
    · rcases List.eq_nil_or_concat' path.names with empty | ⟨above, last, split⟩
      · rw [empty] at failed
        cases failed
      · have named {name : String} (member : name ∈ above ++ [last])
            (long : Path.nameLimit < name.utf8ByteSize) : path.isLong = true := by
          simp only [Path.isLong, split, Bool.or_eq_true, List.any_eq_true, decide_eq_true_eq]
          exact .inr ⟨name, member, long⟩
        rw [split, List.getLast?_concat, List.dropLast_concat] at failed
        cases followed : disk.follow (disk.start path) above with
        | error stopped =>
          rw [followed] at failed
          cases failed
          obtain ⟨nonzero, long⟩ := follow_fault followed
          refine ⟨fun same => absurd same nonzero, fun same => ?_⟩
          obtain ⟨name, member, longer⟩ := long same
          exact named (List.mem_append_left _ member) longer
        | ok reached =>
          rw [followed] at failed
          obtain ⟨rfl, long⟩ := advance_fault failed
          exact ⟨Disk.Fault.noConfusion, fun _ => named (by simp) long⟩

private theorem read_fault {disk : Disk} {path : Path} {refused : Disk.Fault}
    (failed : disk.read path = .error refused) :
    (refused = .zeroCharacter → path.hasZero = true) ∧
      (refused = .nameTooLong → path.isLong = true) := by
  unfold Disk.read at failed
  split at failed
  · rename_i located
    cases failed
    exact locate_fault located
  · split at failed
    · cases failed
      exact ⟨Disk.Fault.noConfusion, Disk.Fault.noConfusion⟩
    · cases failed
      exact ⟨Disk.Fault.noConfusion, Disk.Fault.noConfusion⟩
    · cases failed

private theorem document_fault (failed : source.document key = .error fault) :
    OfPath source key fault := by
  unfold Source.document at failed
  split at failed
  · cases failed
    exact .document (.missing key)
  · rename_i inside
    split at failed
    · rename_i refused
      cases failed
      exact .zero ((child_zero source.root (by simpa using inside)).mp ((read_fault refused).1 rfl))
    · rename_i refused
      cases failed
      exact .length ((read_fault refused).2 rfl)
    · cases failed
      exact .document (.missing key)
    · rename_i content _
      cases read : Json.ofBytes content.data.toList with
      | ok document =>
        rw [read] at failed
        cases failed
      | error detail =>
        rw [read] at failed
        cases failed
        exact .document (.malformed key detail)

/-- A document that can be read has no zero character in its path. -/
private theorem document_clean (found : source.document key = .ok document) :
    '\x00' ∉ key.toList := by
  intro zero
  obtain ⟨inside, content, read, _⟩ := SourcePaths.document_bytes found
  have held := (child_zero source.root inside).mpr (.inr zero)
  simp only [Disk.read, Disk.locate, held, ↓reduceIte] at read
  cases read

end Files

section References

theorem refers_inside (inside : Inside part whole) (written : Refers part ref) :
    Refers whole ref := by
  obtain ⟨node, inner, named⟩ := written
  exact ⟨node, inside_trans inner inside, named⟩

/-- A node with another type in place of a list of types has the references that
the node had. -/
private theorem refers_narrowed {types : List Json} {type : Json}
    (given : node.field? "type" = some (.arr types)) (member : type ∈ types)
    (written : Refers (node.withField "type" type) ref) : Refers node ref := by
  have inside : Inside type node := inside_trans (.item member .self) (inside_field given)
  obtain ⟨inner, within, named⟩ := written
  cases node with
  | obj fields =>
    cases within with
    | self =>
      rw [Json.field?_withField type "$ref" given, if_neg (by decide)] at named
      exact ⟨.obj fields, .self, named⟩
    | field listed deeper =>
      rcases Entries.mem_put listed with new | old
      · cases new
        exact ⟨inner, inside_trans deeper inside, named⟩
      · exact ⟨inner, .field old deeper, named⟩
  | _ => cases given

/-- What is converted for a node has no other references than the node. -/
theorem children_refer (member : part ∈ (Shape.ofNode node).children)
    (written : Refers part ref) : Refers node ref := by
  rcases children_inside member with inside | ⟨types, given, type, listed, rfl⟩
  · exact refers_inside inside written
  · exact refers_narrowed given listed written

end References

section Combinators

variable {α β : Type} {blame : Fault → Prop} {action : Load α} {given : α → Prop}

/-- What can be said of a computation whose documents are all among those of
`final`: what its results are like, and what it is to blame for its faults. -/
structure Accounts (source : Source) (final : Store) (blame : Fault → Prop) (action : Load α)
    (given : α → Prop) : Prop where
  reads : OnlyReads source action
  result {before after : Store} {value : α} : action.run before = (.ok value, after) →
    after.documents ⊆ final.documents → given value
  failure {before after : Store} {fault : Fault} : action.run before = (.error fault, after) →
    after.documents ⊆ final.documents → blame fault

private theorem accounts_pure {value : α} (good : given value) :
    Accounts source final blame (pure value) given where
  reads := onlyReads_pure value
  result ran _ := by
    cases ran
    exact good
  failure ran _ := by cases ran

private theorem accounts_state :
    Accounts source final blame (Action.state : Load Store) fun store =>
      store.documents ⊆ final.documents where
  reads start := .none start
  result ran included := by
    cases ran
    exact included
  failure ran _ := by cases ran

private theorem accounts_mono {wider : Fault → Prop} {weaker : α → Prop}
    (known : Accounts source final blame action given) (blamed : ∀ fault, blame fault → wider fault)
    (implied : ∀ value, given value → weaker value) :
    Accounts source final wider action weaker where
  reads := known.reads
  result ran included := implied _ (known.result ran included)
  failure ran included := blamed _ (known.failure ran included)

private theorem accounts_bind {next : α → Load β} {wanted : β → Prop}
    (known : Accounts source final blame action given)
    (later : ∀ value, given value → Accounts source final blame (next value) wanted)
    (reads : ∀ value, OnlyReads source (next value)) :
    Accounts source final blame (action >>= next) wanted := by
  -- The first part has loaded no more than the whole, so what is said of it holds.
  have early {start middle reached : Store} {value : α} {outcome : Except Fault β}
      (ran : action.run start = (.ok value, middle))
      (rest : (next value).run middle = (outcome, reached))
      (included : reached.documents ⊆ final.documents) : given value := by
    refine known.result ran (List.Subset.trans ?_ included)
    have more := reads value middle
    rw [rest] at more
    exact (reads_kept more).subset
  constructor
  · exact onlyReads_bind known.reads reads
  · intro start reached value ran included
    rw [Action.run_bind] at ran
    rcases first : action.run start with ⟨outcome, middle⟩
    rw [first] at ran
    cases outcome with
    | error fault => cases ran
    | ok given => exact (later given (early first ran included)).result ran included
  · intro start reached fault ran included
    rw [Action.run_bind] at ran
    rcases first : action.run start with ⟨outcome, middle⟩
    rw [first] at ran
    cases outcome with
    | error fault =>
      cases ran
      exact known.failure first included
    | ok given => exact (later given (early first ran included)).failure ran included

private theorem accounts_each {f : β → Load α} {items : List β}
    (single : ∀ item ∈ items, Accounts source final blame (f item) fun _ => True) :
    Accounts source final blame (Action.each f items) fun _ => True := by
  induction items with
  | nil => exact accounts_pure trivial
  | cons item rest ih =>
    have others := ih fun other member => single other (List.mem_cons_of_mem _ member)
    refine accounts_bind (single item List.mem_cons_self) (fun value _ => ?_) fun value => ?_
    · exact accounts_bind others (fun values _ => accounts_pure trivial) fun values =>
        onlyReads_pure _
    · exact onlyReads_bind others.reads fun values => onlyReads_pure _

end Combinators

/-- All references in the node are written in the document at `key`, which was
loaded. -/
def Quotes (store : Store) (key : String) (node : Json) : Prop :=
  ∀ ref, Refers node ref → Written store key ref

/-- No document that was loaded has a zero character in its path. -/
def Plain (store : Store) : Prop :=
  ∀ key ∈ store.paths, '\x00' ∉ key.toList

/-- A context that is free of blame: its path could be read, and its references
are written in the document at that path. -/
structure Clean (store : Store) (context : Context) : Prop where
  normal : Location.normalize context.path = context.path
  path : '\x00' ∉ context.path.toList
  quotes : Quotes store context.path context.schema

section Loading

private theorem load_accounts (path : String) :
    Accounts source final (OfPath source (Location.normalize path)) (Store.load source path)
      fun document => (Location.normalize path, document) ∈ final.documents := by
  constructor
  · exact load_onlyReads source path
  · intro start reached document ran included
    have held := (StoreView.load_ran ran).2.2 document rfl
    obtain ⟨earlier, later, split, _⟩ := List.lookup_eq_some_iff.mp held
    exact included (by simp [split])
  · intro start reached fault ran included
    have answered := (StoreView.load_ran ran).1
    unfold StoreView.fetch at answered
    split at answered
    · cases answered
    · exact document_fault answered.symm

private theorem normalize_zero {path : String}
    (held : '\x00' ∈ (Location.normalize path).toList) : '\x00' ∈ path.toList := by
  by_contra absent
  rw [Location.normalize, String.toList_ofList] at held
  exact NormalPath.normalChars_avoids (by decide) (by decide) absent held

private theorem directory_subset (path : List Char) : Location.directoryChars path ⊆ path := by
  have front (test : Char → Bool) (text : List Char) :
      (text.reverse.dropWhile test).reverse ⊆ text := by
    intro c member
    exact List.mem_reverse.mp ((List.dropWhile_sublist test).subset (List.mem_reverse.mp member))
  simp only [Location.directoryChars]
  split
  · exact front _ path
  · exact List.Subset.trans (front _ _) (front _ path)

private theorem relativeTo_zero {path file : String}
    (held : '\x00' ∈ (Location.relativeTo path file).toList) (clean : '\x00' ∉ path.toList) :
    '\x00' ∈ file.toList := by
  by_contra absent
  rw [Location.relativeTo, String.toList_ofList] at held
  refine NormalPath.normalChars_avoids (by decide) (by decide) ?_ held
  have outside : '\x00' ∉ Location.directoryChars path.toList :=
    fun member => clean (directory_subset _ member)
  unfold Location.joinChars
  split
  · exact absent
  · split
    · exact fun member => (List.mem_append.mp member).elim outside absent
    · intro member
      rcases List.mem_append.mp member with front | back
      · exact outside front
      · exact (List.mem_cons.mp back).elim (by decide) absent

/-- A document among those loaded is a context free of blame. -/
private theorem clean_document (plain : Plain final) (normal : Location.normalize key = key)
    (stored : (key, document) ∈ final.documents) : Clean final ⟨document, key⟩ where
  normal := normal
  path := plain key (mem_paths.mpr ⟨document, stored⟩)
  quotes _ written := ⟨document, stored, written⟩

private theorem context_accounts (plain : Plain final) (path : String) :
    Accounts source final (OfPath source (Location.normalize path)) (Store.context source path)
      (Clean final) := by
  have settled := NormalPath.normalize_settles path
  have known := @load_accounts source final (Location.normalize path)
  rw [settled] at known
  have narrowed : Accounts source final (OfPath source (Location.normalize path))
      (Store.load source (Location.normalize path))
      fun document => Clean final ⟨document, Location.normalize path⟩ :=
    accounts_mono known (fun _ told => told) fun _ stored => clean_document plain settled stored
  exact accounts_bind narrowed (fun _ clean => accounts_pure clean) fun _ => onlyReads_pure _

end Loading

/-- What following a reference in the document at `key` can fail for. -/
inductive OfReference (source : Source) (key ref : String) : Fault → Prop where
  | document {fault : Fault} (told : OfDocument fault) : OfReference source key ref fault
  | folder (held : source.root.hasZero = true) : OfReference source key ref .zeroCharacter
  | causes {fault : Fault} (causes : Causes source key ref fault) :
    OfReference source key ref fault

section Resolving

private theorem child_position {step : List Char}
    (failed : Pointer.child? step node = .error fault) :
    Text.isDecimal step = true ∧ Number.digitLimit < step.length ∧
      fault = .longPosition step.length := by
  unfold Pointer.child? at failed
  split at failed
  · cases failed
  · split at failed
    · cases failed
    · rename_i decimal
      split at failed
      · rename_i long
        cases failed
        exact ⟨by simpa using decimal, long, rfl⟩
      · cases failed
  · cases failed

private theorem descend_position {steps : List (List Char)}
    (failed : Pointer.descend node steps = .error fault) :
    ∃ step ∈ steps, Text.isDecimal step = true ∧ Number.digitLimit < step.length ∧
      fault = .longPosition step.length := by
  induction steps generalizing node with
  | nil => cases failed
  | cons step rest ih =>
    simp only [Pointer.descend] at failed
    split at failed
    · rename_i stopped
      cases failed
      exact ⟨step, List.mem_cons_self, child_position stopped⟩
    · cases failed
    · obtain ⟨later, member, told⟩ := ih failed
      exact ⟨later, List.mem_cons_of_mem _ member, told⟩

/-- Looking up the pointer of a reference. -/
private theorem target_accounts {pointer path : String} (clean : Clean final ⟨document, path⟩)
    (spelled : pointer.toList = ref.toList.dropWhile (· ≠ '#')) :
    Accounts source final (OfReference source key ref) (target? document pointer path)
      fun found => ∀ target ∈ found, Clean final target := by
  refine ⟨target_onlyReads document pointer path, ?_, ?_⟩
  · intro start reached found ran _ target member
    unfold target? at ran
    split at ran
    · cases ran
    · cases ran
      cases member
    · cases ran
      cases member
    · rename_i node _ descended
      cases ran
      cases member
      refine ⟨clean.normal, clean.path, fun ref written => clean.quotes ref ?_⟩
      exact refers_inside (descend_inside descended) written
  · intro start reached fault ran _
    unfold target? at ran
    split at ran
    · rename_i stopped
      cases ran
      obtain ⟨step, member, decimal, long, rfl⟩ := descend_position stopped
      rw [spelled] at member
      exact .causes (.position member decimal long)
    · cases ran
    · cases ran
    · cases ran

/-- The pointer behind the file of a reference starts at its first `#`. -/
private theorem fragment_spelled {text : List Char}
    (slash : ((text.dropWhile (· ≠ '#')).drop 1).head? = some '/') :
    '#' :: (text.dropWhile (· ≠ '#')).drop 1 = text.dropWhile (· ≠ '#') := by
  induction text with
  | nil => cases slash
  | cons c rest ih =>
    by_cases hash : c = '#'
    · simp [hash]
    · rw [List.dropWhile_cons_of_pos (by simpa using hash)] at slash ⊢
      exact ih slash

/-- Resolving a reference to another document. -/
private theorem file_accounts (plain : Plain final) (clean : Clean final context)
    (named : NamesFile ref) :
    Accounts source final (OfReference source context.path ref) (resolve source ref context)
      fun found => ∀ target ∈ found, Clean final target := by
  have opened : Accounts source final (OfReference source context.path ref)
      (Store.context source (Location.relativeTo context.path (fileText ref))) (Clean final) := by
    refine accounts_mono (context_accounts plain _) ?_ fun _ found => found
    rw [relativeTo_normal]
    intro fault told
    cases told with
    | document told => exact .document told
    | length long => exact .causes (.length named long)
    | zero held =>
      rcases held with root | zero
      · exact .folder root
      · have held := relativeTo_zero zero clean.path
        rw [fileText, String.toList_ofList] at held
        exact .causes (.zero held)
  rw [resolve_file named]
  refine accounts_bind opened (fun found cleanFound => ?_) fun found => ?_
  · split
    · rename_i slash
      refine target_accounts cleanFound ?_
      rw [String.toList_ofList]
      exact fragment_spelled slash
    · exact accounts_pure (by rintro target ⟨⟩; exact cleanFound)
  · split
    · exact target_onlyReads _ _ _
    · exact onlyReads_pure _

theorem resolve_accounts (plain : Plain final) (clean : Clean final context) (ref : String) :
    Accounts source final (OfReference source context.path ref) (resolve source ref context)
      fun found => ∀ target ∈ found, Clean final target := by
  have here : ∀ target ∈ some context, Clean final target := by
    intro target same
    cases same
    exact clean
  by_cases named : NamesFile ref
  · exact file_accounts plain clean named
  unfold resolve
  simp only
  split
  · exact accounts_pure here
  · rename_i filled
    split
    · rename_i pointer
      have spelled : ref.toList = ref.toList.dropWhile (· ≠ '#') := by
        obtain ⟨rest, text⟩ := List.isPrefixOf_iff_prefix.mp pointer
        rw [← text]
        rfl
      refine accounts_bind accounts_state (fun store included => ?_) fun _ =>
        target_onlyReads _ _ _
      refine target_accounts ?_ spelled
      -- The loaded document, or the node at hand when there is none.
      cases found : (store.cached? context.path).bind Json.present? with
      | none => exact clean
      | some document =>
        obtain ⟨cached, looked, present⟩ := Option.bind_eq_some_iff.mp found
        have same : cached = document := by
          cases cached <;> cases present <;> rfl
        subst same
        rw [Store.cached?, clean.normal] at looked
        obtain ⟨before, after, split, _⟩ := List.lookup_eq_some_iff.mp looked
        exact clean_document plain clean.normal (included (by simp [split]))
    · have hash : ref.toList.head? = some '#' := by
        by_contra other
        exact named ⟨by simpa using filled, other⟩
      rw [if_pos hash]
      exact accounts_pure here

end Resolving

section Compiling

private theorem reference_explained (written : Written final key ref)
    (told : OfReference source key ref fault) : Explained source rootSchema final fault := by
  cases told with
  | document told => exact .document told
  | folder root => exact .named (.inl root)
  | causes causes => exact .reference written causes

private theorem hop_accounts (plain : Plain final) (clean : Clean final context)
    (quotes : Quotes final context.path node) {ref : Json}
    (named : node.field? "$ref" = some ref) (seen : List Key) :
    Accounts source final (Explained source rootSchema final) (hop? source ref context seen)
      fun found => ∀ hop ∈ found, Clean final hop.1 := by
  refine ⟨hop_onlyReads source ref context seen, ?_, ?_⟩
  · rintro start reached found ran included ⟨target, key⟩ member
    cases member
    obtain ⟨name, _, _, _, resolved⟩ := hop_found ran
    exact (resolve_accounts plain clean name).result resolved included target rfl
  · intro start reached fault ran included
    cases ref with
    | str name =>
      by_cases followed : (context.path, name) ∈ seen
      · rw [hop_followed followed] at ran
        cases ran
      · rw [hop_resolved followed] at ran
        rcases resolved : (resolve source name context).run start with ⟨outcome, middle⟩
        rw [resolved] at ran
        cases outcome with
        | ok found => cases ran
        | error stopped =>
          simp only [hopOutcome] at ran
          split at ran
          · cases ran
          · cases ran
            have told := (resolve_accounts plain clean name).failure resolved included
            exact reference_explained (quotes name ⟨node, .self, named⟩) told
    | _ => cases ran

private theorem followFrom_accounts (plain : Plain final)
    (fuel : Nat) (seen : List Key) {current owner : Context} (reached : Clean final current)
    (quotes : Quotes final owner.path current.schema) (clean : Clean final owner) :
    Accounts source final (Explained source rootSchema final)
      (followFrom source fuel seen current owner) (Clean final) := by
  induction fuel generalizing seen current owner with
  | zero => exact accounts_pure reached
  | succ fuel ih =>
    rw [followFrom]
    split
    · exact accounts_pure reached
    · rename_i named
      refine accounts_bind (hop_accounts plain clean quotes named seen)
        (fun found good => ?_) fun found => ?_
      · cases found with
        | none => exact accounts_pure reached
        | some hop =>
          have target := good hop rfl
          exact ih _ target target.quotes target
      · cases found with
        | none => exact onlyReads_pure _
        | some hop => exact followFrom_onlyReads source fuel _ _ _

private theorem convert_accounts (plain : Plain final) (budget : Nat) {node : Json}
    (quotes : Quotes final context.path node) (clean : Clean final context) (seen : List Key) :
    Accounts source final (Explained source rootSchema final)
      (convert source budget node context seen) fun _ => True := by
  induction budget generalizing node context seen with
  | zero => exact accounts_pure trivial
  | succ budget ih =>
    by_cases leaves : ∃ ref, Shape.ofNode node = .reference ref
    · obtain ⟨ref, shape⟩ := leaves
      simp only [convert, shape]
      refine accounts_bind
        (hop_accounts plain clean quotes (Dispatch.ofNode_reference.mp shape) seen)
        (fun found good => ?_) fun found => ?_
      · cases found with
        | none => exact accounts_pure trivial
        | some hop => exact ih (good hop rfl).quotes (good hop rfl) _
      · cases found with
        | none => exact onlyReads_pure _
        | some hop => exact convert_onlyReads source budget _ _ _
    · have inside : ∀ ref, Shape.ofNode node ≠ .reference ref := fun ref shape =>
        leaves ⟨ref, shape⟩
      rw [convert_structural source budget context seen inside]
      refine accounts_bind (accounts_each fun child member => ?_)
        (fun types _ => accounts_pure trivial) fun types => onlyReads_pure _
      exact ih (fun ref written => quotes ref (children_refer member written)) clean seen

private theorem gather_accounts (plain : Plain final)
    {root : Context} (clean : Clean final root) {property : String × Json}
    (quotes : Quotes final root.path property.2) :
    Accounts source final (Explained source rootSchema final)
      (Memoisation.gather source root property) fun _ => True := by
  have followed : Accounts source final (Explained source rootSchema final)
      (follow source property.2 root) (Clean final) := by
    refine accounts_bind accounts_state (fun store _ => ?_) fun store =>
      followFrom_onlyReads source _ _ _ _
    exact followFrom_accounts plain _ [] ⟨clean.normal, clean.path, quotes⟩ quotes clean
  refine accounts_bind followed (fun resolved good => ?_) fun resolved => ?_
  · exact accounts_bind (convert_accounts plain _ good.quotes good [])
      (fun type _ => accounts_pure trivial) fun type => onlyReads_pure _
  · exact onlyReads_bind (convert_onlyReads source _ _ resolved []) fun type => onlyReads_pure _

theorem declared_inside {root : Json} {property : String × Json}
    (member : property ∈ (declared? root).getD []) : Inside property.2 root := by
  unfold declared? at member
  split at member
  · rename_i properties found
    exact inside_trans (.field member .self) (inside_field found)
  · cases member

private theorem gather_onlyReads (source : Source) (root : Context) (property : String × Json) :
    OnlyReads source (Memoisation.gather source root property) := by
  refine onlyReads_bind (follow_onlyReads source property.2 root) fun resolved => ?_
  exact onlyReads_bind (convert_onlyReads source _ _ resolved []) fun type => onlyReads_pure _

private theorem gatherAll_onlyReads (source : Source) (rootSchema : String) :
    OnlyReads source (Memoisation.gatherAll source rootSchema) := by
  refine onlyReads_bind (context_onlyReads source rootSchema) fun root => ?_
  exact onlyReads_each fun property _ => gather_onlyReads source root property

private theorem gatherAll_accounts (plain : Plain final) :
    Accounts source final (Explained source rootSchema final)
      (Memoisation.gatherAll source rootSchema) fun _ => True := by
  have opened : Accounts source final (Explained source rootSchema final)
      (Store.context source rootSchema) (Clean final) := by
    refine accounts_mono (context_accounts plain rootSchema) ?_ fun _ found => found
    intro fault told
    cases told with
    | document told => exact .document told
    | zero held => exact .named (held.imp_right normalize_zero)
    | length long => exact .length long
  refine accounts_bind opened (fun root clean => ?_) fun root => ?_
  · refine accounts_each fun property member => gather_accounts plain clean ?_
    exact fun ref written => clean.quotes ref (refers_inside (declared_inside member) written)
  · exact onlyReads_each fun property _ => gather_onlyReads source root property

/-- Every fault of a compilation comes from a document, from the name of the
root schema, or from a reference in a document that it has loaded. -/
theorem components_explained {progress : Progress}
    (failed : (components source rootSchema).run {} = (.error fault, progress)) :
    Explained source rootSchema progress.store fault := by
  obtain ⟨same, stored⟩ := Memoisation.components_mirrors source rootSchema {}
  rw [failed] at same stored
  have ran : (Memoisation.gatherAll source rootSchema).run {} = (.error fault, progress.store) :=
    Prod.ext same.symm stored.symm
  have reads : Reads source {} progress.store := by
    have gathered := gatherAll_onlyReads source rootSchema {}
    rw [ran] at gathered
    exact gathered
  have plain : Plain progress.store := by
    intro key member
    obtain ⟨document, stored⟩ := mem_paths.mp member
    exact document_clean (reads_added reads stored List.not_mem_nil).2.2
  exact (gatherAll_accounts plain).failure ran (List.Subset.refl _)

end Compiling

/-- No reference in the documents that were loaded is one that cannot be
handled. -/
def Manageable (source : Source) (store : Store) : Prop :=
  ∀ key ref, Written store key ref → ∀ fault, ¬ Causes source key ref fault

/-- The file of the root schema has a path that can be handled. -/
structure Named (source : Source) (rootSchema : String) : Prop where
  folder : source.root.hasZero = false
  schema : '\x00' ∉ rootSchema.toList
  short : (source.root.child (Location.normalize rootSchema)).isLong = false

/-- The texts that a node itself holds. -/
def texts : Json → List String
  | .str text => [text]
  | .obj fields => Entries.names fields
  | _ => []

/-- All texts in the documents that were loaded are made of characters: nowhere
did the reader put something in place of half of a surrogate pair. -/
def Legible (store : Store) : Prop :=
  ∀ key document, (key, document) ∈ store.documents → ∀ node, Inside node document →
    ∀ text ∈ texts node, Text.replacement ∉ text.toList

private theorem explained_document (manageable : Manageable source store)
    (named : Named source rootSchema) (told : Explained source rootSchema store fault) :
    OfDocument fault := by
  cases told with
  | document told => exact told
  | named held =>
    rcases held with root | schema
    · rw [named.folder] at root
      cases root
    · exact absurd schema named.schema
  | length long =>
    rw [named.short] at long
    cases long
  | reference written causes => exact absurd causes (manageable _ _ written _)

private theorem compile_components {target : TypeModule} {outcome : Except Fault String}
    {progress : Progress} (ran : (compile source rootSchema target).run {} = (outcome, progress)) :
    ∃ found, (components source rootSchema).run {} = (found, progress) ∧
      outcome = found.map target.render := by
  rcases listed : (components source rootSchema).run {} with ⟨found, reached⟩
  rw [run_compile, listed] at ran
  cases ran
  exact ⟨found, rfl, rfl⟩

private theorem compile_failed {target : TypeModule} {progress : Progress}
    (ran : (compile source rootSchema target).run {} = (.error fault, progress)) :
    (components source rootSchema).run {} = (.error fault, progress) := by
  obtain ⟨outcome, listed, same⟩ := compile_components ran
  cases outcome with
  | error stopped =>
    cases same
    exact listed
  | ok found => cases same

/-- Once the module is known, only the disk can end the command. -/
private theorem compile_known {answer : Cache.Answer} {output folder : String} {host reached : Host}
    {found : List Component} {progress : Progress} {failure : Failure}
    (present : host.disk.isDirectory (Path.ofString folder) = true)
    (listed : (components ⟨host.disk, Path.ofString folder⟩ Repository.rootSchema).run {} =
      (.ok found, progress))
    (ran : (Command.compile answer [output, folder]).run host = (.error failure, reached)) :
    ∃ refused, failure = .disk refused := by
  rw [Output.compile_run, if_pos present] at ran
  rcases wrote : (Command.write (Path.ofString folder) Repository.rootSchema
    (Path.ofString output)).run host with ⟨outcome, after⟩
  rw [wrote] at ran
  obtain ⟨refused, rfl⟩ | ⟨rfl, _⟩ := Output.write_found listed wrote
  · cases ran
    exact ⟨refused, rfl⟩
  · cases ran

/-- **Bad schema content is reported.** Compiling gives the module or a fault
whose cause is known. Unless a document that was loaded holds a reference that
cannot be handled, it is a fault of a document, and the command on an existing
folder answers it with code 1 and a line that tells it. What else can end the
command is a refusal of the disk to take the output. Documents with a unit that
is no character are left out: no path, line or file takes a text with one. -/
theorem schema_faults_reported (host : Host) :
    (∀ root rootSchema target outcome progress,
      (compile ⟨host.disk, root⟩ rootSchema target).run {} = (outcome, progress) →
      Legible progress.store →
      (∃ text, outcome = .ok text) ∨
      ∃ fault, outcome = .error fault ∧
        Explained ⟨host.disk, root⟩ rootSchema progress.store fault ∧
        (Named ⟨host.disk, root⟩ rootSchema → Manageable ⟨host.disk, root⟩ progress.store →
          OfDocument fault)) ∧
    ∀ answer output folder outcome reached compiled progress,
      host.disk.isDirectory (Path.ofString folder) = true →
      ((Path.ofString folder).child Repository.rootSchema).isLong = false →
      (compile ⟨host.disk, Path.ofString folder⟩ Repository.rootSchema {}).run {} =
        (compiled, progress) →
      Legible progress.store → Manageable ⟨host.disk, Path.ofString folder⟩ progress.store →
      (Command.compile answer [output, folder]).run host = (outcome, reached) →
      (∀ fault, compiled = .error fault → outcome = .ok 1 ∧
        reached.errors = host.errors ++
          ["Error compiling " ++ Repository.rootSchema ++ ": " ++ fault.message]) ∧
      ∀ failure, outcome = .error failure → ∃ refused, failure = .disk refused := by
  constructor
  · intro root rootSchema target outcome progress ran _
    cases outcome with
    | ok text => exact .inl ⟨text, rfl⟩
    | error fault =>
      have told := components_explained (compile_failed ran)
      exact .inr ⟨fault, rfl, told, fun named manageable =>
        explained_document manageable named told⟩
  · intro answer output folder outcome reached compiled progress present short ran _ manageable
      finished
    cases compiled with
    | error fault =>
      have failed := compile_failed ran
      have normal : Location.normalize Repository.rootSchema = Repository.rootSchema := by
        decide +kernel
      have named : Named ⟨host.disk, Path.ofString folder⟩ Repository.rootSchema :=
        ⟨(DiskTree.locate_clean (DiskTree.directory_located present).1).1, by decide,
          by rw [normal]; exact short⟩
      have told := explained_document manageable named (components_explained failed)
      have known : fault.isSchemaFault = true := by cases told <;> rfl
      rw [Output.compile_refused present failed, if_pos known] at finished
      cases finished
      constructor
      · rintro _ ⟨⟩
        exact ⟨rfl, rfl⟩
      · rintro failure ⟨⟩
    | ok text =>
      constructor
      · rintro fault ⟨⟩
      · rintro failure rfl
        obtain ⟨outcome, listed, same⟩ := compile_components ran
        cases outcome with
        | error fault => cases same
        | ok found => exact compile_known present listed finished

/-- A root schema whose property refers to a file that is not there. -/
def dangling : Source :=
  { Memoisation.twoFiles with disk := { entries := Memoisation.twoFiles.disk.entries.take 1 } }

private theorem entity_inside (inside : Inside node Memoisation.entity) :
    node = Memoisation.entity ∨ node = .obj [("name", .obj [("$ref", .str "t")])] ∨
      node = .obj [("$ref", .str "t")] ∨ node = .str "t" := by
  cases inside with
  | self => exact .inl rfl
  | field listed inside =>
    cases List.mem_singleton.mp listed
    cases inside with
    | self => exact .inr (.inl rfl)
    | field listed inside =>
      cases List.mem_singleton.mp listed
      cases inside with
      | self => exact .inr (.inr (.inl rfl))
      | field listed inside =>
        cases List.mem_singleton.mp listed
        cases inside with
        | self => exact .inr (.inr (.inr rfl))

private theorem entity_refers (written : Refers Memoisation.entity ref) : ref = "t" := by
  obtain ⟨node, inside, named⟩ := written
  rcases entity_inside inside with rfl | rfl | rfl | rfl
  · cases named
  · cases named
  · cases named
    rfl
  · cases named

private theorem entity_manageable : Manageable dangling ⟨[("e", Memoisation.entity)]⟩ := by
  rintro key ref ⟨document, stored, written⟩ fault causes
  cases List.mem_singleton.mp stored
  cases entity_refers written
  cases causes with
  | zero held => exact absurd held (by decide)
  | length _ long => exact absurd long (by decide +kernel)
  | position member =>
    have pointless : Pointer.steps ("t".toList.dropWhile (· ≠ '#')) = [] := by decide
    rw [pointless] at member
    cases member

private theorem entity_legible : Legible ⟨[("e", Memoisation.entity)]⟩ := by
  intro key document stored node inside text member
  cases List.mem_singleton.mp stored
  rcases entity_inside inside with rfl | rfl | rfl | rfl <;>
    cases List.mem_singleton.mp member <;> decide

/-- A file that is not there is the fault of the document, and the command tells
of a missing root schema. -/
theorem schema_faults_reported_dangling :
    (∃ progress, (compile dangling "e" {}).run {} = (.error (.notFound "t"), progress) ∧
      Legible progress.store ∧ Named dangling "e" ∧ Manageable dangling progress.store ∧
      OfDocument (.notFound "t")) ∧
    ∃ reached, (Command.compile (.failed "") ["m", "."]).run { disk := {} } = (.ok 1, reached) ∧
      reached.errors = ["Error compiling " ++ Repository.rootSchema ++ ": " ++
        (Fault.notFound Repository.rootSchema).message] := by
  constructor
  · have compiled : (compile dangling "e" {}).run {} =
        (.error (.notFound "t"), ⟨⟨[("e", Memoisation.entity)]⟩, []⟩) := by
      cbv
    have named : Named dangling "e" := ⟨by decide, by decide, by decide +kernel⟩
    refine ⟨_, compiled, entity_legible, named, entity_manageable, ?_⟩
    obtain ⟨text, done⟩ | ⟨fault, same, _, told⟩ :=
      (schema_faults_reported { disk := dangling.disk }).1 _ _ _ _ _ compiled entity_legible
    · cases done
    · cases same
      exact told named entity_manageable
  · have compiled : (compile ⟨{}, Path.ofString "."⟩ Repository.rootSchema {}).run {} =
        (.error (.notFound Repository.rootSchema), {}) := by
      rw [run_compile, Output.nothing_found]
      rfl
    have manageable : Manageable ⟨{}, Path.ofString "."⟩ {} := by
      rintro key ref ⟨document, stored, _⟩
      cases stored
    have legible : Legible {} := by
      intro key document stored
      cases stored
    rcases ran : (Command.compile (.failed "") ["m", "."]).run { disk := {} } with
      ⟨outcome, reached⟩
    have told := (schema_faults_reported { disk := {} }).2 (.failed "") "m" "." _ _ _ _
      Output.current_directory (by decide +kernel) compiled legible manageable ran
    obtain ⟨answered, reported⟩ := told.1 _ rfl
    cases answered
    exact ⟨reached, rfl, reported⟩

/-- A root schema whose one component is a reference. -/
def referring (ref : String) : Json :=
  .obj [("l", .arr []), ("properties", .obj [("a", .obj [("$ref", .str ref)])])]

/-- A disk with this root schema as its only file. -/
def holding (ref : String) : Source :=
  { disk := { entries := [(["e"],
      .file ⟨(Text.Encoding.utf8.encode (referring ref).render.toList).toArray⟩)] }
    root := ⟨1, []⟩ }

private theorem entry_normal : Location.normalize "e" = "e" := by
  decide +kernel

private theorem holding_document (ref : String) :
    (holding ref).document "e" = .ok (referring ref) := by
  have readable : DocumentReading.Readable (referring ref) := by simp [referring, Entries.names]
  have stored : WrittenDocuments.Stored (holding ref) "e" .utf8 false (referring ref) :=
    ⟨by decide +kernel, _, by rw [entry_normal]; rfl, by simp⟩
  rw [← entry_normal]
  exact WrittenDocuments.stored_document stored readable

/-- A reference that cannot be resolved for another reason than that it leads
nowhere ends the compilation. -/
private theorem referring_fails
    (failed : (resolve (holding ref) ref ⟨referring ref, "e"⟩).run ⟨[("e", referring ref)]⟩ =
      (.error fault, ⟨[("e", referring ref)]⟩)) (harsh : fault.isReferenceFault = false) :
    (compile (holding ref) "e" {}).run {} = (.error fault, ⟨⟨[("e", referring ref)]⟩, []⟩) := by
  have hop : (hop? (holding ref) (.str ref) ⟨referring ref, "e"⟩ []).run
      ⟨[("e", referring ref)]⟩ = (.error fault, ⟨[("e", referring ref)]⟩) := by
    rw [hop_resolved List.not_mem_nil, failed]
    simp [hopOutcome, harsh]
  have opened : (Store.context (holding ref) "e").run {} =
      (.ok ⟨referring ref, "e"⟩, ⟨[("e", referring ref)]⟩) := by
    simp only [Store.context, Store.load, Action.run_bind, Action.run_state, entry_normal,
      List.lookup_nil, Action.run_ofExcept, holding_document, Action.run_update, Action.run_pure]
    rfl
  have followed : (follow (holding ref) (.obj [("$ref", .str ref)]) ⟨referring ref, "e"⟩).run
      ⟨[("e", referring ref)]⟩ = (.error fault, ⟨[("e", referring ref)]⟩) := by
    have given : Json.field? "$ref" (.obj [("$ref", .str ref)]) = some (.str ref) := rfl
    simp only [follow, Action.run_bind, Action.run_state, hopBound, followFrom, given, hop]
  have declares : declared? (referring ref) =
      some [("a", .obj [("$ref", .str ref)])] := rfl
  rw [run_compile]
  simp only [components, Action.run_bind, run_onStore, opened, declares, Action.each, component,
    followed]
  rfl

/-- A file that is refused for its name makes a reference fail. -/
private theorem file_fails (named : NamesFile ref)
    (elsewhere : Location.relativeTo "e" (fileText ref) ≠ "e")
    (refused : (holding ref).document (Location.relativeTo "e" (fileText ref)) = .error fault) :
    (resolve (holding ref) ref ⟨referring ref, "e"⟩).run ⟨[("e", referring ref)]⟩ =
      (.error fault, ⟨[("e", referring ref)]⟩) := by
  have absent : List.lookup (Location.relativeTo "e" (fileText ref)) [("e", referring ref)] =
      none := by
    simp [List.lookup_cons, beq_eq_false_iff_ne.mpr elsewhere]
  rw [resolve_file named]
  simp only [Store.context, Store.load, Action.run_bind, Action.run_state, relativeTo_normal,
    absent, Action.run_ofExcept, refused]

/-- A pointer to a position that is written with this many zeros. -/
def zeros (count : Nat) : String :=
  String.ofList ('#' :: '/' :: 'l' :: '/' :: List.replicate count '0')

private theorem zeros_spelled (count : Nat) :
    (zeros count).toList = '#' :: '/' :: 'l' :: '/' :: List.replicate count '0' :=
  String.toList_ofList

private theorem zeros_steps (count : Nat) :
    Pointer.steps (zeros count).toList = [['l'], List.replicate count '0'] := by
  have apart : ('l' :: '/' :: List.replicate count '0').splitOn '/' =
      [['l'], List.replicate count '0'] := by
    have plain : ∀ name ∈ [['l'], List.replicate count '0'], '/' ∉ name := by
      intro name member slash
      rcases List.mem_pair.mp member with rfl | rfl
      · exact absurd slash (by decide)
      · exact absurd (List.eq_of_mem_replicate slash) (by decide)
    have split := List.splitOn_intercalate '/' plain (List.cons_ne_nil _ _)
    simpa [List.intercalate_cons_cons] using split
  have meant : Pointer.unescape (List.replicate count '0') = List.replicate count '0' := by
    clear apart
    induction count with
    | zero => rfl
    | succ count ih => exact congrArg ('0' :: ·) ih
  rw [zeros_spelled, Pointer.steps, apart, List.map_cons, List.map_singleton, meant]
  rfl

/-- An array position that is too long fails instead of leading nowhere. -/
private theorem zeros_fail {count : Nat} (long : Number.digitLimit < count) :
    Pointer.get? (referring ref) (zeros count) = .error (.longPosition count) := by
  have decimal : Text.isDecimal (List.replicate count '0') = true := by
    have digit : (Text.digitValue? '0').isSome = true := by decide
    have filled : count ≠ 0 := Nat.ne_zero_of_lt long
    simp [Text.isDecimal, digit, filled]
  have items : Pointer.child? ['l'] (referring ref) = .ok (some (.arr [])) := rfl
  have position : Pointer.child? (List.replicate count '0') (.arr []) =
      .error (.longPosition count) := by
    simp only [Pointer.child?, decimal, List.length_replicate, long, ↓reduceIte, Bool.not_true,
      Bool.false_eq_true]
  simp only [Pointer.get?, zeros_steps, Pointer.descend, items, position]

private theorem position_fails {count : Nat} (long : Number.digitLimit < count) :
    (resolve (holding (zeros count)) (zeros count) ⟨referring (zeros count), "e"⟩).run
        ⟨[("e", referring (zeros count))]⟩ =
      (.error (.longPosition count), ⟨[("e", referring (zeros count))]⟩) := by
  have pointer : "#/".toList.isPrefixOf (zeros count).toList = true := by
    rw [zeros_spelled]
    rfl
  have filled : (zeros count).toList.all Text.isBlank = false := by
    rw [zeros_spelled]
    rfl
  have cached : (Store.cached? ⟨[("e", referring (zeros count))]⟩ "e").bind Json.present? =
      some (referring (zeros count)) := by
    rw [Store.cached?, entry_normal]
    rfl
  simp only [resolve, filled, pointer, Bool.false_eq_true, ↓reduceIte, Action.run_bind,
    Action.run_state, cached, Option.getD_some, target?, zeros_fail long]
  rfl

section Single

variable {name : List Char}

private theorem single_normal (plain : NormalPath.Plain name) (notUp : name ≠ Location.up) :
    NormalPath.Normal 0 [name] :=
  ⟨by decide, plain, fun upward => absurd upward notUp, trivial⟩

private theorem single_spell (plain : NormalPath.Plain name) :
    NormalPath.spell 0 [name] = name := by
  simp [NormalPath.spell, Location.joinNames, plain.filled]

/-- A single name, seen from a document in the root, is itself. -/
private theorem single_target (plain : NormalPath.Plain name) (notUp : name ≠ Location.up)
    (noHash : '#' ∉ name) :
    Location.relativeTo "e" (fileText (String.ofList name)) = String.ofList name := by
  have file : (fileText (String.ofList name)).toList = name := by
    rw [fileText, String.toList_ofList, String.toList_ofList, List.takeWhile_eq_self_iff]
    intro c member
    exact decide_eq_true fun hash => noHash (hash ▸ member)
  have base : Location.directoryChars "e".toList = [] := by decide
  have joined : Location.joinChars [] name = name := by simp [Location.joinChars]
  have normal := NormalPath.normalChars_spell (single_normal plain notUp)
  rw [single_spell plain] at normal
  rw [Location.relativeTo, file, base, joined, normal]

/-- A single name that is too long for a file is refused. -/
private theorem single_refused (plain : NormalPath.Plain name) (notUp : name ≠ Location.up)
    (clean : '\x00' ∉ name) (long : Path.nameLimit < (String.ofList name).utf8ByteSize)
    (short : (Disk.Path.mk 1 [String.ofList name]).toString.utf8ByteSize ≤ Path.textLimit)
    (disk : Disk) :
    Source.document ⟨disk, ⟨1, []⟩⟩ (String.ofList name) = .error .nameTooLong := by
  have named : String.ofList name ≠ ".." := by
    intro same
    exact notUp (by rw [← String.toList_ofList (l := name), same]; rfl)
  have inside : Location.leavesRoot (String.ofList name) = false := by
    have apart : ['.', '.', '/'].isPrefixOf name = false := by
      rw [Bool.eq_false_iff]
      intro above
      exact plain.noSlash ((List.isPrefixOf_iff_prefix.mp above).subset (by decide))
    have start : name.head? ≠ some '/' := fun slash =>
      plain.noSlash (List.mem_of_head? slash)
    simp [Location.leavesRoot, named, apart, start]
  have file : Path.child ⟨1, []⟩ (String.ofList name) = ⟨1, [String.ofList name]⟩ := by
    have child := SourcePaths.child_spell (single_normal plain notUp) ⟨1, []⟩
    rw [single_spell plain] at child
    exact child
  have located : disk.locate ⟨1, [String.ofList name]⟩ = .error .nameTooLong := by
    have nonzero : (Disk.Path.mk 1 [String.ofList name]).hasZero = false := by
      simpa [Path.hasZero]
    have entered : Disk.advance [] (String.ofList name) = .error .nameTooLong := by
      rw [Disk.advance, if_neg named, if_pos long]
    rw [Disk.locate, nonzero, if_neg Bool.false_ne_true, if_neg (Nat.not_lt.mpr short)]
    exact entered
  rw [Source.document, inside, file, Disk.read, located]
  rfl

end Single

/-- References that cannot be handled end a compilation with a fault that the
command does not report: one to a file with a zero character in its name, one
with a position of 4301 digits, and one to a file with a name of 256 bytes. -/
theorem unhandled_references_escape :
    ((∃ progress, (compile (holding "\x00") "e" {}).run {} = (.error .zeroCharacter, progress)) ∧
      Fault.isSchemaFault .zeroCharacter = false) ∧
    ((∃ progress, (compile (holding (zeros 4301)) "e" {}).run {} =
        (.error (.longPosition 4301), progress)) ∧
      Fault.isSchemaFault (.longPosition 4301) = false) ∧
    (∃ progress, (compile (holding (String.ofList (List.replicate 256 'x'))) "e" {}).run {} =
        (.error .nameTooLong, progress)) ∧
      Fault.isSchemaFault .nameTooLong = false := by
  have zero := @file_fails .zeroCharacter "\x00" ⟨by decide, by decide⟩ (by decide +kernel)
    (by decide +kernel)
  have plain : NormalPath.Plain (List.replicate 256 'x') := by constructor <;> decide +kernel
  have notUp : List.replicate 256 'x' ≠ Location.up := by decide +kernel
  have target := single_target plain notUp (by decide +kernel)
  have named : NamesFile (String.ofList (List.replicate 256 'x')) := by
    rw [NamesFile, String.toList_ofList]
    exact ⟨by decide +kernel, by decide +kernel⟩
  have elsewhere : String.ofList (List.replicate 256 'x') ≠ "e" := by
    intro same
    have letters := congrArg String.toList same
    rw [String.toList_ofList] at letters
    exact absurd letters (by decide +kernel)
  have long : Path.nameLimit < (String.ofList (List.replicate 256 'x')).utf8ByteSize := by
    decide +kernel
  have refused := single_refused plain notUp (by decide +kernel) long (by decide +kernel)
  have length := file_fails named (by rw [target]; exact elsewhere)
    (by rw [target]; exact refused _)
  exact ⟨⟨⟨_, referring_fails zero rfl⟩, rfl⟩,
    ⟨⟨_, referring_fails (position_fails (by decide)) rfl⟩, rfl⟩, ⟨_, referring_fails length rfl⟩,
    rfl⟩

end EntitySchema.FaultCauses
