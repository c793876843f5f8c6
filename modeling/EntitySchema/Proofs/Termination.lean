import EntitySchema.Proofs.Decomposition
import EntitySchema.Proofs.SourcePaths
import Mathlib.Algebra.GroupWithZero.Nat
import Mathlib.Algebra.Order.BigOperators.Group.List
import Mathlib.Algebra.Order.Group.Nat
import Mathlib.Data.Finset.Prod

/-! Conversion ends without the depth limit. A reference that is entered
becomes a key on the way down, and a key on the way is never entered again;
over unchanging files only finitely many keys can come up, since documents are
read under finitely many paths and hold finitely many strings. Between two
references the nodes get smaller, a type list included. So the levels that a
conversion can enter are bounded by the keys still free and the size of the
node, and a limit beyond that bound decides nothing. -/
namespace EntitySchema.Termination
open Reference

variable {source : Source} {node part whole : Json} {context : Context}

mutual

/-- The strings that stand as values in a document. -/
def texts : Json → List String
  | .str value => [value]
  | .arr items => textsItems items
  | .obj fields => textsFields fields
  | _ => []

/-- The strings that stand in a list, nested ones included. -/
def textsItems : List Json → List String
  | [] => []
  | item :: rest => texts item ++ textsItems rest

/-- The strings that stand under names, nested ones included. -/
def textsFields : List (String × Json) → List String
  | [] => []
  | (_, value) :: rest => texts value ++ textsFields rest

end

/-- The node is smaller and says nothing that the other does not say. Nodes
inside are, and so is a node of which one field was narrowed. -/
def Smaller (part whole : Json) : Prop :=
  part.size < whole.size ∧ texts part ⊆ texts whole

private theorem smaller_trans {middle : Json} (inner : Smaller part middle)
    (outer : Smaller middle whole) : Smaller part whole :=
  ⟨inner.1.trans outer.1, List.Subset.trans inner.2 outer.2⟩

private theorem smaller_item {items : List Json} (member : part ∈ items) :
    Smaller part (.arr items) := by
  induction items with
  | nil => cases member
  | cons item rest ih =>
    rcases List.mem_cons.mp member with rfl | later
    · simp only [Smaller, Json.size, Json.sizeItems, texts, textsItems]
      exact ⟨by omega, List.subset_append_left _ _⟩
    · obtain ⟨less, said⟩ := ih later
      simp only [Smaller, Json.size, Json.sizeItems, texts, textsItems] at less said ⊢
      exact ⟨by omega, List.subset_append_of_subset_right _ said⟩

private theorem smaller_entry {fields : List (String × Json)} {name : String}
    (member : (name, part) ∈ fields) : Smaller part (.obj fields) := by
  induction fields with
  | nil => cases member
  | cons entry rest ih =>
    obtain ⟨other, held⟩ := entry
    rcases List.mem_cons.mp member with same | later
    · cases same
      simp only [Smaller, Json.size, Json.sizeFields, texts, textsFields]
      exact ⟨by omega, List.subset_append_left _ _⟩
    · obtain ⟨less, said⟩ := ih later
      simp only [Smaller, Json.size, Json.sizeFields, texts, textsFields] at less said ⊢
      exact ⟨by omega, List.subset_append_of_subset_right _ said⟩

private theorem smaller_lookup {fields : List (String × Json)} {name : String}
    (found : fields.lookup name = some part) : Smaller part (.obj fields) := by
  obtain ⟨before, after, split, _⟩ := List.lookup_eq_some_iff.mp found
  have member : (name, part) ∈ fields := by simp [split]
  exact smaller_entry member

theorem smaller_field {name : String} (found : whole.field? name = some part) :
    Smaller part whole := by
  cases whole with
  | obj fields => exact smaller_lookup found
  | _ => cases found

/-- Writing something smaller over a field makes the object smaller. -/
private theorem smaller_withField {name : String} {held new : Json}
    (found : whole.field? name = some held) (less : Smaller new held) :
    Smaller (whole.withField name new) whole := by
  cases whole with
  | obj fields =>
    simp only [Json.field?] at found
    simp only [Json.withField]
    induction fields with
    | nil => cases found
    | cons entry rest ih =>
      obtain ⟨other, value⟩ := entry
      by_cases same : other = name
      · subst same
        rw [List.lookup_cons_self, Option.some.injEq] at found
        subst found
        simp only [Smaller, Entries.put, ↓reduceIte, Json.size, Json.sizeFields, texts,
          textsFields]
        exact ⟨by have := less.1; omega, List.append_subset.mpr
          ⟨List.subset_append_of_subset_left _ less.2, List.subset_append_right _ _⟩⟩
      · rw [List.lookup_cons, beq_eq_false_iff_ne.mpr (Ne.symm same)] at found
        obtain ⟨fewer, said⟩ := ih found
        simp only [Smaller, Entries.put, same, ↓reduceIte, Json.size, Json.sizeFields, texts,
          textsFields] at fewer said ⊢
        exact ⟨by omega, List.append_subset.mpr
          ⟨List.subset_append_left _ _, List.subset_append_of_subset_right _ said⟩⟩
  | _ => cases found

private theorem record_smaller {required : List String}
    (member : part ∈ (Shape.record (Dispatch.declared node) required
      (Shape.othersOf node)).children) : Smaller part node := by
  rcases List.mem_append.mp member with property | other
  · obtain ⟨⟨name, held⟩, listed, rfl⟩ := List.mem_map.mp property
    obtain ⟨fields, named, inside⟩ := Dispatch.declared_named listed
    exact smaller_trans (smaller_entry inside) (smaller_field named)
  · cases others : Shape.othersOf node with
    | closed => rw [others] at other; cases other
    | anything => rw [others] at other; cases other
    | typed typed =>
      rw [others] at other
      cases List.mem_singleton.mp other
      obtain ⟨fields, named, rfl⟩ := Dispatch.othersOf_typed others
      exact smaller_field named

/-- What is converted for a node is smaller than the node. -/
theorem children_smaller (member : part ∈ (Shape.ofNode node).children) : Smaller part node := by
  have listed : ∀ {name : String} {nodes : List Json}, node.field? name = some (.arr nodes) →
      part ∈ nodes → Smaller part node := fun given inside =>
    smaller_trans (smaller_item inside) (smaller_field given)
  have calls := Dispatch.ofNode_calls node
  generalize Shape.ofNode node = shape at member calls
  cases calls with
  | oneOf given => exact listed given member
  | anyOf given => exact listed given member
  | allOf given => exact listed given member
  | types given =>
    obtain ⟨type, inside, rfl⟩ := List.mem_map.mp member
    exact smaller_withField given (smaller_item inside)
  | tuple _ given => exact listed given member
  | array _ given single =>
    cases List.mem_singleton.mp member
    exact smaller_field given
  | record => exact record_smaller member
  | _ => cases member

/-- What may come up in a conversion: the paths of documents, the strings in
them, and how large a node may be. -/
structure Bounds where
  paths : Finset String
  refs : Finset String
  size : Nat

variable {bounds : Bounds}

namespace Bounds

def Covers (bounds : Bounds) (node : Json) : Prop :=
  node.size ≤ bounds.size ∧ ∀ text ∈ texts node, text ∈ bounds.refs

def CoversContext (bounds : Bounds) (context : Context) : Prop :=
  context.path ∈ bounds.paths ∧ bounds.Covers context.schema

def CoversStore (bounds : Bounds) (store : Store) : Prop :=
  ∀ entry ∈ store.documents, entry.1 ∈ bounds.paths ∧ bounds.Covers entry.2

def CoversSource (bounds : Bounds) (source : Source) : Prop :=
  ∀ key document, Location.normalize key = key → source.document key = .ok document →
    key ∈ bounds.paths ∧ bounds.Covers document

end Bounds

private theorem covers_smaller (covered : bounds.Covers whole) (less : Smaller part whole) :
    bounds.Covers part :=
  ⟨less.1.le.trans covered.1, fun text said => covered.2 text (less.2 said)⟩

/-- All that may come up when every file with a document is among `files`. -/
def boundsOver (files : List (String × Json)) (store : Store) (context : Context) (node : Json) :
    Bounds :=
  let documents := node :: context.schema :: (store.documents ++ files).map Prod.snd
  { paths := (context.path :: (store.documents ++ files).map Prod.fst).toFinset
    refs := (documents.flatMap texts).toFinset
    size := (documents.map Json.size).sum }

theorem boundsOver_covers {files : List (String × Json)} (store : Store) (context : Context)
    (node : Json) (all : ∀ key document, Location.normalize key = key →
      source.document key = .ok document → (key, document) ∈ files) :
    let bounds := boundsOver files store context node
    bounds.CoversSource source ∧ bounds.CoversStore store ∧ bounds.CoversContext context ∧
      bounds.Covers node := by
  intro bounds
  have covers : ∀ document ∈ node :: context.schema :: (store.documents ++ files).map Prod.snd,
      bounds.Covers document := by
    intro document member
    refine ⟨List.le_sum_of_mem (List.mem_map_of_mem member), ?_⟩
    intro text said
    exact List.mem_toFinset.mpr (List.mem_flatMap.mpr ⟨document, member, said⟩)
  have entries : ∀ entry ∈ store.documents ++ files,
      entry.1 ∈ bounds.paths ∧ bounds.Covers entry.2 := by
    intro entry member
    have named : entry.1 ∈ (store.documents ++ files).map Prod.fst := List.mem_map_of_mem member
    have held : entry.2 ∈ (store.documents ++ files).map Prod.snd := List.mem_map_of_mem member
    constructor
    · exact List.mem_toFinset.mpr (List.mem_cons_of_mem _ named)
    · exact covers _ (List.mem_cons_of_mem _ (List.mem_cons_of_mem _ held))
  refine ⟨?_, ?_, ⟨List.mem_toFinset.mpr List.mem_cons_self, covers _ (by simp)⟩,
    covers _ (by simp)⟩
  · intro key document normal held
    exact entries (key, document) (List.mem_append_right _ (all key document normal held))
  · intro entry member
    exact entries entry (List.mem_append_left _ member)

/-- The documents of all files, each under its normal path. -/
theorem exists_files (source : Source) :
    ∃ files : List (String × Json), (files.map Prod.fst).Nodup ∧ ∀ key document,
      (key, document) ∈ files ↔ Location.normalize key = key ∧ source.document key = .ok document := by
  have finite := SourcePaths.documents_finite source
  have readable : ∀ key, key ∈ finite.toFinset.toList ↔
      Location.normalize key = key ∧ ∃ document, source.document key = .ok document := by
    intro key
    rw [Finset.mem_toList, finite.mem_toFinset]
    rfl
  let files := finite.toFinset.toList.map fun key =>
    (key, (source.document key).toOption.getD .null)
  have paths : files.map Prod.fst = finite.toFinset.toList := by
    simp [files, Function.comp_def]
  refine ⟨files, paths ▸ Finset.nodup_toList _, ?_⟩
  intro key document
  constructor
  · intro member
    obtain ⟨path, listed, same⟩ := List.mem_map.mp member
    obtain ⟨normal, found, held⟩ := (readable path).mp listed
    rw [held] at same
    cases same
    exact ⟨normal, held⟩
  · rintro ⟨normal, held⟩
    refine List.mem_map.mpr ⟨key, (readable key).mpr ⟨normal, document, held⟩, ?_⟩
    rw [held]
    rfl

private theorem exists_bounds (source : Source) (store : Store) (context : Context) (node : Json) :
    ∃ bounds : Bounds, bounds.CoversSource source ∧ bounds.CoversStore store ∧
      bounds.CoversContext context ∧ bounds.Covers node := by
  obtain ⟨files, _, all⟩ := exists_files source
  exact ⟨boundsOver files store context node, boundsOver_covers store context node
    fun key document normal held => (all key document).mpr ⟨normal, held⟩⟩

/-- From a store with the property, the action leads to one with it, and what
it gives is as described. -/
def Keeps {α : Type} (kept : Store → Prop) (action : Load α) (given : α → Prop) : Prop :=
  ∀ store, kept store → kept (action.run store).2 ∧
    ∀ result, (action.run store).1 = .ok result → given result

/-- Two actions that do the same from every store with the property, and lead
to one with it. -/
def Agree {α : Type} (kept : Store → Prop) (first second : Load α) : Prop :=
  ∀ store, kept store → second.run store = first.run store ∧ kept (first.run store).2

variable {α β : Type} {kept : Store → Prop}

private theorem keeps_pure {given : α → Prop} {result : α} (good : given result) :
    Keeps kept (pure result) given := by
  intro store holds
  refine ⟨holds, ?_⟩
  intro other same
  cases same
  exact good

private theorem keeps_bind {action : Load α} {next : α → Load β} {given : α → Prop}
    {wanted : β → Prop} (first : Keeps kept action given)
    (second : ∀ result, given result → Keeps kept (next result) wanted) :
    Keeps kept (action >>= next) wanted := by
  intro store holds
  obtain ⟨held, good⟩ := first store holds
  rw [Action.run_bind]
  rcases ran : action.run store with ⟨outcome, reached⟩
  rw [ran] at held good
  cases outcome with
  | error fault => exact ⟨held, by intro result impossible; cases impossible⟩
  | ok result => exact second result (good result rfl) reached held

theorem agree_pure (result : α) : Agree kept (pure result) (pure result) := by
  intro store holds
  exact ⟨rfl, holds⟩

theorem agree_bind {action other : Load α} {next later : α → Load β} {given : α → Prop}
    (same : Agree kept action other) (good : Keeps kept action given)
    (follows : ∀ result, given result → Agree kept (next result) (later result)) :
    Agree kept (action >>= next) (other >>= later) := by
  intro store holds
  obtain ⟨equal, held⟩ := same store holds
  have described := (good store holds).2
  rw [Action.run_bind, Action.run_bind, equal]
  rcases ran : action.run store with ⟨outcome, reached⟩
  rw [ran] at held described
  cases outcome with
  | error fault => exact ⟨rfl, held⟩
  | ok result => exact follows result (described result rfl) reached held

private theorem agree_keeps {action other : Load α} (same : Agree kept action other) :
    Keeps kept action fun _ => True := by
  intro store holds
  exact ⟨(same store holds).2, fun _ _ => trivial⟩

private theorem agree_each {γ : Type} {f g : γ → Load α} {items : List γ}
    (same : ∀ item ∈ items, Agree kept (f item) (g item)) :
    Agree kept (Action.each f items) (Action.each g items) := by
  induction items with
  | nil => exact agree_pure []
  | cons item rest ih =>
    have here := same item List.mem_cons_self
    have later := ih fun item member => same item (List.mem_cons_of_mem _ member)
    refine agree_bind here (agree_keeps here) fun first _ => ?_
    exact agree_bind later (agree_keeps later) fun others _ => agree_pure (first :: others)

private theorem load_covered (reads : bounds.CoversSource source) {path : String}
    (normal : Location.normalize path = path) :
    Keeps bounds.CoversStore (Store.load source path) fun document =>
      path ∈ bounds.paths ∧ bounds.Covers document := by
  intro store holds
  simp only [Store.load, Action.run_bind, Action.run_state, normal]
  cases found : store.documents.lookup path with
  | some document =>
    obtain ⟨before, after, split, _⟩ := List.lookup_eq_some_iff.mp found
    have covered := holds (path, document) (by simp [split])
    exact ⟨holds, by intro result same; cases same; exact covered⟩
  | none =>
    simp only [Action.run_bind, Action.run_ofExcept]
    cases read : source.document path with
    | error fault => exact ⟨holds, by intro result impossible; cases impossible⟩
    | ok document =>
      have covered := reads path document normal read
      refine ⟨?_, by intro result same; cases same; exact covered⟩
      intro entry member
      rcases List.mem_append.mp member with earlier | added
      · exact holds entry earlier
      · cases List.mem_singleton.mp added
        exact covered

private theorem context_covered (reads : bounds.CoversSource source) (path : String) :
    Keeps bounds.CoversStore (Store.context source path) bounds.CoversContext := by
  refine keeps_bind (load_covered reads (NormalPath.normalize_settles path)) ?_
  intro document covered
  exact keeps_pure covered

private theorem child_smaller {step : List Char} (found : Pointer.child? step whole = .ok (some part)) :
    Smaller part whole := by
  cases whole with
  | obj fields => exact smaller_lookup (Except.ok.inj found)
  | arr items =>
    simp only [Pointer.child?] at found
    split at found
    · cases found
    · split at found
      · cases found
      · exact smaller_item (List.mem_of_getElem? (Except.ok.inj found))
  | _ => cases found

private theorem descend_covered {steps : List (List Char)} (covered : bounds.Covers whole)
    (found : Pointer.descend whole steps = .ok (some part)) : bounds.Covers part := by
  induction steps generalizing whole with
  | nil => cases found; exact covered
  | cons step rest ih =>
    simp only [Pointer.descend] at found
    split at found
    · cases found
    · cases found
    · rename_i next stepped
      exact ih (covers_smaller covered (child_smaller stepped)) found

private theorem target_covered {document : Json} {pointer path : String}
    (known : path ∈ bounds.paths) (covered : bounds.Covers document) :
    Keeps bounds.CoversStore (target? document pointer path) fun found =>
      ∀ target ∈ found, bounds.CoversContext target := by
  unfold target?
  split
  · intro store holds
    exact ⟨holds, by intro result impossible; cases impossible⟩
  · exact keeps_pure (by simp)
  · exact keeps_pure (by simp)
  · rename_i node _ found
    refine keeps_pure ?_
    intro target same
    cases same
    exact ⟨known, descend_covered covered found⟩

private theorem resolve_covered (reads : bounds.CoversSource source)
    (covered : bounds.CoversContext context) (ref : String) :
    Keeps bounds.CoversStore (resolve source ref context) fun found =>
      ∀ target ∈ found, bounds.CoversContext target := by
  have here : ∀ target ∈ some context, bounds.CoversContext target := by
    intro target same
    cases same
    exact covered
  unfold resolve
  simp only
  split
  · exact keeps_pure here
  · split
    · intro store holds
      refine target_covered covered.1 ?_ store holds
      -- The loaded document, or the node at hand when there is none.
      cases found : (store.cached? context.path).bind Json.present? with
      | none => exact covered.2
      | some document =>
        obtain ⟨cached, looked, present⟩ := Option.bind_eq_some_iff.mp found
        have same : cached = document := by
          cases cached <;> cases present <;> rfl
        subst same
        obtain ⟨before, after, split, _⟩ := List.lookup_eq_some_iff.mp looked
        exact (holds (Location.normalize context.path, cached) (by simp [split])).2
    · split
      · exact keeps_pure here
      · refine keeps_bind (context_covered reads _) ?_
        intro found known
        split
        · exact target_covered known.1 known.2
        · refine keeps_pure ?_
          intro target same
          cases same
          exact known

/-- A hop leads to a context that is covered, along a key not followed before. -/
theorem hop_covered (reads : bounds.CoversSource source)
    (covered : bounds.CoversContext context) (ref : Json) (seen : List Key) :
    Keeps bounds.CoversStore (hop? source ref context seen) fun found =>
      ∀ target key, found = some (target, key) →
        bounds.CoversContext target ∧ key ∉ seen ∧ ∃ name, ref = .str name ∧
          key = (context.path, name) := by
  intro store holds
  constructor
  · cases ref with
    | str name =>
      by_cases followed : (context.path, name) ∈ seen
      · rw [hop_followed followed]
        exact holds
      · rw [hop_resolved followed]
        exact (resolve_covered reads covered name store holds).1
    | _ => exact holds
  · rintro found ran target key rfl
    obtain ⟨name, rfl, rfl, fresh, resolved⟩ := hop_found (Prod.ext ran rfl)
    have good := (resolve_covered reads covered name store holds).2 (some target)
      (by rw [resolved])
    exact ⟨good target rfl, fresh, name, rfl, rfl⟩

/-- The keys that may still be entered below a node. -/
def free (bounds : Bounds) (seen : List Key) : Finset Key :=
  (bounds.paths ×ˢ bounds.refs).filter fun key => !seen.contains key

/-- The levels that may still be entered: each free key leads to a node of any
size, and from there on nodes get smaller. -/
def room (bounds : Bounds) (seen : List Key) (node : Json) : Nat :=
  (free bounds seen).card * bounds.size + node.size

private theorem mem_free {seen : List Key} {key : Key} :
    key ∈ free bounds seen ↔ key ∈ bounds.paths ×ˢ bounds.refs ∧ key ∉ seen := by
  simp [free]

theorem free_less {seen : List Key} {key : Key} (known : key ∈ bounds.paths ×ˢ bounds.refs)
    (fresh : key ∉ seen) : (free bounds (key :: seen)).card < (free bounds seen).card := by
  refine Finset.card_lt_card (Finset.ssubset_iff_subset_ne.mpr ⟨?_, ?_⟩)
  · intro other member
    rw [mem_free, List.mem_cons, not_or] at member
    exact mem_free.mpr ⟨member.1, member.2.2⟩
  · intro same
    have member : key ∈ free bounds (key :: seen) := by
      rw [same]
      exact mem_free.mpr ⟨known, fresh⟩
    exact (mem_free.mp member).2 List.mem_cons_self

private theorem room_less {seen : List Key} {key : Key} {target : Json}
    (known : key ∈ bounds.paths ×ˢ bounds.refs) (fresh : key ∉ seen)
    (covered : bounds.Covers target) : room bounds (key :: seen) target < room bounds seen node := by
  have fewer := free_less known fresh
  have filled : 0 < node.size := by cases node <;> simp [Json.size]
  calc room bounds (key :: seen) target
      ≤ (free bounds (key :: seen)).card * bounds.size + bounds.size := by
        exact Nat.add_le_add_left covered.1 _
    _ = ((free bounds (key :: seen)).card + 1) * bounds.size := by rw [Nat.succ_mul]
    _ ≤ (free bounds seen).card * bounds.size := Nat.mul_le_mul_right _ fewer
    _ < room bounds seen node := Nat.lt_add_of_pos_right filled

/-- Once there is room for all levels that can be entered, allowing more of
them changes nothing. -/
private theorem convert_settled (reads : bounds.CoversSource source) {budget more : Nat}
    {node : Json} {seen : List Key} (enough : room bounds seen node ≤ budget)
    (larger : budget ≤ more) (inside : bounds.Covers node)
    (covered : bounds.CoversContext context) :
    Agree bounds.CoversStore (Synthesis.convert source budget node context seen)
      (Synthesis.convert source more node context seen) := by
  induction budget generalizing more node context seen with
  | zero =>
    have filled : 0 < node.size := by cases node <;> simp [Json.size]
    unfold room at enough
    omega
  | succ budget ih =>
    obtain ⟨more, rfl⟩ : ∃ less, more = less + 1 := ⟨more - 1, by omega⟩
    by_cases referring : ∃ ref, Shape.ofNode node = .reference ref
    · obtain ⟨ref, shape⟩ := referring
      have named := Dispatch.ofNode_reference.mp shape
      have hops := hop_covered reads covered ref seen
      have same : Agree bounds.CoversStore (hop? source ref context seen)
          (hop? source ref context seen) := fun store holds => ⟨rfl, (hops store holds).1⟩
      simp only [Synthesis.convert, shape]
      refine agree_bind same hops ?_
      intro found good
      cases found with
      | none => exact agree_pure TypeExpr.unknown
      | some hop =>
        obtain ⟨target, key⟩ := hop
        obtain ⟨known, fresh, name, rfl, rfl⟩ := good target key rfl
        have said : name ∈ bounds.refs :=
          inside.2 name ((smaller_field named).2 (List.mem_singleton.mpr rfl))
        have less : room bounds ((context.path, name) :: seen) target.schema <
            room bounds seen node :=
          room_less (Finset.mem_product.mpr ⟨covered.1, said⟩) fresh known.2
        exact ih (by omega) (by omega) known.2 known
    · have structural : ∀ ref, Shape.ofNode node ≠ .reference ref :=
        fun ref shape => referring ⟨ref, shape⟩
      rw [Synthesis.convert_structural source budget context seen structural,
        Synthesis.convert_structural source more context seen structural]
      have children : Agree bounds.CoversStore
          (Action.each (fun child => Synthesis.convert source budget child context seen)
            (Shape.ofNode node).children)
          (Action.each (fun child => Synthesis.convert source more child context seen)
            (Shape.ofNode node).children) := by
        refine agree_each ?_
        intro child member
        have less := children_smaller member
        refine ih ?_ (by omega) (covers_smaller inside less) covered
        have := less.1
        unfold room at enough ⊢
        omega
      exact agree_bind children (agree_keeps children) fun types _ => agree_pure _

/-- For every disk, store, context and node there is a depth from which on the
limit plays no part: any larger limit gives the same type or the same fault,
and loads the same documents. -/
theorem synthesis_settles (source : Source) (store : Store) (context : Context) (node : Json) :
    ∃ bound : Nat, ∀ maxDepth : Int, bound ≤ maxDepth →
      (Synthesis.synthesize source maxDepth node context 0).run store =
        (Synthesis.synthesize source bound node context 0).run store := by
  obtain ⟨bounds, reads, holds, covered, inside⟩ := exists_bounds source store context node
  refine ⟨room bounds [] node, ?_⟩
  intro maxDepth enough
  unfold Synthesis.synthesize
  refine (convert_settled reads ?_ ?_ inside covered store holds).1
  · simp only [Synthesis.budgetAt]
    omega
  · simp only [Synthesis.budgetAt]
    omega

end EntitySchema.Termination
