import EntitySchema.Proofs.DocumentSize
import EntitySchema.Proofs.Termination
import Mathlib.Algebra.BigOperators.Group.Finset.Piecewise
import Mathlib.Algebra.Order.BigOperators.Group.Finset

/-! Following a chain of references ends by itself. Every hop uses up a key, a
path with a string, and `hopBound` counts more hops than there can be keys: the
paths are those of the store, of the context and of files, of which a disk has
no more than entries; the strings stand in documents, and no document is larger
than its file. So the bound only shows that following ends. It never stops a
chain, and a larger one makes no difference. -/
namespace EntitySchema.FollowBound
open Reference Termination

variable {source : Source} {current owner : Context} {bounds : Bounds}

section Files

variable {files : List (String × Json)}

/-- What an entry counts for is counted at no more than one place. -/
private theorem sum_found (weigh : Disk.Entry → Nat) (entries : List (Disk.Place × Disk.Entry))
    (places : Finset Disk.Place) :
    ∑ place ∈ places, ((entries.lookup place).map weigh).getD 0 ≤
      (entries.map fun entry => weigh entry.2).sum := by
  induction entries with
  | nil => simp
  | cons entry rest ih =>
    obtain ⟨first, held⟩ := entry
    have single : ∑ place ∈ places, (if place = first then weigh held else 0) ≤ weigh held := by
      rw [Finset.sum_ite_eq']
      split
      · exact Nat.le_refl _
      · exact Nat.zero_le _
    calc ∑ place ∈ places, ((((first, held) :: rest).lookup place).map weigh).getD 0
        ≤ ∑ place ∈ places, ((if place = first then weigh held else 0) +
            ((rest.lookup place).map weigh).getD 0) := by
          refine Finset.sum_le_sum fun place _ => ?_
          rw [List.lookup_cons]
          by_cases same : place = first
          · simp [same]
          · simp [same, beq_eq_false_iff_ne.mpr same]
      _ = (∑ place ∈ places, if place = first then weigh held else 0) +
            ∑ place ∈ places, ((rest.lookup place).map weigh).getD 0 := Finset.sum_add_distrib
      _ ≤ weigh held + (rest.map fun entry => weigh entry.2).sum := Nat.add_le_add single ih
      _ = (((first, held) :: rest).map fun entry => weigh entry.2).sum := by simp

/-- Documents under different paths come from different entries of the disk. -/
private theorem sum_files (weigh : Disk.Entry → Nat) (count : Json → Nat)
    (distinct : (files.map Prod.fst).Nodup)
    (read : ∀ file ∈ files, Location.normalize file.1 = file.1 ∧
      source.document file.1 = .ok file.2)
    (counted : ∀ (document : Json) (content : ByteArray),
      Json.ofBytes content.data.toList = .ok document → count document ≤ weigh (.file content)) :
    (files.map fun file => count file.2).sum ≤
      (source.disk.entries.map fun entry => weigh entry.2).sum := by
  cases located : source.disk.locate source.root with
  | error fault =>
    -- Nothing can be read below a root that is not there.
    cases files with
    | nil => exact Nat.zero_le _
    | cons file rest =>
      obtain ⟨normal, held⟩ := read file List.mem_cons_self
      obtain ⟨_, top, content, found, _⟩ := SourcePaths.document_place normal held
      rw [located] at found
      cases found
  | ok top =>
    let place (file : String × Json) : Disk.Place := top ++ Disk.Path.namesOf file.1.toList
    let weightAt (place : Disk.Place) : Nat := ((source.disk.entries.lookup place).map weigh).getD 0
    -- A normal path is spelled by its names, so other paths have other places.
    have apart : (files.map place).Nodup := by
      refine (List.nodup_map_iff_inj_on (List.Nodup.of_map _ distinct)).mpr ?_
      intro first member second other same
      have names := List.append_cancel_left same
      obtain ⟨normalFirst, heldFirst⟩ := read first member
      obtain ⟨normalSecond, heldSecond⟩ := read second other
      have path : first.1 = second.1 := by
        rw [← (SourcePaths.document_place normalFirst heldFirst).1, names,
          (SourcePaths.document_place normalSecond heldSecond).1]
      exact List.inj_on_of_nodup_map distinct member other path
    calc (files.map fun file => count file.2).sum
        ≤ (files.map fun file => weightAt (place file)).sum := by
          refine List.sum_le_sum fun file member => ?_
          obtain ⟨normal, held⟩ := read file member
          obtain ⟨_, found, content, same, entry, parsed⟩ := SourcePaths.document_place normal held
          rw [located] at same
          cases same
          simp only [weightAt, place, entry, Option.map_some, Option.getD_some]
          exact counted _ _ parsed
      _ = ((files.map place).map weightAt).sum := by rw [List.map_map]; rfl
      _ = ∑ place ∈ (files.map place).toFinset, weightAt place := (List.sum_toFinset _ apart).symm
      _ ≤ (source.disk.entries.map fun entry => weigh entry.2).sum := sum_found weigh _ _

private theorem foldl_sum {γ : Type} (weigh : γ → Nat) (items : List γ) :
    items.foldl (fun total item => total + weigh item) 0 = (items.map weigh).sum := by
  rw [List.sum_eq_foldl, List.foldl_map]

private theorem files_length (distinct : (files.map Prod.fst).Nodup)
    (read : ∀ file ∈ files, Location.normalize file.1 = file.1 ∧
      source.document file.1 = .ok file.2) :
    files.length ≤ source.disk.entries.length := by
  have counted := sum_files (fun _ => 1) (fun _ => 1) distinct read fun _ _ _ => Nat.le_refl 1
  simpa using counted

private theorem files_size (distinct : (files.map Prod.fst).Nodup)
    (read : ∀ file ∈ files, Location.normalize file.1 = file.1 ∧
      source.document file.1 = .ok file.2) :
    (files.map fun file => file.2.size).sum ≤ source.disk.weight := by
  rw [Disk.weight, foldl_sum fun entry : Disk.Place × Disk.Entry => entry.2.size]
  refine sum_files Disk.Entry.size Json.size distinct read ?_
  intro document content parsed
  have small := DocumentSize.ofBytes_size parsed
  rwa [Array.length_toList] at small

end Files

mutual

private theorem texts_length (node : Json) : (texts node).length ≤ node.size := by
  cases node with
  | arr items => exact Nat.le_succ_of_le (textsItems_length items)
  | obj fields => exact Nat.le_succ_of_le (textsFields_length fields)
  | str value => exact Nat.le_refl _
  | _ => exact Nat.zero_le _

private theorem textsItems_length (items : List Json) :
    (textsItems items).length ≤ Json.sizeItems items := by
  cases items with
  | nil => exact Nat.le_refl _
  | cons item rest =>
    rw [textsItems, Json.sizeItems, List.length_append]
    exact Nat.add_le_add (texts_length item) (textsItems_length rest)

private theorem textsFields_length (fields : List (String × Json)) :
    (textsFields fields).length ≤ Json.sizeFields fields := by
  match fields with
  | [] => exact Nat.le_refl _
  | (name, value) :: rest =>
    rw [textsFields, Json.sizeFields, List.length_append]
    exact Nat.add_le_add (texts_length value) (textsFields_length rest)

end

private theorem flatMap_texts_length (documents : List Json) :
    (documents.flatMap texts).length ≤ (documents.map Json.size).sum := by
  rw [List.length_flatMap]
  exact List.sum_le_sum fun document _ => texts_length document

/-- There are fewer keys than the bound counts hops. -/
private theorem keys_bounded {files : List (String × Json)} (store : Store) (context : Context)
    (node : Json)
    (paths : files.length ≤ source.disk.entries.length)
    (sizes : (files.map fun file => file.2.size).sum ≤ source.disk.weight) :
    (free (boundsOver files store context node) []).card < hopBound source store node context := by
  have pathCount : (boundsOver files store context node).paths.card ≤
      source.disk.entries.length + store.documents.length + 1 := by
    refine (List.toFinset_card_le _).trans ?_
    simp only [List.length_cons, List.length_map, List.length_append]
    omega
  have refCount : (boundsOver files store context node).refs.card ≤
      source.disk.weight + store.weight + context.schema.size + node.size := by
    refine (List.toFinset_card_le _).trans ((flatMap_texts_length _).trans ?_)
    simp only [Store.weight, foldl_sum fun document : String × Json => document.2.size,
      List.map_cons, List.map_append, List.map_map, List.sum_cons, List.sum_append,
      Function.comp_def]
    omega
  calc (free (boundsOver files store context node) []).card
      ≤ ((boundsOver files store context node).paths ×ˢ
          (boundsOver files store context node).refs).card :=
        Finset.card_le_card (Finset.filter_subset _ _)
    _ = (boundsOver files store context node).paths.card *
          (boundsOver files store context node).refs.card := Finset.card_product _ _
    _ ≤ (source.disk.entries.length + store.documents.length + 1) *
          (source.disk.weight + store.weight + context.schema.size + node.size) :=
        Nat.mul_le_mul pathCount refCount
    _ < hopBound source store node context := Nat.lt_succ_self _

/-- A chain that may take more hops than there are keys left stops by itself:
each hop uses one of them up. -/
private theorem followFrom_settled (reads : bounds.CoversSource source) {fuel more : Nat}
    {seen : List Key} (enough : (free bounds seen).card < fuel) (larger : fuel ≤ more)
    (inside : bounds.Covers current.schema) (covered : bounds.CoversContext owner) :
    Agree bounds.CoversStore (followFrom source fuel seen current owner)
      (followFrom source more seen current owner) := by
  induction fuel generalizing more seen current owner with
  | zero => omega
  | succ fuel ih =>
    obtain ⟨more, rfl⟩ : ∃ less, more = less + 1 := ⟨more - 1, by omega⟩
    rw [followFrom, followFrom]
    cases named : current.schema.field? "$ref" with
    | none => exact agree_pure current
    | some ref =>
      have hops := hop_covered reads covered ref seen
      refine agree_bind (fun store holds => ⟨rfl, (hops store holds).1⟩) hops ?_
      intro found good
      cases found with
      | none => exact agree_pure current
      | some hop =>
        obtain ⟨target, key⟩ := hop
        obtain ⟨known, fresh, name, rfl, rfl⟩ := good target key rfl
        have said : name ∈ bounds.refs :=
          inside.2 name ((smaller_field named).2 (List.mem_singleton.mpr rfl))
        have fewer := free_less (Finset.mem_product.mpr ⟨covered.1, said⟩) fresh
        exact ih (by omega) (by omega) known.2 known

/-- Bounds on all that may come up, with fewer keys than the bound counts hops. -/
private theorem exists_keys (source : Source) (store : Store) (node : Json) (context : Context) :
    ∃ bounds : Bounds, bounds.CoversSource source ∧ bounds.CoversStore store ∧
      bounds.CoversContext context ∧ bounds.Covers node ∧
      (free bounds []).card < hopBound source store node context := by
  obtain ⟨files, distinct, all⟩ := exists_files source
  have read : ∀ file ∈ files, Location.normalize file.1 = file.1 ∧
      source.document file.1 = .ok file.2 := fun file => (all file.1 file.2).mp
  obtain ⟨reads, holds, covered, inside⟩ := boundsOver_covers store context node
    fun key document normal held => (all key document).mpr ⟨normal, held⟩
  exact ⟨_, reads, holds, covered, inside, keys_bounded store context node
    (files_length distinct read) (files_size distinct read)⟩

/-- From any store, context and node, a larger bound than `hopBound` gives the
same result or the same fault, and loads the same documents. -/
theorem hopBound_enough (source : Source) (store : Store) (node : Json) (context : Context)
    {more : Nat} (larger : hopBound source store node context ≤ more) :
    (followFrom source more [] ⟨node, context.path⟩ context).run store =
      (follow source node context).run store := by
  obtain ⟨bounds, reads, holds, covered, inside, keys⟩ := exists_keys source store node context
  exact (followFrom_settled reads keys larger inside covered store holds).1

/-- What following comes to, hop by hop and without a bound: it is at `current`,
whose references are read in `owner`, and has followed the keys in `seen`. -/
inductive Walk (source : Source) : List Key → Context → Context → Store →
    Except Fault Context → Store → Prop where
  | plain {seen : List Key} {current owner : Context} {store : Store}
    (concrete : current.schema.field? "$ref" = none) :
    Walk source seen current owner store (.ok current) store
  | stopped {seen : List Key} {current owner : Context} {before after : Store} {ref : Json}
    (named : current.schema.field? "$ref" = some ref)
    (refused : (hop? source ref owner seen).run before = (.ok none, after)) :
    Walk source seen current owner before (.ok current) after
  | failed {seen : List Key} {current owner : Context} {before after : Store} {ref : Json}
    {fault : Fault} (named : current.schema.field? "$ref" = some ref)
    (refused : (hop? source ref owner seen).run before = (.error fault, after)) :
    Walk source seen current owner before (.error fault) after
  | hop {seen : List Key} {current owner target : Context} {before middle after : Store}
    {ref : Json} {key : Key} {outcome : Except Fault Context}
    (named : current.schema.field? "$ref" = some ref)
    (hopped : (hop? source ref owner seen).run before = (.ok (some (target, key)), middle))
    (onward : Walk source (key :: seen) target target middle outcome after) :
    Walk source seen current owner before outcome after

/-- A chain that may take more hops than there are keys left is walked to its
end. -/
private theorem followFrom_walks (reads : bounds.CoversSource source) {fuel : Nat}
    {seen : List Key} {store : Store} (enough : (free bounds seen).card < fuel)
    (inside : bounds.Covers current.schema) (covered : bounds.CoversContext owner)
    (holds : bounds.CoversStore store) :
    Walk source seen current owner store
      ((followFrom source fuel seen current owner).run store).1
      ((followFrom source fuel seen current owner).run store).2 := by
  induction fuel generalizing seen current owner store with
  | zero => omega
  | succ fuel ih =>
    rw [followFrom]
    cases named : current.schema.field? "$ref" with
    | none => exact .plain named
    | some ref =>
      obtain ⟨kept, good⟩ := hop_covered reads covered ref seen store holds
      simp only [Action.run_bind]
      rcases hopped : (hop? source ref owner seen).run store with ⟨outcome, middle⟩
      rw [hopped] at kept good
      cases outcome with
      | error fault => exact .failed named hopped
      | ok found =>
        cases found with
        | none => exact .stopped named hopped
        | some hop =>
          obtain ⟨target, key⟩ := hop
          obtain ⟨known, fresh, name, rfl, rfl⟩ := good _ rfl target key rfl
          have said : name ∈ bounds.refs :=
            inside.2 name ((smaller_field named).2 (List.mem_singleton.mpr rfl))
          have fewer := free_less (Finset.mem_product.mpr ⟨covered.1, said⟩) fresh
          exact .hop named hopped (ih (by omega) known.2 known kept)

/-- **Following ends**, from any store, in any context and at any node: what it
gives is what walking without a bound comes to. -/
theorem follow_walks (source : Source) (store : Store) (node : Json) (context : Context) :
    Walk source [] ⟨node, context.path⟩ context store
      ((follow source node context).run store).1 ((follow source node context).run store).2 := by
  obtain ⟨bounds, reads, holds, covered, inside, keys⟩ := exists_keys source store node context
  exact followFrom_walks reads keys inside covered holds

/-- A walk of some length is taken in full with any bound beyond it. -/
private theorem walk_followFrom {seen : List Key} {before after : Store}
    {outcome : Except Fault Context} (walk : Walk source seen current owner before outcome after) :
    ∃ length, ∀ fuel, length < fuel →
      (followFrom source fuel seen current owner).run before = (outcome, after) := by
  have enough {length fuel : Nat} (larger : length < fuel) : ∃ less, fuel = less + 1 :=
    ⟨fuel - 1, by omega⟩
  induction walk with
  | plain concrete =>
    refine ⟨0, fun fuel larger => ?_⟩
    obtain ⟨less, rfl⟩ := enough larger
    simp only [followFrom, concrete, Action.run_pure]
  | stopped named refused =>
    refine ⟨0, fun fuel larger => ?_⟩
    obtain ⟨less, rfl⟩ := enough larger
    simp only [followFrom, named, Action.run_bind, refused, Action.run_pure]
  | failed named refused =>
    refine ⟨0, fun fuel larger => ?_⟩
    obtain ⟨less, rfl⟩ := enough larger
    simp only [followFrom, named, Action.run_bind, refused]
  | hop named hopped _ ih =>
    obtain ⟨length, rest⟩ := ih
    refine ⟨length + 1, fun fuel larger => ?_⟩
    obtain ⟨less, rfl⟩ := enough larger
    simp only [followFrom, named, Action.run_bind, hopped]
    exact rest less (by omega)

/-- A walk tells what following gives. -/
theorem walk_follows {node : Json} {context : Context} {before after : Store}
    {outcome : Except Fault Context}
    (walk : Walk source [] ⟨node, context.path⟩ context before outcome after) :
    (follow source node context).run before = (outcome, after) := by
  obtain ⟨length, taken⟩ := walk_followFrom walk
  rw [← hopBound_enough source before node context (Nat.le_max_left _ (length + 1))]
  exact taken _ (Nat.le_max_right _ _)

end EntitySchema.FollowBound
