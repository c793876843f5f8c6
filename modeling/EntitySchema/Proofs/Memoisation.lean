import EntitySchema.Compilation
import EntitySchema.Proofs.FollowBound
import EntitySchema.Proofs.Loading
import Mathlib

/-! Memoisation is unobservable. A store that holds only what the files hold
answers every path as the files do, so two such stores differ in what is
loaded and in nothing that can be asked. Whatever is computed from both has
the same outcome, provided the documents that local pointers start in are held
by both; and what one run has loaded, no other run loads again. Both are proved
together for every operation, as what two runs of it have in common, and then
for a whole compilation, which apart from its notices works on the store. -/
namespace EntitySchema.Memoisation
open Reference Synthesis Compilation StoreView Loading

variable {source : Source} {before after store : Store} {path : String} {document : Json}

/-- Every document in the store is what its file holds. -/
def Consistent (source : Source) (store : Store) : Prop :=
  ∀ key document, (key, document) ∈ store.documents → source.document key = .ok document

/-- The document at a path is in the store. -/
def Holds (store : Store) (path : String) : Prop :=
  ∃ document, store.cached? path = some document

private theorem holds_iff : Holds store path ↔ Location.normalize path ∈ store.paths := by
  rw [Holds, ← Option.ne_none_iff_exists', Store.cached?, Ne, absent_iff, not_not]

private theorem consistent_lookup {key : String} (consistent : Consistent source store)
    (found : store.documents.lookup key = some document) :
    source.document key = .ok document := by
  obtain ⟨before, after, split, _⟩ := List.lookup_eq_some_iff.mp found
  exact consistent key document (by simp [split])

private theorem consistent_fetch (consistent : Consistent source store) :
    fetch source store = source.document := by
  funext key
  unfold fetch
  split
  · rename_i document found
    exact (consistent_lookup consistent found).symm
  · rfl

private theorem reads_consistent (reads : Reads source before after)
    (consistent : Consistent source before) : Consistent source after := by
  intro key document member
  by_cases earlier : (key, document) ∈ before.documents
  · exact consistent key document earlier
  · exact (reads_added reads member earlier).2.2

private theorem reads_paths (reads : Reads source before after) : before.paths ⊆ after.paths :=
  ((reads_kept reads).map Prod.fst).subset

/-- A consistent store with the documents that local pointers may start in. -/
structure Ready (source : Source) (needs : List String) (store : Store) : Prop where
  consistent : Consistent source store
  holds : ∀ path ∈ needs, Holds store path

private theorem ready_later {needs : List String} (ready : Ready source needs before)
    (reads : Reads source before after) : Ready source needs after := by
  refine ⟨reads_consistent reads ready.consistent, ?_⟩
  intro path member
  exact holds_iff.mpr (reads_paths reads (holds_iff.mp (ready.holds path member)))

/-- What two runs of a computation have in common, whatever else the two stores
hold: the outcome and, once one of them has loaded its documents, that the other
loads none. `needs` are the paths that both stores have to hold, and those that
the result `gives` are held afterwards. -/
structure Unseen {α : Type} (source : Source) (needs : List String) (action : Load α)
    (gives : α → List String) : Prop where
  reads : OnlyReads source action
  same {first second : Store} : Ready source needs first → Ready source needs second →
    (action.run first).1 = (action.run second).1
  idle {first second : Store} : Ready source needs first → Ready source needs second →
    (action.run first).2.paths ⊆ second.paths → (action.run second).2 = second
  held {store : Store} {result : α} : Ready source needs store →
    (action.run store).1 = .ok result → ∀ path ∈ gives result, Holds (action.run store).2 path

section Combinators

variable {α β : Type} {needs : List String} {action : Load α} {gives : α → List String}

private theorem unseen_pure {result : α} (given : gives result ⊆ needs) :
    Unseen source needs (pure result) gives where
  reads := onlyReads_pure result
  same _ _ := rfl
  idle _ _ _ := rfl
  held := by
    intro store other ready same path member
    cases same
    exact ready.holds path (given member)

private theorem unseen_fail (fault : Fault) : Unseen source needs (Action.fail fault) gives where
  reads := onlyReads_fail fault
  same _ _ := rfl
  idle _ _ _ := rfl
  held _ impossible := by cases impossible

private theorem unseen_fewer {fewer : List String} (known : Unseen source fewer action gives)
    (included : fewer ⊆ needs) : Unseen source needs action gives := by
  have ready {store : Store} (given : Ready source needs store) : Ready source fewer store :=
    ⟨given.consistent, fun path member => given.holds path (included member)⟩
  constructor
  · exact known.reads
  · exact fun first second => known.same (ready first) (ready second)
  · exact fun first second => known.idle (ready first) (ready second)
  · exact fun given => known.held (ready given)

/-- After a computation the store is ready for what needs its result. -/
private theorem ready_next (known : Unseen source needs action gives)
    (ready : Ready source needs before) {result : α} (ran : action.run before = (.ok result, after)) :
    Ready source (gives result ++ needs) after := by
  have later : Ready source needs after := by
    have reads := known.reads before
    rw [ran] at reads
    exact ready_later ready reads
  have given := known.held ready (by rw [ran])
  rw [ran] at given
  refine ⟨later.consistent, ?_⟩
  intro path member
  rcases List.mem_append.mp member with fresh | earlier
  · exact given path fresh
  · exact later.holds path earlier

private theorem unseen_bind {next : α → Load β} {later : β → List String}
    (known : Unseen source needs action gives)
    (follows : ∀ result, Unseen source (gives result ++ needs) (next result) later) :
    Unseen source needs (action >>= next) later := by
  constructor
  · exact onlyReads_bind known.reads fun result => (follows result).reads
  · intro first second readyFirst readySecond
    have equal := known.same readyFirst readySecond
    rw [Action.run_bind, Action.run_bind]
    rcases ranFirst : action.run first with ⟨outcome, middle⟩
    rcases ranSecond : action.run second with ⟨other, reached⟩
    rw [ranFirst, ranSecond] at equal
    cases equal
    cases outcome with
    | error fault => rfl
    | ok result =>
      exact (follows result).same (ready_next known readyFirst ranFirst)
        (ready_next known readySecond ranSecond)
  · intro first second readyFirst readySecond loaded
    have equal := known.same readyFirst readySecond
    have idle := known.idle readyFirst readySecond
    rw [Action.run_bind] at loaded ⊢
    rcases ranFirst : action.run first with ⟨outcome, middle⟩
    rcases ranSecond : action.run second with ⟨other, reached⟩
    rw [ranFirst, ranSecond] at equal idle
    rw [ranFirst] at loaded
    cases equal
    cases outcome with
    | error fault => exact idle loaded
    | ok result =>
      -- The whole has loaded whatever its first part loaded.
      have early : middle.paths ⊆ second.paths :=
        List.Subset.trans (reads_paths ((follows result).reads middle)) loaded
      cases idle early
      exact (follows result).idle (ready_next known readyFirst ranFirst)
        (ready_next known readySecond ranSecond) loaded
  · intro store result ready
    rw [Action.run_bind]
    rcases ran : action.run store with ⟨outcome, middle⟩
    cases outcome with
    | error fault =>
      intro impossible
      cases impossible
    | ok value => exact (follows value).held (ready_next known ready ran)

private theorem unseen_each {f : β → Load α} {items : List β}
    (single : ∀ item ∈ items, Unseen source needs (f item) fun _ => []) :
    Unseen source needs (Action.each f items) fun _ => [] := by
  induction items with
  | nil => exact unseen_pure (List.nil_subset _)
  | cons item rest ih =>
    have later := ih fun other member => single other (List.mem_cons_of_mem _ member)
    refine unseen_bind (single item List.mem_cons_self) fun result => ?_
    exact unseen_bind later fun results => unseen_pure (List.nil_subset _)

/-- Changing the outcome of a computation after it, and nothing else. -/
private theorem unseen_mapped {other : Load β} {later : β → List String}
    (change : Except Fault α → Except Fault β) (known : Unseen source needs action gives)
    (run : ∀ store, other.run store = (change (action.run store).1, (action.run store).2))
    (given : ∀ outcome result, change outcome = .ok result → later result ≠ [] →
      ∃ value, outcome = .ok value ∧ later result ⊆ gives value) :
    Unseen source needs other later := by
  constructor
  · intro store
    rw [run]
    exact known.reads store
  · intro first second readyFirst readySecond
    rw [run, run, known.same readyFirst readySecond]
  · intro first second readyFirst readySecond
    rw [run, run]
    exact known.idle readyFirst readySecond
  · intro store result ready
    rw [run]
    intro changed path member
    obtain ⟨value, ran, included⟩ := given _ result changed (List.ne_nil_of_mem member)
    exact known.held ready ran path (included member)

/-- A computation that does what another does, from every store that is ready. -/
private theorem unseen_congr {other : Load α} (reads : OnlyReads source action)
    (equal : ∀ store, Ready source needs store → action.run store = other.run store)
    (known : Unseen source needs other gives) : Unseen source needs action gives := by
  constructor
  · exact reads
  · intro first second readyFirst readySecond
    rw [equal first readyFirst, equal second readySecond]
    exact known.same readyFirst readySecond
  · intro first second readyFirst readySecond
    rw [equal first readyFirst, equal second readySecond]
    exact known.idle readyFirst readySecond
  · intro store result ready
    rw [equal store ready]
    exact known.held ready

end Combinators

private theorem load_unseen (source : Source) (path : String) :
    Unseen source [] (Store.load source path) fun _ => [path] := by
  have answer {store : Store} (ready : Ready source [] store) :
      ((Store.load source path).run store).1 = source.document (Location.normalize path) := by
    rw [← consistent_fetch ready.consistent]
    exact (load_ran rfl).1
  have held {store : Store} {document : Json}
      (ran : ((Store.load source path).run store).1 = .ok document) :
      Holds ((Store.load source path).run store).2 path :=
    ⟨document, (load_ran rfl).2.2 document ran⟩
  constructor
  · exact load_onlyReads source path
  · intro first second readyFirst readySecond
    rw [answer readyFirst, answer readySecond]
  · intro first second readyFirst readySecond loaded
    simp only [Store.load, Action.run_bind, Action.run_state]
    cases found : second.documents.lookup (Location.normalize path) with
    | some document => rfl
    | none =>
      cases read : source.document (Location.normalize path) with
      | error fault => rfl
      | ok document =>
        -- The first run found the document, so the second store holds it already.
        have known := loaded (holds_iff.mp (held (by rw [answer readyFirst, read])))
        exact absurd known (absent_iff.mp found)
  · intro store document _ ran other member
    cases List.mem_singleton.mp member
    exact held ran

private theorem context_unseen (source : Source) (path : String) :
    Unseen source [] (Store.context source path) fun found => [found.path] := by
  refine unseen_bind (load_unseen source (Location.normalize path)) fun document => ?_
  exact unseen_pure (List.subset_append_left _ _)

private theorem target_unseen {needs : List String} (document : Json) (pointer : String)
    (member : path ∈ needs) :
    Unseen source needs (target? document pointer path) fun found =>
      found.toList.map Context.path := by
  unfold target?
  split
  · exact unseen_fail _
  · exact unseen_pure (List.nil_subset _)
  · exact unseen_pure (List.nil_subset _)
  · exact unseen_pure (List.cons_subset.mpr ⟨member, List.nil_subset _⟩)

/-- The node in which a local pointer starts, told from the files. -/
private def pointerStart (source : Source) (context : Context) : Json :=
  (((source.document (Location.normalize context.path)).toOption).bind Json.present?).getD
    context.schema

private theorem start_ready {context : Context} (ready : Ready source [context.path] store) :
    ((store.cached? context.path).bind Json.present?).getD context.schema =
      pointerStart source context := by
  obtain ⟨document, found⟩ := ready.holds context.path List.mem_cons_self
  have read := consistent_lookup ready.consistent found
  rw [pointerStart, found, read]
  rfl

theorem resolve_unseen (source : Source) (ref : String) (context : Context) :
    Unseen source [context.path] (resolve source ref context) fun found =>
      found.toList.map Context.path := by
  have here : Unseen source [context.path] (pure (some context) : Load (Option Context)) fun found =>
      found.toList.map Context.path := unseen_pure (List.Subset.refl _)
  have reads := resolve_onlyReads source ref context
  unfold resolve at reads ⊢
  simp only at reads ⊢
  split
  · exact here
  · rename_i filled
    split
    · rename_i pointer
      rw [if_neg filled, if_pos pointer] at reads
      refine unseen_congr reads ?_ (target_unseen (pointerStart source context) ref
        List.mem_cons_self)
      intro store ready
      simp only [Action.run_bind, Action.run_state, start_ready ready]
    · split
      · exact here
      · refine unseen_bind (unseen_fewer (context_unseen source _) (List.nil_subset _)) ?_
        intro found
        have known : [found.path] ⊆ [found.path] ++ [context.path] := List.subset_append_left _ _
        split
        · exact target_unseen _ _ (known List.mem_cons_self)
        · exact unseen_pure known

private theorem hop_unseen (source : Source) (ref : Json) (context : Context) (seen : List Key) :
    Unseen source [context.path] (hop? source ref context seen) fun found =>
      found.toList.map (·.1.path) := by
  have nowhere : Unseen source [context.path] (pure none : Load (Option (Context × Key)))
      fun found => found.toList.map (·.1.path) := unseen_pure (List.nil_subset _)
  cases ref with
  | str name =>
    by_cases followed : (context.path, name) ∈ seen
    · rw [hop_followed followed]
      exact nowhere
    · refine unseen_mapped _ (resolve_unseen source name context) (hop_resolved followed) ?_
      intro outcome found changed filled
      cases outcome with
      | ok target =>
        cases changed
        refine ⟨target, rfl, ?_⟩
        cases target <;> exact List.Subset.refl _
      | error fault =>
        simp only [hopOutcome] at changed
        split at changed <;> cases changed
        exact absurd rfl filled
  | _ => exact nowhere

private theorem followFrom_unseen (source : Source) (fuel : Nat) (seen : List Key)
    {current owner : Context} (within : current.path = owner.path) :
    Unseen source [owner.path] (followFrom source fuel seen current owner) fun found =>
      [found.path] := by
  induction fuel generalizing seen current owner with
  | zero => exact unseen_pure (by rw [within]; exact List.Subset.refl _)
  | succ fuel ih =>
    rw [followFrom]
    split
    · exact unseen_pure (by rw [within]; exact List.Subset.refl _)
    · refine unseen_bind (hop_unseen source _ owner seen) fun found => ?_
      cases found with
      | none => exact unseen_pure (by rw [within]; exact List.Subset.refl _)
      | some hop => exact unseen_fewer (ih (hop.2 :: seen) rfl) (List.subset_append_left _ _)

/-- Two runs may be given different bounds, but either would do for both. -/
theorem follow_unseen (source : Source) (node : Json) (context : Context) :
    Unseen source [context.path] (follow source node context) fun found => [found.path] := by
  have unbounded (bound : Nat) : Unseen source [context.path]
      (followFrom source bound [] ⟨node, context.path⟩ context) fun found => [found.path] :=
    followFrom_unseen source bound [] rfl
  have larger (store : Store) {bound : Nat} (enough : hopBound source store node context ≤ bound) :
      (follow source node context).run store =
        (followFrom source bound [] ⟨node, context.path⟩ context).run store :=
    (FollowBound.hopBound_enough source store node context enough).symm
  constructor
  · exact follow_onlyReads source node context
  · intro first second readyFirst readySecond
    rw [larger first (Nat.le_max_left _ (hopBound source second node context)),
      larger second (Nat.le_max_right (hopBound source first node context) _)]
    exact (unbounded _).same readyFirst readySecond
  · intro first second readyFirst readySecond
    rw [larger first (Nat.le_max_left _ (hopBound source second node context)),
      larger second (Nat.le_max_right (hopBound source first node context) _)]
    exact (unbounded _).idle readyFirst readySecond
  · intro store result ready
    rw [larger store (Nat.le_refl _)]
    exact (unbounded _).held ready

private theorem convert_unseen (source : Source) (budget : Nat) (node : Json) (context : Context)
    (seen : List Key) :
    Unseen source [context.path] (convert source budget node context seen) fun _ => [] := by
  induction budget generalizing node context seen with
  | zero => exact unseen_pure (List.nil_subset _)
  | succ budget ih =>
    by_cases leaves : ∃ ref, Shape.ofNode node = .reference ref
    · obtain ⟨ref, shape⟩ := leaves
      simp only [convert, shape]
      refine unseen_bind (hop_unseen source ref context seen) fun found => ?_
      cases found with
      | none => exact unseen_pure (List.nil_subset _)
      | some hop =>
        exact unseen_fewer (ih hop.1.schema hop.1 (hop.2 :: seen)) (List.subset_append_left _ _)
    · have inside : ∀ ref, Shape.ofNode node ≠ .reference ref := fun ref shape =>
        leaves ⟨ref, shape⟩
      rw [convert_structural source budget context seen inside]
      refine unseen_bind (unseen_each fun child _ => ih child context seen) fun types => ?_
      exact unseen_pure (List.nil_subset _)

theorem synthesize_unseen (source : Source) (maxDepth : Int) (node : Json) (context : Context)
    (depth : Int) :
    Unseen source [context.path] (synthesize source maxDepth node context depth) fun _ => [] :=
  convert_unseen source _ node context []

section Compilation

variable {α β : Type}

/-- Apart from its notices, the compilation is this computation on its store. -/
def Mirrors (compile : Compile α) (load : Load α) : Prop :=
  ∀ progress, (compile.run progress).1 = (load.run progress.store).1 ∧
    (compile.run progress).2.store = (load.run progress.store).2

private theorem mirrors_pure (value : α) : Mirrors (pure value) (pure value) :=
  fun _ => ⟨rfl, rfl⟩

private theorem mirrors_onStore (action : Load α) : Mirrors (onStore action) action := by
  intro progress
  refine ⟨?_, rfl⟩
  change (action.run progress.store).1.mapError id = (action.run progress.store).1
  cases (action.run progress.store).1 with
  | error fault => rfl
  | ok value => rfl

private theorem mirrors_bind {action : Compile α} {load : Load α} {next : α → Compile β}
    {follows : α → Load β} (known : Mirrors action load)
    (later : ∀ value, Mirrors (next value) (follows value)) :
    Mirrors (action >>= next) (load >>= follows) := by
  intro progress
  obtain ⟨same, reached⟩ := known progress
  rw [Action.run_bind, Action.run_bind]
  rcases ran : action.run progress with ⟨outcome, middle⟩
  rcases loaded : load.run progress.store with ⟨other, held⟩
  rw [ran, loaded] at same reached
  cases same
  cases reached
  cases outcome with
  | error fault => exact ⟨rfl, rfl⟩
  | ok value => exact later value middle

private theorem mirrors_notice {next : Unit → Compile α} {load : Load α} (line : String)
    (later : Mirrors (next ()) load) : Mirrors (notice line >>= next) load :=
  fun progress => later { progress with notices := progress.notices ++ [line] }

private theorem mirrors_each {f : β → Compile α} {g : β → Load α}
    (single : ∀ item, Mirrors (f item) (g item)) (items : List β) :
    Mirrors (Action.each f items) (Action.each g items) := by
  induction items with
  | nil => exact mirrors_pure []
  | cons item rest ih =>
    refine mirrors_bind (single item) fun value => ?_
    exact mirrors_bind ih fun values => mirrors_pure (value :: values)

/-- The component of a property whose node and type are known. -/
def describe (property : String × Json) (resolved : Json) (type : TypeExpr) : Component :=
  let text? (keyword : String) := (Docs.text? resolved keyword).or (Docs.text? property.2 keyword)
  { name := property.1, type := type, title := text? "title", description := text? "description" }

/-- What a compilation does on its store for one property. -/
def gather (source : Source) (root : Context) (property : String × Json) : Load Component := do
  let resolved ← follow source property.2 root
  let type ← synthesize source defaultDepth resolved.schema resolved 0
  pure (describe property resolved.schema type)

/-- What a compilation does on its store. -/
def gatherAll (source : Source) (rootSchema : String) : Load (List Component) := do
  let root ← Store.context source rootSchema
  Action.each (gather source root) ((declared? root.schema).getD [])

private theorem component_mirrors (source : Source) (root : Context) (property : String × Json) :
    Mirrors (component source root property.1 property.2) (gather source root property) := by
  refine mirrors_bind (mirrors_onStore _) fun resolved => ?_
  refine mirrors_bind (mirrors_onStore _) fun type => ?_
  have done := mirrors_pure (describe property resolved.schema type)
  cases type with
  | unknown => exact mirrors_notice _ done
  | _ => exact done

theorem components_mirrors (source : Source) (rootSchema : String) :
    Mirrors (components source rootSchema) (gatherAll source rootSchema) := by
  refine mirrors_bind (mirrors_onStore _) fun root => ?_
  cases declared? root.schema with
  | none => exact mirrors_notice _ (mirrors_pure [])
  | some properties => exact mirrors_each (component_mirrors source root) properties

private theorem gather_unseen (source : Source) (root : Context) (property : String × Json) :
    Unseen source [root.path] (gather source root property) fun _ => [] := by
  refine unseen_bind (follow_unseen source property.2 root) fun resolved => ?_
  refine unseen_bind (unseen_fewer (synthesize_unseen source _ _ resolved _)
    (List.subset_append_left _ _)) fun type => ?_
  exact unseen_pure (List.nil_subset _)

private theorem gatherAll_unseen (source : Source) (rootSchema : String) :
    Unseen source [] (gatherAll source rootSchema) fun _ => [] := by
  refine unseen_bind (context_unseen source rootSchema) fun root => ?_
  exact unseen_each fun property _ => gather_unseen source root property

/-- Each element of a pass gives, from any store that is ready, what it gave in
the pass. -/
private theorem each_apart {f : β → Load α} {needs : List String} {items : List β}
    {results : List α} {fresh : Store}
    (single : ∀ item ∈ items, Unseen source needs (f item) fun _ => [])
    (ready : Ready source needs before) (other : Ready source needs fresh)
    (ran : (Action.each f items).run before = (.ok results, after)) :
    List.Forall₂ (fun item result => ((f item).run fresh).1 = .ok result) items results := by
  induction items generalizing before results with
  | nil =>
    cases ran
    exact .nil
  | cons item rest ih =>
    have here := single item List.mem_cons_self
    have equal := here.same ready other
    obtain ⟨result, more, middle, rfl, head, others⟩ := Action.each_cons_ran ran
    rw [head] at equal
    have later := ih (fun item member => single item (List.mem_cons_of_mem _ member))
      (ready_next here ready head) others
    exact .cons equal.symm later

/-- A store into which only the root document was loaded. -/
private theorem context_fresh {rootSchema : String} {root : Context}
    (found : ((Store.context source rootSchema).run {}).1 = .ok root) :
    (Store.context source rootSchema).run {} = (.ok root, ⟨[(root.path, root.schema)]⟩) := by
  simp only [Store.context, Store.load, Action.run_bind, Action.run_state, List.lookup_nil,
    Action.run_ofExcept, NormalPath.normalize_settles] at found ⊢
  cases read : source.document (Location.normalize rootSchema) with
  | error fault =>
    rw [read] at found
    cases found
  | ok document =>
    rw [read] at found
    cases found
    rfl

/-- On this store, following the node of a property and converting what it leads
to gives the type of the component. -/
def TypedBy (source : Source) (root : Context) (store : Store) (property : String × Json)
    (component : Component) : Prop :=
  component.name = property.1 ∧ ∃ resolved reached,
    (follow source property.2 root).run store = (.ok resolved, reached) ∧
    ((synthesize source defaultDepth resolved.schema resolved 0).run reached).1 =
      .ok component.type

private theorem gather_typed {root : Context} {property : String × Json} {component : Component}
    (ran : ((gather source root property).run store).1 = .ok component) :
    TypedBy source root store property component := by
  simp only [gather, Action.run_bind] at ran
  rcases followed : (follow source property.2 root).run store with ⟨outcome, middle⟩
  rw [followed] at ran
  cases outcome with
  | error fault => cases ran
  | ok resolved =>
    simp only at ran
    rcases typed : (synthesize source defaultDepth resolved.schema resolved 0).run middle with
      ⟨answer, reached⟩
    rw [typed] at ran
    cases answer with
    | error fault => cases ran
    | ok type =>
      cases ran
      exact ⟨rfl, resolved, middle, followed, by rw [typed]; rfl⟩

/-- Gathering once more finds the same, with all documents there already. -/
private theorem gatherAll_again {rootSchema : String} {found : List Component}
    (consistent : Consistent source before)
    (ran : (gatherAll source rootSchema).run before = (.ok found, after)) :
    (gatherAll source rootSchema).run after = (.ok found, after) := by
  have known := gatherAll_unseen source rootSchema
  have ready : Ready source [] before := ⟨consistent, by simp⟩
  have later : Ready source [] after := by
    have reads := known.reads before
    rw [ran] at reads
    exact ready_later ready reads
  have same := known.same ready later
  have idle := known.idle ready later
  rw [ran] at same idle
  exact Prod.ext same.symm (idle (List.Subset.refl _))

/-- What was gathered for each property is what any store that holds the root
document gives for it. -/
theorem gatherAll_typed {rootSchema : String} {found : List Component}
    (consistent : Consistent source before)
    (ran : (gatherAll source rootSchema).run before = (.ok found, after)) :
    ∃ root opened, (Store.context source rootSchema).run before = (.ok root, opened) ∧
      Ready source [root.path] opened ∧
      ∀ fresh, Ready source [root.path] fresh →
        List.Forall₂ (TypedBy source root fresh) ((declared? root.schema).getD []) found := by
  have ready : Ready source [] before := ⟨consistent, by simp⟩
  obtain ⟨root, opened, opening, each⟩ := Action.bind_ran ran
  have readyRoot := ready_next (context_unseen source rootSchema) ready opening
  refine ⟨root, opened, opening, readyRoot, fun fresh other => ?_⟩
  have gathered := each_apart (fun property _ => gather_unseen source root property)
    readyRoot other each
  exact gathered.imp fun property component => gather_typed

/-- What was gathered for each property is what a store with the root document
alone gives for it. -/
private theorem gatherAll_apart {rootSchema : String} {found : List Component}
    (consistent : Consistent source before)
    (ran : (gatherAll source rootSchema).run before = (.ok found, after)) :
    ∃ root fresh, (Store.context source rootSchema).run {} = (.ok root, fresh) ∧
      fresh.documents = [(root.path, root.schema)] ∧
      List.Forall₂ (TypedBy source root fresh) ((declared? root.schema).getD []) found := by
  have known := context_unseen source rootSchema
  have ready : Ready source [] before := ⟨consistent, by simp⟩
  have empty : Ready source [] {} := by
    refine ⟨?_, by simp⟩
    intro key document member
    cases member
  obtain ⟨root, opened, opening, _, typed⟩ := gatherAll_typed consistent ran
  have same := known.same ready empty
  rw [opening] at same
  have fresh := context_fresh same.symm
  exact ⟨root, _, fresh, rfl, typed _ (ready_next known empty fresh)⟩

end Compilation

/-- From both stores the computation has the same outcome, and it leaves both of
them consistent. -/
def Indistinct {α : Type} (source : Source) (first second : Store) (action : Load α) : Prop :=
  (action.run first).1 = (action.run second).1 ∧
    Consistent source (action.run first).2 ∧ Consistent source (action.run second).2

private theorem unseen_indistinct {α : Type} {needs : List String} {action : Load α}
    {gives : α → List String} {first second : Store} (known : Unseen source needs action gives)
    (readyFirst : Ready source needs first) (readySecond : Ready source needs second) :
    Indistinct source first second action :=
  ⟨known.same readyFirst readySecond, (ready_later readyFirst (known.reads first)).consistent,
    (ready_later readySecond (known.reads second)).consistent⟩

/-- **Memoisation is unobservable.** Resolving a reference, following a node and
converting one have the same outcome from any two consistent stores that hold
the document of the context, and leave consistent stores. After a compilation
has found its components, finding them again gives the same ones and loads
nothing; and each has the type that its property has on a store into which only
the root document was loaded. -/
theorem memoisation_unobservable (source : Source) :
    (∀ first second context, Consistent source first → Consistent source second →
      Holds first context.path → Holds second context.path →
      (∀ ref, Indistinct source first second (resolve source ref context)) ∧
      (∀ node, Indistinct source first second (follow source node context)) ∧
      ∀ maxDepth node depth,
        Indistinct source first second (synthesize source maxDepth node context depth)) ∧
    ∀ rootSchema before found after, Consistent source before.store →
      (components source rootSchema).run before = (.ok found, after) →
      (∃ again, (components source rootSchema).run after = (.ok found, again) ∧
        again.store = after.store) ∧
      ∃ root fresh, (Store.context source rootSchema).run {} = (.ok root, fresh) ∧
        fresh.documents = [(root.path, root.schema)] ∧
        List.Forall₂ (TypedBy source root fresh) ((declared? root.schema).getD []) found := by
  constructor
  · intro first second context consistentFirst consistentSecond holdsFirst holdsSecond
    have readyFirst : Ready source [context.path] first :=
      ⟨consistentFirst, by simpa using holdsFirst⟩
    have readySecond : Ready source [context.path] second :=
      ⟨consistentSecond, by simpa using holdsSecond⟩
    refine ⟨?_, ?_, ?_⟩
    · intro ref
      exact unseen_indistinct (resolve_unseen source ref context) readyFirst readySecond
    · intro node
      exact unseen_indistinct (follow_unseen source node context) readyFirst readySecond
    · intro maxDepth node depth
      exact unseen_indistinct (synthesize_unseen source maxDepth node context depth) readyFirst
        readySecond
  · intro rootSchema before found after consistent ran
    have mirrors := components_mirrors source rootSchema
    have gathered : (gatherAll source rootSchema).run before.store = (.ok found, after.store) := by
      obtain ⟨same, reached⟩ := mirrors before
      rw [ran] at same reached
      exact Prod.ext same.symm reached.symm
    refine ⟨?_, gatherAll_apart consistent gathered⟩
    obtain ⟨same, reached⟩ := mirrors after
    rw [gatherAll_again consistent gathered] at same reached
    exact ⟨_, Prod.ext same rfl, reached⟩

/-- A root schema with one property, whose type stands in another file. -/
def entity : Json := .obj [("properties", .obj [("name", .obj [("$ref", .str "t")])])]

/-- The other file. -/
def text : Json := .obj [("type", .str "string")]

/-- A file that holds a line of basic characters. -/
def fileOf (line : String) : Disk.Entry :=
  .file ⟨(line.toList.map fun c => UInt8.ofNat c.toNat).toArray⟩

/-- A disk with the two files. -/
def twoFiles : Source :=
  { disk :=
      { entries :=
          [(["e"], fileOf "\x7b\"properties\":\x7b\"name\":\x7b\"$ref\":\"t\"\x7d\x7d\x7d"),
           (["t"], fileOf "\x7b\"type\":\"string\"\x7d")] }
    root := ⟨1, []⟩ }

/-- Whether the other file is loaded already makes no difference to the type of
the property, and a second compilation finds the same component. -/
theorem memoisation_unobservable_two_files :
    Indistinct twoFiles ⟨[("e", entity)]⟩ ⟨[("t", text), ("e", entity)]⟩
        (synthesize twoFiles 20 (.obj [("$ref", .str "t")]) ⟨entity, "e"⟩ 0) ∧
      ∃ again, (components twoFiles "e").run ⟨⟨[("e", entity), ("t", text)]⟩, []⟩ =
          (.ok [⟨"name", .primitive "string", none, none⟩], again) ∧
        again.store = ⟨[("e", entity), ("t", text)]⟩ := by
  have entityRead : twoFiles.document "e" = .ok entity := by cbv
  have textRead : twoFiles.document "t" = .ok text := by cbv
  have both : Consistent twoFiles ⟨[("t", text), ("e", entity)]⟩ := by
    intro key document member
    simp only [List.mem_cons, Prod.mk.injEq, List.not_mem_nil, or_false] at member
    rcases member with ⟨rfl, rfl⟩ | ⟨rfl, rfl⟩
    · exact textRead
    · exact entityRead
  have single : Consistent twoFiles ⟨[("e", entity)]⟩ :=
    fun key document member => both key document (List.mem_cons_of_mem _ member)
  obtain ⟨blind, compiled⟩ := memoisation_unobservable twoFiles
  constructor
  · exact (blind _ _ ⟨entity, "e"⟩ single both ⟨entity, rfl⟩ ⟨entity, rfl⟩).2.2 20 _ 0
  · refine (compiled "e" {} _ _ ?_ ?_).1
    · intro key document member
      cases member
    · cbv

end EntitySchema.Memoisation
