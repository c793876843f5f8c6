import EntitySchema.Proofs.Memoisation

/-! A compilation depends on nothing but the documents it loads. Nothing that it
does goes on after a file could not be read, so whatever it asks for on the way
to a result is loaded in the end; on another disk where those files read the
same, it asks for the same ones and takes the same way. This is proved for each
operation, as what a run on one disk lets one say of the run on the other, and
carried up to the module text and the notices. -/
namespace EntitySchema.Dependence
open Reference Synthesis Compilation StoreView Loading

variable {first second : Source}

/-- The file at a path below the root reads the same from both sources. -/
def Agrees (first second : Source) (path : String) : Prop :=
  first.disk.read (first.root.child path) = second.disk.read (second.root.child path)

private theorem document_agrees {key : String} (same : Agrees first second key) :
    first.document key = second.document key := by
  unfold Agrees at same
  unfold Source.document
  rw [same]

/-- The outcome does not come from a document that cannot be read: it is a
result, or a reference that leads nowhere. -/
def Completed {α : Type} (outcome : Except Fault α) : Prop :=
  ∀ fault, outcome = .error fault → fault.isReferenceFault = true

private theorem document_completed {source : Source} {key : String} {fault : Fault}
    (read : source.document key = .error fault) :
    ¬ Completed (.error fault : Except Fault Json) := by
  intro completed
  have genuine : fault.isReferenceFault = false :=
    fetch_fault (show fetch source {} key = .error fault from read)
  rw [completed fault rfl] at genuine
  cases genuine

section Combinators

variable {σ α β : Type} {held : σ → Store}

/-- A completed run on the first source is repeated on the second one, step by
step, if both agree on all paths that are loaded at its end. What is loaded on
the way stays loaded. -/
structure Replays (held : σ → Store) (first second : Source)
    (action : Source → Action σ Fault α) : Prop where
  kept (state : σ) : (held state).paths ⊆ (held ((action first).run state).2).paths
  again {state reached : σ} {outcome : Except Fault α} :
    (action first).run state = (outcome, reached) → Completed outcome →
    (∀ path ∈ (held reached).paths, Agrees first second path) →
    (action second).run state = (outcome, reached)

/-- A computation that does not look at the source. -/
private theorem replays_blind {action : Action σ Fault α}
    (kept : ∀ state, (held state).paths ⊆ (held (action.run state).2).paths) :
    Replays held first second fun _ => action :=
  ⟨kept, fun ran _ _ => ran⟩

private theorem replays_pure (value : α) : Replays held first second fun _ => pure value :=
  replays_blind fun _ => List.Subset.refl _

private theorem replays_bind {action : Source → Action σ Fault α}
    {next : Source → α → Action σ Fault β} (known : Replays held first second action)
    (later : ∀ value, Replays held first second fun source => next source value) :
    Replays held first second fun source => action source >>= next source := by
  constructor
  · intro state
    rw [Action.run_bind]
    have early := known.kept state
    rcases ran : (action first).run state with ⟨outcome, middle⟩
    rw [ran] at early
    cases outcome with
    | error fault => exact early
    | ok value => exact List.Subset.trans early ((later value).kept middle)
  · intro state reached outcome ran completed agree
    rw [Action.run_bind] at ran ⊢
    rcases early : (action first).run state with ⟨answer, middle⟩
    rw [early] at ran
    cases answer with
    | error fault =>
      cases ran
      have same : Completed (.error fault : Except Fault α) := by
        rintro other ⟨⟩
        exact completed fault rfl
      rw [known.again early same agree]
    | ok value =>
      -- What the first part loaded is still loaded at the end.
      have loaded : (held middle).paths ⊆ (held reached).paths := by
        have more := (later value).kept middle
        rw [show (next first value).run middle = _ from ran] at more
        exact more
      have same : Completed (.ok value : Except Fault α) := by
        rintro fault ⟨⟩
      rw [known.again early same fun path member => agree path (loaded member)]
      exact (later value).again ran completed agree

private theorem replays_each {f : Source → β → Action σ Fault α} {items : List β}
    (single : ∀ item ∈ items, Replays held first second fun source => f source item) :
    Replays held first second fun source => Action.each (f source) items := by
  induction items with
  | nil => exact replays_pure []
  | cons item rest ih =>
    have others := ih fun other member => single other (List.mem_cons_of_mem _ member)
    refine replays_bind (single item List.mem_cons_self) fun value => ?_
    exact replays_bind others fun values => replays_pure (value :: values)

end Combinators

/-- A computation on the store alone that is repeated. -/
abbrev LoadReplays {α : Type} (first second : Source) (action : Source → Load α) : Prop :=
  Replays id first second action

private theorem reads_loaded {α : Type} {source : Source} {action : Load α}
    (reads : OnlyReads source action) (store : Store) :
    store.paths ⊆ (action.run store).2.paths :=
  ((reads_kept (reads store)).map Prod.fst).subset

private theorem load_replays (path : String) :
    LoadReplays first second fun source => Store.load source path := by
  refine ⟨reads_loaded (load_onlyReads first path), ?_⟩
  intro state reached outcome ran completed agree
  simp only [Store.load, Action.run_bind, Action.run_state] at ran ⊢
  cases found : state.documents.lookup (Location.normalize path) with
  | some document =>
    rw [found] at ran
    exact ran
  | none =>
    simp only [found, Action.run_bind, Action.run_ofExcept] at ran ⊢
    cases read : first.document (Location.normalize path) with
    | error fault =>
      rw [read] at ran
      cases ran
      exact absurd completed (document_completed read)
    | ok document =>
      rw [read] at ran
      cases ran
      have loaded : Location.normalize path ∈
          (Store.add (Location.normalize path) document state).paths := by
        simp [Store.paths, Store.add]
      rw [← document_agrees (agree _ loaded), read]
      rfl

private theorem context_replays (path : String) :
    LoadReplays first second fun source => Store.context source path :=
  replays_bind (load_replays (Location.normalize path)) fun _ => replays_pure _

private theorem target_replays (document : Json) (pointer path : String) :
    LoadReplays first second fun _ => target? document pointer path := by
  unfold target?
  split <;> exact replays_blind fun _ => List.Subset.refl _

private theorem resolve_replays (ref : String) (context : Context) :
    LoadReplays first second fun source => resolve source ref context := by
  unfold resolve
  simp only
  split
  · exact replays_pure _
  · split
    · exact replays_bind (replays_blind fun _ => List.Subset.refl _) fun _ =>
        target_replays _ _ _
    · split
      · exact replays_pure _
      · refine replays_bind (context_replays _) fun found => ?_
        split
        · exact target_replays _ _ _
        · exact replays_pure _

private theorem hop_replays (ref : Json) (context : Context) (seen : List Key) :
    LoadReplays first second fun source => hop? source ref context seen := by
  refine ⟨reads_loaded (hop_onlyReads first ref context seen), ?_⟩
  intro state reached outcome ran completed agree
  cases ref with
  | str name =>
    by_cases followed : (context.path, name) ∈ seen
    · rw [hop_followed followed] at ran ⊢
      exact ran
    · rw [hop_resolved followed] at ran ⊢
      rcases resolved : (resolve first name context).run state with ⟨answer, middle⟩
      rw [resolved] at ran
      cases ran
      have same : Completed answer := by
        rintro fault rfl
        by_contra genuine
        refine genuine (completed fault ?_)
        simp only [hopOutcome, genuine, ↓reduceIte]
      rw [(resolve_replays name context).again resolved same agree]
  | _ => exact ran

private theorem followFrom_replays (fuel : Nat) (seen : List Key) (current owner : Context) :
    LoadReplays first second fun source => followFrom source fuel seen current owner := by
  induction fuel generalizing seen current owner with
  | zero => exact replays_pure current
  | succ fuel ih =>
    unfold followFrom
    split
    · exact replays_pure current
    · refine replays_bind (hop_replays _ owner seen) fun found => ?_
      cases found with
      | none => exact replays_pure current
      | some hop => exact ih _ _ _

/-- The bounds on the hops differ, but the larger one would do for both. -/
private theorem follow_replays (node : Json) (context : Context) :
    LoadReplays first second fun source => follow source node context := by
  refine ⟨reads_loaded (follow_onlyReads first node context), ?_⟩
  intro state reached outcome ran completed agree
  have one := FollowBound.hopBound_enough first state node context
    (Nat.le_max_left _ (hopBound second state node context))
  have other := FollowBound.hopBound_enough second state node context
    (Nat.le_max_right (hopBound first state node context) _)
  rw [← one] at ran
  rw [← other]
  exact (followFrom_replays _ [] _ context).again ran completed agree

private theorem convert_replays (budget : Nat) (node : Json) (context : Context)
    (seen : List Key) :
    LoadReplays first second fun source => convert source budget node context seen := by
  induction budget generalizing node context seen with
  | zero => exact replays_pure TypeExpr.unknown
  | succ budget ih =>
    by_cases leaves : ∃ ref, Shape.ofNode node = .reference ref
    · obtain ⟨ref, shape⟩ := leaves
      simp only [convert, shape]
      refine replays_bind (hop_replays ref context seen) fun found => ?_
      cases found with
      | none => exact replays_pure TypeExpr.unknown
      | some hop => exact ih _ _ _
    · have inside : ∀ ref, Shape.ofNode node ≠ .reference ref := fun ref shape =>
        leaves ⟨ref, shape⟩
      simp only [convert_structural _ budget context seen inside]
      exact replays_bind (replays_each fun child _ => ih child context seen) fun _ =>
        replays_pure _

/-- A step of a compilation that is repeated, notices included. -/
abbrev CompileReplays {α : Type} (first second : Source) (action : Source → Compile α) : Prop :=
  Replays Progress.store first second action

private theorem onStore_replays {α : Type} {action : Source → Load α}
    (known : LoadReplays first second action) :
    CompileReplays first second fun source => onStore (action source) := by
  constructor
  · intro progress
    rw [run_onStore]
    exact known.kept progress.store
  · intro progress reached outcome ran completed agree
    rw [run_onStore] at ran ⊢
    rcases loaded : (action first).run progress.store with ⟨answer, store⟩
    rw [loaded] at ran
    cases ran
    rw [known.again loaded completed agree]

private theorem component_replays (root : Context) (property : String × Json) :
    CompileReplays first second fun source => component source root property.1 property.2 := by
  unfold component
  refine replays_bind (onStore_replays (follow_replays property.2 root)) fun resolved => ?_
  refine replays_bind (onStore_replays (convert_replays _ resolved.schema resolved []))
    fun type => ?_
  refine replays_blind fun progress => ?_
  cases type <;> exact List.Subset.refl _

private theorem components_replays (rootSchema : String) :
    CompileReplays first second fun source => components source rootSchema := by
  unfold components
  refine replays_bind (onStore_replays (context_replays rootSchema)) fun root => ?_
  cases declared? root.schema with
  | none => exact replays_blind fun _ => List.Subset.refl _
  | some properties => exact replays_each fun property _ => component_replays root property

/-- **A compilation depends only on the documents it loads.** When it succeeds,
and another source has the same files at the paths that were loaded, it succeeds
there with the same text, the same notices and the same documents in the same
order, whatever else is in the two sources. -/
theorem compile_determined {first second : Source} {rootSchema text : String}
    {target : TypeModule} {before after : Progress}
    (compiled : (compile first rootSchema target).run before = (.ok text, after))
    (agree : ∀ path ∈ after.store.paths, Agrees first second path) :
    (compile second rootSchema target).run before = (.ok text, after) := by
  have replays : CompileReplays first second fun source => compile source rootSchema target :=
    replays_bind (components_replays rootSchema) fun _ => replays_pure _
  refine replays.again compiled ?_ agree
  rintro fault ⟨⟩

/-- A root schema that refers to another file has one component. -/
theorem twoFiles_found :
    (components Memoisation.twoFiles "e").run {} =
      (.ok [⟨"name", .primitive "string", none, none⟩],
        ⟨⟨[("e", Memoisation.entity), ("t", Memoisation.text)]⟩, []⟩) := by
  cbv

/-- The two files in a directory of another disk, next to a third one that is no
document. -/
def elsewhere : Source :=
  { disk :=
      { entries :=
          (["s"], .directory) :: (["s", "u"], .file ⟨#[0]⟩) ::
            Memoisation.twoFiles.disk.entries.map fun entry => ("s" :: entry.1, entry.2) }
    root := ⟨1, ["s"]⟩ }

/-- The root schema compiles to the same module there. -/
theorem compile_determined_elsewhere :
    ∃ text after, (compile Memoisation.twoFiles "e" {}).run {} = (.ok text, after) ∧
      after.store.paths = ["e", "t"] ∧ (compile elsewhere "e" {}).run {} = (.ok text, after) := by
  have compiled : (compile Memoisation.twoFiles "e" {}).run {} =
      (.ok (TypeModule.render {} [⟨"name", .primitive "string", none, none⟩]),
        ⟨⟨[("e", Memoisation.entity), ("t", Memoisation.text)]⟩, []⟩) := by
    rw [run_compile, twoFiles_found]
    rfl
  have root : Agrees Memoisation.twoFiles elsewhere "e" := by cbv
  have other : Agrees Memoisation.twoFiles elsewhere "t" := by cbv
  refine ⟨_, _, compiled, rfl, compile_determined compiled ?_⟩
  intro path member
  simp only [Store.paths, List.map_cons, List.map_nil, List.mem_cons, List.not_mem_nil,
    or_false] at member
  rcases member with rfl | rfl
  · exact root
  · exact other

end EntitySchema.Dependence
