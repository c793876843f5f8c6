import EntitySchema.Proofs.NormalPath
import EntitySchema.Proofs.StoreView

/-! What a computation can do to the store: read documents one after another
and nothing else. Each time the path is normal, the store has no document at
it, and the source has one, which goes to the end. This is proved once for
loading and carried through every operation that loads, whether it ends in a
result or a fault; what is kept along a run follows from the single read. -/
namespace EntitySchema.Loading
open Reference Synthesis StoreView

variable {source : Source} {before middle after : Store} {key : String} {document : Json}

/-- Documents were read one after another, and nothing else was done. -/
inductive Reads (source : Source) : Store → Store → Prop where
  | none (store : Store) : Reads source store store
  | next {before after : Store} {key : String} {document : Json}
      (normal : Location.normalize key = key)
      (absent : before.documents.lookup key = .none)
      (found : source.document key = .ok document)
      (rest : Reads source (Store.add key document before) after) : Reads source before after

theorem reads_trans (early : Reads source before middle) (late : Reads source middle after) :
    Reads source before after := by
  induction early with
  | none store => exact late
  | next normal absent found _ ih => exact .next normal absent found (ih late)

theorem mem_paths : key ∈ before.paths ↔ ∃ document, (key, document) ∈ before.documents := by
  simp [Store.paths]

theorem absent_iff : before.documents.lookup key = none ↔ key ∉ before.paths := by
  rw [List.lookup_eq_none_iff, mem_paths, not_exists]
  constructor
  · intro absent document member
    simpa using absent _ member
  · intro absent entry member
    refine bne_iff_ne.mpr ?_
    rintro rfl
    exact absent entry.2 member

private theorem paths_add : (Store.add key document before).paths = before.paths ++ [key] := by
  simp [Store.paths, Store.add]

/-- What was in the store stays where it is. -/
theorem reads_kept (reads : Reads source before after) :
    before.documents <+: after.documents := by
  induction reads with
  | none store => exact List.prefix_refl _
  | next _ _ _ _ ih => exact (List.prefix_append _ _).trans ih

/-- A document that was not in the store before is the one its file holds, under
a normal path of its own. -/
theorem reads_added (reads : Reads source before after) (member : (key, document) ∈ after.documents)
    (fresh : (key, document) ∉ before.documents) :
    Location.normalize key = key ∧ key ∉ before.paths ∧ source.document key = .ok document := by
  induction reads with
  | none store => exact absurd member fresh
  | @next before after other held normal absent found rest ih =>
    by_cases added : (key, document) ∈ (Store.add other held before).documents
    · rcases List.mem_append.mp added with earlier | new
      · exact absurd earlier fresh
      · cases List.mem_singleton.mp new
        exact ⟨normal, absent_iff.mp absent, found⟩
    · obtain ⟨normalKey, outside, read⟩ := ih member added
      rw [paths_add] at outside
      exact ⟨normalKey, fun inside => outside (List.mem_append_left _ inside), read⟩

theorem reads_distinct (reads : Reads source before after) (distinct : before.paths.Nodup) :
    after.paths.Nodup := by
  induction reads with
  | none store => exact distinct
  | next _ absent _ _ ih =>
    apply ih
    rw [paths_add]
    apply List.nodup_append.mpr
    refine ⟨distinct, by simp, ?_⟩
    intro earlier member other new
    rw [List.mem_singleton] at new
    subst new
    rintro rfl
    exact absent_iff.mp absent member

/-- A path without a readable document gains no entry. -/
theorem reads_refused (reads : Reads source before after) {fault : Fault}
    (refused : source.document key = .error fault) (absent : key ∉ before.paths) :
    key ∉ after.paths := by
  intro gained
  obtain ⟨document, member⟩ := mem_paths.mp gained
  have fresh : (key, document) ∉ before.documents := fun earlier =>
    absent (mem_paths.mpr ⟨document, earlier⟩)
  obtain ⟨_, _, read⟩ := reads_added reads member fresh
  rw [refused] at read
  cases read

/-- From every store, the computation reads documents and does nothing else. -/
def OnlyReads {α : Type} (source : Source) (action : Load α) : Prop :=
  ∀ before, Reads source before (action.run before).2

section Combinators

variable {α β : Type} {action : Load α}

theorem onlyReads_pure (value : α) : OnlyReads source (pure value : Load α) :=
  fun before => .none before

theorem onlyReads_fail (fault : Fault) : OnlyReads source (Action.fail fault : Load α) :=
  fun before => .none before

theorem onlyReads_bind {next : α → Load β} (first : OnlyReads source action)
    (second : ∀ value, OnlyReads source (next value)) : OnlyReads source (action >>= next) := by
  intro before
  rw [Action.run_bind]
  have early := first before
  rcases ran : action.run before with ⟨outcome, middle⟩
  rw [ran] at early
  cases outcome with
  | error fault => exact early
  | ok value => exact reads_trans early (second value middle)

theorem onlyReads_orElse {handle : Fault → Load α} (first : OnlyReads source action)
    (second : ∀ fault, OnlyReads source (handle fault)) :
    OnlyReads source (action.orElse handle) := by
  intro before
  rw [Action.run_orElse]
  have early := first before
  rcases ran : action.run before with ⟨outcome, middle⟩
  rw [ran] at early
  cases outcome with
  | error fault => exact reads_trans early (second fault middle)
  | ok value => exact early

theorem onlyReads_each {f : β → Load α} {items : List β}
    (single : ∀ item ∈ items, OnlyReads source (f item)) :
    OnlyReads source (Action.each f items) := by
  induction items with
  | nil => exact onlyReads_pure []
  | cons item rest ih =>
    refine onlyReads_bind (single item List.mem_cons_self) fun value => ?_
    refine onlyReads_bind (ih ?_) fun values => onlyReads_pure (value :: values)
    intro other member
    exact single other (List.mem_cons_of_mem _ member)

end Combinators

theorem load_onlyReads (source : Source) (path : String) :
    OnlyReads source (Store.load source path) := by
  intro before
  simp only [Store.load, Action.run_bind, Action.run_state]
  cases held : before.documents.lookup (Location.normalize path) with
  | some document => exact .none before
  | none =>
    simp only [Action.run_bind, Action.run_ofExcept]
    cases read : source.document (Location.normalize path) with
    | error fault => exact .none before
    | ok document => exact .next (NormalPath.normalize_settles path) held read (.none _)

theorem context_onlyReads (source : Source) (path : String) :
    OnlyReads source (Store.context source path) :=
  onlyReads_bind (load_onlyReads source _) fun _ => onlyReads_pure _

theorem target_onlyReads (document : Json) (pointer path : String) :
    OnlyReads source (target? document pointer path) := by
  unfold target?
  split
  · exact onlyReads_fail _
  · exact onlyReads_pure _
  · exact onlyReads_pure _
  · exact onlyReads_pure _

theorem resolve_onlyReads (source : Source) (ref : String) (context : Context) :
    OnlyReads source (resolve source ref context) := by
  unfold resolve
  simp only
  split
  · exact onlyReads_pure _
  · split
    · exact onlyReads_bind (fun before => .none before) fun _ => target_onlyReads _ _ _
    · split
      · exact onlyReads_pure _
      · refine onlyReads_bind (context_onlyReads source _) fun found => ?_
        split
        · exact target_onlyReads _ _ _
        · exact onlyReads_pure _

theorem step_onlyReads (source : Source) (ref : Json) (context : Context) (seen : List Key) :
    OnlyReads source (step source ref context seen) := by
  cases ref with
  | str name =>
    simp only [step]
    split
    · exact onlyReads_fail _
    · refine onlyReads_bind (resolve_onlyReads source name context) fun found => ?_
      cases found with
      | none => exact onlyReads_fail _
      | some target => exact onlyReads_pure _
  | _ => exact onlyReads_fail _

theorem hop_onlyReads (source : Source) (ref : Json) (context : Context) (seen : List Key) :
    OnlyReads source (hop? source ref context seen) := by
  unfold hop?
  rw [map_eq_pure_bind]
  refine onlyReads_orElse ?_ fun fault => ?_
  · exact onlyReads_bind (step_onlyReads source ref context seen) fun _ => onlyReads_pure _
  · split
    · exact onlyReads_pure _
    · exact onlyReads_fail _

theorem followFrom_onlyReads (source : Source) (fuel : Nat) (seen : List Key)
    (current owner : Context) : OnlyReads source (followFrom source fuel seen current owner) := by
  induction fuel generalizing seen current owner with
  | zero => exact onlyReads_pure _
  | succ fuel ih =>
    rw [followFrom]
    split
    · exact onlyReads_pure _
    · refine onlyReads_bind (hop_onlyReads source _ owner seen) fun found => ?_
      cases found with
      | none => exact onlyReads_pure _
      | some hop => exact ih _ _ _

theorem follow_onlyReads (source : Source) (node : Json) (context : Context) :
    OnlyReads source (follow source node context) :=
  onlyReads_bind (fun before => .none before) fun _ => followFrom_onlyReads source _ _ _ _

theorem convert_onlyReads (source : Source) (budget : Nat) (node : Json) (context : Context)
    (seen : List Key) : OnlyReads source (convert source budget node context seen) := by
  induction budget generalizing node context seen with
  | zero => exact onlyReads_pure _
  | succ budget ih =>
    by_cases leaves : ∃ ref, Shape.ofNode node = .reference ref
    · obtain ⟨ref, shape⟩ := leaves
      simp only [convert, shape]
      refine onlyReads_bind (hop_onlyReads source ref context seen) fun found => ?_
      cases found with
      | none => exact onlyReads_pure _
      | some hop => exact ih _ _ _
    · have inside : ∀ ref, Shape.ofNode node ≠ .reference ref := fun ref shape =>
        leaves ⟨ref, shape⟩
      rw [convert_structural source budget context seen inside]
      exact onlyReads_bind (onlyReads_each fun child _ => ih child context seen) fun _ =>
        onlyReads_pure _

end EntitySchema.Loading
