import EntitySchema.Proofs.Loading
import EntitySchema.Proofs.SourcePaths
import Mathlib.Data.List.Induction

/-! A store over its whole life. Between the calls on it, files may be written
and deleted in any way, and a call may load several documents before it fails.
Whatever happens, the store is an append-only memo: documents are added at the
end under distinct normal paths and never change, and each is what its file
held at the moment it was added. -/
namespace EntitySchema.StoreHistory
open Reference Synthesis Loading

variable {source : Source} {key : String} {document : Json}

/-- A call on a store. Its contexts, nodes and followed references are whatever
the caller has, made by this store or not. -/
inductive Call where
  | load (path : String)
  | context (path : String)
  | cached (path : String)
  | resolve (ref : String) (context : Context)
  | step (ref : Json) (context : Context) (seen : List Key)
  | follow (node : Json) (context : Context)
  | synthesize (maxDepth : Int) (node : Json) (context : Context) (depth : Int)

/-- The store that a call reaches, whether it succeeds or fails. Looking a
document up changes nothing. -/
def Call.reached (source : Source) (store : Store) : Call → Store
  | .load path => ((Store.load source path).run store).2
  | .context path => ((Store.context source path).run store).2
  | .cached _ => store
  | .resolve ref holder => ((Reference.resolve source ref holder).run store).2
  | .step ref holder seen => ((Reference.step source ref holder seen).run store).2
  | .follow node holder => ((Reference.follow source node holder).run store).2
  | .synthesize maxDepth node holder depth =>
    ((Synthesis.synthesize source maxDepth node holder depth).run store).2

/-- What may happen next: a call, or a change of files that leaves the disk in
whatever state. -/
inductive Operation where
  | call (call : Call)
  | files (disk : Disk)

/-- A store and where its documents come from at the time. -/
structure Session where
  source : Source
  store : Store := {}

namespace Session

/-- The session after an operation. -/
def after (session : Session) : Operation → Session
  | .call call => { session with store := call.reached session.source session.store }
  | .files disk => { session with source := { session.source with disk := disk } }

/-- The session after several operations. -/
def afterAll (session : Session) (operations : List Operation) : Session :=
  operations.foldl after session

theorem afterAll_concat (session : Session) (operations : List Operation) (last : Operation) :
    session.afterAll (operations ++ [last]) = (session.afterAll operations).after last := by
  simp [afterAll]

end Session

private theorem call_reads (source : Source) (store : Store) (call : Call) :
    Reads source store (call.reached source store) := by
  cases call with
  | load path => exact load_onlyReads source path store
  | context path => exact context_onlyReads source path store
  | cached path => exact .none store
  | resolve ref context => exact resolve_onlyReads source ref context store
  | step ref context seen => exact step_onlyReads source ref context seen store
  | follow node context => exact follow_onlyReads source node context store
  | synthesize maxDepth node context depth =>
    exact convert_onlyReads source (budgetAt maxDepth depth) node context [] store

/-- An operation reads documents into the store, from the files as they are. -/
theorem after_reads (session : Session) (operation : Operation) :
    Reads session.source session.store (session.after operation).store := by
  cases operation with
  | call call => exact call_reads session.source session.store call
  | files disk => exact .none _

theorem after_root (session : Session) (operation : Operation) :
    (session.after operation).source.root = session.source.root := by
  cases operation <;> rfl

/-- The keys of a store: pairwise distinct, each in its one spelling. -/
structure Keyed (store : Store) : Prop where
  distinct : store.paths.Nodup
  normal : ∀ key ∈ store.paths, Location.normalize key = key

private theorem keyed_after {session : Session} (keyed : Keyed session.store)
    (operation : Operation) : Keyed (session.after operation).store := by
  have reads := after_reads session operation
  refine ⟨reads_distinct reads keyed.distinct, ?_⟩
  intro key member
  obtain ⟨document, stored⟩ := mem_paths.mp member
  by_cases earlier : (key, document) ∈ session.store.documents
  · exact keyed.normal key (mem_paths.mpr ⟨document, earlier⟩)
  · exact (reads_added reads stored earlier).1

theorem keyed_afterAll (source : Source) (operations : List Operation) :
    Keyed (Session.afterAll ⟨source, {}⟩ operations).store := by
  induction operations using List.reverseRecOn with
  | nil => exact ⟨List.nodup_nil, by simp [Session.afterAll, Store.paths]⟩
  | append_singleton past operation ih =>
    rw [Session.afterAll_concat]
    exact keyed_after ih operation

theorem afterAll_root (source : Source) (operations : List Operation) :
    (Session.afterAll ⟨source, {}⟩ operations).source.root = source.root := by
  induction operations using List.reverseRecOn with
  | nil => rfl
  | append_singleton past operation ih => rw [Session.afterAll_concat, after_root, ih]

/-- Documents stay in front, whatever happens afterwards. -/
theorem afterAll_kept (session : Session) (operations : List Operation) :
    session.store.documents <+: (session.afterAll operations).store.documents := by
  induction operations using List.reverseRecOn with
  | nil => exact List.prefix_refl _
  | append_singleton past operation ih =>
    rw [Session.afterAll_concat]
    exact ih.trans (reads_kept (after_reads _ operation))

/-- At some moment an operation added the key, and the document is what the
bytes of its file spelled just then. -/
def Inserted (source : Source) (operations : List Operation) (key : String) (document : Json) :
    Prop :=
  ∃ earlier operation later, operations = earlier ++ operation :: later ∧
    key ∉ (Session.afterAll ⟨source, {}⟩ earlier).store.paths ∧
    key ∈ ((Session.afterAll ⟨source, {}⟩ earlier).after operation).store.paths ∧
    ∃ content,
      (Session.afterAll ⟨source, {}⟩ earlier).source.disk.read (source.root.child key) =
        .ok content ∧
      Json.ofBytes content.data.toList = .ok document

private theorem inserted_entry {operations : List Operation}
    (member : (key, document) ∈ (Session.afterAll ⟨source, {}⟩ operations).store.documents) :
    Inserted source operations key document := by
  induction operations using List.reverseRecOn with
  | nil => cases member
  | append_singleton past operation ih =>
    rw [Session.afterAll_concat] at member
    by_cases held : (key, document) ∈ (Session.afterAll ⟨source, {}⟩ past).store.documents
    · obtain ⟨earlier, inserting, later, rfl, absent, present, spelled⟩ := ih held
      exact ⟨earlier, inserting, later ++ [operation], by simp, absent, present, spelled⟩
    · -- This very operation added the key, and no file changes while it runs.
      obtain ⟨_, absent, read⟩ := reads_added (after_reads _ operation) member held
      have spelled := (SourcePaths.document_bytes read).2
      rw [afterAll_root] at spelled
      exact ⟨past, operation, [], rfl, absent, mem_paths.mpr ⟨document, member⟩, spelled⟩

private theorem load_refused {store : Store} {path : String} {fault : Fault}
    (refused : ((Store.load source path).run store).1 = .error fault) :
    Location.normalize path ∉ store.paths ∧
      source.document (Location.normalize path) = .error fault := by
  rcases ran : (Store.load source path).run store with ⟨outcome, reached⟩
  have answered := (StoreView.load_ran ran).1
  rw [ran] at refused
  subst refused
  rw [StoreView.fetch] at answered
  cases held : store.documents.lookup (Location.normalize path) with
  | some document =>
    rw [held] at answered
    cases answered
  | none =>
    rw [held] at answered
    exact ⟨absent_iff.mp held, answered.symm⟩

/-- **The store is an append-only memo over whole runs.** Start from an empty
store and let anything happen to it and to the files. With each further
operation the paths stay in front, no document changes, keys are distinct and
normal, every document is what its file spelled when its key was added, and a
path that cannot be loaded gains no entry, whichever operation asks for it. A
path that can be loaded is in the store from then on. -/
theorem memo_append_only (source : Source) (past : List Operation) (operation : Operation) :
    let before := Session.afterAll ⟨source, {}⟩ past
    let after := before.after operation
    before.store.paths <+: after.store.paths ∧
      (∀ path document, before.store.cached? path = some document →
        after.store.cached? path = some document) ∧
      after.store.paths.Nodup ∧ (∀ key ∈ after.store.paths, Location.normalize key = key) ∧
      (∀ key document, (key, document) ∈ after.store.documents →
        Inserted source (past ++ [operation]) key document) ∧
      (∀ path fault, ((Store.load before.source path).run before.store).1 = .error fault →
        Location.normalize path ∉ after.store.paths) ∧
      ∀ path document, ((Store.load before.source path).run before.store).1 = .ok document →
        (before.after (.call (.load path))).store.cached? path = some document := by
  intro before after
  have reads : Reads before.source before.store after.store := after_reads before operation
  have keyed : Keyed after.store := keyed_after (keyed_afterAll source past) operation
  refine ⟨(reads_kept reads).map Prod.fst, ?_, keyed.distinct, keyed.normal, ?_, ?_, ?_⟩
  · intro path document held
    exact StoreView.lookup_kept (reads_kept reads) held
  · intro key document member
    apply inserted_entry
    rw [Session.afterAll_concat]
    exact member
  · intro path fault refused
    obtain ⟨absent, unreadable⟩ := load_refused refused
    exact reads_refused reads unreadable absent
  · intro path document loaded
    exact (StoreView.load_ran rfl).2.2 document loaded

end EntitySchema.StoreHistory
