import EntitySchema.Proofs.Decomposition

/-! What a computation sees of the store. A document comes from the store or,
the first time, from the source, so over unchanging files loading never changes
the answer for any path. A reference therefore leads to the same target from
every store that gives the same answers, once the document of its context is
loaded or cannot be; which other documents happen to be loaded cannot be
observed. -/
namespace EntitySchema.StoreView
open Reference

variable {source : Source} {before middle after first second : Store} {context other : Context}

/-- What asking for the document at a normal path gives: the document in the
store or, when there is none, what the source has. -/
def fetch (source : Source) (store : Store) (key : String) : Except Fault Json :=
  match store.documents.lookup key with
  | some document => .ok document
  | none => source.document key

/-- Loading has led from one store to the other: documents were only added at
the end, and every path is answered as before. -/
structure Grows (source : Source) (before after : Store) : Prop where
  kept : before.documents <+: after.documents
  same : fetch source after = fetch source before

/-- The document of a context is loaded. In a document that is `null` there is
no other node to be at. -/
def Held (store : Store) (context : Context) : Prop :=
  ∃ document, store.cached? context.path = some document ∧
    (document = .null → context.schema = .null)

/-- The document of a context is loaded or cannot be: what its local pointers
mean is settled, whatever else is loaded. -/
def Steady (source : Source) (store : Store) (context : Context) : Prop :=
  Held store context ∨ ∃ fault, fetch source store (Location.normalize context.path) = .error fault

/-- There is a document at the path of a context. -/
def Known (view : String → Except Fault Json) (context : Context) : Prop :=
  ∃ document, view (Location.normalize context.path) = .ok document

theorem grows_refl (store : Store) : Grows source store store :=
  ⟨List.prefix_refl _, rfl⟩

theorem grows_trans (early : Grows source before middle) (late : Grows source middle after) :
    Grows source before after :=
  ⟨early.kept.trans late.kept, late.same.trans early.same⟩

theorem lookup_kept {entries longer : List (String × Json)} {key : String} {document : Json}
    (kept : entries <+: longer) (found : entries.lookup key = some document) :
    longer.lookup key = some document := by
  obtain ⟨added, rfl⟩ := kept
  rw [List.lookup_append, found]
  rfl

theorem held_later (held : Held before context) (grown : Grows source before after) :
    Held after context := by
  obtain ⟨document, found, null⟩ := held
  exact ⟨document, lookup_kept grown.kept found, null⟩

theorem steady_later (steady : Steady source before context) (grown : Grows source before after) :
    Steady source after context := by
  rcases steady with held | absent
  · exact .inl (held_later held grown)
  · rw [← grown.same] at absent
    exact .inr absent

theorem held_known (source : Source) (held : Held before context) :
    Known (fetch source before) context := by
  obtain ⟨document, found, _⟩ := held
  exact ⟨document, by simp only [fetch, show before.documents.lookup _ = _ from found]⟩

theorem steady_held (steady : Steady source before context)
    (known : Known (fetch source before) context) : Held before context := by
  rcases steady with held | ⟨fault, absent⟩
  · exact held
  · obtain ⟨document, found⟩ := known
    rw [found] at absent
    cases absent

theorem grows_add {key : String} {document : Json}
    (absent : before.documents.lookup key = none) (read : source.document key = .ok document) :
    Grows source before (Store.add key document before) := by
  refine ⟨List.prefix_append _ _, funext fun asked => ?_⟩
  simp only [fetch, Store.add, List.lookup_append]
  cases found : before.documents.lookup asked with
  | some held => rfl
  | none =>
    by_cases same : asked = key
    · subst same
      simp [read]
    · simp [List.lookup_cons, beq_eq_false_iff_ne.mpr same]

/-- A load answers what the store already stood for, and the document is in
the store from then on. -/
theorem load_ran {path : String} {outcome : Except Fault Json}
    (ran : (Store.load source path).run before = (outcome, after)) :
    outcome = fetch source before (Location.normalize path) ∧ Grows source before after ∧
      ∀ document, outcome = .ok document →
        after.documents.lookup (Location.normalize path) = some document := by
  simp only [Store.load, Action.run_bind, Action.run_state] at ran
  cases found : before.documents.lookup (Location.normalize path) with
  | some document =>
    simp only [found, Action.run_pure, Prod.mk.injEq] at ran
    obtain ⟨rfl, rfl⟩ := ran
    refine ⟨by simp only [fetch, found], grows_refl _, ?_⟩
    intro document same
    cases same
    exact found
  | none =>
    simp only [found, Action.run_bind, Action.run_ofExcept] at ran
    cases read : source.document (Location.normalize path) with
    | error fault =>
      simp only [read, Prod.mk.injEq] at ran
      obtain ⟨rfl, rfl⟩ := ran
      refine ⟨by simp only [fetch, found, read], grows_refl _, ?_⟩
      intro document impossible
      cases impossible
    | ok document =>
      simp only [read, Action.run_update, Action.run_pure, Prod.mk.injEq] at ran
      obtain ⟨rfl, rfl⟩ := ran
      refine ⟨by simp only [fetch, found, read], grows_add found read, ?_⟩
      intro answered same
      cases same
      simp [Store.add, List.lookup_append, found]

/-- The root of a document is found where every store with the same answers
finds it, and its document is held afterwards. -/
theorem context_ran {path : String} {outcome : Except Fault Context}
    (ran : (Store.context source path).run before = (outcome, after)) :
    outcome = (fetch source before (Location.normalize (Location.normalize path))).map
        (⟨·, Location.normalize path⟩) ∧
      Grows source before after ∧
      ∀ found, outcome = .ok found →
        after.cached? found.path = some found.schema ∧ found.path = Location.normalize path := by
  simp only [Store.context, Action.run_bind] at ran
  cases loaded : (Store.load source (Location.normalize path)).run before with
  | mk answer reached =>
    obtain ⟨answered, grown, held⟩ := load_ran loaded
    subst answered
    cases read : fetch source before (Location.normalize (Location.normalize path)) with
    | error fault =>
      simp only [loaded, read, Prod.mk.injEq] at ran
      obtain ⟨rfl, rfl⟩ := ran
      exact ⟨rfl, grown, by intro found impossible; cases impossible⟩
    | ok document =>
      simp only [loaded, read, Action.run_pure, Prod.mk.injEq] at ran
      obtain ⟨rfl, rfl⟩ := ran
      refine ⟨rfl, grown, ?_⟩
      intro found same
      cases same
      exact ⟨held document read, rfl⟩

/-- A reference that names the node it is read in: a blank one, or a `#` that
starts no pointer. -/
def namesHolder (ref : String) : Bool :=
  ref.toList.all Text.isBlank ||
    (!"#/".toList.isPrefixOf ref.toList && ref.toList.head? = some '#')

theorem resolve_holder {ref : String} (holder : namesHolder ref = true) :
    resolve source ref context = pure (some context) := by
  by_cases blank : ref.toList.all Text.isBlank = true
  · simp only [resolve, blank, ↓reduceIte]
  · simp only [namesHolder, blank, Bool.false_or, Bool.and_eq_true, Bool.not_eq_true',
      decide_eq_true_eq] at holder
    simp only [resolve, blank, holder.1, holder.2, Bool.false_eq_true, ↓reduceIte]

/-- The node at a pointer, as a target. -/
def pick (document : Json) (pointer path : String) : Except Fault (Option Context) :=
  match Pointer.get? document pointer with
  | .error fault => .error fault
  | .ok none | .ok (some .null) => .ok none
  | .ok (some node) => .ok (some ⟨node, path⟩)

/-- The target in the document at `path`, or its root when there is no pointer. -/
def within (view : String → Except Fault Json) (path : String) (fragment : List Char) :
    Except Fault (Option Context) := do
  let document ← view (Location.normalize path)
  if fragment.head? = some '/' then pick document (String.ofList ('#' :: fragment)) path
  else pure (some ⟨document, path⟩)

/-- The node at which local pointers of a context start: the root of its
document, or the node at hand when there is none. -/
def startOf (view : String → Except Fault Json) (context : Context) : Json :=
  match view (Location.normalize context.path) with
  | .ok document => document
  | .error _ => context.schema

/-- Where a reference of a context leads, told from the answers alone: to its
holder, to a place in the same document, to another document, or to a place
there. -/
def destination (view : String → Except Fault Json) (ref : String) (context : Context) :
    Except Fault (Option Context) :=
  if namesHolder ref then .ok (some context)
  else if "#/".toList.isPrefixOf ref.toList then pick (startOf view context) ref context.path
  else
    within view
      (Location.normalize
        (Location.relativeTo context.path (String.ofList (ref.toList.takeWhile (· ≠ '#')))))
      ((ref.toList.dropWhile (· ≠ '#')).drop 1)

/-- Apart from the references that name their holder, nothing but the path of
the context counts when there is a document at it. -/
theorem destination_path {view : String → Except Fault Json} {ref : String}
    (away : namesHolder ref = false) (known : Known view context)
    (same : other.path = context.path) :
    destination view ref other = destination view ref context := by
  obtain ⟨document, found⟩ := known
  simp only [destination, away, Bool.false_eq_true, ↓reduceIte, startOf, same, found]

theorem target_run (document : Json) (pointer path : String) (store : Store) :
    (target? document pointer path).run store = (pick document pointer path, store) := by
  unfold target? pick
  cases Pointer.get? document pointer with
  | error fault => rfl
  | ok found =>
    cases found with
    | none => rfl
    | some node => cases node <;> rfl

private theorem pick_path {document : Json} {pointer path : String} {target : Context}
    (picked : pick document pointer path = .ok (some target)) : target.path = path := by
  unfold pick at picked
  split at picked <;> cases picked
  rfl

/-- No pointer with a step leads anywhere from `null`. -/
private theorem pick_present {document : Json} {pointer path : String} {target : Context}
    (pointed : "#/".toList.isPrefixOf pointer.toList = true)
    (picked : pick document pointer path = .ok (some target)) : document ≠ .null := by
  unfold pick at picked
  split at picked
  · cases picked
  · cases picked
  · cases picked
  · rename_i node _ found
    cases picked
    rintro rfl
    obtain ⟨rest, spelled⟩ := List.isPrefixOf_iff_prefix.mp pointed
    have spelling : pointer.toList = '#' :: '/' :: rest := spelled.symm
    simp only [Pointer.get?, spelling, Pointer.steps] at found
    cases steps : (rest.splitOn '/').map Pointer.unescape with
    | nil => simp [List.splitOn_ne_nil] at steps
    | cons step more => simp [steps, Pointer.descend, Pointer.child?] at found

/-- The node in which a local pointer of a steady context starts is the one that
the answers tell, and unless it is `null` the context of every other node there
is steady too. -/
private theorem steady_start (steady : Steady source before context) :
    ((before.cached? context.path).bind Json.present?).getD context.schema =
        startOf (fetch source before) context ∧
      ∀ target : Context, target.path = context.path →
        startOf (fetch source before) context ≠ .null → Steady source before target := by
  rcases steady with ⟨document, found, null⟩ | ⟨fault, absent⟩
  · have answered : fetch source before (Location.normalize context.path) = .ok document := by
      simp only [fetch, show before.documents.lookup _ = _ from found]
    simp only [startOf, answered]
    refine ⟨?_, ?_⟩
    · rw [found]
      cases document with
      | null => simp [Json.present?, null rfl]
      | _ => rfl
    · intro target samePath notNull
      exact .inl ⟨document, by rw [samePath]; exact found, fun null => absurd null notNull⟩
  · have unloaded : before.cached? context.path = none := by
      cases found : before.cached? context.path with
      | none => rfl
      | some document =>
        simp only [fetch, show before.documents.lookup _ = _ from found] at absent
        cases absent
    simp only [startOf, absent, unloaded]
    refine ⟨rfl, ?_⟩
    intro target samePath _
    exact .inr ⟨fault, by rw [samePath]; exact absent⟩

private theorem file_ran {path : String} {fragment : List Char}
    {outcome : Except Fault (Option Context)}
    (ran : (do
      let found ← Store.context source path
      if fragment.head? = some '/' then
        target? found.schema (String.ofList ('#' :: fragment)) found.path
      else pure (some found)).run before = (outcome, after)) :
    outcome = within (fetch source before) (Location.normalize path) fragment ∧
      Grows source before after ∧ ∀ target, outcome = .ok (some target) → Held after target := by
  rw [Action.run_bind] at ran
  cases loaded : (Store.context source path).run before with
  | mk answer reached =>
    obtain ⟨answered, grown, holds⟩ := context_ran loaded
    cases read : fetch source before (Location.normalize (Location.normalize path)) with
    | error fault =>
      rw [read] at answered
      subst answered
      simp only [loaded, Except.map, Prod.mk.injEq] at ran
      obtain ⟨rfl, rfl⟩ := ran
      refine ⟨?_, grown, by intro target impossible; cases impossible⟩
      rw [within, read]
      rfl
    | ok document =>
      rw [read] at answered
      subst answered
      obtain ⟨found, _⟩ := holds _ rfl
      simp only [loaded, Except.map] at ran
      have answer : within (fetch source before) (Location.normalize path) fragment =
          if fragment.head? = some '/' then
            pick document (String.ofList ('#' :: fragment)) (Location.normalize path)
          else .ok (some ⟨document, Location.normalize path⟩) := by
        rw [within, read]
        rfl
      rw [answer]
      by_cases slash : fragment.head? = some '/'
      · simp only [slash, ↓reduceIte, target_run, Prod.mk.injEq] at ran ⊢
        obtain ⟨rfl, rfl⟩ := ran
        refine ⟨rfl, grown, ?_⟩
        intro target picked
        obtain ⟨rest, rfl⟩ := List.head?_eq_some_iff.mp slash
        have notNull : document ≠ .null := pick_present (by simp) picked
        exact ⟨document, by rw [pick_path picked]; exact found, fun null => absurd null notNull⟩
      · simp only [slash, ↓reduceIte, Action.run_pure, Prod.mk.injEq] at ran ⊢
        obtain ⟨rfl, rfl⟩ := ran
        refine ⟨rfl, grown, ?_⟩
        intro target same
        cases same
        exact ⟨document, found, id⟩

private theorem away_ran {ref : String} {outcome : Except Fault (Option Context)}
    (steady : Steady source before context) (away : namesHolder ref = false)
    (ran : (resolve source ref context).run before = (outcome, after)) :
    outcome = destination (fetch source before) ref context ∧ Grows source before after ∧
      ∀ target, outcome = .ok (some target) → Steady source after target := by
  simp only [destination, away, Bool.false_eq_true, ↓reduceIte]
  simp only [namesHolder, Bool.or_eq_false_iff, Bool.and_eq_false_imp, Bool.not_eq_true',
    decide_eq_false_iff_not] at away
  obtain ⟨filled, noHash⟩ := away
  unfold resolve at ran
  simp only [filled, Bool.false_eq_true, ↓reduceIte] at ran
  cases pointer : "#/".toList.isPrefixOf ref.toList with
  | true =>
    obtain ⟨start, holds⟩ := steady_start steady
    simp only [pointer, ↓reduceIte, Action.run_bind, Action.run_state, target_run, start,
      Prod.mk.injEq] at ran ⊢
    obtain ⟨rfl, rfl⟩ := ran
    refine ⟨rfl, grows_refl _, ?_⟩
    intro target picked
    exact holds target (pick_path picked) (pick_present pointer picked)
  | false =>
    simp only [pointer, Bool.false_eq_true, ↓reduceIte, noHash pointer] at ran ⊢
    obtain ⟨answered, grown, holds⟩ := file_ran ran
    exact ⟨answered, grown, fun target same => .inl (holds target same)⟩

/-- Resolving a reference gives its destination, whatever else the store holds;
the document it leads to is held from then on, or else there is none. -/
theorem resolve_ran {ref : String} {outcome : Except Fault (Option Context)}
    (steady : Steady source before context)
    (ran : (resolve source ref context).run before = (outcome, after)) :
    outcome = destination (fetch source before) ref context ∧ Grows source before after ∧
      ∀ target, outcome = .ok (some target) → Steady source after target := by
  cases holder : namesHolder ref with
  | true =>
    rw [resolve_holder holder] at ran
    cases ran
    refine ⟨by simp only [destination, holder, ↓reduceIte], grows_refl _, ?_⟩
    intro target same
    cases same
    exact steady
  | false => exact away_ran steady holder ran

private theorem within_known {view : String → Except Fault Json} {path : String}
    {fragment : List Char} (led : within view path fragment = .ok (some other)) :
    Known view other := by
  unfold within at led
  cases read : view (Location.normalize path) with
  | error fault =>
    rw [read] at led
    cases led
  | ok document =>
    rw [read] at led
    change (if fragment.head? = some '/' then _ else _) = _ at led
    split at led
    · exact ⟨document, by rw [pick_path led]; exact read⟩
    · cases led
      exact ⟨document, read⟩

/-- From where there is a document, references lead to where there is one. -/
theorem destination_known {view : String → Except Fault Json} {ref : String}
    (known : Known view context) (led : destination view ref context = .ok (some other)) :
    Known view other := by
  unfold destination at led
  split at led
  · cases led
    exact known
  · split at led
    · rw [Known, pick_path led]
      exact known
    · exact within_known led

theorem target_held {ref : String} (held : Held before context) (grown : Grows source before after)
    (led : destination (fetch source before) ref context = .ok (some other))
    (steady : Steady source after other) : Held after other := by
  refine steady_held steady ?_
  rw [grown.same]
  exact destination_known (held_known source held) led

/-- A context that the store made: the root of a document, or what references
led to from there, other documents being loaded in between. -/
inductive Made (source : Source) : Store → Context → Prop where
  | root {before after : Store} {path : String} {found : Context}
      (ran : (Store.context source path).run before = (.ok found, after)) : Made source after found
  | hop {before after : Store} {ref : String} {context target : Context}
      (made : Made source before context)
      (ran : (resolve source ref context).run before = (.ok (some target), after)) :
      Made source after target
  | later {before after : Store} {path : String} {context : Context}
      {outcome : Except Fault Json} (made : Made source before context)
      (ran : (Store.load source path).run before = (outcome, after)) : Made source after context

theorem made_held (made : Made source before context) : Held before context := by
  induction made with
  | root ran =>
    obtain ⟨found, _⟩ := (context_ran ran).2.2 _ rfl
    exact ⟨_, found, id⟩
  | hop made ran ih =>
    obtain ⟨led, grown, holds⟩ := resolve_ran (.inl ih) ran
    exact target_held ih grown led.symm (holds _ rfl)
  | later made ran ih => exact held_later ih (load_ran ran).2.1

private theorem child_fault {step : List Char} {node : Json} {fault : Fault}
    (failed : Pointer.child? step node = .error fault) : fault.isReferenceFault = false := by
  unfold Pointer.child? at failed
  split at failed
  · cases failed
  · split at failed
    · cases failed
    · split at failed
      · cases failed
        rfl
      · cases failed
  · cases failed

private theorem descend_fault {steps : List (List Char)} {node : Json} {fault : Fault}
    (failed : Pointer.descend node steps = .error fault) : fault.isReferenceFault = false := by
  induction steps generalizing node with
  | nil => cases failed
  | cons step rest ih =>
    simp only [Pointer.descend] at failed
    split at failed
    · rename_i stopped
      cases failed
      exact child_fault stopped
    · cases failed
    · exact ih failed

private theorem pick_fault {document : Json} {pointer path : String} {fault : Fault}
    (failed : pick document pointer path = .error fault) : fault.isReferenceFault = false := by
  unfold pick at failed
  split at failed
  · rename_i stopped
    cases failed
    exact descend_fault stopped
  · cases failed
  · cases failed
  · cases failed

theorem fetch_fault {key : String} {fault : Fault}
    (failed : fetch source before key = .error fault) : fault.isReferenceFault = false := by
  unfold fetch at failed
  split at failed
  · cases failed
  · unfold Source.document at failed
    split at failed
    · cases failed
      rfl
    · split at failed
      · cases failed
        rfl
      · cases failed
        rfl
      · cases failed
        rfl
      · rename_i content _
        cases read : Json.ofBytes content.data.toList with
        | ok document =>
          rw [read] at failed
          cases failed
        | error detail =>
          rw [read] at failed
          cases failed
          rfl

private theorem within_fault {path : String} {fragment : List Char} {fault : Fault}
    (failed : within (fetch source before) path fragment = .error fault) :
    fault.isReferenceFault = false := by
  unfold within at failed
  cases read : fetch source before (Location.normalize path) with
  | error stopped =>
    rw [read] at failed
    cases failed
    exact fetch_fault read
  | ok document =>
    rw [read] at failed
    change (if fragment.head? = some '/' then _ else _) = _ at failed
    split at failed
    · exact pick_fault failed
    · cases failed

/-- What keeps a reference from being resolved is a document that cannot be
read or a position that cannot; a missing target is no fault. -/
theorem destination_fault {ref : String} {fault : Fault}
    (failed : destination (fetch source before) ref context = .error fault) :
    fault.isReferenceFault = false := by
  unfold destination at failed
  split at failed
  · cases failed
  · split at failed
    · exact pick_fault failed
    · exact within_fault failed

/-- One hop, told from the answers alone: a reference that is no string, was
followed before or has no target leads nowhere. -/
def hopIn (view : String → Except Fault Json) (ref : Json) (context : Context)
    (seen : List Key) : Except Fault (Option (Context × Key)) :=
  match ref with
  | .str name =>
    if (context.path, name) ∈ seen then .ok none
    else (destination view name context).map (Option.map (·, (context.path, name)))
  | _ => .ok none

theorem hop_ran {ref : Json} {seen : List Key} {outcome : Except Fault (Option (Context × Key))}
    (steady : Steady source before context)
    (ran : (hop? source ref context seen).run before = (outcome, after)) :
    outcome = hopIn (fetch source before) ref context seen ∧ Grows source before after ∧
      ∀ target key, outcome = .ok (some (target, key)) → Steady source after target := by
  cases ref with
  | str name =>
    by_cases followed : (context.path, name) ∈ seen
    · rw [hop_followed followed] at ran
      cases ran
      refine ⟨by simp only [hopIn, followed, ↓reduceIte], grows_refl _, ?_⟩
      intro target key impossible
      cases impossible
    · rw [hop_resolved followed] at ran
      simp only [hopIn, followed, ↓reduceIte]
      rcases resolved : (resolve source name context).run before with ⟨answer, reached⟩
      obtain ⟨answered, grown, holds⟩ := resolve_ran steady resolved
      rw [resolved] at ran
      cases answer with
      | error fault =>
        have genuine := destination_fault answered.symm
        simp only [hopOutcome, genuine, Bool.false_eq_true, ↓reduceIte] at ran
        cases ran
        rw [← answered]
        exact ⟨rfl, grown, by intro target key impossible; cases impossible⟩
      | ok found =>
        cases ran
        rw [← answered]
        refine ⟨rfl, grown, ?_⟩
        intro target key same
        cases found with
        | none => cases same
        | some found =>
          cases same
          exact holds _ rfl
  | _ =>
    cases ran
    exact ⟨rfl, grows_refl _, by intro target key impossible; cases impossible⟩

/-- A source without files: all documents are in the store already. -/
def noFiles : Source := ⟨{}, ⟨0, []⟩⟩

end EntitySchema.StoreView
