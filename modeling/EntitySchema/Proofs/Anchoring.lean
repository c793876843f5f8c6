import EntitySchema.Proofs.Containment
import Mathlib

/-! Contexts stay anchored in their documents. A context that a store gave out
is a node inside a document of that store, under the one spelling of its path,
however many references led to it and whatever was loaded or changed on the
disk in between. What a reference to a file or a local pointer means therefore
depends on the path of its context alone, which is what lets a path and a
reference be the key of a hop. -/
namespace EntitySchema.Anchoring
open Location Reference Loading StoreView StoreHistory

variable {source : Source} {before after store : Store} {context first second target : Context}
  {node part whole : Json}

/-- The node stands in the document: it is the document itself, or stands in an
item or under a name of it. -/
inductive Inside (node : Json) : Json → Prop where
  | self : Inside node node
  | item {items : List Json} {item : Json} (member : item ∈ items) (inner : Inside node item) :
    Inside node (.arr items)
  | field {fields : List (String × Json)} {name : String} {value : Json}
    (member : (name, value) ∈ fields) (inner : Inside node value) : Inside node (.obj fields)

theorem inside_trans (inner : Inside node part) (outer : Inside part whole) :
    Inside node whole := by
  induction outer with
  | self => exact inner
  | item member _ ih => exact .item member ih
  | field member _ ih => exact .field member ih

theorem inside_lookup {fields : List (String × Json)} {name : String}
    (found : fields.lookup name = some part) : Inside part (.obj fields) := by
  obtain ⟨before, after, split, _⟩ := List.lookup_eq_some_iff.mp found
  have member : (name, part) ∈ fields := by simp [split]
  exact .field member .self

theorem inside_field {name : String} (found : whole.field? name = some part) :
    Inside part whole := by
  cases whole with
  | obj fields => exact inside_lookup found
  | _ => cases found

/-- What is converted for a node stands in the node, or is the node with one
type in place of a list of types. -/
theorem children_inside (member : part ∈ (Shape.ofNode node).children) :
    Inside part node ∨ ∃ types, node.field? "type" = some (.arr types) ∧
      ∃ type ∈ types, part = node.withField "type" type := by
  have listed : ∀ {name : String} {nodes : List Json}, node.field? name = some (.arr nodes) →
      part ∈ nodes → Inside part node := fun given inside =>
    inside_trans (.item inside .self) (inside_field given)
  have calls := Dispatch.ofNode_calls node
  generalize Shape.ofNode node = shape at member calls
  cases calls with
  | oneOf given => exact .inl (listed given member)
  | anyOf given => exact .inl (listed given member)
  | allOf given => exact .inl (listed given member)
  | types given =>
    obtain ⟨type, inside, rfl⟩ := List.mem_map.mp member
    exact .inr ⟨_, given, type, inside, rfl⟩
  | tuple _ given => exact .inl (listed given member)
  | array _ given single =>
    cases List.mem_singleton.mp member
    exact .inl (inside_field given)
  | record =>
    rcases List.mem_append.mp member with property | other
    · obtain ⟨⟨name, held⟩, declared, rfl⟩ := List.mem_map.mp property
      obtain ⟨fields, named, inside⟩ := Dispatch.declared_named declared
      exact .inl (inside_trans (.field inside .self) (inside_field named))
    · cases others : Shape.othersOf node with
      | closed =>
        rw [others] at other
        cases other
      | anything =>
        rw [others] at other
        cases other
      | typed typed =>
        rw [others] at other
        cases List.mem_singleton.mp other
        obtain ⟨fields, named, rfl⟩ := Dispatch.othersOf_typed others
        exact .inl (inside_field named)
  | _ => cases member

private theorem inside_null (inside : Inside node .null) : node = .null := by
  cases inside
  rfl

private theorem child_inside {step : List Char}
    (found : Pointer.child? step whole = .ok (some part)) : Inside part whole := by
  cases whole with
  | obj fields => exact inside_lookup (Except.ok.inj found)
  | arr items =>
    simp only [Pointer.child?] at found
    split at found
    · cases found
    · split at found
      · cases found
      · exact .item (List.mem_of_getElem? (Except.ok.inj found)) .self
  | _ => cases found

/-- What a pointer finds stands in the document it starts from. -/
theorem descend_inside {steps : List (List Char)}
    (found : Pointer.descend whole steps = .ok (some part)) : Inside part whole := by
  induction steps generalizing whole with
  | nil =>
    cases found
    exact .self
  | cons step rest ih =>
    simp only [Pointer.descend] at found
    split at found
    · cases found
    · cases found
    · rename_i next stepped
      exact inside_trans (ih found) (child_inside stepped)

private theorem pick_inside {pointer path : String}
    (picked : pick whole pointer path = .ok (some target)) :
    target.path = path ∧ Inside target.schema whole := by
  unfold pick at picked
  split at picked
  · cases picked
  · cases picked
  · cases picked
  · rename_i found
    cases picked
    exact ⟨rfl, descend_inside found⟩

/-- A context whose path is a key of the store, in its one spelling, and whose
node stands in the document under that key. -/
structure Anchored (store : Store) (context : Context) : Prop where
  normal : normalize context.path = context.path
  stored : context.path ∈ store.paths
  inside : ∃ document, store.cached? context.path = some document ∧
    Inside context.schema document

private theorem anchored_held (anchored : Anchored store context) : Held store context := by
  obtain ⟨document, found, inside⟩ := anchored.inside
  refine ⟨document, found, ?_⟩
  rintro rfl
  exact inside_null inside

private theorem anchored_document {document : Json} (normal : normalize context.path = context.path)
    (found : store.cached? context.path = some document)
    (inside : Inside context.schema document) : Anchored store context := by
  refine ⟨normal, ?_, document, found, inside⟩
  rw [Store.cached?, normal] at found
  by_contra absent
  rw [absent_iff.mpr absent] at found
  cases found

theorem anchored_later (anchored : Anchored before context)
    (kept : before.documents <+: after.documents) : Anchored after context := by
  obtain ⟨document, found, inside⟩ := anchored.inside
  exact anchored_document anchored.normal (lookup_kept kept found) inside

theorem context_anchored {path : String}
    (ran : (Store.context source path).run before = (.ok target, after)) :
    Anchored after target := by
  obtain ⟨found, named⟩ := (context_ran ran).2.2 target rfl
  have normal : normalize target.path = target.path := by
    rw [named, NormalPath.normalize_settles]
  exact anchored_document normal found .self

/-- A target in another document, or at a place there, stands in what the
answers hold at its path. -/
private theorem within_inside {view : String → Except Fault Json} {path : String}
    {fragment : List Char} (led : within view path fragment = .ok (some target)) :
    target.path = path ∧ ∃ document, view (normalize path) = .ok document ∧
      Inside target.schema document := by
  unfold within at led
  cases read : view (normalize path) with
  | error fault =>
    rw [read] at led
    cases led
  | ok document =>
    rw [read] at led
    change (if fragment.head? = some '/' then _ else _) = _ at led
    split at led
    · obtain ⟨named, inside⟩ := pick_inside led
      exact ⟨named, document, rfl, inside⟩
    · cases led
      exact ⟨rfl, document, rfl, .self⟩

/-- A held document is what the answers give at its path. -/
private theorem held_answer {document : Json} (source : Source) {path : String}
    (found : store.cached? path = some document) :
    fetch source store (normalize path) = .ok document := by
  simp only [fetch, show store.documents.lookup _ = _ from found]

/-- Wherever a reference leads, its target stands in a document of the store. -/
theorem resolve_anchored {ref : String} (anchored : Anchored before context)
    (ran : (resolve source ref context).run before = (.ok (some target), after)) :
    Anchored after target := by
  have held := anchored_held anchored
  obtain ⟨led, grown, steady⟩ := resolve_ran (.inl held) ran
  obtain ⟨document, found, inside⟩ := anchored.inside
  have later : after.cached? context.path = some document := lookup_kept grown.kept found
  unfold destination at led
  split at led
  · cases led
    exact anchored_document anchored.normal later inside
  · split at led
    · -- A local pointer starts in the document that holds the context.
      rw [startOf, held_answer source found] at led
      obtain ⟨named, picked⟩ := pick_inside led.symm
      rw [← named] at later
      refine anchored_document ?_ later picked
      rw [named]
      exact anchored.normal
    · obtain ⟨named, reached, answered, picked⟩ := within_inside led.symm
      have normal : normalize target.path = target.path := by
        rw [named, NormalPath.normalize_settles]
      have known : Known (fetch source after) target := by
        rw [grown.same]
        exact ⟨reached, by rw [named]; exact answered⟩
      obtain ⟨other, cached, _⟩ := steady_held (steady target rfl) known
      -- What is cached afterwards is what the answers gave.
      have same := held_answer source cached
      rw [grown.same, named, answered] at same
      cases same
      exact anchored_document normal cached picked

theorem step_anchored {ref : Json} {seen : List Key} {key : Key}
    (anchored : Anchored before context)
    (ran : (step source ref context seen).run before = (.ok (target, key), after)) :
    Anchored after target := by
  cases ref with
  | str name =>
    simp only [step] at ran
    split at ran
    · cases ran
    · rw [Action.run_bind] at ran
      rcases resolved : (resolve source name context).run before with ⟨outcome, reached⟩
      rw [resolved] at ran
      cases outcome with
      | error fault => cases ran
      | ok found =>
        cases found with
        | none => cases ran
        | some found =>
          cases ran
          exact resolve_anchored anchored resolved
  | _ => cases ran

/-- What a store has given out by the end of a run: the root of a document, or
the target of a reference of what it gave out before. Between two such calls
anything may happen to the store and to the files. -/
inductive Obtained (source : Source) : List Operation → Context → Prop where
  | root {past : List Operation} {path : String} {found : Context}
    (ran : ((Store.context (Session.afterAll ⟨source, {}⟩ past).source path).run
      (Session.afterAll ⟨source, {}⟩ past).store).1 = .ok found) :
    Obtained source (past ++ [.call (.context path)]) found
  | resolve {past : List Operation} {ref : String} {context target : Context}
    (obtained : Obtained source past context)
    (ran : ((Reference.resolve (Session.afterAll ⟨source, {}⟩ past).source ref context).run
      (Session.afterAll ⟨source, {}⟩ past).store).1 = .ok (some target)) :
    Obtained source (past ++ [.call (.resolve ref context)]) target
  | step {past : List Operation} {ref : Json} {context target : Context} {seen : List Key}
    {key : Key} (obtained : Obtained source past context)
    (ran : ((Reference.step (Session.afterAll ⟨source, {}⟩ past).source ref context seen).run
      (Session.afterAll ⟨source, {}⟩ past).store).1 = .ok (target, key)) :
    Obtained source (past ++ [.call (.step ref context seen)]) target
  | later {past : List Operation} {context : Context} (obtained : Obtained source past context)
    (operation : Operation) : Obtained source (past ++ [operation]) context

theorem obtained_anchored {past : List Operation} (obtained : Obtained source past context) :
    Anchored (Session.afterAll ⟨source, {}⟩ past).store context := by
  induction obtained with
  | root ran =>
    rw [Session.afterAll_concat]
    exact context_anchored (Prod.ext ran rfl)
  | resolve obtained ran ih =>
    rw [Session.afterAll_concat]
    exact resolve_anchored ih (Prod.ext ran rfl)
  | step obtained ran ih =>
    rw [Session.afterAll_concat]
    exact step_anchored ih (Prod.ext ran rfl)
  | later obtained operation ih =>
    rw [Session.afterAll_concat]
    exact anchored_later ih (reads_kept (after_reads _ operation))

/-- A local pointer, or a reference to a file: one that does not name the node it
is read in. -/
def LeadsAway (ref : String) : Prop :=
  "#/".toList.isPrefixOf ref.toList = true ∨ Containment.NamesFile ref

/-- Two anchored contexts with one path start their local pointers at one node:
the document, since in a document that is `null` they are both at `null`. -/
private theorem start_same (one : Anchored store first) (other : Anchored store second)
    (same : first.path = second.path) :
    ((store.cached? first.path).bind Json.present?).getD first.schema =
      ((store.cached? second.path).bind Json.present?).getD second.schema := by
  obtain ⟨document, found, inside⟩ := one.inside
  obtain ⟨shared, cached, within⟩ := other.inside
  rw [← same, found] at cached
  cases cached
  rw [← same, found]
  cases document with
  | null => rw [inside_null inside, inside_null within]
  | _ => rfl

private theorem pointer_filled {ref : String} (pointer : "#/".toList.isPrefixOf ref.toList = true) :
    ref.toList.all Text.isBlank = false := by
  obtain ⟨rest, spelled⟩ := List.isPrefixOf_iff_prefix.mp pointer
  rw [← spelled]
  rfl

theorem resolve_same {ref : String} (leads : LeadsAway ref) (one : Anchored store first)
    (other : Anchored store second) (same : first.path = second.path) :
    (resolve source ref first).run store = (resolve source ref second).run store := by
  rcases leads with pointer | ⟨filled, notHash⟩
  · simp only [resolve, pointer_filled pointer, pointer, Bool.false_eq_true, ↓reduceIte,
      Action.run_bind, Action.run_state]
    rw [start_same one other same, same]
  · have notPointer : "#/".toList.isPrefixOf ref.toList = false := by
      by_contra pointer
      rw [Bool.not_eq_false] at pointer
      obtain ⟨rest, spelled⟩ := List.isPrefixOf_iff_prefix.mp pointer
      rw [← spelled] at notHash
      exact notHash rfl
    simp only [resolve, filled, notPointer, notHash, Bool.false_eq_true, ↓reduceIte, same]

theorem step_same {ref : String} (leads : LeadsAway ref) (one : Anchored store first)
    (other : Anchored store second) (same : first.path = second.path) (seen : List Key) :
    (step source (.str ref) first seen).run store =
      (step source (.str ref) second seen).run store := by
  simp only [step, same]
  split
  · rfl
  · rw [Action.run_bind, Action.run_bind, resolve_same leads one other same]

/-- **Every context reached by resolution is anchored in its document.** After
any run of a store, a context it gave out has a normal path, which is a key of
the store, and its node stands in the document under that key. Two of them with
one path agree on every reference that does not name its holder: it is resolved
to the same target or to none, or fails with the same fault, and loads the same
documents. So the path and the reference determine the hop. -/
theorem contexts_anchored (source : Source) (past : List Operation) :
    let session := Session.afterAll ⟨source, {}⟩ past
    (∀ context, Obtained source past context → Anchored session.store context) ∧
      ∀ first second, Obtained source past first → Obtained source past second →
        first.path = second.path → ∀ ref, LeadsAway ref →
        (resolve session.source ref first).run session.store =
            (resolve session.source ref second).run session.store ∧
          ∀ seen, (step session.source (.str ref) first seen).run session.store =
            (step session.source (.str ref) second seen).run session.store := by
  intro session
  refine ⟨fun context obtained => obtained_anchored obtained, ?_⟩
  intro first second gaveFirst gaveSecond same ref leads
  have one := obtained_anchored gaveFirst
  have other := obtained_anchored gaveSecond
  exact ⟨resolve_same leads one other same, step_same leads one other same⟩

/-- A document with a list under a name. -/
def listed : Json := .obj [("a", .arr [0, 1])]

/-- A disk on which the document stands in the file `d`. -/
def oneFile : Source :=
  { disk :=
      { entries :=
          [(["d"], .file
            ⟨("\x7b\"a\":[0,1]\x7d".toList.map fun c => UInt8.ofNat c.toNat).toArray⟩)] }
    root := ⟨1, []⟩ }

/-- The document is opened, and a pointer leads to the list in it. -/
def opening : List Operation :=
  [.call (.context "d"), .call (.resolve "#/a" ⟨listed, "d"⟩)]

/-- The list is anchored in the document, and a pointer that is read in the list
leads where it leads from the root. -/
theorem contexts_anchored_list :
    Anchored (Session.afterAll ⟨oneFile, {}⟩ opening).store ⟨.arr [0, 1], "d"⟩ ∧
      (resolve oneFile "#/a/1" ⟨listed, "d"⟩).run ⟨[("d", listed)]⟩ =
        (resolve oneFile "#/a/1" ⟨.arr [0, 1], "d"⟩).run ⟨[("d", listed)]⟩ := by
  have opened : (Store.context oneFile "d").run {} =
      (.ok ⟨listed, "d"⟩, ⟨[("d", listed)]⟩) := by cbv
  have led : (resolve oneFile "#/a" ⟨listed, "d"⟩).run ⟨[("d", listed)]⟩ =
      (.ok (some ⟨.arr [0, 1], "d"⟩), ⟨[("d", listed)]⟩) := by cbv
  have reached : Session.afterAll ⟨oneFile, {}⟩ [.call (.context "d")] =
      ⟨oneFile, ⟨[("d", listed)]⟩⟩ := by
    simp only [Session.afterAll, List.foldl, Session.after, Call.reached, opened]
  have settled : Session.afterAll ⟨oneFile, {}⟩ opening = ⟨oneFile, ⟨[("d", listed)]⟩⟩ := by
    simp only [opening, Session.afterAll, List.foldl, Session.after, Call.reached, opened, led]
  have root : Obtained oneFile [.call (.context "d")] ⟨listed, "d"⟩ :=
    @Obtained.root oneFile [] "d" _ (congrArg Prod.fst opened)
  have list : Obtained oneFile opening ⟨.arr [0, 1], "d"⟩ :=
    .resolve root (by rw [reached]; exact congrArg Prod.fst led)
  obtain ⟨anchored, agree⟩ := contexts_anchored oneFile opening
  have same := (agree ⟨listed, "d"⟩ ⟨.arr [0, 1], "d"⟩ (.later root _) list rfl "#/a/1"
    (.inl (by decide))).1
  rw [settled] at same
  exact ⟨anchored _ list, same⟩

end EntitySchema.Anchoring
