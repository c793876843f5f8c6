import EntitySchema.Proofs.ConversionView
import Mathlib.Data.List.Perm.Basic

/-! Branches of a schema do not influence each other. A conversion may hold the
references it is below in one place that all branches share, marking a key
when its target is entered and taking the mark off when the target is left,
also on a fault. Such a conversion does exactly what the plain one does: every
call leaves the marks as it found them, and no key is entered while it is still
open above. So each field of a record has the type that its property has alone,
and the order of the properties decides nothing but the order of the fields. -/
namespace EntitySchema.Branches
open Reference Synthesis StoreView ConversionView

variable {source : Source} {context : Context} {key : Key} {visited opened : List Key}

/-- What happens to a key in the course of a conversion. -/
inductive Event where
  | entered (key : Key)
  | left (key : Key)

/-- The events lead from some open keys to others, the innermost first: only a
key that is not open is entered, and only the innermost one is left. -/
inductive Nested : List Key → List Event → List Key → Prop where
  | done (opened : List Key) : Nested opened [] opened
  | enter {opened last : List Key} {key : Key} {events : List Event} (fresh : key ∉ opened)
      (rest : Nested (key :: opened) events last) : Nested opened (.entered key :: events) last
  | leave {opened last : List Key} {key : Key} {events : List Event}
      (rest : Nested opened events last) : Nested (key :: opened) (.left key :: events) last

theorem nested_append {middle last : List Key} {early late : List Event}
    (first : Nested opened early middle) (second : Nested middle late last) :
    Nested opened (early ++ late) last := by
  induction first with
  | done opened => exact second
  | enter fresh _ ih => exact .enter fresh (ih second)
  | leave _ ih => exact .leave (ih second)

/-- The shared state of a conversion: the documents, the references that are
open, and what happened to these so far. -/
structure Visit where
  store : Store
  visited : List Key
  events : List Event := []

namespace Visit

/-- Marks a key. -/
def enter (key : Key) (visit : Visit) : Visit :=
  { visit with visited := key :: visit.visited, events := visit.events ++ [.entered key] }

/-- Takes the mark off a key, wherever it stands. -/
def leave (key : Key) (visit : Visit) : Visit :=
  { visit with
    visited := visit.visited.filter (· ≠ key), events := visit.events ++ [.left key] }

end Visit

/-- A computation over the shared state. -/
abbrev Visiting := Action Visit Fault

section

variable {α : Type}

/-- Runs what may load documents, given the keys that are open. -/
def onStore (action : List Key → Load α) : Visiting α := fun visit =>
  let (outcome, store) := (action visit.visited).run visit.store
  (outcome, { visit with store := store })

/-- Changes the state at the end of an action, whether it succeeded or failed. -/
def atEnd (action : Visiting α) (change : Visit → Visit) : Visiting α := fun visit =>
  let (outcome, reached) := action.run visit
  (outcome, change reached)

@[simp] theorem run_onStore (action : List Key → Load α) (visit : Visit) :
    (onStore action).run visit = (((action visit.visited).run visit.store).1,
      { visit with store := ((action visit.visited).run visit.store).2 }) := rfl

@[simp] theorem run_atEnd (action : Visiting α) (change : Visit → Visit) (visit : Visit) :
    (atEnd action change).run visit = ((action.run visit).1, change (action.run visit).2) := rfl

end

/-- Follows a reference that is not open and marks it once it has a target. -/
def enterTarget (source : Source) (ref : Json) (context : Context) :
    Visiting (Option (Context × Key)) := do
  match ← onStore (hop? source ref context) with
  | none => pure none
  | some (target, key) => do
    Action.update (Visit.enter key)
    pure (some (target, key))

/-- The type of a node, with the open references in the shared state. -/
def convertShared (source : Source) : Nat → Json → Context → Visiting TypeExpr
  | 0, _, _ => pure .unknown
  | budget + 1, node, context =>
    match Shape.ofNode node with
    | .reference ref => do
      match ← enterTarget source ref context with
      | none => pure .unknown
      | some (target, key) =>
        atEnd (convertShared source budget target.schema target) (Visit.leave key)
    | shape => do
      let types ← Action.each (fun child => convertShared source budget child context)
        shape.children
      pure (shape.build types)

/-- With these keys open, the shared computation does what the plain one does.
Its events are nested, and all marks are as before when it ends. -/
def Restores {α : Type} (visited : List Key) (shared : Visiting α) (plain : Load α) : Prop :=
  ∀ visit : Visit, visit.visited = visited → ∃ events, Nested visited events visited ∧
    shared.run visit = ((plain.run visit.store).1,
      { store := (plain.run visit.store).2
        visited := visited
        events := visit.events ++ events })

section Combinators

variable {α β : Type} {shared : Visiting α} {plain : Load α}

private theorem restores_pure (value : α) :
    Restores visited (pure value : Visiting α) (pure value : Load α) := by
  rintro visit rfl
  exact ⟨[], .done _, by simp⟩

private theorem restores_bind {sharedNext : α → Visiting β} {plainNext : α → Load β}
    (first : Restores visited shared plain)
    (second : ∀ value, Restores visited (sharedNext value) (plainNext value)) :
    Restores visited (shared >>= sharedNext) (plain >>= plainNext) := by
  intro visit same
  obtain ⟨early, nestedEarly, ran⟩ := first visit same
  rw [Action.run_bind, Action.run_bind, ran]
  rcases plain.run visit.store with ⟨outcome, reached⟩
  cases outcome with
  | error fault => exact ⟨early, nestedEarly, rfl⟩
  | ok value =>
    obtain ⟨late, nestedLate, rest⟩ := second value ⟨reached, visited, visit.events ++ early⟩ rfl
    exact ⟨early ++ late, nested_append nestedEarly nestedLate, by simpa using rest⟩

private theorem restores_each {f : β → Visiting α} {g : β → Load α} {items : List β}
    (single : ∀ item ∈ items, Restores visited (f item) (g item)) :
    Restores visited (Action.each f items) (Action.each g items) := by
  induction items with
  | nil => exact restores_pure []
  | cons item rest ih =>
    refine restores_bind (single item List.mem_cons_self) fun value => ?_
    refine restores_bind (ih ?_) fun values => restores_pure (value :: values)
    intro other member
    exact single other (List.mem_cons_of_mem _ member)

end Combinators

/-- What is done below a key that was entered and is left in the end. -/
private theorem nested_around {events : List Event} (fresh : key ∉ opened)
    (inner : Nested (key :: opened) events (key :: opened)) :
    Nested opened (.entered key :: events ++ [.left key]) opened :=
  .enter fresh (nested_append inner (.leave (.done opened)))

private theorem leave_entered (fresh : key ∉ visited) :
    (key :: visited).filter (· ≠ key) = visited := by
  have kept : visited.filter (· ≠ key) = visited := by
    apply List.filter_eq_self.mpr
    intro other member
    have differs : other ≠ key := by
      rintro rfl
      exact fresh member
    simpa using differs
  simpa using kept

private theorem convertShared_structural (source : Source) (budget : Nat) {node : Json}
    (context : Context) (inside : ∀ ref, Shape.ofNode node ≠ .reference ref) :
    convertShared source (budget + 1) node context = (do
      let types ← Action.each (fun child => convertShared source budget child context)
        (Shape.ofNode node).children
      pure ((Shape.ofNode node).build types)) := by
  rw [convertShared]
  split
  · rename_i ref shape
    exact absurd shape (inside ref)
  · rfl

/-- The conversion with shared marks is the plain one: the step is the reference
that is entered and left, and all other nodes only pass the marks on. -/
theorem convertShared_restores (source : Source) (budget : Nat) (node : Json) (context : Context)
    (visited : List Key) :
    Restores visited (convertShared source budget node context)
      (convert source budget node context visited) := by
  induction budget generalizing node context visited with
  | zero => exact restores_pure _
  | succ budget ih =>
    by_cases leaves : ∃ ref, Shape.ofNode node = .reference ref
    · obtain ⟨ref, shape⟩ := leaves
      rintro visit rfl
      rcases ran : (hop? source ref context visit.visited).run visit.store with ⟨answer, reached⟩
      simp only [convertShared, convert, shape, enterTarget, Action.run_bind, run_onStore, ran]
      cases answer with
      | error fault => exact ⟨[], .done _, by simp⟩
      | ok found =>
        cases found with
        | none => exact ⟨[], .done _, by simp⟩
        | some hop =>
          obtain ⟨target, key⟩ := hop
          -- Below the target the key is open, and it is open still when that ends.
          obtain ⟨_, _, _, fresh, _⟩ := hop_found ran
          obtain ⟨events, inner, rest⟩ := ih target.schema target (key :: visit.visited)
            ⟨reached, key :: visit.visited, visit.events ++ [.entered key]⟩ rfl
          refine ⟨.entered key :: events ++ [.left key], nested_around fresh inner, ?_⟩
          simp only [Action.run_bind, Action.run_update, Action.run_pure, run_atEnd, Visit.enter,
            rest, Visit.leave, leave_entered fresh, List.append_assoc, List.cons_append,
            List.nil_append]
    · have inside : ∀ ref, Shape.ofNode node ≠ .reference ref := fun ref shape =>
        leaves ⟨ref, shape⟩
      rw [convert_structural source budget context visited inside,
        convertShared_structural source budget context inside]
      refine restores_bind (restores_each fun child _ => ih child context visited) fun types => ?_
      exact restores_pure _

/-- The record rule by itself: a field for each property that a node names, in
order, and what it says about other fields. -/
def convertRecord (source : Source) (budget : Nat) (node : Json) (context : Context)
    (visited : List Key) : Load TypeExpr := do
  let fields ← Action.each (fun (name, value) => do
    let type ← convert source budget value context visited
    pure (fieldOf (Shape.requiredNames node) name value, type)) (Dispatch.declared node)
  match Shape.othersOf node with
  | .closed => pure (.record fields none)
  | .anything => pure (.record fields (some .unknown))
  | .typed other => do
    let type ← convert source budget other context visited
    pure (.record fields (some type))

/-- A node that the dispatch takes for a record is converted by that rule. -/
theorem convert_record (source : Source) (budget : Nat) {node : Json} (context : Context)
    (visited : List Key) {properties : List (String × Json)} {required : List String}
    {others : Others} (shape : Shape.ofNode node = .record properties required others) :
    convert source (budget + 1) node context visited =
      convertRecord source budget node context visited := by
  have calls := Dispatch.ofNode_calls node
  rw [shape] at calls
  cases calls with
  | record =>
    rw [convert, shape]
    rfl

section Answers

variable {view : String → Except Fault Json} {before : Store} {budget : Nat} {node : Json}

/-- The field of one property, told from the answers alone. -/
def fieldIn (view : String → Except Fault Json) (budget : Nat) (context : Context)
    (visited : List Key) (required : List String) (property : String × Json) :
    Except Fault (Field × TypeExpr) := do
  let type ← convertIn view budget property.2 context visited
  pure (fieldOf required property.1 property.2, type)

/-- The type of the other fields, told from the answers alone. -/
def indexIn (view : String → Except Fault Json) (budget : Nat) (context : Context)
    (visited : List Key) : Others → Except Fault (Option TypeExpr)
  | .closed => pure none
  | .anything => pure (some .unknown)
  | .typed other => do
    let type ← convertIn view budget other context visited
    pure (some type)

private theorem fieldIn_ok {required : List String} {property : String × Json}
    {field : Field × TypeExpr} :
    fieldIn view budget context visited required property = .ok field ↔
      field.1 = fieldOf required property.1 property.2 ∧
        convertIn view budget property.2 context visited = .ok field.2 := by
  unfold fieldIn
  cases converted : convertIn view budget property.2 context visited with
  | error fault =>
    constructor
    · intro impossible
      cases impossible
    · rintro ⟨_, impossible⟩
      cases impossible
  | ok type =>
    constructor
    · intro same
      cases same
      exact ⟨rfl, rfl⟩
    · rintro ⟨known, same⟩
      cases same
      exact congrArg Except.ok (Prod.ext known.symm rfl)

/-- In a steady context the record rule gives what the answers stand for. -/
theorem convertRecord_gives (steady : Steady source before context) (budget : Nat) (node : Json)
    (visited : List Key) :
    Gives source before (convertRecord source budget node context visited) (do
      let fields ← (Dispatch.declared node).mapM
        (fieldIn (fetch source before) budget context visited (Shape.requiredNames node))
      let index ← indexIn (fetch source before) budget context visited (Shape.othersOf node)
      pure (.record fields index)) := by
  have converted : ∀ child middle, Grows source before middle →
      Gives source middle (convert source budget child context visited)
        (convertIn (fetch source before) budget child context visited) := by
    intro child middle grown
    rw [← grown.same]
    exact convert_gives (steady_later steady grown) budget child visited
  unfold convertRecord
  refine gives_bind (gives_each ?_) ?_
  · intro property _ middle grown
    exact gives_bind (converted property.2 middle grown) fun _ _ _ _ => gives_pure _
  · intro fields _ middle grown
    cases Shape.othersOf node with
    | closed => exact gives_pure _
    | anything => exact gives_pure _
    | typed other =>
      simp only [indexIn, bind_assoc, pure_bind]
      exact gives_bind (converted other middle grown) fun _ _ _ _ => gives_pure _

/-- Writing other properties into a node changes nothing that the record rule
reads besides them. -/
private theorem record_reads {properties : List (String × Json)}
    (found : node.field? "properties" = some (.obj properties))
    (permuted : List (String × Json)) :
    Dispatch.declared (node.withField "properties" (.obj permuted)) = permuted ∧
      Shape.requiredNames (node.withField "properties" (.obj permuted)) =
        Shape.requiredNames node ∧
      Shape.othersOf (node.withField "properties" (.obj permuted)) = Shape.othersOf node := by
  have asked := fun name => Json.field?_withField (.obj permuted) name found
  refine ⟨?_, ?_, ?_⟩
  · simp only [Dispatch.declared, asked, ↓reduceIte]
  · simp [Shape.requiredNames, asked]
  · simp [Shape.othersOf, asked]

/-- A record that is converted has one field for each property, made from the
answers for that property, and an index made from those for the others. -/
private theorem convertRecord_ok {type : TypeExpr} {after : Store}
    (steady : Steady source before context)
    (ran : (convertRecord source budget node context visited).run before = (.ok type, after)) :
    ∃ fields index, type = .record fields index ∧
      List.Forall₂ (fun property field =>
        fieldIn (fetch source before) budget context visited (Shape.requiredNames node) property =
          .ok field) (Dispatch.declared node) fields ∧
      indexIn (fetch source before) budget context visited (Shape.othersOf node) = .ok index := by
  obtain ⟨reached, given, _⟩ : Gives source before _ _ :=
    convertRecord_gives steady budget node visited
  have answered := congrArg Prod.fst (ran.symm.trans given)
  cases fieldsIn : (Dispatch.declared node).mapM
      (fieldIn (fetch source before) budget context visited (Shape.requiredNames node)) with
  | error fault =>
    rw [fieldsIn] at answered
    cases answered
  | ok fields =>
    cases other : indexIn (fetch source before) budget context visited (Shape.othersOf node) with
    | error fault =>
      rw [fieldsIn, other] at answered
      cases answered
    | ok index =>
      rw [fieldsIn, other] at answered
      cases answered
      exact ⟨fields, index, rfl, mapM_ok_iff.mp fieldsIn, rfl⟩

/-- The same properties in another order give the same fields in another order. -/
private theorem convertRecord_permuted {properties permuted : List (String × Json)}
    {fields : List (Field × TypeExpr)} {index : Option TypeExpr}
    (steady : Steady source before context)
    (found : node.field? "properties" = some (.obj properties)) (reordered : permuted.Perm properties)
    (each : List.Forall₂ (fun property field =>
      fieldIn (fetch source before) budget context visited (Shape.requiredNames node) property =
        .ok field) (Dispatch.declared node) fields)
    (other : indexIn (fetch source before) budget context visited (Shape.othersOf node) =
      .ok index) :
    ∃ swapped last,
      (convertRecord source budget (node.withField "properties" (.obj permuted)) context
        visited).run before = (.ok (.record swapped index), last) ∧ swapped.Perm fields := by
  obtain ⟨named, required, rest⟩ := record_reads found permuted
  have declared : Dispatch.declared node = properties := by
    simp only [Dispatch.declared, found]
  rw [declared] at each
  obtain ⟨swapped, eachSwapped, moved⟩ := List.perm_comp_forall₂ reordered each
  obtain ⟨last, given, _⟩ : Gives source before _ _ :=
    convertRecord_gives steady budget (node.withField "properties" (.obj permuted)) visited
  rw [named, required, rest, mapM_ok_iff.mpr eachSwapped, other] at given
  exact ⟨swapped, last, given, moved⟩

end Answers

/-- **Branches do not influence each other.** A conversion that shares its marks
between all branches leaves them exactly as they were, on success and on a
fault, enters no key that is still open, and does what the conversion with
marks of its own does. In a context made by the store, a record that is
converted has for each property the type that the property has alone, and with
its properties in another order it has the same fields in another order. -/
theorem branches_independent (source : Source) (budget : Nat) (node : Json) (context : Context)
    (visited : List Key) :
    (∀ visit : Visit, visit.visited = visited → ∃ events, Nested visited events visited ∧
      (convertShared source budget node context).run visit =
        (((convert source budget node context visited).run visit.store).1,
          { store := ((convert source budget node context visited).run visit.store).2
            visited := visited
            events := visit.events ++ events })) ∧
      (∀ properties required others, Shape.ofNode node = .record properties required others →
        convert source (budget + 1) node context visited =
          convertRecord source budget node context visited) ∧
      ∀ before type after, Made source before context →
        (convertRecord source budget node context visited).run before = (.ok type, after) →
        ∃ fields index, type = .record fields index ∧
          List.Forall₂ (fun property field =>
            field.1 = fieldOf (Shape.requiredNames node) property.1 property.2 ∧
              ((convert source budget property.2 context visited).run before).1 = .ok field.2)
            (Dispatch.declared node) fields ∧
          ∀ properties permuted, node.field? "properties" = some (.obj properties) →
            permuted.Perm properties →
            ∃ swapped last,
              (convertRecord source budget (node.withField "properties" (.obj permuted)) context
                visited).run before = (.ok (.record swapped index), last) ∧
              swapped.Perm fields := by
  refine ⟨convertShared_restores source budget node context visited,
    fun _ _ _ shape => convert_record source budget context visited shape, ?_⟩
  intro before type after made ran
  have steady : Steady source before context := .inl (made_held made)
  obtain ⟨fields, index, same, each, other⟩ := convertRecord_ok steady ran
  refine ⟨fields, index, same, each.imp fun property field alone => ?_,
    fun properties permuted found reordered =>
      convertRecord_permuted steady found reordered each other⟩
  obtain ⟨described, converted⟩ := fieldIn_ok.mp alone
  obtain ⟨reached, given, _⟩ : Gives source before _ _ :=
    convert_gives steady budget property.2 visited
  rw [given]
  exact ⟨described, converted⟩

/-- Two properties that refer to one definition. -/
def siblings : List (String × Json) :=
  [("a", .obj [("$ref", .str "#/definitions/n")]), ("b", .obj [("$ref", .str "#/definitions/n")])]

def siblingDocument : Json :=
  .obj [("definitions", .obj [("n", .obj [("type", .str "number")])]),
    ("properties", .obj siblings)]

def siblingStore : Store := ⟨[("d", siblingDocument)]⟩

theorem branches_independent_siblings :
    Made noFiles siblingStore ⟨siblingDocument, "d"⟩ ∧
      (convertRecord noFiles 2 siblingDocument ⟨siblingDocument, "d"⟩ []).run siblingStore =
        (.ok (.record [({ name := "a" }, .primitive "number"), ({ name := "b" }, .primitive "number")]
          none), siblingStore) ∧
      ∃ swapped last,
        (convertRecord noFiles 2 (siblingDocument.withField "properties" (.obj siblings.reverse))
          ⟨siblingDocument, "d"⟩ []).run siblingStore = (.ok (.record swapped none), last) ∧
        swapped.Perm [({ name := "a" }, .primitive "number"), ({ name := "b" }, .primitive "number")]
        := by
  have made : Made noFiles siblingStore ⟨siblingDocument, "d"⟩ :=
    .root (show (Store.context noFiles "d").run siblingStore = _ from rfl)
  have ran : (convertRecord noFiles 2 siblingDocument ⟨siblingDocument, "d"⟩ []).run siblingStore =
      (.ok (.record [({ name := "a" }, .primitive "number"), ({ name := "b" }, .primitive "number")]
        none), siblingStore) := rfl
  obtain ⟨fields, index, same, _, permuting⟩ :=
    (branches_independent noFiles 2 siblingDocument ⟨siblingDocument, "d"⟩ []).2.2 _ _ _ made ran
  cases same
  exact ⟨made, ran, permuting siblings siblings.reverse rfl (List.reverse_perm _)⟩

end EntitySchema.Branches
