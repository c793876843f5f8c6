import EntitySchema.Proofs.StoreView
import Mathlib.Data.List.Forall2

/-! Conversion as a function of the answers. In a context whose document is
loaded or cannot be, the type of a node and the fault that stops it depend on what the store
answers and on nothing else about it, so a run can be replaced by a stateless
function wherever only its result matters. -/
namespace EntitySchema.ConversionView
open Reference Synthesis StoreView

variable {source : Source} {before after : Store} {context : Context}

/-- The type of a node, told from the answers alone. -/
def convertIn (view : String → Except Fault Json) :
    Nat → Json → Context → List Key → Except Fault TypeExpr
  | 0, _, _, _ => .ok .unknown
  | budget + 1, node, context, seen =>
    match Shape.ofNode node with
    | .reference ref => do
      match ← hopIn view ref context seen with
      | none => .ok .unknown
      | some (target, key) => convertIn view budget target.schema target (key :: seen)
    | shape => do
      let types ← shape.children.mapM fun child => convertIn view budget child context seen
      pure (shape.build types)

theorem mapM_ok_iff {α β ε : Type} {f : α → Except ε β} {items : List α} {results : List β} :
    items.mapM f = .ok results ↔ List.Forall₂ (fun item result => f item = .ok result) items results := by
  induction items generalizing results with
  | nil =>
    rw [List.forall₂_nil_left_iff]
    exact ⟨fun same => by cases same; rfl, fun empty => by rw [empty]; rfl⟩
  | cons item rest ih =>
    rw [List.mapM_cons, List.forall₂_cons_left_iff]
    constructor
    · intro ran
      cases head : f item with
      | error fault => rw [head] at ran; cases ran
      | ok result =>
        cases tail : rest.mapM f with
        | error fault => rw [head, tail] at ran; cases ran
        | ok others =>
          rw [head, tail] at ran
          cases ran
          exact ⟨result, others, rfl, ih.mp tail, rfl⟩
    · rintro ⟨result, others, head, tail, rfl⟩
      rw [head, ih.mpr tail]
      rfl

theorem related_left {α β : Type} {R : α → β → Prop} {items : List α} {results : List β} {item : α}
    (related : List.Forall₂ R items results) (member : item ∈ items) :
    ∃ result ∈ results, R item result := by
  induction related with
  | nil => cases member
  | cons head tail ih =>
    rcases List.mem_cons.mp member with rfl | member
    · exact ⟨_, by simp, head⟩
    · obtain ⟨result, found, holds⟩ := ih member
      exact ⟨result, by simp [found], holds⟩

theorem convertIn_structural (view : String → Except Fault Json) (budget : Nat) {node : Json}
    (context : Context) (seen : List Key) (inside : ∀ ref, Shape.ofNode node ≠ .reference ref) :
    convertIn view (budget + 1) node context seen = (do
      let types ← (Shape.ofNode node).children.mapM fun child =>
        convertIn view budget child context seen
      pure ((Shape.ofNode node).build types)) := by
  rw [convertIn]
  split
  · rename_i ref shape
    exact absurd shape (inside ref)
  · rfl

theorem convertIn_ok {view : String → Except Fault Json} {budget : Nat} {node : Json}
    {seen : List Key} {type : TypeExpr} (inside : ∀ ref, Shape.ofNode node ≠ .reference ref) :
    convertIn view (budget + 1) node context seen = .ok type ↔
      ∃ types, List.Forall₂ (fun child type => convertIn view budget child context seen = .ok type)
        (Shape.ofNode node).children types ∧ type = (Shape.ofNode node).build types := by
  rw [convertIn_structural view budget context seen inside]
  constructor
  · intro ran
    cases converted : (Shape.ofNode node).children.mapM fun child =>
        convertIn view budget child context seen with
    | error fault => rw [converted] at ran; cases ran
    | ok types =>
      rw [converted] at ran
      cases ran
      exact ⟨types, mapM_ok_iff.mp converted, rfl⟩
  · rintro ⟨types, children, rfl⟩
    rw [mapM_ok_iff.mpr children]
    rfl

/-- From this store the computation has this outcome, and it only loads. -/
def Gives {α : Type} (source : Source) (before : Store) (action : Load α)
    (outcome : Except Fault α) : Prop :=
  ∃ after, action.run before = (outcome, after) ∧ Grows source before after

theorem gives_pure {α : Type} (value : α) : Gives source before (pure value) (.ok value) :=
  ⟨before, rfl, grows_refl _⟩

theorem gives_bind {α β : Type} {action : Load α} {outcome : Except Fault α} {f : α → Load β}
    {g : α → Except Fault β} (first : Gives source before action outcome)
    (second : ∀ value, outcome = .ok value → ∀ middle, Grows source before middle →
      Gives source middle (f value) (g value)) :
    Gives source before (action >>= f) (outcome >>= g) := by
  obtain ⟨middle, ran, grown⟩ := first
  cases outcome with
  | error fault => exact ⟨middle, by rw [Action.run_bind, ran]; rfl, grown⟩
  | ok value =>
    obtain ⟨after, rest, later⟩ := second value rfl middle grown
    exact ⟨after, by rw [Action.run_bind, ran]; exact rest, grows_trans grown later⟩

/-- A pass over a list gives what its elements give one by one, when each of
them gives the same from every store that loading may have led to. -/
theorem gives_each {α β : Type} {f : α → Load β} {g : α → Except Fault β} {items : List α}
    (single : ∀ item ∈ items, ∀ middle, Grows source before middle →
      Gives source middle (f item) (g item)) :
    Gives source before (Action.each f items) (items.mapM g) := by
  induction items generalizing before with
  | nil => exact gives_pure []
  | cons item rest ih =>
    rw [List.mapM_cons]
    refine gives_bind (single item (by simp) before (grows_refl _)) ?_
    intro value _ middle grown
    refine gives_bind (ih ?_) (fun values _ last _ => gives_pure _)
    intro other member later reached
    exact single other (by simp [member]) later (grows_trans grown reached)

/-- In a steady context, conversion gives the type that the answers stand for. -/
theorem convert_gives (steady : Steady source before context) (budget : Nat) (node : Json) (seen : List Key) :
    Gives source before (convert source budget node context seen)
      (convertIn (fetch source before) budget node context seen) := by
  induction budget generalizing before context node seen with
  | zero => exact gives_pure _
  | succ budget ih =>
    by_cases leaves : ∃ ref, Shape.ofNode node = .reference ref
    · obtain ⟨ref, shape⟩ := leaves
      rcases ran : (hop? source ref context seen).run before with ⟨answer, middle⟩
      obtain ⟨rfl, grown, holds⟩ := hop_ran steady ran
      simp only [convert, shape, convertIn]
      cases hopped : hopIn (fetch source before) ref context seen with
      | error fault => exact ⟨middle, by rw [Action.run_bind, ran, hopped]; rfl, grown⟩
      | ok found =>
        cases found with
        | none => exact ⟨middle, by rw [Action.run_bind, ran, hopped]; rfl, grown⟩
        | some hop =>
          obtain ⟨target, key⟩ := hop
          obtain ⟨after, rest, later⟩ := ih (holds target key hopped) target.schema (key :: seen)
          rw [grown.same] at rest
          exact ⟨after, by rw [Action.run_bind, ran, hopped]; exact rest, grows_trans grown later⟩
    · have inside : ∀ ref, Shape.ofNode node ≠ .reference ref := fun ref shape =>
        leaves ⟨ref, shape⟩
      rw [convert_structural source budget context seen inside,
        convertIn_structural _ budget context seen inside]
      refine gives_bind (gives_each ?_) (fun types _ middle _ => gives_pure _)
      intro child _ middle grown
      rw [← grown.same]
      exact ih (steady_later steady grown) child seen

/-- Synthesis in a steady context is a function of the answers. -/
theorem synthesize_gives (steady : Steady source before context) (maxDepth : Int) (node : Json)
    (depth : Int) :
    Gives source before (synthesize source maxDepth node context depth)
      (convertIn (fetch source before) (budgetAt maxDepth depth) node context []) :=
  convert_gives steady _ node []

end EntitySchema.ConversionView
