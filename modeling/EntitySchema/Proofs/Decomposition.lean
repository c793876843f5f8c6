import EntitySchema.Proofs.Dispatch
import EntitySchema.Synthesis

/-! A conversion taken apart. Whatever rule a node falls under, its type is
built from the types of a fixed list of child nodes, which are converted in
order in the same context; only a reference leaves the context, by a hop that
does nothing but resolve it. Everything said of conversion elsewhere follows
these two cases instead of the rules. -/
namespace EntitySchema

namespace Action

variable {σ ε α β γ : Type}

theorem ext_run {first second : Action σ ε α} (same : ∀ s, first.run s = second.run s) :
    first = second :=
  funext same

private theorem map_id_run (action : Action σ ε α) : id <$> action = action := by
  apply ext_run
  intro s
  change (action.andThen fun a => pure a).run s = _
  simp only [andThen, run]
  cases action s with
  | mk outcome reached => cases outcome <;> rfl

private theorem bind_assoc_run (action : Action σ ε α) (first : α → Action σ ε β)
    (second : β → Action σ ε γ) :
    action >>= first >>= second = action >>= fun a => first a >>= second := by
  apply ext_run
  intro s
  simp only [run_bind]
  cases action.run s with
  | mk outcome reached => cases outcome <;> rfl

instance : LawfulMonad (Action σ ε) :=
  LawfulMonad.mk' _ map_id_run (fun _ _ => rfl) bind_assoc_run

theorem each_map (f : β → Action σ ε γ) (g : α → β) (items : List α) :
    each f (items.map g) = each (fun item => f (g item)) items := by
  induction items with
  | nil => rfl
  | cons item rest ih => simp only [List.map_cons, each, ih]

theorem each_append (f : α → Action σ ε β) (first second : List α) :
    each f (first ++ second) = (do
      let before ← each f first
      let after ← each f second
      pure (before ++ after)) := by
  induction first with
  | nil => simp [each]
  | cons item rest ih => simp only [List.cons_append, each, ih, bind_assoc, pure_bind]

/-- Work done on each result afterwards may be done at once. -/
theorem each_then (f : α → Action σ ε β) (finish : α → β → γ) (items : List α) :
    each (fun item => do let b ← f item; pure (finish item b)) items = (do
      let results ← each f items
      pure (items.zipWith finish results)) := by
  induction items with
  | nil => simp [each]
  | cons item rest ih => simp only [each, ih, bind_assoc, pure_bind, List.zipWith_cons_cons]

/-- A success has gone on from a success. -/
theorem bind_ran {action : Action σ ε α} {next : α → Action σ ε β} {result : β} {s after : σ}
    (ran : (action >>= next).run s = (.ok result, after)) :
    ∃ value middle, action.run s = (.ok value, middle) ∧
      (next value).run middle = (.ok result, after) := by
  rw [run_bind] at ran
  rcases first : action.run s with ⟨fault | value, middle⟩
  · rw [first] at ran
    cases ran
  · rw [first] at ran
    exact ⟨value, middle, rfl, ran⟩

/-- A successful pass has succeeded on the first element and then on the others. -/
theorem each_cons_ran {f : α → Action σ ε β} {item : α} {rest : List α} {results : List β}
    {s after : σ} (ran : (each f (item :: rest)).run s = (.ok results, after)) :
    ∃ result more middle, results = result :: more ∧ (f item).run s = (.ok result, middle) ∧
      (each f rest).run middle = (.ok more, after) := by
  obtain ⟨result, middle, first, others⟩ := bind_ran ran
  obtain ⟨more, last, second, done⟩ := bind_ran others
  cases done
  exact ⟨result, more, middle, rfl, first, second⟩

/-- A successful pass gives one result for each element. -/
theorem each_length {f : α → Action σ ε β} {items : List α} {results : List β} {s after : σ}
    (ran : (each f items).run s = (.ok results, after)) : results.length = items.length := by
  induction items generalizing s results with
  | nil => cases ran; rfl
  | cons item rest ih =>
    obtain ⟨result, more, middle, rfl, _, others⟩ := each_cons_ran ran
    rw [List.length_cons, List.length_cons, ih others]

end Action

/-- The node that a record's other fields are converted by, if there is one. -/
def Others.nodes : Others → List Json
  | .closed | .anything => []
  | .typed node => [node]

/-- The type of a record's other fields, from the types of `nodes`. -/
def Others.index : Others → List TypeExpr → Option TypeExpr
  | .closed, _ => none
  | .anything, _ => some .unknown
  | .typed _, types => types.head?

namespace Shape

open Synthesis

/-- The nodes that are converted for a shape, in the order of conversion. -/
def children : Shape → List Json
  | .anyOf nodes | .allOf nodes | .tuple nodes => nodes
  | .array item => [item]
  | .record properties _ others => properties.map Prod.snd ++ others.nodes
  | .unknown | .reference _ | .values _ | .value _ | .anyArray | .anyObject | .primitive _ => []

/-- The type of a shape, from the types of its children. -/
def build : Shape → List TypeExpr → TypeExpr
  | .anyOf _, types => TypeExpr.anyOf types
  | .allOf _, types => TypeExpr.allOf types
  | .values options, _ => TypeExpr.anyOf (options.map .literal)
  | .value fixed, _ => .literal fixed
  | .tuple _, types => .tuple types
  | .array _, types => .array (types.headD .unknown)
  | .anyArray, _ => .array .unknown
  | .anyObject, _ => .map .unknown
  | .record properties required others, types =>
    .record (properties.zipWith (fun entry type => (fieldOf required entry.1 entry.2, type)) types)
      (others.index (types.drop properties.length))
  | .primitive name, _ => .primitive name
  | .unknown, _ | .reference _, _ => .unknown

end Shape

namespace Synthesis

open Reference

private theorem zipWith_longer {α β γ : Type} (f : α → β → γ) {first : List α} {second : List β}
    (length : second.length = first.length) (extra : List β) :
    first.zipWith f (second ++ extra) = first.zipWith f second := by
  calc first.zipWith f (second ++ extra)
      = (first ++ []).zipWith f (second ++ extra) := by rw [List.append_nil]
    _ = first.zipWith f second := by rw [List.zipWith_append length.symm]; simp

private theorem record_structural (convertNode : Json → Load TypeExpr)
    (properties : List (String × Json)) (required : List String) (others : Others) :
    (do
      let fields ← Action.each (fun (name, node) => do
        let type ← convertNode node
        pure (fieldOf required name node, type)) properties
      match others with
      | .closed => pure (.record fields none)
      | .anything => pure (.record fields (some .unknown))
      | .typed node => do
        let type ← convertNode node
        pure (.record fields (some type))) = (do
      let types ← Action.each convertNode (properties.map Prod.snd ++ others.nodes)
      pure ((Shape.record properties required others).build types)) := by
  have fields := Action.each_then (fun entry : String × Json => convertNode entry.2)
    (fun entry type => (fieldOf required entry.1 entry.2, type)) properties
  apply Action.ext_run
  intro s
  rw [Action.each_append, Action.each_map]
  simp only [fields, bind_assoc, pure_bind]
  rw [Action.run_bind, Action.run_bind]
  cases ran : (Action.each (fun entry : String × Json => convertNode entry.2) properties).run s with
  | mk outcome reached =>
    cases outcome with
    | error e => rfl
    | ok types =>
      have length := Action.each_length ran
      cases others with
      | closed => simp [Others.nodes, Others.index, Shape.build, Action.each]
      | anything => simp [Others.nodes, Others.index, Shape.build, Action.each]
      | typed node =>
        simp only [Others.nodes, Action.each, bind_assoc, pure_bind]
        simp [Others.index, Shape.build, length, zipWith_longer]

/-- A node that is no reference is converted by converting its children. -/
theorem convert_structural (source : Source) (budget : Nat) {node : Json} (context : Context)
    (seen : List Key) (inside : ∀ ref, Shape.ofNode node ≠ .reference ref) :
    convert source (budget + 1) node context seen = (do
      let types ← Action.each (fun child => convert source budget child context seen)
        (Shape.ofNode node).children
      pure ((Shape.ofNode node).build types)) := by
  rw [convert]
  cases shape : Shape.ofNode node with
  | reference ref => exact absurd shape (inside ref)
  | record properties required others =>
    exact record_structural (fun node => convert source budget node context seen) _ _ _
  | _ => simp [Shape.children, Shape.build, Action.each]

end Synthesis

namespace Reference

variable {source : Source} {context : Context} {seen : List Key} {name : String}

/-- What a hop along a key gives when its reference is resolved with this outcome. -/
def hopOutcome (key : Key) : Except Fault (Option Context) → Except Fault (Option (Context × Key))
  | .ok found => .ok (found.map (·, key))
  | .error fault => if fault.isReferenceFault then .ok none else .error fault

theorem hop_followed (followed : (context.path, name) ∈ seen) :
    hop? source (.str name) context seen = pure none := by
  have contained : seen.contains (context.path, name) = true := by simpa using followed
  simp only [hop?, step, contained, ↓reduceIte]
  rfl

/-- A hop along a key that was not followed before resolves the reference. -/
theorem hop_resolved (fresh : (context.path, name) ∉ seen) (store : Store) :
    (hop? source (.str name) context seen).run store =
      (hopOutcome (context.path, name) ((resolve source name context).run store).1,
        ((resolve source name context).run store).2) := by
  have outside : seen.contains (context.path, name) = false := by simpa using fresh
  simp only [hop?, step, outside, Bool.false_eq_true, ↓reduceIte, Action.run_orElse,
    map_eq_pure_bind, Action.run_bind]
  rcases (resolve source name context).run store with ⟨outcome, reached⟩
  cases outcome with
  | error fault =>
    simp only [hopOutcome]
    split <;> rfl
  | ok found => cases found <;> rfl

/-- A hop that leads somewhere goes along a string that was not followed before,
to its target. -/
theorem hop_found {ref : Json} {before after : Store} {target : Context} {key : Key}
    (ran : (hop? source ref context seen).run before = (.ok (some (target, key)), after)) :
    ∃ name, ref = .str name ∧ key = (context.path, name) ∧ key ∉ seen ∧
      (resolve source name context).run before = (.ok (some target), after) := by
  cases ref with
  | str name =>
    by_cases followed : (context.path, name) ∈ seen
    · rw [hop_followed followed] at ran
      cases ran
    · rw [hop_resolved followed] at ran
      rcases resolved : (resolve source name context).run before with ⟨outcome, reached⟩
      rw [resolved] at ran
      cases outcome with
      | error fault =>
        simp only [hopOutcome] at ran
        split at ran <;> cases ran
      | ok found =>
        cases found with
        | none => cases ran
        | some found =>
          cases ran
          exact ⟨name, rfl, rfl, followed, resolved⟩
  | _ => cases ran

end Reference
end EntitySchema
