import EntitySchema.Synthesis
import EntitySchema.TypeModule

/-! From a root schema to a module. Every property of the root schema becomes
a component; one about which nothing can be found out is kept as `unknown`,
with a notice. -/
namespace EntitySchema

/-- The documents and the notices of a compilation so far. Both stay when a
fault ends it. -/
structure Progress where
  store : Store := {}
  notices : List String := []

/-- A step of a compilation. -/
abbrev Compile := Action Progress Fault

namespace Compilation

/-- Runs a computation on the store of a compilation. -/
def onStore {α : Type} (action : Load α) : Compile α :=
  action.onPart Progress.store (fun store progress => { progress with store := store }) id

theorem run_onStore {α : Type} (action : Load α) (progress : Progress) :
    (onStore action).run progress =
      ((action.run progress.store).1, { progress with store := (action.run progress.store).2 }) := by
  have unnamed (outcome : Except Fault α) : outcome.mapError id = outcome := by
    cases outcome <;> rfl
  simp only [onStore, Action.onPart, Action.run, unnamed]

/-- Adds a notice. -/
def notice (line : String) : Compile Unit :=
  Action.update fun progress => { progress with notices := progress.notices ++ [line] }

/-- What the root schema declares, when that is a set of named nodes. -/
def declared? (root : Json) : Option (List (String × Json)) :=
  match root.field? "properties" with
  | some (.obj properties) => some properties
  | _ => none

/-- The component of one property: its node is followed to the first that is
no reference, which gives the type and, if it has them, the texts. -/
def component (source : Source) (root : Context) (name : String) (node : Json) :
    Compile Component := do
  let resolved ← onStore (Reference.follow source node root)
  let type ← onStore
    (Synthesis.synthesize source Synthesis.defaultDepth resolved.schema resolved 0)
  match type with
  | .unknown => notice ("Warning: no type information for component " ++ name)
  | _ => pure ()
  let text? (keyword : String) :=
    (Docs.text? resolved.schema keyword).or (Docs.text? node keyword)
  pure { name := name, type := type, title := text? "title", description := text? "description" }

/-- The components that the root schema declares. -/
def components (source : Source) (rootSchema : String) : Compile (List Component) := do
  let root ← onStore (Store.context source rootSchema)
  match declared? root.schema with
  | some properties => Action.each (fun (name, node) => component source root name node) properties
  | none =>
    notice ("Warning: " ++ rootSchema ++ " declares no component properties")
    pure []

/-- The text of the module for a root schema. -/
def compile (source : Source) (rootSchema : String) (target : TypeModule) : Compile String := do
  let found ← components source rootSchema
  pure (target.render found)

theorem run_compile (source : Source) (rootSchema : String) (target : TypeModule)
    (progress : Progress) :
    (compile source rootSchema target).run progress =
      (((components source rootSchema).run progress).1.map target.render,
        ((components source rootSchema).run progress).2) := by
  rw [compile, Action.run_bind]
  rcases (components source rootSchema).run progress with ⟨outcome, reached⟩
  cases outcome with
  | error fault => rfl
  | ok found => rfl

end Compilation
end EntitySchema
