import EntitySchema.Component
import EntitySchema.Repository
import EntitySchema.TypeExpr.Printer

/-! The TypeScript module that declares all components: a banner, one type a
component, and an interface that lists them all. -/
namespace EntitySchema

/-- What a module says about its origin, and how its declarations are named. -/
structure TypeModule where
  repository : String := Repository.fullName
  revision : String := Repository.revision
  rootSchema : String := Repository.rootSchema
  typePrefix : String := "EntityComponent"
  interfaceName : String := "EntityComponents"

namespace TypeModule

/-- The comment at the head of the module. -/
def banner (target : TypeModule) : String :=
  "\n".intercalate
    ["/*",
     " * AUTO-GENERATED FILE",
     " * Source repo: " ++ target.repository,
     " * Source ref: " ++ target.revision,
     " * Script: schema_compiler.py",
     " *",
     " * Do not edit this file directly. Run `bedrock-component-types` instead.",
     " * Source file: " ++ target.rootSchema,
     " * Origin: https://raw.githubusercontent.com/" ++ target.repository ++ "/" ++
       target.revision ++ "/" ++ target.rootSchema,
     " */"]

/-- The declaration of one component's type, with its comment. -/
def declaration (component : Component) (typeName : String) : String :=
  let docs : Docs := { title := component.title, description := component.description }
  let comment := docs.comment ""
  (if comment = "" then "" else comment ++ "\n") ++
    "export type " ++ typeName ++ " = " ++ component.type.text ++ ";"

/-- The line of one component in the interface. -/
def interfaceLine (component : Component) (typeName : String) : String :=
  "  " ++ quoteString component.name ++ "?: " ++ typeName ++ ";"

/-- The interface that lists all components. -/
def interface (target : TypeModule) (components : List Component) (names : List String) :
    String :=
  "\n".intercalate
    (["/**",
      " * All known Minecraft entity components with strong TypeScript types.",
      " */",
      "export interface " ++ target.interfaceName ++ " \x7b"] ++
     List.zipWith interfaceLine components names ++
     ["\x7d", "", "export default " ++ target.interfaceName ++ ";"])

/-- The text of the module. -/
def render (target : TypeModule) (components : List Component) : String :=
  let names := Component.typeNames target.typePrefix components
  "\n\n".intercalate
    (target.banner :: List.zipWith declaration components names ++
      [target.interface components names]) ++ "\n"

end TypeModule
end EntitySchema
