/-! The pinned repository that the schemas come from. -/
namespace EntitySchema.Repository

/-- Who publishes the schemas. -/
def owner : String := "Blockception"

/-- The name of the repository. -/
def name : String := "Minecraft-bedrock-json-schemas"

/-- Owner and name, as they stand in an address. -/
def fullName : String := owner ++ "/" ++ name

/-- The revision that types are generated from. -/
def revision : String := "2cc0b9b10b48bc7937cf86845c83504e40b9458f"

/-- The document whose properties are the entity components. -/
def rootSchema : String := "source/behavior/entities/format/components.json"

/-- The address of the archive of a revision. -/
def archiveUrl (repository revision : String) : String :=
  "https://codeload.github.com/" ++ repository ++ "/tar.gz/" ++ revision

end EntitySchema.Repository
