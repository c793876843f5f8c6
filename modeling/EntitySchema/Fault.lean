import EntitySchema.Number.Basic

/-! The ways in which schema documents and the references between them fail. -/
namespace EntitySchema

/-- Why a document or a reference cannot be used. -/
inductive Fault where
  /-- No document has this path below the schema root. -/
  | notFound (path : String)
  /-- The document is no JSON, for the reason given. -/
  | malformed (path detail : String)
  /-- The reference, written in the document `path`, has no target. -/
  | unresolved (ref path : String)
  /-- The reference, written in the document `path`, was followed before. -/
  | cyclic (ref path : String)
  /-- No file name holds a zero character. -/
  | zeroCharacter
  /-- A file name, or the path to it, is longer than the system takes. -/
  | nameTooLong
  /-- An array position in a pointer has too many digits to be read. -/
  | longPosition (digits : Nat)
  deriving DecidableEq, Repr

namespace Fault

/-- What is said of a fault. -/
def message : Fault → String
  | .notFound path => "Schema document not found: " ++ path
  | .malformed path detail => "Schema document " ++ path ++ " is not valid JSON: " ++ detail
  | .unresolved ref path => path ++ ": cannot resolve $ref '" ++ ref ++ "'"
  | .cyclic ref path => path ++ ": $ref '" ++ ref ++ "' loops back on itself"
  | .zeroCharacter => "embedded null byte"
  | .nameTooLong => "File name too long"
  | .longPosition digits => Number.digitLimitMessage digits

/-- Is this a fault of the schema's content, for which a command reports an
error? The others come from names and numbers that cannot be handled. -/
def isSchemaFault : Fault → Bool
  | .zeroCharacter | .nameTooLong | .longPosition _ => false
  | _ => true

/-- A reference that leads nowhere or back to itself. Converters and followers
take it for an end of the chain and go on. -/
def isReferenceFault : Fault → Bool
  | .unresolved .. | .cyclic .. => true
  | _ => false

end Fault
end EntitySchema
