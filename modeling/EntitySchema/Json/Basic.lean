import EntitySchema.Entries
import EntitySchema.Number.Basic

/-! Documents as values. Objects keep the order of their fields, and numbers
keep their kind, because both are visible in what is written. -/
namespace EntitySchema

/-- A document, or a node inside one. -/
inductive Json where
  | null
  | bool (value : Bool)
  | num (value : Num)
  | str (value : String)
  | arr (items : List Json)
  | obj (fields : List (String × Json))
  deriving Repr, Inhabited

namespace Json

instance (n : Nat) : OfNat Json n := ⟨.num (OfNat.ofNat n)⟩

instance : OfScientific Json where
  ofScientific digits negativeExponent exponent :=
    .num (OfScientific.ofScientific digits negativeExponent exponent)

instance : Coe Num Json := ⟨.num⟩
instance : Coe Bool Json := ⟨.bool⟩
instance : Coe String Json := ⟨.str⟩

/-- A list of strings as a value. -/
def strings (items : List String) : Json :=
  .arr (items.map .str)

/-- The value of a field; nodes other than objects have none. -/
def field? (name : String) : Json → Option Json
  | .obj fields => fields.lookup name
  | _ => none

/-- The value, unless it is `null`: a field that holds `null` counts as absent
wherever a keyword is read. -/
def present? : Json → Option Json
  | .null => none
  | value => some value

/-- Writes a field, in place if the object has it. -/
def withField (node : Json) (name : String) (value : Json) : Json :=
  match node with
  | .obj fields => .obj (Entries.put name value fields)
  | other => other

/-- Writing a field that an object has changes that field only. -/
theorem field?_withField {node held : Json} {name : String} (value : Json) (asked : String)
    (found : node.field? name = some held) :
    (node.withField name value).field? asked =
      if asked = name then some value else node.field? asked := by
  cases node with
  | obj fields => exact Entries.lookup_put name value fields asked
  | _ => cases found

mutual

/-- How many values a document holds, itself included. -/
def size : Json → Nat
  | .arr items => sizeItems items + 1
  | .obj fields => sizeFields fields + 1
  | _ => 1

/-- How many values a list holds, nested ones included. -/
def sizeItems : List Json → Nat
  | [] => 0
  | item :: rest => size item + sizeItems rest

/-- How many values named fields hold, nested ones included. -/
def sizeFields : List (String × Json) → Nat
  | [] => 0
  | (_, value) :: rest => size value + sizeFields rest

end

mutual

/-- Same kind, same contents and, for objects, the same order of fields. -/
def same : (a b : Json) → Decidable (a = b)
  | .null, .null => isTrue rfl
  | .bool a, .bool b => decidable_of_iff (a = b) (by simp)
  | .num a, .num b => decidable_of_iff (a = b) (by simp)
  | .str a, .str b => decidable_of_iff (a = b) (by simp)
  | .arr a, .arr b =>
    match sameItems a b with
    | isTrue h => isTrue (by rw [h])
    | isFalse h => isFalse (by simpa using h)
  | .obj a, .obj b =>
    match sameFields a b with
    | isTrue h => isTrue (by rw [h])
    | isFalse h => isFalse (by simpa using h)
  | .null, .bool _ | .null, .num _ | .null, .str _ | .null, .arr _ | .null, .obj _
  | .bool _, .null | .bool _, .num _ | .bool _, .str _ | .bool _, .arr _ | .bool _, .obj _
  | .num _, .null | .num _, .bool _ | .num _, .str _ | .num _, .arr _ | .num _, .obj _
  | .str _, .null | .str _, .bool _ | .str _, .num _ | .str _, .arr _ | .str _, .obj _
  | .arr _, .null | .arr _, .bool _ | .arr _, .num _ | .arr _, .str _ | .arr _, .obj _
  | .obj _, .null | .obj _, .bool _ | .obj _, .num _ | .obj _, .str _ | .obj _, .arr _ =>
    isFalse (by simp)

/-- Same items in the same order. -/
def sameItems : (a b : List Json) → Decidable (a = b)
  | [], [] => isTrue rfl
  | [], _ :: _ => isFalse (by simp)
  | _ :: _, [] => isFalse (by simp)
  | a :: as, b :: bs =>
    match same a b, sameItems as bs with
    | isTrue h, isTrue hs => isTrue (by rw [h, hs])
    | isFalse h, _ => isFalse (by simp [h])
    | _, isFalse hs => isFalse (by simp [hs])

/-- Same names and values in the same order. -/
def sameFields : (a b : List (String × Json)) → Decidable (a = b)
  | [], [] => isTrue rfl
  | [], _ :: _ => isFalse (by simp)
  | _ :: _, [] => isFalse (by simp)
  | (m, a) :: as, (n, b) :: bs =>
    if k : m = n then
      match same a b, sameFields as bs with
      | isTrue h, isTrue hs => isTrue (by rw [k, h, hs])
      | isFalse h, _ => isFalse (by simp [h])
      | _, isFalse hs => isFalse (by simp [hs])
    else isFalse (by simp [k])

end

instance : DecidableEq Json := same

end Json
end EntitySchema
