import EntitySchema.Creature.Locomotion

/-! Behavior of a creature. Every creature has the same base components; its
locomotion adds a movement group, families, and what a mount needs. -/
namespace EntitySchema.Creature

/-- Why no behavior can be built. -/
inductive Fault where
  | unknownType (name : String)
  | unknownLocomotion (locomotion name : String)
  /-- A size is given as a list of more than two numbers. -/
  | tooManySizes
  /-- A size is given as a list of fewer than two numbers. -/
  | tooFewSizes (count : Nat)
  deriving DecidableEq, Repr

namespace Fault

/-- What is said of a fault. -/
def message : Fault → String
  | .unknownType name => "Unknown Pokemon type: " ++ name
  | .unknownLocomotion locomotion name => name ++ ": unknown locomotion '" ++ locomotion ++ "'"
  | .tooManySizes => "too many values to unpack (expected 2)"
  | .tooFewSizes count =>
    "not enough values to unpack (expected 2, got " ++ toString count ++ ")"

end Fault

/-- The elements a creature can be of. -/
def elements : List String :=
  ["normal", "fire", "water", "electric", "grass", "ice", "fighting", "poison", "ground",
   "flying", "psychic", "bug", "rock", "ghost", "dragon", "dark", "steel", "fairy"]

/-- One or two elements. -/
structure Types where
  primary : String
  secondary : Option String := none
  deriving DecidableEq, Repr

/-- How large a creature is: a number for both sizes, or a list of sizes. -/
inductive Hitbox where
  | unset
  | square (side : Num)
  | sizes (values : List Json)

/-- Width and height. An unset hitbox, a side of zero and an empty list leave
the default. -/
def Hitbox.resolve : Hitbox → Except Fault (Json × Json)
  | .unset | .sizes [] => .ok (1, 1.5)
  | .square side => .ok (if side.isZero then (1, 1.5) else (side, side))
  | .sizes [width, height] => .ok (width, height)
  | .sizes [_] => .error (.tooFewSizes 1)
  | .sizes _ => .error .tooManySizes

/-- Where riders sit, and how many of them. -/
structure Seat where
  position : List Num
  count : Option Num := none
  deriving DecidableEq, Repr

/-- What the base components are built from. -/
structure Config where
  typeId : String
  types : Types
  hitbox : Hitbox := .unset
  fireImmune : Option Bool := none
  families : List String := []
  additionalComponents : Group := []
  seat : Option Seat := none

/-- The behavior of a creature, ready to be written. -/
structure Behavior where
  identifier : String
  components : Group
  movement : Group
  tamed : Group
  families : List String
  resetsLevitation : Bool

namespace Behavior

/-- Creatures of fire do not burn, unless it is said otherwise. -/
def isFireImmune (config : Config) : Bool :=
  config.fireImmune.getD (config.types.primary == "fire" || config.types.secondary == some "fire")

/-- The families of a creature; mounts have some of their own. -/
def familiesOf (config : Config) (locomotion : Locomotion) : List String :=
  ["pokemon", "mob", config.types.primary] ++
    (config.types.secondary.filter (· ≠ "")).toList ++
    config.families ++ locomotion.families ++
    (if config.seat.isSome then locomotion.mountFamilies else [])

/-- Hit points at birth. -/
def baseHealth : Json := 20

/-- The components that every creature has, before any are overridden. -/
def baseComponents (config : Config) (families : List String) (width height : Json) : Group :=
  [("minecraft:type_family", .obj [("family", Json.strings families)]),
   ("minecraft:collision_box", .obj [("width", width), ("height", height)]),
   ("minecraft:health", .obj [("value", baseHealth), ("max", baseHealth)]),
   ("minecraft:physics", .obj []),
   ("minecraft:pushable", .obj [("is_pushable", true), ("is_pushable_by_piston", true)])] ++
    (if isFireImmune config then [("minecraft:fire_immune", .obj [])] else [])

/-- What taming adds to a mount. -/
def tamedGroup (seat : Option Seat) (locomotion : Locomotion) : Group :=
  match seat with
  | none => []
  | some seat =>
    Entries.putAll
      [("minecraft:is_saddled", .obj []),
       ("minecraft:rideable", .obj
         [("seat_count", .num (seat.count.getD 1)),
          ("crouching_skip_interact", true),
          ("family_types", Json.strings ["player"]),
          ("interact_text", "action.interact.mount"),
          ("seats", .obj [("position", .arr (seat.position.map .num))])]),
       ("minecraft:input_ground_controlled", .obj []),
       ("minecraft:behavior.player_ride_tamed", .obj [])]
      locomotion.mountComponents

/-- The first name that is no element. -/
def unknownElement? (types : Types) : Option String :=
  (types.primary :: types.secondary.toList).find? fun name => !elements.contains name

/-- Composes the base components with a locomotion. The elements are looked at
before the size. -/
def build (config : Config) (locomotion : Locomotion) : Except Fault Behavior :=
  match unknownElement? config.types with
  | some name => .error (.unknownType name)
  | none =>
    match config.hitbox.resolve with
    | .error fault => .error fault
    | .ok (width, height) =>
      let families := familiesOf config locomotion
      .ok
        { identifier := config.typeId
          components :=
            Entries.putAll (baseComponents config families width height)
              config.additionalComponents
          movement := locomotion.movement
          tamed := tamedGroup config.seat locomotion
          families := families
          resetsLevitation := config.seat.isSome && locomotion.resetsLevitation }

/-- The behavior as a document. -/
def toJson (behavior : Behavior) : Json :=
  .obj
    ([("identifier", .str behavior.identifier),
      ("components", .obj behavior.components),
      ("componentGroups", .obj
        [("movement", .obj behavior.movement),
         ("tamed", .obj behavior.tamed),
         ("wild", .obj [])]),
      ("events", .obj
        [("minecraft:entity_spawned", .obj
          [("add", .obj [("component_groups", Json.strings ["wild", "movement"])])])]),
      ("families", Json.strings behavior.families)] ++
     (if behavior.resetsLevitation then
       [("animations", .obj
          [("reset_levitation", "controller.animation.reset_levitation")]),
        ("scripts", .obj [("animate", Json.strings ["reset_levitation"])])]
     else []))

end Behavior
end EntitySchema.Creature
