import EntitySchema.Json.Basic

/-! Ways of moving. A locomotion is what a style of movement adds to a
creature: its movement components, its families, and what it gives to a
mount. -/
namespace EntitySchema.Creature

/-- Named components in the order in which they are written. -/
abbrev Group := List (String × Json)

/-- What a style of movement adds to a creature. -/
structure Locomotion where
  movement : Group
  families : List String := []
  mountFamilies : List String := []
  mountComponents : Group := []
  resetsLevitation : Bool := false

namespace Locomotion

/-- The speed on land of a creature that says nothing else. -/
def landSpeed : Num := 0.25

/-- The speed in water of a creature that says nothing else. -/
def waterSpeed : Num := 0.2

/-- The speed on land of a swimmer that says nothing else. -/
def shoreSpeed : Num := 0.2

/-- The speed on wings of a creature that says nothing else. -/
def wingSpeed : Num := 1.0

/-- The speed of a hoverer that says nothing else. -/
def hoverSpeed : Num := 0.5

/-- Idle glances, which every style ends with. -/
def lookAround : Group :=
  [("minecraft:behavior.look_at_player", .obj [("priority", 7), ("look_distance", 8.0)]),
   ("minecraft:behavior.random_look_around", .obj [("priority", 8)])]

/-- How sharply creatures turn. -/
def turning : String × Json :=
  ("minecraft:movement.generic", .obj [("max_turn", 10.0)])

/-- Strolling on land. -/
def stroll : String × Json :=
  ("minecraft:behavior.random_stroll", .obj [("priority", 6), ("speed_multiplier", 1.0)])

/-- The components of a mount that jumps with the given strength. -/
def jumping (strength : Json) : Group :=
  [("minecraft:can_power_jump", .obj []),
   ("minecraft:horse.jump_strength", .obj [("value", strength)])]

/-- Movement on land. -/
def walking (walkSpeed : Num := landSpeed) : Locomotion :=
  { movement :=
      [("minecraft:movement", .obj [("value", walkSpeed)]),
       turning,
       ("minecraft:navigation.generic", .obj
         [("avoid_damage_blocks", true),
          ("avoid_portals", true),
          ("can_jump", true),
          ("can_walk", true),
          ("can_pass_doors", true)]),
       ("minecraft:behavior.float", .obj [("priority", 0)]),
       stroll] ++ lookAround
    mountFamilies := ["rideable", "walkable"]
    mountComponents := jumping (.obj [("range_min", 0), ("range_max", 1)]) }

/-- What every swimmer has. -/
def waterMovement (swimSpeed : Num) (canBreatheUnderwater avoidsLand : Bool) : Group :=
  [turning,
   ("minecraft:underwater_movement", .obj [("value", swimSpeed)]),
   ("minecraft:breathable", .obj
     [("breathes_air", !avoidsLand),
      ("breathes_water", canBreatheUnderwater),
      ("suffocate_time", 0),
      ("total_supply", 15)]),
   ("minecraft:navigation.generic", .obj
     [("avoid_damage_blocks", true),
      ("avoid_portals", true),
      ("can_swim", true),
      ("can_walk", !avoidsLand),
      ("can_sink", false),
      ("is_amphibious", canBreatheUnderwater && !avoidsLand)]),
   ("minecraft:behavior.swim_idle", .obj
     [("priority", 5), ("idle_time", 5.0), ("success_rate", 0.1)]),
   ("minecraft:behavior.random_swim", .obj
     [("priority", 3),
      ("speed_multiplier", 1.0),
      ("xz_dist", 16),
      ("y_dist", 4),
      ("interval", 0)])] ++ lookAround

/-- Movement in water. A swimmer that avoids land looks for water instead of
walking; another walks if it has a speed to walk with. -/
def swimming (swimSpeed : Num := waterSpeed) (walkSpeed : Num := shoreSpeed)
    (canBreatheUnderwater : Bool := true) (avoidsLand : Bool := false) : Locomotion :=
  { movement :=
      waterMovement swimSpeed canBreatheUnderwater avoidsLand ++
        (if !avoidsLand && walkSpeed.isPositive then
          [("minecraft:movement", .obj [("value", walkSpeed)]), stroll]
        else []) ++
        (if avoidsLand then
          [("minecraft:behavior.move_to_water", .obj
            [("priority", 1), ("search_range", 15), ("search_height", 5)])]
        else [])
    families := ["swimming"]
    mountFamilies := ["rideable", "swimmable"]
    mountComponents := jumping 0
    resetsLevitation := true }

/-- Roaming through the air. -/
def roaming (across up : Json) (speedMultiplier : Json) (canLandOnTrees : Bool) : Json :=
  .obj
    [("priority", 2),
     ("xz_dist", across),
     ("y_dist", up),
     ("y_offset", 0),
     ("speed_multiplier", speedMultiplier),
     ("can_land_on_trees", canLandOnTrees),
     ("avoid_damage_blocks", true)]

/-- What everything in the air has. -/
def airMovement (speed : Num) (wander : Json) : Group :=
  [turning,
   ("minecraft:flying_speed", .obj [("value", speed)]),
   ("minecraft:can_fly", .obj []),
   ("minecraft:navigation.fly", .obj
     [("avoid_damage_blocks", true),
      ("avoid_portals", true),
      ("can_path_from_air", true)]),
   ("minecraft:behavior.random_fly", wander)] ++ lookAround

/-- Movement on wings. -/
def flying (flySpeed : Num := wingSpeed) (canLandOnTrees : Bool := true) : Locomotion :=
  { movement := airMovement flySpeed (roaming 15 1 1.0 canLandOnTrees)
    families := ["flying"]
    mountFamilies := ["rideable", "flyable"]
    mountComponents := jumping 0
    resetsLevitation := true }

/-- Hovering. A hoverer never perches, and as a mount it has the seat alone. -/
def levitating (floatSpeed : Num := hoverSpeed) : Locomotion :=
  { movement := airMovement floatSpeed (roaming 10 2 0.8 false)
    families := ["levitating"] }

end Locomotion
end EntitySchema.Creature
