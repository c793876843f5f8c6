import EntitySchema.Creature.Behavior

/-! How single creatures move. A movement names a style and may set the speeds
of that style; what it leaves out is the style's own. -/
namespace EntitySchema.Creature

/-- How a creature moves. A speed that is not set is that of its style. -/
structure Movement where
  locomotion : String
  walkSpeed : Option Num := none
  swimSpeed : Option Num := none
  flySpeed : Option Num := none
  floatSpeed : Option Num := none
  canBreatheUnderwater : Option Bool := none
  hitbox : Hitbox := .unset

namespace Movement

/-- On land. -/
def terrestrial (movement : Movement) : Locomotion :=
  .walking (movement.walkSpeed.getD Locomotion.landSpeed)

/-- In water only. -/
def aquatic (movement : Movement) : Locomotion :=
  .swimming (movement.swimSpeed.getD Locomotion.waterSpeed) 0 true true

/-- In water and on land. -/
def semiaquatic (movement : Movement) : Locomotion :=
  .swimming (movement.swimSpeed.getD Locomotion.waterSpeed)
    (movement.walkSpeed.getD Locomotion.shoreSpeed)
    (movement.canBreatheUnderwater.getD true) false

/-- In the air, on wings. -/
def volant (movement : Movement) : Locomotion :=
  .flying (movement.flySpeed.getD Locomotion.wingSpeed)

/-- In the air, hovering. -/
def levitating (movement : Movement) : Locomotion :=
  .levitating (movement.floatSpeed.getD Locomotion.hoverSpeed)

/-- The locomotions by name. -/
def styles : List (String × (Movement → Locomotion)) :=
  [("terrestrial", terrestrial), ("aquatic", aquatic), ("semiaquatic", semiaquatic),
   ("volant", volant), ("levitating", levitating)]

/-- The locomotion of a movement, when its name is known. -/
def toLocomotion? (movement : Movement) : Option Locomotion :=
  (styles.lookup movement.locomotion).map (· movement)

/-- A creature on land. -/
def onLand (walkSpeed : Num) (hitbox : Hitbox := .unset) : Movement :=
  { locomotion := "terrestrial", walkSpeed := some walkSpeed, hitbox := hitbox }

/-- A creature on wings, which may walk too. -/
def onWings (flySpeed : Num) (walkSpeed : Option Num := none) (hitbox : Hitbox := .unset) :
    Movement :=
  { locomotion := "volant", walkSpeed := walkSpeed, flySpeed := some flySpeed, hitbox := hitbox }

/-- A creature in water. -/
def inWater (swimSpeed : Num) (hitbox : Hitbox := .unset) : Movement :=
  { locomotion := "aquatic", swimSpeed := some swimSpeed, hitbox := hitbox }

/-- A creature in water and on land. -/
def amphibious (walkSpeed swimSpeed : Num) (hitbox : Hitbox := .unset) : Movement :=
  { locomotion := "semiaquatic", walkSpeed := some walkSpeed, swimSpeed := some swimSpeed,
    hitbox := hitbox }

/-- A creature that hovers. -/
def hovering (floatSpeed : Num) (hitbox : Hitbox := .unset) : Movement :=
  { locomotion := "levitating", floatSpeed := some floatSpeed, hitbox := hitbox }

end Movement

end EntitySchema.Creature
