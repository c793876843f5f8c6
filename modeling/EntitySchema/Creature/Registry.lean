import EntitySchema.Creature.Movement

/-! The creatures that are known, with how they move and which of them can be
ridden. Names are looked up without regard to case. -/
namespace EntitySchema.Creature

namespace Registry

open Movement

/-- How each known creature moves, in the order in which they are listed. -/
def movements : List (String × Movement) :=
  [("bulbasaur", onLand 0.2),
   ("venusaur", onLand 0.15 (.square 2)),
   ("charmander", onLand 0.25),
   ("pikachu", onLand 0.3 (.sizes [0.7, 1.3])),
   ("raichu", onLand 0.35),
   ("vulpix", onLand 0.25),
   ("ninetales", onLand 0.3 (.sizes [1.2, 1.3])),
   ("growlithe", onLand 0.3),
   ("arcanine", onLand 0.4 (.sizes [1.8, 2])),
   ("machamp", onLand 0.25 (.sizes [1.5, 1.8])),
   ("ponyta", onLand 0.35),
   ("rapidash", onLand 0.45 (.sizes [1.5, 2])),
   ("dodrio", onLand 0.45 (.sizes [1.5, 2])),
   ("onix", onLand 0.2 (.sizes [1.5, 3])),
   ("rhydon", onLand 0.2 (.sizes [1.8, 2])),
   ("tauros", onLand 0.35 (.square 1.5)),
   ("eevee", onLand 0.3 (.sizes [0.6, 0.8])),
   ("flareon", onLand 0.35),
   ("snorlax", onLand 0.1 (.sizes [2, 2.5])),
   ("butterfree", onWings 0.7),
   ("pidgey", onWings 0.8 (some 0.2)),
   ("pidgeot", onWings 1.2 (some 0.25) (.sizes [1.5, 1.8])),
   ("zubat", onWings 0.8),
   ("charizard", onWings 1.0 (some 0.15) (.sizes [1.5, 2.65])),
   ("aerodactyl", onWings 1.3 none (.square 2)),
   ("moltres", onWings 1.2 none (.sizes [2, 2.5])),
   ("dragonite", onWings 1.1 (some 0.2) (.sizes [2, 2.5])),
   ("magikarp", inWater 0.1 (.square 0.8)),
   ("goldeen", inWater 0.2),
   ("staryu", inWater 0.2),
   ("tentacruel", inWater 0.25 (.sizes [1.5, 1.8])),
   ("squirtle", amphibious 0.2 0.25),
   ("blastoise", amphibious 0.2 0.3 (.sizes [1.8, 2])),
   ("psyduck", amphibious 0.2 0.2),
   ("gyarados", amphibious 0.1 0.35 (.sizes [2, 3.3])),
   ("lapras", amphibious 0.1 0.25 (.square 2.5)),
   ("vaporeon", amphibious 0.25 0.35),
   ("dratini", amphibious 0.15 0.2),
   ("dragonair", amphibious 0.2 0.25 (.sizes [1.5, 2])),
   ("gastly", hovering 0.5),
   ("haunter", hovering 0.6),
   ("gengar", hovering 0.6 (.square 1.5)),
   ("magnemite", hovering 0.5),
   ("voltorb", hovering 0.4),
   ("koffing", hovering 0.4),
   ("mewtwo", hovering 0.8 (.sizes [1.5, 2.5])),
   ("mew", hovering 0.7 (.sizes [0.6, 0.8]))]

/-- The creatures that can be ridden. -/
def seats : List (String × Seat) :=
  [("arcanine", { position := [0, 1.8, 0] }),
   ("rapidash", { position := [0, 1.8, 0] }),
   ("dodrio", { position := [0, 1.8, 0] }),
   ("tauros", { position := [0, 1.5, 0] }),
   ("rhydon", { position := [0, 2, 0] }),
   ("charizard", { position := [0, 2.5, 0.3] }),
   ("pidgeot", { position := [0, 1.5, 0] }),
   ("aerodactyl", { position := [0, 1.8, 0] }),
   ("moltres", { position := [0, 2, 0] }),
   ("dragonite", { position := [0, 2.2, 0] }),
   ("lapras", { position := [0, 2.0, 0] }),
   ("gyarados", { position := [0, 3.0, -0.5] }),
   ("blastoise", { position := [0, 1.8, -0.3] })]

/-- A letter as names are compared. Known names are in ASCII, and the only other
character with a lower case there is the Kelvin sign; the rest stay as they
are, since no known name has them. -/
def foldChar (c : Char) : Char :=
  if c = '\u212A' then 'k' else c.toLower

/-- A name as names are compared. -/
def fold (name : String) : String :=
  String.ofList (name.toList.map foldChar)

/-- The names of all creatures. -/
def names : List String :=
  Entries.names movements

/-- How a creature moves. -/
def movement? (name : String) : Option Movement :=
  movements.lookup (fold name)

/-- Is the creature known? -/
def contains (name : String) : Bool :=
  (movement? name).isSome

/-- Where a creature is ridden. -/
def seat? (name : String) : Option Seat :=
  seats.lookup (fold name)

/-- Can the creature be ridden? -/
def isRideable (name : String) : Bool :=
  (seat? name).isSome

/-- The behavior of a creature that moves as given. The seat is looked up by
the exact name. -/
def behaviorOf (name : String) (movement : Movement) (types : Types) : Except Fault Behavior :=
  match movement.toLocomotion? with
  | none => .error (.unknownLocomotion movement.locomotion name)
  | some locomotion =>
    Behavior.build
      { typeId := "pokemon:" ++ name
        types := types
        hitbox := movement.hitbox
        seat := seats.lookup name }
      locomotion

/-- The behavior of a known creature, and nothing for another. -/
def behavior? (name : String) (types : Types) : Except Fault (Option Behavior) :=
  match movement? name with
  | none => .ok none
  | some movement => (behaviorOf (fold name) movement types).map some

/-- The behaviors of those creatures whose elements are given, with a line for
each of the others. A fault ends the list, the lines before it being kept. -/
def behaviorsFrom (types : List (String × Types)) :
    List (String × Movement) → Except Fault (List (String × Behavior)) × List String
  | [] => (.ok [], [])
  | (name, movement) :: rest =>
    match types.lookup name with
    | none =>
      let (found, lines) := behaviorsFrom types rest
      (found, ("No type info for " ++ name ++ ", skipping") :: lines)
    | some own =>
      match behaviorOf name movement own with
      | .error fault => (.error fault, [])
      | .ok behavior =>
        let (found, lines) := behaviorsFrom types rest
        (found.map ((name, behavior) :: ·), lines)

/-- The behaviors of all known creatures whose elements are given. -/
def behaviors (types : List (String × Types)) :
    Except Fault (List (String × Behavior)) × List String :=
  behaviorsFrom types movements

end Registry
end EntitySchema.Creature
