import EntitySchema.Creature.Behavior
import Mathlib

/-! Base components and what is put over them. Whatever components a creature is
given besides, each is found as it was given, and a base component that was given
no other value is found as every creature has it. Given names that are base names
keep the places of these, new ones follow in their order. What is given shows in
the components only, and the way of moving shows in them only by the families. -/
namespace EntitySchema.BaseComponents
open Creature Behavior

variable {config : Config} {locomotion : Locomotion} {behavior : Behavior} {types : Types}
  {families : List String} {width height value : Json} {key : String}

/-- The name that is complained of: the primary one if it is no element, or else
the secondary one if there is one and it is no element. -/
inductive FirstUnknown (types : Types) : String → Prop where
  | primary (unknown : types.primary ∉ elements) : FirstUnknown types types.primary
  | secondary {name : String} (known : types.primary ∈ elements)
    (given : types.secondary = some name) (unknown : name ∉ elements) : FirstUnknown types name

/-- A hitbox that gives a size: none, a number, or a pair. -/
def Fitting : Hitbox → Prop
  | .unset | .square _ => True
  | .sizes values => values.length = 2

/-- The width and the height that a hitbox gives. -/
inductive Measures : Hitbox → Json → Json → Prop where
  | unset : Measures .unset 1 1.5
  | empty {side : Num} (zero : side.isZero = true) : Measures (.square side) 1 1.5
  | square {side : Num} (extended : side.isZero = false) : Measures (.square side) side side
  | pair (width height : Json) : Measures (.sizes [width, height]) width height

/-- A creature that does not burn: if that is said, or if nothing is said and one
of its elements is fire. -/
def Fireproof (config : Config) : Prop :=
  config.fireImmune = some true ∨
    config.fireImmune = none ∧
      (config.types.primary = "fire" ∨ config.types.secondary = some "fire")

instance : Decidable (Fireproof config) := inferInstanceAs (Decidable (_ ∨ _))

/-- The base components of a creature and their values. -/
inductive Base (config : Config) (families : List String) : String → Json → Prop where
  | families : Base config families "minecraft:type_family"
    (.obj [("family", Json.strings families)])
  | box {width height : Json} (size : Measures config.hitbox width height) :
    Base config families "minecraft:collision_box" (.obj [("width", width), ("height", height)])
  | health : Base config families "minecraft:health" (.obj [("value", 20), ("max", 20)])
  | physics : Base config families "minecraft:physics" (.obj [])
  | pushable : Base config families "minecraft:pushable"
    (.obj [("is_pushable", true), ("is_pushable_by_piston", true)])
  | fireproof (immune : Fireproof config) : Base config families "minecraft:fire_immune" (.obj [])

/-- The names of the base components in order. -/
def baseNames (config : Config) : List String :=
  ["minecraft:type_family", "minecraft:collision_box", "minecraft:health", "minecraft:physics",
   "minecraft:pushable"] ++ if Fireproof config then ["minecraft:fire_immune"] else []

/-- The components of a behavior are the base components with the given ones put
over them. -/
structure Composes (config : Config) (behavior : Behavior) : Prop where
  given : ∀ key value, config.additionalComponents.lookup key = some value →
    behavior.components.lookup key = some value
  base : ∀ key, key ∉ Entries.names config.additionalComponents → ∀ value,
    behavior.components.lookup key = some value ↔ Base config behavior.families key value
  order : Entries.names behavior.components =
    baseNames config ++
      (Entries.names config.additionalComponents).filter fun key => key ∉ baseNames config
  distinct : (Entries.names behavior.components).Nodup

section Parts

/-- Elements are looked at in turn, the primary one first. -/
private theorem unknown_first (types : Types) (name : String) :
    unknownElement? types = some name ↔ FirstUnknown types name := by
  unfold unknownElement?
  constructor
  · intro found
    obtain ⟨unknown, before, after, split, known⟩ := List.find?_eq_some_iff_append.mp found
    have outside : name ∉ elements := by simpa using unknown
    cases before with
    | nil =>
      obtain ⟨rfl, _⟩ := List.cons.inj split
      exact .primary outside
    | cons first more =>
      obtain ⟨rfl, rest⟩ := List.cons.inj split
      have inside : types.primary ∈ elements := by simpa using known _ List.mem_cons_self
      have given : name ∈ types.secondary.toList := by simp [rest]
      exact .secondary inside (Option.mem_toList.mp given) outside
  · intro unknown
    cases unknown with
    | primary outside => rw [List.find?_cons_of_pos (by simpa using outside)]
    | secondary inside given outside =>
      rw [given, Option.toList_some, List.find?_cons_of_neg (by simpa using inside),
        List.find?_cons_of_pos (by simpa using outside)]

private theorem measures_resolve (size : Measures config.hitbox width height) :
    config.hitbox.resolve = .ok (width, height) := by
  generalize config.hitbox = hitbox at size
  cases size with
  | unset => rfl
  | empty zero => simp [Hitbox.resolve, zero]
  | square extended => simp [Hitbox.resolve, extended]
  | pair width height => rfl

private theorem fitting_measures {hitbox : Hitbox} (fitting : Fitting hitbox) :
    ∃ width height, Measures hitbox width height := by
  cases hitbox with
  | unset => exact ⟨_, _, .unset⟩
  | square side =>
    cases zero : side.isZero with
    | true => exact ⟨_, _, .empty zero⟩
    | false => exact ⟨_, _, .square zero⟩
  | sizes values =>
    obtain ⟨width, height, rfl⟩ := List.length_eq_two.mp fitting
    exact ⟨_, _, .pair width height⟩

private theorem fireproof_iff (config : Config) :
    isFireImmune config = true ↔ Fireproof config := by
  unfold isFireImmune Fireproof
  cases config.fireImmune <;> simp

private theorem base_names (config : Config) (families : List String) (width height : Json) :
    Entries.names (baseComponents config families width height) = baseNames config := by
  unfold baseComponents baseNames
  simp only [fireproof_iff]
  split <;> rfl

private theorem baseNames_nodup (config : Config) : (baseNames config).Nodup := by
  unfold baseNames
  split <;> decide

private theorem base_lookup (size : Measures config.hitbox width height) :
    (baseComponents config families width height).lookup key = some value ↔
      Base config families key value := by
  constructor
  · intro found
    obtain ⟨before, after, split, _⟩ := List.lookup_eq_some_iff.mp found
    have member : (key, value) ∈ baseComponents config families width height := by simp [split]
    simp only [baseComponents, baseHealth, List.mem_append, List.mem_cons, List.not_mem_nil,
      or_false, Prod.mk.injEq] at member
    rcases member with
      (⟨rfl, rfl⟩ | ⟨rfl, rfl⟩ | ⟨rfl, rfl⟩ | ⟨rfl, rfl⟩ | ⟨rfl, rfl⟩) | last
    · exact .families
    · exact .box size
    · exact .health
    · exact .physics
    · exact .pushable
    · split at last
      · rename_i immune
        cases List.mem_singleton.mp last
        exact .fireproof ((fireproof_iff config).mp immune)
      · cases last
  · intro base
    cases base with
    | families => rfl
    | box other =>
      have same := (measures_resolve size).symm.trans (measures_resolve other)
      cases same
      rfl
    | health => rfl
    | physics => rfl
    | pushable => rfl
    | fireproof immune => simp [baseComponents, (fireproof_iff config).mpr immune, List.lookup]

/-- Only the families of the base components are those of the creature. -/
private theorem base_elsewhere {other : List String} (elsewhere : key ≠ "minecraft:type_family")
    (base : Base config families key value) : Base config other key value := by
  cases base with
  | families => exact absurd rfl elsewhere
  | box size => exact .box size
  | health => exact .health
  | physics => exact .physics
  | pushable => exact .pushable
  | fireproof immune => exact .fireproof immune

end Parts

section Building

private theorem build_refused {name : String} (unknown : FirstUnknown config.types name)
    (locomotion : Locomotion) : build config locomotion = .error (.unknownType name) := by
  rw [build, (unknown_first config.types name).mpr unknown]

/-- Where both elements are known and there is a size, a behavior is built. -/
private theorem build_built (known : ∀ name, ¬FirstUnknown config.types name)
    (size : Measures config.hitbox width height) (locomotion : Locomotion) :
    ∃ behavior, build config locomotion = .ok behavior ∧
      behavior.components =
        Entries.putAll (baseComponents config behavior.families width height)
          config.additionalComponents := by
  have allKnown : unknownElement? config.types = none := by
    rw [Option.eq_none_iff_forall_ne_some]
    intro name found
    exact known name ((unknown_first config.types name).mp found)
  rw [build, allKnown, measures_resolve size]
  exact ⟨_, rfl, rfl⟩

private theorem putAll_composes (size : Measures config.hitbox width height)
    (distinct : (Entries.names config.additionalComponents).Nodup)
    (components : behavior.components =
      Entries.putAll (baseComponents config behavior.families width height)
        config.additionalComponents) : Composes config behavior := by
  have order : Entries.names behavior.components = baseNames config ++
      (Entries.names config.additionalComponents).filter fun key => key ∉ baseNames config := by
    rw [components, Entries.names_putAll _ distinct, base_names]
  refine ⟨?_, ?_, order, ?_⟩
  · intro key value given
    rw [components, Entries.lookup_putAll _ distinct, given, Option.some_or]
  · intro key absent value
    have nothing := Entries.lookup_absent absent
    rw [components, Entries.lookup_putAll _ distinct, nothing, Option.none_or]
    exact base_lookup size
  · rw [order]
    apply (baseNames_nodup config).append (distinct.filter _)
    intro key base new
    simpa [base] using List.of_mem_filter new

/-- A creature is refused for its first unknown element, or built with its
components composed, and never anything else. -/
private theorem build_outcome (fitting : Fitting config.hitbox)
    (distinct : (Entries.names config.additionalComponents).Nodup) (locomotion : Locomotion) :
    (∃ name, FirstUnknown config.types name ∧
      build config locomotion = .error (.unknownType name)) ∨
    ∃ behavior, build config locomotion = .ok behavior ∧ Composes config behavior := by
  by_cases refused : ∃ name, FirstUnknown config.types name
  · obtain ⟨name, unknown⟩ := refused
    exact .inl ⟨name, unknown, build_refused unknown locomotion⟩
  · obtain ⟨width, height, size⟩ := fitting_measures fitting
    obtain ⟨behavior, built, components⟩ := build_built (not_exists.mp refused) size locomotion
    exact .inr ⟨behavior, built, putAll_composes size distinct components⟩

/-- Other components given show in the components only. -/
private theorem build_given (config : Config) (locomotion : Locomotion) (additional : Group) :
    ∃ components, build { config with additionalComponents := additional } locomotion =
      (build config locomotion).map fun behavior => { behavior with components := components } := by
  unfold build
  cases unknownElement? config.types with
  | some name => exact ⟨[], rfl⟩
  | none =>
    simp only
    cases config.hitbox.resolve with
    | error fault => exact ⟨[], rfl⟩
    | ok size => exact ⟨_, rfl⟩

private theorem toJson_components (behavior : Behavior) (components : Group) :
    toJson { behavior with components := components } =
      (toJson behavior).withField "components" (.obj components) :=
  rfl

private theorem build_fault (config : Config) (locomotion other : Locomotion)
    (fault : Creature.Fault) :
    build config other = .error fault ↔ build config locomotion = .error fault := by
  unfold build
  cases unknownElement? config.types with
  | some name => exact Iff.rfl
  | none =>
    simp only
    cases config.hitbox.resolve with
    | error fault => exact Iff.rfl
    | ok size => exact iff_of_false (by simp) (by simp)

/-- Composed components of one creature differ by the families at most. -/
private theorem composes_alike {changed : Behavior} (one : Composes config behavior)
    (other : Composes config changed) (elsewhere : key ≠ "minecraft:type_family") :
    changed.components.lookup key = behavior.components.lookup key := by
  by_cases given : key ∈ Entries.names config.additionalComponents
  · obtain ⟨value, found⟩ := Entries.lookup_present given
    rw [one.given key value found, other.given key value found]
  · apply Option.ext
    intro value
    rw [one.base key given, other.base key given]
    exact ⟨base_elsewhere elsewhere, base_elsewhere elsewhere⟩

end Building

/-- **Base components and overrides compose.** Take any creature whose hitbox is
unset, a number or a pair, any components given besides, no two of one name, and
any way of moving. It is refused for an element exactly when one is unknown, and
the first of these is named. Otherwise its behavior is built, and the components
are the base components with the given ones put over them. Had others been given,
nothing but the components would differ; had it moved otherwise, nothing in the
components but the families. -/
theorem overrides_compose (config : Config) (locomotion : Locomotion)
    (fitting : Fitting config.hitbox)
    (distinct : (Entries.names config.additionalComponents).Nodup) :
    (∀ name, build config locomotion = .error (.unknownType name) ↔
      FirstUnknown config.types name) ∧
      ((∀ name, ¬FirstUnknown config.types name) →
        ∃ behavior, build config locomotion = .ok behavior ∧ Composes config behavior) ∧
      (∀ additional, ∃ components,
        build { config with additionalComponents := additional } locomotion =
          (build config locomotion).map
            (fun behavior => { behavior with components := components }) ∧
        ∀ behavior, toJson { behavior with components := components } =
          (toJson behavior).withField "components" (.obj components)) ∧
      ∀ other,
        (∀ fault, build config other = .error fault ↔ build config locomotion = .error fault) ∧
        ∀ behavior changed, build config locomotion = .ok behavior →
          build config other = .ok changed →
          Entries.names changed.components = Entries.names behavior.components ∧
            ∀ key, key ≠ "minecraft:type_family" →
              changed.components.lookup key = behavior.components.lookup key := by
  have composes : ∀ locomotion behavior, build config locomotion = .ok behavior →
      Composes config behavior := by
    intro locomotion behavior built
    rcases build_outcome fitting distinct locomotion with
      ⟨name, _, refused⟩ | ⟨found, ran, composed⟩
    · cases built.symm.trans refused
    · cases built.symm.trans ran
      exact composed
  refine ⟨?_, ?_, ?_, ?_⟩
  · intro name
    constructor
    · intro refused
      rcases build_outcome fitting distinct locomotion with
        ⟨first, unknown, named⟩ | ⟨behavior, built, _⟩
      · cases refused.symm.trans named
        exact unknown
      · cases refused.symm.trans built
    · exact fun unknown => build_refused unknown locomotion
  · intro known
    rcases build_outcome fitting distinct locomotion with ⟨name, unknown, _⟩ | built
    · exact absurd unknown (known name)
    · exact built
  · intro additional
    obtain ⟨components, same⟩ := build_given config locomotion additional
    exact ⟨components, same, fun behavior => toJson_components behavior components⟩
  · intro other
    refine ⟨build_fault config locomotion other, ?_⟩
    intro behavior changed built rebuilt
    have one := composes locomotion behavior built
    have second := composes other changed rebuilt
    exact ⟨second.order.trans one.order.symm, fun key => composes_alike one second⟩

/-- A creature of fire with a health of its own and a component that is not of
the base. -/
def scaledConfig : Config :=
  { typeId := "pokemon:moltres"
    types := ⟨"flying", some "fire"⟩
    hitbox := .sizes [2, 2.5]
    additionalComponents :=
      [("minecraft:scale", .obj [("value", 2)]), ("minecraft:health", .obj [("value", 30)])] }

/-- The health keeps the place it has among the base components, the other one
comes last, and what is not overridden stays. -/
theorem overrides_compose_scaled :
    ∃ behavior, build scaledConfig .flying = .ok behavior ∧
      Entries.names behavior.components = baseNames scaledConfig ++ ["minecraft:scale"] ∧
      behavior.components.lookup "minecraft:health" = some (.obj [("value", 30)]) ∧
      behavior.components.lookup "minecraft:fire_immune" = some (.obj []) := by
  obtain ⟨_, builds, _⟩ := overrides_compose scaledConfig .flying rfl (by decide)
  have known : ∀ name, ¬FirstUnknown scaledConfig.types name := by
    intro name unknown
    cases unknown with
    | primary outside => exact outside (by decide)
    | secondary _ given outside =>
      cases given
      exact outside (by decide)
  obtain ⟨behavior, built, composes⟩ := builds known
  refine ⟨behavior, built, ?_, composes.given _ _ rfl, ?_⟩
  · exact composes.order
  · exact (composes.base "minecraft:fire_immune" (by decide) (.obj [])).mpr (.fireproof (by decide))

end EntitySchema.BaseComponents
