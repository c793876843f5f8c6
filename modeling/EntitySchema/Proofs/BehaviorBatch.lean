import EntitySchema.Creature.Registry
import Mathlib

/-! All behaviors at once are the behaviors one by one. Going through the known
creatures in their order, those whose elements are given are built as they would
be alone, the others are noted as skipped, and the first one that cannot be built
ends the run. Names are compared letter by letter without regard to case. -/
namespace EntitySchema.BehaviorBatch
open Creature Registry

variable {types : List (String × Types)} {name : String} {own : Types} {behavior : Behavior}
  {fault : Creature.Fault}

/-- A character that stands for a lower-case letter where case does not matter:
the letter, its capital, or the sign for kelvin. -/
def Spells (c letter : Char) : Prop :=
  c = letter ∨ c = letter.toUpper ∨ c = '\u212A' ∧ letter = 'k'

/-- The elements of the creature are given, and alone it cannot be built. -/
def Fails (types : List (String × Types)) (name : String) (fault : Creature.Fault) : Prop :=
  ∃ own, types.lookup name = some own ∧ behavior? name own = .error fault

/-- The fault of the first of the creatures that cannot be built. -/
def FirstFault (types : List (String × Types)) (listed : List String) (fault : Creature.Fault) :
    Prop :=
  ∃ earlier name later, listed = earlier ++ name :: later ∧ Fails types name fault ∧
    ∀ other ∈ earlier, ∀ fault, ¬Fails types other fault

/-- The line for a creature whose elements are not given. -/
def skipLine (name : String) : String :=
  "No type info for " ++ name ++ ", skipping"

/-- What going through creatures can come to, one creature at a time, with the
lines that are printed. -/
inductive Run (types : List (String × Types)) :
    List String → Except Creature.Fault (List (String × Behavior)) → List String → Prop where
  | done : Run types [] (.ok []) []
  | skipped {name : String} {rest lines : List String}
    {outcome : Except Creature.Fault (List (String × Behavior))}
    (absent : types.lookup name = none) (after : Run types rest outcome lines) :
    Run types (name :: rest) outcome (skipLine name :: lines)
  | built {name : String} {rest lines : List String} {own : Types} {behavior : Behavior}
    {outcome : Except Creature.Fault (List (String × Behavior))}
    (given : types.lookup name = some own) (alone : behavior? name own = .ok (some behavior))
    (after : Run types rest outcome lines) :
    Run types (name :: rest) (outcome.map ((name, behavior) :: ·)) lines
  | stopped {name : String} {rest : List String} {own : Types} {fault : Creature.Fault}
    (given : types.lookup name = some own) (alone : behavior? name own = .error fault) :
    Run types (name :: rest) (.error fault) []

section Names

private theorem names_nodup : names.Nodup := by
  simp [names, Entries.names, movements]

private theorem names_lower :
    ∀ known ∈ names, ∀ letter ∈ known.toList, letter.isLower = true := by
  have all : names.all (fun known => known.toList.all Char.isLower) = true := by rfl
  simpa only [List.all_eq_true] using all

private theorem foldChar_spells {c letter : Char} (lower : letter.isLower = true) :
    foldChar c = letter ↔ Spells c letter := by
  have small : letter.toLower = letter :=
    Char.toLower_eq_of_not_isUpper (Char.not_isUpper_of_isLower lower)
  unfold foldChar
  constructor
  · intro same
    split at same
    · rename_i kelvin
      exact .inr (.inr ⟨kelvin, same.symm⟩)
    · by_cases capital : c.isUpper = true
      · refine .inr (.inl ?_)
        rw [← same, Char.toUpper_toLower_eq_toUpper,
          Char.toUpper_eq_of_not_isLower (Char.not_isLower_of_isUpper capital)]
      · rw [Char.toLower_eq_of_not_isUpper capital] at same
        exact .inl same
  · rintro (rfl | rfl | ⟨rfl, rfl⟩)
    · have plain : c ≠ '\u212A' := by
        rintro rfl
        cases lower
      rw [if_neg plain, small]
    · have plain : letter.toUpper ≠ '\u212A' := by
        intro kelvin
        have capital : letter.toUpper.isUpper = true := by simp [Char.isAlpha, lower]
        rw [kelvin] at capital
        cases capital
      rw [if_neg plain, Char.toLower_toUpper_eq_toLower, small]
    · rfl

/-- A name is folded to a known one exactly when it spells it letter by letter. -/
private theorem fold_spells {known : String} (listed : known ∈ names) :
    fold name = known ↔ List.Forall₂ Spells name.toList known.toList := by
  have letters := names_lower known listed
  rw [fold, ← String.toList_inj, String.toList_ofList]
  generalize known.toList = spelled at letters ⊢
  generalize name.toList = characters
  induction characters generalizing spelled with
  | nil => cases spelled <;> simp
  | cons c rest ih =>
    cases spelled with
    | nil => simp
    | cons letter later =>
      obtain ⟨lower, others⟩ := List.forall_mem_cons.mp letters
      rw [List.map_cons, List.cons.injEq, List.forall₂_cons]
      exact and_congr (foldChar_spells lower) (ih later others)

/-- Known names are their own folded form. -/
private theorem fold_known {known : String} (listed : known ∈ names) : fold known = known := by
  rw [fold_spells listed]
  exact List.forall₂_same.mpr fun letter _ => .inl rfl

private theorem lookup_member {α : Type} {entries : List (String × α)} {value : α}
    (distinct : (Entries.names entries).Nodup) (member : (name, value) ∈ entries) :
    entries.lookup name = some value := by
  induction entries with
  | nil => cases member
  | cons entry rest ih =>
    obtain ⟨other, held⟩ := entry
    obtain ⟨fresh, later⟩ := List.nodup_cons.mp distinct
    rcases List.mem_cons.mp member with same | inside
    · cases same
      simp
    · have apart : (name == other) = false := by
        rw [beq_eq_false_iff_ne]
        rintro rfl
        exact fresh (List.mem_map.mpr ⟨_, inside, rfl⟩)
      rw [List.lookup_cons, apart]
      exact ih later inside

/-- A name is known exactly when it spells a known one, which it is folded to. -/
private theorem contains_spells (name : String) :
    contains name = true ↔ ∃ known ∈ names,
      List.Forall₂ Spells name.toList known.toList ∧ fold name = known := by
  unfold contains movement?
  constructor
  · intro found
    obtain ⟨movement, looked⟩ := Option.isSome_iff_exists.mp found
    obtain ⟨before, after, split, _⟩ := List.lookup_eq_some_iff.mp looked
    have listed : fold name ∈ names := List.mem_map.mpr ⟨(fold name, movement), by simp [split], rfl⟩
    exact ⟨fold name, listed, (fold_spells listed).mp rfl, rfl⟩
  · rintro ⟨known, listed, _, folded⟩
    obtain ⟨⟨_, movement⟩, member, rfl⟩ := List.mem_map.mp listed
    rw [folded, lookup_member names_nodup member]
    rfl

/-- A known creature is built alone as it is in the list. -/
private theorem behavior_listed {movement : Movement} (member : (name, movement) ∈ movements)
    (own : Types) : behavior? name own = (behaviorOf name movement own).map some := by
  have listed : name ∈ names := List.mem_map.mpr ⟨_, member, rfl⟩
  rw [behavior?, movement?, fold_known listed, lookup_member names_nodup member]

end Names

section Building

variable {config : Config} {locomotion : Locomotion}

private theorem put_filled {α : Type} (name : String) (value : α) (entries : List (String × α)) :
    Entries.put name value entries ≠ [] := by
  cases entries with
  | nil => simp [Entries.put]
  | cons entry rest =>
    rw [Entries.put]
    split <;> simp

private theorem putAll_filled {α : Type} {entries : List (String × α)} (new : List (String × α))
    (filled : entries ≠ []) : Entries.putAll entries new ≠ [] := by
  unfold Entries.putAll
  induction new generalizing entries with
  | nil => exact filled
  | cons entry rest ih => exact ih (put_filled _ _ _)

/-- What taming adds is something exactly when there is a seat. -/
private theorem tamed_filled (seat : Option Seat) (locomotion : Locomotion) :
    Behavior.tamedGroup seat locomotion ≠ [] ↔ seat.isSome = true := by
  cases seat with
  | none => simp [Behavior.tamedGroup]
  | some seat => exact iff_of_true (putAll_filled _ (by simp)) rfl

private theorem build_ok (built : Behavior.build config locomotion = .ok behavior) :
    behavior.identifier = config.typeId ∧
      behavior.tamed = Behavior.tamedGroup config.seat locomotion := by
  unfold Behavior.build at built
  split at built
  · cases built
  · split at built
    · cases built
    · cases built
      exact ⟨rfl, rfl⟩

private theorem behaviorOf_ok {movement : Movement}
    (built : behaviorOf name movement own = .ok behavior) :
    behavior.identifier = "pokemon:" ++ name ∧
      (behavior.tamed ≠ [] ↔ (seats.lookup name).isSome = true) := by
  unfold behaviorOf at built
  split at built
  · cases built
  · obtain ⟨identifier, tamed⟩ := build_ok built
    exact ⟨identifier, tamed ▸ tamed_filled _ _⟩

/-- A creature that is built alone has its folded name, and something to add when
tamed exactly if it can be ridden. -/
private theorem behavior_ok (built : behavior? name own = .ok (some behavior)) :
    behavior.identifier = "pokemon:" ++ fold name ∧
      (behavior.tamed ≠ [] ↔ isRideable name = true) := by
  unfold behavior? at built
  split at built
  · cases built
  · rename_i movement _
    cases made : behaviorOf (fold name) movement own with
    | error fault =>
      rw [made] at built
      cases built
    | ok found =>
      rw [made] at built
      cases built
      exact behaviorOf_ok made

/-- Nothing is built exactly for a name that is not known. -/
private theorem behavior_none (name : String) (own : Types) :
    behavior? name own = .ok none ↔ contains name = false := by
  unfold behavior? contains
  cases movement? name with
  | none => exact iff_of_true rfl rfl
  | some movement =>
    refine iff_of_false ?_ (by simp)
    intro nothing
    cases made : behaviorOf (fold name) movement own with
    | error fault => simp [made, Except.map] at nothing
    | ok found => simp [made, Except.map] at nothing

end Building

section Batch

variable {entries : List (String × Movement)} {listed lines : List String}
  {outcome : Except Creature.Fault (List (String × Behavior))}

theorem behaviorsFrom_run (types : List (String × Types)) (known : entries ⊆ movements) :
    Run types (Entries.names entries) (behaviorsFrom types entries).1
      (behaviorsFrom types entries).2 := by
  induction entries with
  | nil => exact .done
  | cons entry rest ih =>
    obtain ⟨name, movement⟩ := entry
    obtain ⟨member, others⟩ := List.cons_subset.mp known
    rw [behaviorsFrom]
    split
    · rename_i absent
      exact .skipped absent (ih others)
    · rename_i own given
      have alone := behavior_listed member own
      split
      · rename_i fault made
        rw [made] at alone
        exact .stopped given alone
      · rename_i behavior made
        rw [made] at alone
        exact .built given alone (ih others)

/-- A run that ends well has built those whose elements are given, each as it
would be alone, and has noted the others. -/
theorem run_returned {found : List (String × Behavior)} (run : Run types listed (.ok found) lines) :
    Entries.names found = listed.filter (fun name => (types.lookup name).isSome) ∧
      (∀ entry ∈ found, ∃ own, types.lookup entry.1 = some own ∧
        behavior? entry.1 own = .ok (some entry.2)) ∧
      lines = (listed.filter fun name => (types.lookup name).isNone).map skipLine := by
  generalize result : Except.ok found = outcome at run
  induction run generalizing found with
  | done =>
    cases result
    exact ⟨rfl, by simp, rfl⟩
  | skipped absent after ih =>
    obtain ⟨keys, each, noted⟩ := ih result
    exact ⟨by simp [absent, keys], each, by simp [absent, noted]⟩
  | @built name rest lines own behavior outcome given alone after ih =>
    cases outcome with
    | error fault => cases result
    | ok later =>
      cases result
      obtain ⟨keys, each, noted⟩ := ih rfl
      refine ⟨?_, List.forall_mem_cons.mpr ⟨⟨own, given, alone⟩, each⟩, by simp [given, noted]⟩
      simp only [Entries.names, List.map_cons, given, Option.isSome_some, List.filter_cons_of_pos]
      rw [← keys, Entries.names]
  | stopped given alone => cases result

private theorem firstFault_cons {rest : List String} :
    FirstFault types (name :: rest) fault ↔
      Fails types name fault ∨ (∀ fault, ¬Fails types name fault) ∧ FirstFault types rest fault := by
  constructor
  · rintro ⟨earlier, first, later, split, fails, stand⟩
    cases earlier with
    | nil =>
      obtain ⟨rfl, rfl⟩ := List.cons.inj split
      exact .inl fails
    | cons other more =>
      obtain ⟨rfl, rfl⟩ := List.cons.inj split
      obtain ⟨stands, others⟩ := List.forall_mem_cons.mp stand
      exact .inr ⟨stands, more, first, later, rfl, fails, others⟩
  · rintro (fails | ⟨stands, earlier, first, later, rfl, fails, others⟩)
    · exact ⟨[], name, rest, rfl, fails, by simp⟩
    · exact ⟨name :: earlier, first, later, rfl, fails, List.forall_mem_cons.mpr ⟨stands, others⟩⟩

private theorem firstFault_later {rest : List String} (stands : ∀ fault, ¬Fails types name fault) :
    FirstFault types (name :: rest) fault ↔ FirstFault types rest fault := by
  rw [firstFault_cons]
  constructor
  · rintro (fails | ⟨_, first⟩)
    · exact absurd fails (stands fault)
    · exact first
  · exact fun first => .inr ⟨stands, first⟩

/-- A run ends with a fault exactly when a creature fails, and with that of the
first one. -/
theorem run_failed (run : Run types listed outcome lines) :
    outcome = .error fault ↔ FirstFault types listed fault := by
  induction run with
  | done =>
    refine iff_of_false (by simp) ?_
    rintro ⟨earlier, name, later, split, _⟩
    simp at split
  | @skipped name rest lines outcome absent after ih =>
    have stands : ∀ fault, ¬Fails types name fault := by
      rintro fault ⟨own, given, _⟩
      rw [absent] at given
      cases given
    rw [ih, firstFault_later stands]
  | @built name rest lines own behavior outcome given alone after ih =>
    have stands : ∀ fault, ¬Fails types name fault := by
      rintro fault ⟨other, found, failed⟩
      cases given.symm.trans found
      cases alone.symm.trans failed
    rw [firstFault_later stands, ← ih]
    cases outcome <;> simp [Except.map]
  | @stopped name rest own fault' given alone =>
    rw [firstFault_cons]
    constructor
    · rintro ⟨⟩
      exact .inl ⟨own, given, alone⟩
    · rintro (⟨other, found, failed⟩ | ⟨stands, _⟩)
      · cases given.symm.trans found
        exact congrArg Except.error (Except.error.inj (alone.symm.trans failed))
      · exact absurd ⟨own, given, alone⟩ (stands _)

/-- If some creature fails, one of them is the first. -/
private theorem firstFault_exists :
    (∃ fault, FirstFault types listed fault) ↔ ∃ name ∈ listed, ∃ fault, Fails types name fault := by
  induction listed with
  | nil => simp [FirstFault]
  | cons name rest ih =>
    by_cases fails : ∃ fault, Fails types name fault
    · obtain ⟨fault, fails⟩ := fails
      exact iff_of_true ⟨fault, firstFault_cons.mpr (.inl fails)⟩
        ⟨name, List.mem_cons_self, fault, fails⟩
    · rw [List.exists_mem_cons_iff, or_iff_right fails, ← ih]
      exact exists_congr fun fault => firstFault_later (not_exists.mp fails)

/-- Only what is given for the creatures themselves counts. -/
theorem behaviorsFrom_congr {other : List (String × Types)}
    (same : ∀ name ∈ Entries.names entries, types.lookup name = other.lookup name) :
    behaviorsFrom types entries = behaviorsFrom other entries := by
  induction entries with
  | nil => rfl
  | cons entry rest ih =>
    obtain ⟨first, others⟩ := List.forall_mem_cons.mp same
    simp only [behaviorsFrom, first, ih others]

end Batch

/-- **Building all agrees with building each.** Whatever elements are given: if
all behaviors are built, they are those of the known creatures whose elements are
given, in the order of the registry, each as it is built alone, and a line is
printed for each of the others; there is a fault exactly when one of them cannot
be built alone, and it is the fault of the first; and what is given for other
names does not matter. Alone, nothing is built exactly for a name that is not
known, that is, one that spells no known name without regard to case; what is
built has the name in lower case, and a group for taming exactly if the creature
can be ridden. -/
theorem batch_agrees (types : List (String × Types)) :
    (∀ found lines, behaviors types = (.ok found, lines) →
      Entries.names found = names.filter (fun name => (types.lookup name).isSome) ∧
        (∀ entry ∈ found, ∃ own, types.lookup entry.1 = some own ∧
          behavior? entry.1 own = .ok (some entry.2)) ∧
        lines = (names.filter fun name => (types.lookup name).isNone).map skipLine) ∧
      (∀ fault, (behaviors types).1 = .error fault ↔ FirstFault types names fault) ∧
      ((∃ fault, (behaviors types).1 = .error fault) ↔
        ∃ name ∈ names, ∃ fault, Fails types name fault) ∧
      (∀ other, (∀ name ∈ names, types.lookup name = other.lookup name) →
        behaviors types = behaviors other) ∧
      ∀ name own,
        (behavior? name own = .ok none ↔ contains name = false) ∧
        (contains name = true ↔ ∃ known ∈ names,
          List.Forall₂ Spells name.toList known.toList ∧ fold name = known) ∧
        ∀ behavior, behavior? name own = .ok (some behavior) →
          behavior.identifier = "pokemon:" ++ fold name ∧
            (behavior.tamed ≠ [] ↔ isRideable name = true) := by
  have run := behaviorsFrom_run types (List.Subset.refl movements)
  refine ⟨?_, fun fault => run_failed run, ?_, fun other same => behaviorsFrom_congr same, ?_⟩
  · intro found lines ran
    unfold behaviors at ran
    rw [ran] at run
    exact run_returned run
  · rw [← firstFault_exists]
    exact exists_congr fun fault => run_failed run
  · intro name own
    exact ⟨behavior_none name own, contains_spells name, fun behavior => behavior_ok⟩

/-- Two known creatures against the order of the registry, and one that is not
known. -/
def someTypes : List (String × Types) :=
  [("mew", ⟨"psychic", none⟩), ("agumon", ⟨"fire", none⟩), ("gastly", ⟨"ghost", some "poison"⟩)]

/-- The two are built in the order of the registry, and a name with the sign for
kelvin in it is that of a known creature. -/
theorem batch_agrees_some :
    (∃ found lines, behaviors someTypes = (.ok found, lines) ∧
      Entries.names found = ["gastly", "mew"]) ∧
      ∃ behavior, behavior? "Pi\u212AACHU" ⟨"electric", none⟩ = .ok (some behavior) ∧
        behavior.identifier = "pokemon:pikachu" ∧ behavior.tamed = [] := by
  obtain ⟨returned, _, _, _, alone⟩ := batch_agrees someTypes
  constructor
  · obtain ⟨found, lines, ran⟩ : ∃ found lines, behaviors someTypes = (.ok found, lines) :=
      ⟨_, _, rfl⟩
    exact ⟨found, lines, ran, (returned found lines ran).1⟩
  · obtain ⟨behavior, ran⟩ : ∃ behavior,
        behavior? "Pi\u212AACHU" ⟨"electric", none⟩ = .ok (some behavior) := ⟨_, rfl⟩
    obtain ⟨identifier, tamed⟩ := (alone "Pi\u212AACHU" ⟨"electric", none⟩).2.2 behavior ran
    refine ⟨behavior, ran, identifier, ?_⟩
    by_contra filled
    exact absurd (tamed.mp filled) (by decide)

end EntitySchema.BehaviorBatch
