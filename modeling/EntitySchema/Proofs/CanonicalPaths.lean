import EntitySchema.Proofs.RelativeWalk
import Mathlib

/-! Normal paths are canonical. Normalizing leaves one of three forms, and leaves
a text of such a form as it is, so the normal paths are exactly these. A normal
relative path shows the names that a walk through the steps has left, and no two
lists of names look alike: relative paths come to the same text exactly when they
walk to the same names. -/
namespace EntitySchema.CanonicalPaths
open Location NormalPath RelativeWalk

variable {absolute : Bool} {slashes : Nat} {names reached : List Name} {text : List Char}

/-- What steps leave of a place, both by their names, outermost first. An empty
step and `.` stay. `..` takes the last name away; where there is none, or the last
one is itself a step upwards, it is kept. -/
def leftOver (place : List Name) : List Name → List Name
  | [] => place
  | name :: rest =>
    if name = [] ∨ name = ['.'] then leftOver place rest
    else if name = up ∧ place.getLast?.any (· ≠ up) then leftOver place.dropLast rest
    else leftOver (place ++ [name]) rest

/-- What normal paths look like. `Descending` names are neither empty nor `.` nor
`..`, and hold no slash of either kind. -/
inductive Canonical : List Char → Prop where
  /-- Nowhere else. -/
  | here : Canonical ['.']
  /-- Some steps upwards, and names behind them. -/
  | relative {steps : Nat} {names : List Name} (descending : Descending names)
    (filled : List.replicate steps up ++ names ≠ []) :
    Canonical (joinNames (List.replicate steps up ++ names))
  /-- Names behind one slash or two. -/
  | absolute {slashes : Nat} {names : List Name} (front : slashes = 1 ∨ slashes = 2)
    (descending : Descending names) :
    Canonical (List.replicate slashes '/' ++ joinNames names)

/-- A path in front of which there is no slash of either kind. -/
structure Unrooted (path : String) : Prop where
  notSlash : path.toList.head? ≠ some '/'
  notBackslash : path.toList.head? ≠ some '\\'

section Forms

/-- The names that a walk has reached: steps upwards on a relative path only, and
further in none but names going down. -/
private theorem settled_parts (settled : Settled absolute reached) :
    ∃ steps names, reached = names ++ List.replicate steps up ∧ Descending names ∧
      (absolute = true → steps = 0) := by
  induction reached with
  | nil => exact ⟨0, [], rfl, by simp [Descending], fun _ => rfl⟩
  | cons inner outer ih =>
    obtain ⟨plain, upward, further⟩ := settled
    by_cases climbs : inner = up
    · obtain ⟨relative, above⟩ := upward climbs
      have all : outer = List.replicate outer.length up := List.eq_replicate_of_mem above
      refine ⟨outer.length + 1, [], ?_, by simp [Descending], by simp [relative]⟩
      rw [List.nil_append, List.replicate_succ, ← all, climbs]
    · obtain ⟨steps, names, rfl, descending, grounded⟩ := ih further
      exact ⟨steps, inner :: names, rfl,
        List.forall_mem_cons.mpr ⟨⟨plain, climbs⟩, descending⟩, grounded⟩

private theorem settled_climbs (steps : Nat) : Settled false (List.replicate steps up) := by
  induction steps with
  | zero => trivial
  | succ more ih =>
    exact ⟨up_plain, fun _ => ⟨rfl, fun _ => List.eq_of_mem_replicate⟩, ih⟩

private theorem settled_descends (settled : Settled absolute reached)
    (descending : Descending names) : Settled absolute (names ++ reached) := by
  induction names with
  | nil => exact settled
  | cons name rest ih =>
    obtain ⟨⟨plain, down⟩, below⟩ := List.forall_mem_cons.mp descending
    exact ⟨plain, fun climbs => absurd climbs down, ih below⟩

private theorem descending_reverse (descending : Descending names) : Descending names.reverse :=
  fun name member => descending name (List.mem_reverse.mp member)

private theorem joined_filled {names : List Name} (plain : ∀ name ∈ names, Plain name)
    (filled : names ≠ []) : joinNames names ≠ [] := by
  obtain ⟨front, c, _, ends⟩ := joined_ends plain filled
  simp [ends]

private theorem normal_canonical (normal : Normal slashes names) :
    Canonical (spell slashes names) := by
  obtain ⟨steps, inward, parts, descending, grounded⟩ := settled_parts normal.settled
  have outward : names = List.replicate steps up ++ inward.reverse := by
    rw [← List.reverse_reverse names, parts, List.reverse_append, List.reverse_replicate]
  unfold spell
  split
  · exact .here
  · rename_i filled
    rcases Nat.eq_zero_or_pos slashes with rfl | positive
    · rw [List.replicate_zero, List.nil_append, outward] at filled ⊢
      refine .relative (descending_reverse descending) ?_
      intro nothing
      exact filled (by simp [nothing, joinNames])
    · have few := normal.few
      obtain rfl : steps = 0 := grounded (by simp [Nat.ne_of_gt positive])
      rw [outward]
      exact .absolute (by omega) (descending_reverse descending)

/-- Texts of these forms are spellings of names that a walk can leave. -/
private theorem canonical_normal (canonical : Canonical text) :
    ∃ slashes names, Normal slashes names ∧ text = spell slashes names := by
  cases canonical with
  | here => exact ⟨0, [], ⟨by decide, trivial⟩, rfl⟩
  | @relative steps names descending filled =>
    have normal : Normal 0 (List.replicate steps up ++ names) := by
      refine ⟨by decide, ?_⟩
      rw [List.reverse_append, List.reverse_replicate]
      exact settled_descends (settled_climbs steps) (descending_reverse descending)
    refine ⟨0, _, normal, ?_⟩
    rw [spell, if_neg]
    · rfl
    · exact mt List.isEmpty_iff.mp (joined_filled (normal_plain normal) filled)
  | @absolute slashes names front descending =>
    refine ⟨slashes, names, ⟨by omega, ?_⟩, ?_⟩
    · rw [← List.append_nil names.reverse]
      exact settled_descends trivial (descending_reverse descending)
    · rw [spell, if_neg]
      rcases front with rfl | rfl <;> simp

private theorem canonical_turned (canonical : Canonical text) : '\\' ∉ text := by
  obtain ⟨slashes, names, normal, rfl⟩ := canonical_normal canonical
  unfold spell
  split
  · decide
  · simp only [List.mem_append, List.mem_replicate, not_or]
    exact ⟨by simp, joined_avoids (by decide) fun name member =>
      (normal_plain normal name member).noBackslash⟩

private theorem normalize_canonical (path : String) : Canonical (normalize path).toList := by
  obtain ⟨slashes, names, normal, spelled⟩ := normalChars_spelled path.toList
  rw [Location.normalize, String.toList_ofList, spelled]
  exact normal_canonical normal

private theorem canonical_fixed {path : String} (canonical : Canonical path.toList) :
    normalize path = path := by
  obtain ⟨slashes, names, normal, spelled⟩ := canonical_normal canonical
  rw [Location.normalize, spelled, normalChars_spell normal, ← spelled, String.ofList_toList]

end Forms

section Walks

/-- A walk holds what is left over, innermost first. -/
private theorem enter_leftOver (steps reached : List Name) :
    (steps.foldl (enter false) reached).reverse = leftOver reached.reverse steps := by
  induction steps generalizing reached with
  | nil => rfl
  | cons name rest ih =>
    rw [List.foldl_cons, ih, leftOver]
    by_cases blank : name = [] ∨ name = ['.']
    · rw [enter_stays blank, if_pos blank]
    · rw [if_neg blank]
      obtain ⟨filled, notDot⟩ := not_or.mp blank
      simp only [enter, filled, notDot, decide_false, Bool.or_self, Bool.false_eq_true, ↓reduceIte]
      by_cases upward : name = up
      · subst upward
        cases reached with
        | nil => simp
        | cons inner outer =>
          by_cases same : inner = up
          · simp [same]
          · simp [same]
      · simp [upward]

/-- Names can be read off their spelling. -/
private theorem spell_walked (normal : Normal 0 names) :
    walk false ((spell 0 names).splitOn '/') = names := by
  have walked := joined_walked normal
  unfold spell
  split
  · rename_i empty
    rw [List.isEmpty_iff.mp empty] at walked
    exact walked
  · exact walked

/-- A relative path is normalized to the spelling of the names left over. -/
private theorem normalize_leftOver {path : String} (unrooted : Unrooted path) :
    Normal 0 (leftOver [] (stepsOf path.toList)) ∧
      normalize path = keyOf (leftOver [] (stepsOf path.toList)) := by
  obtain ⟨normal, spelled⟩ := normalChars_walk path.toList
  have front := head_turned unrooted.notSlash unrooted.notBackslash
  have left : walk (0 != 0) (stepsOf path.toList) = leftOver [] (stepsOf path.toList) :=
    enter_leftOver (stepsOf path.toList) []
  rw [front, stepsOf_turned, left] at normal spelled
  exact ⟨normal, congrArg String.ofList spelled⟩

private theorem keyOf_injective {other : List Name} (normal : Normal 0 names)
    (otherNormal : Normal 0 other) (same : keyOf names = keyOf other) : names = other := by
  have texts : spell 0 names = spell 0 other := String.ofList_injective same
  calc names = walk false ((spell 0 names).splitOn '/') := (spell_walked normal).symm
    _ = walk false ((spell 0 other).splitOn '/') := by rw [texts]
    _ = other := spell_walked otherNormal

end Walks

/-- **Normal paths are canonical.** Normalizing twice is normalizing once. What
comes out holds no backslash, and is `.` alone, or names behind one slash or two,
or names behind steps upwards, the names being neither empty nor `.` nor `..`;
and every text of these forms is normal. Two paths with no slash in front come to
the same text exactly when the same names are left over on a walk through their
steps. -/
theorem paths_canonical :
    (∀ path,
      normalize (normalize path) = normalize path ∧
        '\\' ∉ (normalize path).toList ∧
        Canonical (normalize path).toList ∧
        (Canonical path.toList → normalize path = path)) ∧
      ∀ path other, Unrooted path → Unrooted other →
        (normalize path = normalize other ↔
          leftOver [] (stepsOf path.toList) = leftOver [] (stepsOf other.toList)) := by
  constructor
  · intro path
    have canonical := normalize_canonical path
    exact ⟨normalize_settles path, canonical_turned canonical, canonical, canonical_fixed⟩
  · intro path other unrooted otherUnrooted
    obtain ⟨normal, spelled⟩ := normalize_leftOver unrooted
    obtain ⟨otherNormal, otherSpelled⟩ := normalize_leftOver otherUnrooted
    rw [spelled, otherSpelled]
    constructor
    · exact keyOf_injective normal otherNormal
    · exact congrArg keyOf

/-- Slashes of both kinds, steps back and a step above the start come to the same
as the path that is spelled normally, which stays as it is. -/
theorem paths_canonical_mixed :
    normalize "a\\..//./b/../..\\c/" = normalize "../c" ∧ normalize "../c" = "../c" := by
  obtain ⟨settled, same⟩ := paths_canonical
  have descending : Descending ["c".toList] := by
    intro name member
    rw [List.mem_singleton.mp member]
    exact ⟨⟨by decide, by decide, by decide, by decide⟩, by decide⟩
  have canonical : Canonical "../c".toList := @Canonical.relative 1 _ descending (by simp)
  constructor
  · exact (same "a\\..//./b/../..\\c/" "../c" ⟨by decide, by decide⟩ ⟨by decide, by decide⟩).mpr
      (by decide)
  · exact (settled "../c").2.2.2 canonical

end EntitySchema.CanonicalPaths
