import EntitySchema.Proofs.NormalTypes
import Mathlib.Data.List.Induction

/-! Combinations of combinations. What is combined is a list of members, taken
out of the types that are combinations themselves, and of each text the first
member stays. Members are therefore the same, in the same order, whether all
types are combined at once or group by group, as long as no group comes to
nothing and no member is again a combination of that kind. -/
namespace EntitySchema.Combining
open TypeExpr NormalTypes

section Firsts

variable {α β κ : Type} [DecidableEq κ] {key : α → κ} {items : List α}

/-- The items whose key no earlier item has, in order. -/
def firstsBy (key : α → κ) (items : List α) : List α :=
  (items.zipIdx.filter fun (item, place) => key item ∉ (items.take place).map key).map Prod.fst

/-- One more item is kept if its key is new; what was kept before does not change. -/
theorem firstsBy_concat (key : α → κ) (items : List α) (item : α) :
    firstsBy key (items ++ [item]) =
      firstsBy key items ++ if key item ∈ items.map key then [] else [item] := by
  have earlier : (items.zipIdx.filter fun entry =>
        key entry.1 ∉ ((items ++ [item]).take entry.2).map key) =
      items.zipIdx.filter fun entry => key entry.1 ∉ (items.take entry.2).map key := by
    refine List.filter_congr fun entry member => ?_
    have inside : entry.2 < items.length := (List.mem_zipIdx' member).1
    rw [List.take_append_of_le_length (Nat.le_of_lt inside)]
  simp only [firstsBy, List.zipIdx_append, List.filter_append, List.map_append, earlier]
  by_cases repeated : key item ∈ items.map key <;> simp [repeated]

theorem firstsBy_repeated {item : α} (repeated : key item ∈ items.map key) :
    firstsBy key (items ++ [item]) = firstsBy key items := by
  rw [firstsBy_concat, if_pos repeated, List.append_nil]

theorem firstsBy_keys (key : α → κ) (items : List α) (value : κ) :
    value ∈ (firstsBy key items).map key ↔ value ∈ items.map key := by
  induction items using List.reverseRecOn with
  | nil => rfl
  | append_singleton items item ih =>
    by_cases repeated : key item ∈ items.map key
    · rw [firstsBy_repeated repeated, ih, List.map_append, List.mem_append]
      refine ⟨.inl, ?_⟩
      rintro (before | last)
      · exact before
      · rwa [List.mem_singleton.mp last]
    · rw [firstsBy_concat, if_neg repeated, List.map_append, List.mem_append, ih, List.map_append,
        List.mem_append]

/-- Repeats may be dropped from the later items first. -/
theorem firstsBy_later (key : α → κ) (first second : List α) :
    firstsBy key (first ++ firstsBy key second) = firstsBy key (first ++ second) := by
  induction second using List.reverseRecOn with
  | nil => rfl
  | append_singleton second item ih =>
    by_cases repeated : key item ∈ second.map key
    · have again : key item ∈ (first ++ second).map key := by
        rw [List.map_append]
        exact List.mem_append_right _ repeated
      rw [firstsBy_repeated repeated, ih, ← List.append_assoc, firstsBy_repeated again]
    · rw [firstsBy_concat, if_neg repeated, ← List.append_assoc, ← List.append_assoc,
        firstsBy_concat, firstsBy_concat, ih]
      simp only [List.map_append, List.mem_append, firstsBy_keys]

/-- Repeats may be dropped from the earlier items first. -/
theorem firstsBy_earlier (key : α → κ) (first second : List α) :
    firstsBy key (firstsBy key first ++ second) = firstsBy key (first ++ second) := by
  induction second using List.reverseRecOn with
  | nil =>
    rw [List.append_nil, List.append_nil]
    exact firstsBy_later key [] first
  | append_singleton second item ih =>
    rw [← List.append_assoc, ← List.append_assoc, firstsBy_concat, firstsBy_concat, ih]
    simp only [List.map_append, List.mem_append, firstsBy_keys]

theorem firstsBy_map (key : β → κ) (f : α → β) (items : List α) :
    firstsBy key (items.map f) = (firstsBy (key ∘ f) items).map f := by
  induction items using List.reverseRecOn with
  | nil => rfl
  | append_singleton items item ih =>
    rw [List.map_append, List.map_singleton, firstsBy_concat, firstsBy_concat, ih, List.map_append,
      List.map_map, apply_ite (List.map f)]
    rfl

/-- Under keys that tell all items apart, an item is a repeat only of itself. -/
theorem firstsBy_injective [DecidableEq α] (injective : ∀ a b, key a = key b → a = b)
    (items : List α) : firstsBy key items = firstsBy id items := by
  induction items using List.reverseRecOn with
  | nil => rfl
  | append_singleton items item ih =>
    have same : key item ∈ items.map key ↔ id item ∈ items.map id := by
      rw [List.map_id, id]
      refine ⟨fun found => ?_, fun found => List.mem_map_of_mem found⟩
      obtain ⟨other, member, same⟩ := List.mem_map.mp found
      rwa [← injective _ _ same]
    rw [firstsBy_concat, firstsBy_concat, ih]
    simp only [same]

end Firsts

/-- One more type is kept if its text is new. -/
private theorem distinctFrom_concat (seen : List String) (types : List TypeExpr)
    (type : TypeExpr) :
    distinctFrom seen (types ++ [type]) =
      distinctFrom seen types ++
        if type.text ∈ seen ∨ type.text ∈ types.map text then [] else [type] := by
  induction types generalizing seen with
  | nil => simp [distinctFrom]
  | cons first rest ih =>
    simp only [List.cons_append, distinctFrom, List.contains_eq_mem, decide_eq_true_eq, ih,
      List.map_cons, List.mem_cons]
    by_cases held : first.text ∈ seen
    · have same : type.text ∈ seen ∨ type.text = first.text ∨ type.text ∈ rest.map text ↔
          type.text ∈ seen ∨ type.text ∈ rest.map text := by
        refine ⟨?_, fun before => before.imp_right .inr⟩
        rintro (before | same | later)
        · exact .inl before
        · exact .inl (same ▸ held)
        · exact .inr later
      simp only [held, ↓reduceIte, same]
    · simp only [held, ↓reduceIte, List.cons_append, or_left_comm, or_assoc]

/-- What is kept of a list of types is the first type of each text. -/
theorem distinct_firsts (types : List TypeExpr) : distinct types = firstsBy text types := by
  induction types using List.reverseRecOn with
  | nil => rfl
  | append_singleton types type ih =>
    rw [firstsBy_concat, ← ih, distinct, distinctFrom_concat]
    simp only [List.not_mem_nil, false_or, distinct]

/-- The two ways of combining types. -/
inductive Operator where
  | union
  | intersection

namespace Operator

/-- The combination of types: one of them, or all of them at once. -/
def apply : Operator → List TypeExpr → TypeExpr
  | .union => anyOf
  | .intersection => allOf

/-- The expression that has these types as its members. -/
def join : Operator → List TypeExpr → TypeExpr
  | .union => .union
  | .intersection => .intersection

/-- The members of an expression of this kind; any other type is its own. -/
def members : Operator → TypeExpr → List TypeExpr
  | .union => unionMembers
  | .intersection => intersectionMembers

/-- Is the type an expression of this kind? -/
def joins : Operator → TypeExpr → Bool
  | .union => isUnion
  | .intersection => isIntersection

variable {operator : Operator} {type : TypeExpr} {types : List TypeExpr}

theorem apply_collapse (operator : Operator) (types : List TypeExpr) :
    operator.apply types =
      collapse operator.join (firstsBy text (types.flatMap operator.members)) := by
  cases operator <;> simp only [apply, anyOf, allOf, distinct_firsts] <;> rfl

theorem members_join (operator : Operator) (types : List TypeExpr) :
    operator.members (operator.join types) = types := by
  cases operator <;> rfl

theorem members_single (single : operator.joins type = false) :
    operator.members type = [type] := by
  cases operator with
  | union =>
    cases type with
    | union members => cases single
    | _ => rfl
  | intersection =>
    cases type with
    | intersection members => cases single
    | _ => rfl

theorem join_members (joined : operator.joins type = true) :
    operator.join (operator.members type) = type := by
  cases operator with
  | union =>
    cases type with
    | union members => rfl
    | _ => cases joined
  | intersection =>
    cases type with
    | intersection members => rfl
    | _ => cases joined

/-- A combination has the members that it kept of the types combined. -/
theorem members_apply (filled : types.flatMap operator.members ≠ [])
    (flat : ∀ member ∈ types.flatMap operator.members, operator.joins member = false) :
    operator.members (operator.apply types) = firstsBy text (types.flatMap operator.members) := by
  rw [apply_collapse]
  match found : firstsBy text (types.flatMap operator.members) with
  | [] =>
    obtain ⟨member, inside⟩ := List.exists_mem_of_ne_nil _ filled
    have kept := (firstsBy_keys text _ member.text).mpr (List.mem_map_of_mem inside)
    rw [found] at kept
    cases kept
  | [single] =>
    have kept : single ∈ distinct (types.flatMap operator.members) := by
      rw [distinct_firsts, found]
      exact List.mem_singleton_self single
    exact members_single (flat single (distinct_member kept))
  | first :: second :: rest => exact members_join operator _

end Operator

variable {operator : Operator} {type : TypeExpr} {xs ys : List TypeExpr}

/-- A type in the form that combining keeps to: an expression of this kind has
members, and none of them is again of this kind. -/
def Flat (operator : Operator) (type : TypeExpr) : Prop :=
  operator.members type ≠ [] ∧ ∀ member ∈ operator.members type, operator.joins member = false

/-- The types that conversion gives are in this form for both operators. -/
theorem normal_flat (operator : Operator) (normal : Normal type) : Flat operator type := by
  cases operator with
  | union =>
    refine ⟨?_, fun member inside => (unionMembers_normal normal member inside).2⟩
    cases normal with
    | union inner form =>
      exact List.ne_nil_of_length_pos (Nat.lt_of_lt_of_le Nat.zero_lt_two form.several)
    | _ => exact List.cons_ne_nil _ _
  | intersection =>
    refine ⟨?_, fun member inside => (intersectionMembers_normal normal member inside).2⟩
    cases normal with
    | intersection inner form =>
      exact List.ne_nil_of_length_pos (Nat.lt_of_lt_of_le Nat.zero_lt_two form.several)
    | _ => exact List.cons_ne_nil _ _

private theorem apply_members (filled : xs ≠ []) (flat : ∀ type ∈ xs, Flat operator type) :
    operator.members (operator.apply xs) = firstsBy text (xs.flatMap operator.members) := by
  refine Operator.members_apply ?_ ?_
  · obtain ⟨type, listed⟩ := List.exists_mem_of_ne_nil xs filled
    exact fun nothing => (flat type listed).1 (List.flatMap_eq_nil_iff.mp nothing type listed)
  · intro member inside
    obtain ⟨type, listed, among⟩ := List.mem_flatMap.mp inside
    exact (flat type listed).2 member among

/-- **Nested combinations flatten.** For lists of types that are not empty and in
which no combination is empty or stands directly in one of its own kind:
combining the two lists gives the same as combining their combinations, a
combination is its own combination, and a type whose text is among the members
already adds nothing. What is combined in the end is the first member of each
text, in order. All this holds of unions and of intersections. -/
theorem nested_combinations_flatten (operator : Operator) (filled : xs ≠ []) (otherFilled : ys ≠ [])
    (flat : ∀ type ∈ xs, Flat operator type) (otherFlat : ∀ type ∈ ys, Flat operator type) :
    operator.apply (xs ++ ys) = operator.apply [operator.apply xs, operator.apply ys] ∧
      operator.apply [operator.apply xs] = operator.apply xs ∧
      (∀ type, operator.joins type = false →
        type.text ∈ (xs.flatMap operator.members).map text →
        operator.apply (xs ++ [type]) = operator.apply xs) ∧
      operator.apply xs =
        collapse operator.join (firstsBy text (xs.flatMap operator.members)) := by
  have members := apply_members filled flat
  have others := apply_members otherFilled otherFlat
  refine ⟨?_, ?_, ?_, operator.apply_collapse xs⟩
  · rw [operator.apply_collapse (xs ++ ys), operator.apply_collapse [_, _], List.flatMap_append,
      List.flatMap_cons, List.flatMap_singleton, members, others, firstsBy_later, firstsBy_earlier]
  · have again := firstsBy_earlier text (xs.flatMap operator.members) []
    rw [List.append_nil, List.append_nil] at again
    rw [operator.apply_collapse [_], List.flatMap_singleton, members, again,
      operator.apply_collapse xs]
  · intro type single repeated
    rw [operator.apply_collapse, List.flatMap_append, List.flatMap_singleton,
      Operator.members_single single, firstsBy_repeated repeated, operator.apply_collapse xs]

/-- A text or nothing. -/
def textOrNull : TypeExpr := .union [.primitive "string", .primitive "null"]

/-- The value `null` is written like the type `null`, which came first and stays. -/
theorem nested_combinations_flatten_null :
    Normal textOrNull ∧
      Operator.union.apply ([textOrNull] ++ [.literal .null, .literal (.bool true)]) =
        Operator.union.apply [Operator.union.apply [textOrNull],
          Operator.union.apply [.literal .null, .literal (.bool true)]] ∧
      Operator.union.apply ([textOrNull] ++ [.literal .null]) = textOrNull ∧
      Operator.union.apply ([textOrNull] ++ [.literal .null, .literal (.bool true)]) =
        .union [.primitive "string", .primitive "null", .literal (.bool true)] := by
  have converted : (Synthesis.convert ⟨{}, ⟨0, []⟩⟩ 2
      (.obj [("type", .arr [.str "string", .str "null"])]) ⟨.null, "d"⟩ []).run {} =
      (.ok textOrNull, {}) := by rfl
  have normal := convert_normal converted
  have flat : ∀ type ∈ [textOrNull], Flat .union type :=
    List.forall_mem_singleton.mpr (normal_flat .union normal)
  have otherFlat : ∀ type ∈ [.literal .null, .literal (.bool true)], Flat .union type :=
    List.forall_mem_cons.mpr ⟨normal_flat .union (.literal _),
      List.forall_mem_singleton.mpr (normal_flat .union (.literal _))⟩
  obtain ⟨grouped, _, repeated, _⟩ := nested_combinations_flatten .union (List.cons_ne_nil _ _)
    (List.cons_ne_nil _ _) flat otherFlat
  refine ⟨normal, grouped, ?_, rfl⟩
  rw [repeated (.literal .null) rfl (List.mem_cons_of_mem _ List.mem_cons_self)]
  rfl

end EntitySchema.Combining
