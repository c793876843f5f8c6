import EntitySchema.Proofs.Combining

/-! How deep converted types nest. A rule may put one more level around the
types of its children, and these have one level less to spend; the rules that
make up a level of their own do so around types without any inside. So the
height of a result is bounded by the levels that may be entered, whatever
definitions refer to each other, and lists in lists reach the bound. -/
namespace EntitySchema.TypeHeight
open Synthesis TypeExpr NormalTypes Combining

variable {type : TypeExpr} {types : List TypeExpr} {bound : Nat}

mutual

/-- How many levels of types stand in each other, one for a type without others
inside. -/
def height : TypeExpr → Nat
  | .unknown | .unspecified | .primitive _ | .literal _ => 1
  | .array element => height element + 1
  | .map value => height value + 1
  | .tuple elements => tallest elements + 1
  | .union members => tallest members + 1
  | .intersection members => tallest members + 1
  | .record fields index => max (tallestField fields) (indexHeight index) + 1

/-- The largest height in a list, zero if there is none. -/
def tallest : List TypeExpr → Nat
  | [] => 0
  | type :: rest => max (height type) (tallest rest)

/-- The largest height of a field. -/
def tallestField : List (Field × TypeExpr) → Nat
  | [] => 0
  | (_, type) :: rest => max (height type) (tallestField rest)

/-- The height of the type for other fields. -/
def indexHeight : Option TypeExpr → Nat
  | none => 0
  | some type => height type

end

/-- The types directly inside a type. -/
def inner : TypeExpr → List TypeExpr
  | .unknown | .unspecified | .primitive _ | .literal _ => []
  | .array type | .map type => [type]
  | .tuple types | .union types | .intersection types => types
  | .record fields index => fields.map Prod.snd ++ index.toList

private theorem tallest_append (first second : List TypeExpr) :
    tallest (first ++ second) = max (tallest first) (tallest second) := by
  induction first with
  | nil => simp [tallest]
  | cons type rest ih => rw [List.cons_append, tallest, tallest, ih, Nat.max_assoc]

private theorem tallestField_types (fields : List (Field × TypeExpr)) :
    tallestField fields = tallest (fields.map Prod.snd) := by
  induction fields with
  | nil => rfl
  | cons entry rest ih => rw [tallestField, ih, List.map_cons, tallest]

/-- A type is one level higher than the highest type inside it. -/
theorem height_inner (type : TypeExpr) : height type = tallest (inner type) + 1 := by
  cases type with
  | record fields index =>
    rw [height, inner, tallest_append, tallestField_types]
    cases index with
    | none => rfl
    | some other => simp [indexHeight, tallest]
  | _ => simp [height, inner, tallest]

theorem tallest_le : tallest types ≤ bound ↔ ∀ type ∈ types, height type ≤ bound := by
  induction types with
  | nil => simp [tallest]
  | cons type rest ih => rw [tallest, Nat.max_le, ih, List.forall_mem_cons]

theorem height_le : height type ≤ bound + 1 ↔ ∀ part ∈ inner type, height part ≤ bound := by
  rw [height_inner, Nat.add_le_add_iff_right, tallest_le]

private theorem inner_join (operator : Operator) (types : List TypeExpr) :
    inner (operator.join types) = types := by
  cases operator <;> rfl

/-- What is taken out of a type to be combined is not higher. -/
private theorem member_height {operator : Operator} {member : TypeExpr}
    (inside : member ∈ operator.members type) : height member ≤ height type := by
  cases joined : operator.joins type with
  | true =>
    rw [← Operator.join_members joined, height_inner (operator.join _), inner_join]
    exact Nat.le_succ_of_le (tallest_le.mp (Nat.le_refl _) member inside)
  | false =>
    rw [Operator.members_single joined, List.mem_singleton] at inside
    exact Nat.le_of_eq (congrArg height inside)

/-- Combining types puts at most one level around them. -/
private theorem apply_height (operator : Operator) (low : ∀ type ∈ types, height type ≤ bound) :
    height (operator.apply types) ≤ bound + 1 := by
  have members : ∀ member ∈ firstsBy text (types.flatMap operator.members),
      height member ≤ bound := by
    intro member kept
    rw [← distinct_firsts] at kept
    obtain ⟨type, listed, inside⟩ := List.mem_flatMap.mp (distinct_member kept)
    exact Nat.le_trans (member_height inside) (low type listed)
  rw [Operator.apply_collapse]
  match found : firstsBy text (types.flatMap operator.members) with
  | [] => exact Nat.succ_le_succ (Nat.zero_le bound)
  | [single] =>
    rw [found] at members
    exact Nat.le_succ_of_le (members single List.mem_cons_self)
  | first :: second :: rest =>
    rw [found] at members
    change height (operator.join (first :: second :: rest)) ≤ bound + 1
    rwa [height_le, inner_join]

/-- A shape puts at most one level around the types of its children. What it
adds of its own has a single level inside, hence the least bound. -/
theorem build_height (shape : Shape) (low : ∀ type ∈ types, height type ≤ bound)
    (positive : 1 ≤ bound) : height (shape.build types) ≤ bound + 1 := by
  cases shape with
  | anyOf nodes => exact apply_height .union low
  | allOf nodes => exact apply_height .intersection low
  | values options =>
    refine apply_height .union fun type listed => ?_
    obtain ⟨value, _, rfl⟩ := List.mem_map.mp listed
    exact positive
  | tuple items => exact height_le.mpr low
  | array item =>
    cases types with
    | nil => exact height_le.mpr (List.forall_mem_singleton.mpr positive)
    | cons type rest =>
      exact height_le.mpr (List.forall_mem_singleton.mpr (low type List.mem_cons_self))
  | anyArray => exact height_le.mpr (List.forall_mem_singleton.mpr positive)
  | anyObject => exact height_le.mpr (List.forall_mem_singleton.mpr positive)
  | record properties required others =>
    refine height_le.mpr fun part inside => ?_
    rcases List.mem_append.mp inside with field | index
    · rw [← List.map_uncurry_zip_eq_zipWith, List.map_map, List.mem_map] at field
      obtain ⟨⟨property, type⟩, paired, rfl⟩ := field
      exact low type (List.of_mem_zip paired).2
    · cases others with
      | closed => cases index
      | anything =>
        cases List.mem_singleton.mp index
        exact positive
      | typed node =>
        exact low part (List.mem_of_mem_drop (List.mem_of_mem_head? (Option.mem_toList.mp index)))
  | unknown | reference ref | value fixed | primitive name =>
    exact Nat.succ_le_succ (Nat.zero_le bound)

/-- Every converted type is at most one level higher than the levels that might
be entered for it, whatever the node, the context and the store. -/
theorem convert_height {source : Source} {budget : Nat} {node : Json} {context : Context}
    {seen : List Reference.Key} {before after : Store}
    (ran : (convert source budget node context seen).run before = (.ok type, after)) :
    height type ≤ budget + 1 := by
  induction budget generalizing node context seen before after type with
  | zero =>
    cases ran
    exact Nat.le_refl 1
  | succ budget ih =>
    by_cases referring : ∃ ref, Shape.ofNode node = .reference ref
    · obtain ⟨ref, shape⟩ := referring
      simp only [convert, shape] at ran
      obtain ⟨found, middle, _, onward⟩ := Action.bind_ran ran
      cases found with
      | none =>
        cases onward
        exact Nat.succ_le_succ (Nat.zero_le _)
      | some hop => exact Nat.le_succ_of_le (ih onward)
    · have structural : ∀ ref, Shape.ofNode node ≠ .reference ref := not_exists.mp referring
      rw [convert_structural source budget context seen structural] at ran
      obtain ⟨types, middle, children, done⟩ := Action.bind_ran ran
      cases done
      refine build_height _ (fun type member => ?_) (Nat.succ_le_succ (Nat.zero_le budget))
      obtain ⟨child, _, early, late, converted⟩ := each_origin children member
      exact ih converted

/-- A list of lists, so many levels down to a list of anything. -/
def nestedLists : Nat → Json
  | 0 => .obj [("type", .str "array")]
  | levels + 1 => .obj [("type", .str "array"), ("items", nestedLists levels)]

/-- Their type. -/
def listsType : Nat → TypeExpr
  | 0 => .array .unknown
  | levels + 1 => .array (listsType levels)

private theorem listsType_height (levels : Nat) : height (listsType levels) = levels + 2 := by
  induction levels with
  | zero => rfl
  | succ levels ih => rw [listsType, height, ih]

private theorem nestedLists_shape (levels : Nat) :
    Shape.ofNode (nestedLists (levels + 1)) = .array (nestedLists levels) := by
  cases levels <;> rfl

private theorem nestedLists_converted (source : Source) (context : Context)
    (seen : List Reference.Key) (levels : Nat) :
    convert source (levels + 1) (nestedLists levels) context seen = pure (listsType levels) := by
  induction levels with
  | zero => rfl
  | succ levels ih =>
    rw [convert, nestedLists_shape]
    simp only [ih, pure_bind]
    rfl

/-- **Output nesting is bounded, whatever the schema.** A node deeper than the
limit is converted to nothing known. Any other has a type of at most so many
levels as there are depths left below it, and two more: one for its own depth and
one for what the rules put into a type by themselves. Lists in lists have as many. -/
theorem output_nesting_bounded (source : Source) (context : Context) (seen : List Reference.Key)
    (maxDepth depth : Int) :
    (∀ node before after type,
      (convert source (budgetAt maxDepth depth) node context seen).run before = (.ok type, after) →
      (maxDepth < depth → type = .unknown) ∧
        (depth ≤ maxDepth → (height type : Int) ≤ maxDepth - depth + 2)) ∧
      (depth ≤ maxDepth → ∀ store, ∃ node type,
        (convert source (budgetAt maxDepth depth) node context seen).run store = (.ok type, store) ∧
          (height type : Int) = maxDepth - depth + 2) := by
  refine ⟨?_, ?_⟩
  · intro node before after type ran
    refine ⟨fun deeper => ?_, fun allowed => ?_⟩
    · have spent : budgetAt maxDepth depth = 0 := by
        unfold budgetAt
        omega
      rw [spent] at ran
      cases ran
      rfl
    · have low := convert_height ran
      unfold budgetAt at low
      omega
  · intro allowed store
    obtain ⟨levels, left⟩ : ∃ levels : Nat, (levels : Int) = maxDepth - depth :=
      ⟨(maxDepth - depth).toNat, by omega⟩
    have budget : budgetAt maxDepth depth = levels + 1 := by
      unfold budgetAt
      omega
    refine ⟨nestedLists levels, listsType levels, ?_, ?_⟩
    · rw [budget, nestedLists_converted]
      rfl
    · rw [listsType_height]
      omega

/-- A list of lists of its own kind. -/
def endlessNode : Json :=
  .obj [("type", .str "array"), ("items", .obj [("$ref", .str "#")])]

/-- The second time the reference comes up, it leads nowhere. -/
theorem output_nesting_bounded_endless :
    (convert ⟨{}, ⟨0, []⟩⟩ (budgetAt 3 0) endlessNode ⟨endlessNode, "d"⟩ []).run {} =
        (.ok (.array (.array .unknown)), {}) ∧
      (height (.array (.array .unknown)) : Int) ≤ 3 - 0 + 2 := by
  have ran : (convert ⟨{}, ⟨0, []⟩⟩ (budgetAt 3 0) endlessNode ⟨endlessNode, "d"⟩ []).run {} =
      (.ok (.array (.array .unknown)), {}) := by rfl
  have bounded := (output_nesting_bounded ⟨{}, ⟨0, []⟩⟩ ⟨endlessNode, "d"⟩ [] 3 0).1 _ _ _ _ ran
  exact ⟨ran, bounded.2 (by decide)⟩

end EntitySchema.TypeHeight
