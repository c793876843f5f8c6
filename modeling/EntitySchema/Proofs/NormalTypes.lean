import EntitySchema.Proofs.Decomposition

/-! The form of converted types. Combining types takes members of the same kind
apart, drops those whose text came before and gives up a combination of one, so
every union and intersection in a converted type has at least two members, of
other kinds and with texts of their own. Primitive types come from the type
names of schemas alone. -/
namespace EntitySchema.NormalTypes
open Synthesis TypeExpr

/-- The primitive types that schemas name. -/
def primitiveNames : List String :=
  ["string", "number", "boolean", "null"]

/-- Members of a combination: several, none of them a combination of that kind,
and no text twice. -/
structure Members (same : TypeExpr → Bool) (members : List TypeExpr) : Prop where
  several : 2 ≤ members.length
  flat : ∀ member ∈ members, same member = false
  distinct : (members.map TypeExpr.text).Nodup

/-- Types in the form that conversion gives them. -/
inductive Normal : TypeExpr → Prop where
  | unknown : Normal .unknown
  | primitive {name : String} (known : name ∈ primitiveNames) : Normal (.primitive name)
  | literal (value : Json) : Normal (.literal value)
  | array {element : TypeExpr} (inner : Normal element) : Normal (.array element)
  | map {value : TypeExpr} (inner : Normal value) : Normal (.map value)
  | tuple {elements : List TypeExpr} (inner : ∀ element ∈ elements, Normal element) :
    Normal (.tuple elements)
  | union {members : List TypeExpr} (inner : ∀ member ∈ members, Normal member)
    (form : Members isUnion members) : Normal (.union members)
  | intersection {members : List TypeExpr} (inner : ∀ member ∈ members, Normal member)
    (form : Members isIntersection members) : Normal (.intersection members)
  | record {fields : List (Field × TypeExpr)} {index : Option TypeExpr}
    (inner : ∀ entry ∈ fields, Normal entry.2) (others : ∀ type ∈ index, Normal type) :
    Normal (.record fields index)

variable {type : TypeExpr} {types : List TypeExpr}

private theorem distinctFrom_kept {seen : List String} :
    ∀ kept ∈ distinctFrom seen types, kept ∈ types ∧ kept.text ∉ seen := by
  induction types generalizing seen with
  | nil => simp [distinctFrom]
  | cons type rest ih =>
    intro kept member
    rw [distinctFrom] at member
    simp only [List.contains_eq_mem, decide_eq_true_eq] at member
    split at member
    · obtain ⟨later, fresh⟩ := ih kept member
      exact ⟨List.mem_cons_of_mem _ later, fresh⟩
    · rename_i fresh
      rcases List.mem_cons.mp member with rfl | member
      · exact ⟨List.mem_cons_self, fresh⟩
      · obtain ⟨later, unseen⟩ := ih kept member
        exact ⟨List.mem_cons_of_mem _ later, fun earlier => unseen (List.mem_cons_of_mem _ earlier)⟩

private theorem distinctFrom_nodup {seen : List String} :
    ((distinctFrom seen types).map TypeExpr.text).Nodup := by
  induction types generalizing seen with
  | nil => exact List.nodup_nil
  | cons type rest ih =>
    rw [distinctFrom]
    split
    · exact ih
    · rw [List.map_cons, List.nodup_cons]
      refine ⟨?_, ih⟩
      intro twice
      obtain ⟨kept, member, same⟩ := List.mem_map.mp twice
      exact (distinctFrom_kept kept member).2 (by simp [same])

theorem distinct_member (member : type ∈ distinct types) : type ∈ types :=
  (distinctFrom_kept type member).1

/-- A combination of distinct members is in normal form, and so is a member
that was left alone. -/
private theorem collapse_normal {combine : List TypeExpr → TypeExpr}
    (alone : ∀ type ∈ types, Normal type)
    (together : 2 ≤ (distinct types).length → Normal (combine (distinct types))) :
    Normal (collapse combine (distinct types)) := by
  match found : distinct types with
  | [] => exact .unknown
  | [type] => exact alone type (distinct_member (by simp [found]))
  | first :: second :: rest =>
    rw [found] at together
    exact together (by simp)

theorem unionMembers_normal (normal : Normal type) :
    ∀ member ∈ unionMembers type, Normal member ∧ isUnion member = false := by
  intro member inside
  cases type with
  | union members =>
    cases normal with
    | union inner form => exact ⟨inner member inside, form.flat member inside⟩
  | _ =>
    cases List.mem_singleton.mp inside
    exact ⟨normal, rfl⟩

theorem intersectionMembers_normal (normal : Normal type) :
    ∀ member ∈ intersectionMembers type, Normal member ∧ isIntersection member = false := by
  intro member inside
  cases type with
  | intersection members =>
    cases normal with
    | intersection inner form => exact ⟨inner member inside, form.flat member inside⟩
  | _ =>
    cases List.mem_singleton.mp inside
    exact ⟨normal, rfl⟩

theorem anyOf_normal (normal : ∀ type ∈ types, Normal type) : Normal (anyOf types) := by
  have members : ∀ member ∈ types.flatMap unionMembers,
      Normal member ∧ isUnion member = false := by
    intro member inside
    obtain ⟨type, listed, inside⟩ := List.mem_flatMap.mp inside
    exact unionMembers_normal (normal type listed) member inside
  refine collapse_normal (fun type member => (members type member).1) fun several => ?_
  exact .union (fun member kept => (members member (distinct_member kept)).1)
    ⟨several, fun member kept => (members member (distinct_member kept)).2, distinctFrom_nodup⟩

theorem allOf_normal (normal : ∀ type ∈ types, Normal type) : Normal (allOf types) := by
  have members : ∀ member ∈ types.flatMap intersectionMembers,
      Normal member ∧ isIntersection member = false := by
    intro member inside
    obtain ⟨type, listed, inside⟩ := List.mem_flatMap.mp inside
    exact intersectionMembers_normal (normal type listed) member inside
  refine collapse_normal (fun type member => (members type member).1) fun several => ?_
  exact .intersection (fun member kept => (members member (distinct_member kept)).1)
    ⟨several, fun member kept => (members member (distinct_member kept)).2, distinctFrom_nodup⟩

private theorem lookup_known {name found : String}
    (held : Shape.primitives.lookup name = some found) : found ∈ primitiveNames := by
  obtain ⟨before, after, split, _⟩ := List.lookup_eq_some_iff.mp held
  have member : (name, found) ∈ Shape.primitives := by simp [split]
  have known : ∀ entry ∈ Shape.primitives, entry.2 ∈ primitiveNames := by decide
  exact known _ member

/-- A node falls under a primitive rule only by a type name that has one. -/
theorem ofNode_known {node : Json} {name : String} (shape : Shape.ofNode node = .primitive name) :
    name ∈ primitiveNames := by
  have calls := Dispatch.ofNode_calls node
  rw [shape] at calls
  cases calls with
  | primitive named listed => exact lookup_known listed

/-- A shape builds normal types from normal types. -/
theorem build_normal {shape : Shape} (known : ∀ name, shape = .primitive name → name ∈ primitiveNames)
    (normal : ∀ type ∈ types, Normal type) : Normal (shape.build types) := by
  cases shape with
  | unknown => exact .unknown
  | reference ref => exact .unknown
  | anyOf nodes => exact anyOf_normal normal
  | allOf nodes => exact allOf_normal normal
  | values options =>
    refine anyOf_normal ?_
    intro type member
    obtain ⟨value, _, rfl⟩ := List.mem_map.mp member
    exact .literal value
  | value fixed => exact .literal fixed
  | tuple items => exact .tuple normal
  | array item =>
    cases types with
    | nil => exact .array .unknown
    | cons type rest => exact .array (normal type List.mem_cons_self)
  | anyArray => exact .array .unknown
  | anyObject => exact .map .unknown
  | record properties required others =>
    refine .record ?_ ?_
    · intro entry member
      rw [← List.map_uncurry_zip_eq_zipWith, List.mem_map] at member
      obtain ⟨⟨property, type⟩, paired, rfl⟩ := member
      exact normal type (List.of_mem_zip paired).2
    · intro type member
      cases others with
      | closed => cases member
      | anything => cases member; exact .unknown
      | typed node =>
        exact normal type (List.mem_of_mem_drop (List.mem_of_mem_head? member))
  | primitive name => exact .primitive (known name rfl)

/-- What a successful pass gives comes from runs on the elements, each of them
from a state of which everything holds that the runs keep. -/
theorem each_member {σ ε α β : Type} {f : α → Action σ ε β} {items : List α} {results : List β}
    {s after : σ} (invariant : σ → Prop)
    (kept : ∀ item ∈ items, ∀ early, invariant early → invariant ((f item).run early).2)
    (start : invariant s) (ran : (Action.each f items).run s = (.ok results, after)) :
    ∀ result ∈ results, ∃ item ∈ items, ∃ early late,
      invariant early ∧ (f item).run early = (.ok result, late) := by
  induction items generalizing s results with
  | nil => cases ran; simp
  | cons item rest ih =>
    have middling := kept item List.mem_cons_self s start
    obtain ⟨result, more, middle, rfl, first, others⟩ := Action.each_cons_ran ran
    rw [first] at middling
    intro found member
    rcases List.mem_cons.mp member with rfl | later
    · exact ⟨item, List.mem_cons_self, s, middle, start, first⟩
    · obtain ⟨item, listed, witness⟩ := ih
        (fun other inside => kept other (List.mem_cons_of_mem _ inside)) middling others found later
      exact ⟨item, List.mem_cons_of_mem _ listed, witness⟩

/-- What a successful pass gives comes from runs on the elements. -/
theorem each_origin {σ ε α β : Type} {f : α → Action σ ε β} {items : List α} {results : List β}
    {result : β} {s after : σ} (ran : (Action.each f items).run s = (.ok results, after))
    (member : result ∈ results) :
    ∃ item ∈ items, ∃ early late, (f item).run early = (.ok result, late) := by
  obtain ⟨item, listed, early, late, _, gave⟩ :=
    each_member (fun _ => True) (fun _ _ _ _ => trivial) trivial ran result member
  exact ⟨item, listed, early, late, gave⟩

/-- Every converted type is in normal form, whatever the node, the budget and
the store. -/
theorem convert_normal {source : Source} {budget : Nat} {node : Json} {context : Context}
    {seen : List Reference.Key} {before after : Store}
    (ran : (convert source budget node context seen).run before = (.ok type, after)) :
    Normal type := by
  induction budget generalizing node context seen before after type with
  | zero => cases ran; exact .unknown
  | succ budget ih =>
    by_cases referring : ∃ ref, Shape.ofNode node = .reference ref
    · obtain ⟨ref, shape⟩ := referring
      simp only [convert, shape] at ran
      obtain ⟨found, middle, _, onward⟩ := Action.bind_ran ran
      cases found with
      | none => cases onward; exact .unknown
      | some hop => exact ih onward
    · rw [convert_structural source budget context seen fun ref shape => referring ⟨ref, shape⟩] at ran
      obtain ⟨types, middle, children, done⟩ := Action.bind_ran ran
      cases done
      refine build_normal (fun name shape => ofNode_known shape) ?_
      intro type member
      obtain ⟨child, _, early, late, converted⟩ := each_origin children member
      exact ih converted

end EntitySchema.NormalTypes
