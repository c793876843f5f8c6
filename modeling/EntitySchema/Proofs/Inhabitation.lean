import EntitySchema.Proofs.TypeText

/-! The values of a type. Types describe values by their structure: an object
may hold more than a record or a literal asks for, a tuple has exactly its
elements, and a combination has the values of some or of all its members. Types
with one text have the same values, so nothing is lost when a union keeps only
the first member of each text. -/
namespace EntitySchema.Inhabitation
open CanonicalTypes NormalTypes TypeText JsonText

/-- What a value is called by its kind. -/
def kindName : Json → String
  | .null => "null"
  | .bool _ => "boolean"
  | .num _ => "number"
  | .str _ => "string"
  | .arr _ => "array"
  | .obj _ => "object"

/-- Values of the type of one value: objects that hold its fields, lists of the
same length, and otherwise the value alone. -/
def IsLiteral (value : Json) : Json → Prop
  | .obj fields => ∃ entries, value = .obj entries ∧
    ∀ name expected, (found : fields.lookup name = some expected) →
      ∃ held, entries.lookup name = some held ∧ IsLiteral held expected
  | .arr items => ∃ elements, value = .arr elements ∧ elements.length = items.length ∧
    ∀ element (position : Nat) item, elements[position]? = some element →
      (found : items[position]? = some item) → IsLiteral element item
  | other => value = other
termination_by fixed => sizeOf fixed
decreasing_by
  · obtain ⟨before, after, split, _⟩ := List.lookup_eq_some_iff.mp found
    have member : (name, expected) ∈ fields := by simp [split]
    have smaller := List.sizeOf_lt_of_mem member
    simp only [Prod.mk.sizeOf_spec, Json.obj.sizeOf_spec] at smaller ⊢
    omega
  · have smaller := List.sizeOf_lt_of_mem (List.mem_of_getElem? found)
    simp only [Json.arr.sizeOf_spec]
    omega

/-- Values of a type. -/
def Inhabits (value : Json) : TypeExpr → Prop
  | .unknown | .unspecified => True
  | .primitive name => kindName value = name
  | .literal fixed => IsLiteral value fixed
  | .array element => ∃ items, value = .arr items ∧ ∀ item ∈ items, Inhabits item element
  | .map type => ∃ entries, value = .obj entries ∧
    ∀ name held, entries.lookup name = some held → Inhabits held type
  | .tuple elements => ∃ items, value = .arr items ∧ items.length = elements.length ∧
    ∀ item (position : Nat) element, items[position]? = some item →
      (found : elements[position]? = some element) → Inhabits item element
  | .union members => ∃ member, ∃ _ : member ∈ members, Inhabits value member
  | .intersection members => ∀ member ∈ members, Inhabits value member
  | .record fields index => ∃ entries, value = .obj entries ∧
    (∀ field type, (field, type) ∈ fields →
      (field.optional = false → (entries.lookup field.name).isSome) ∧
        ∀ held, entries.lookup field.name = some held → Inhabits held type) ∧
    ∀ type, index = some type → ∀ name held, entries.lookup name = some held →
      (∀ entry ∈ fields, entry.1.name ≠ name) → Inhabits held type
termination_by type => sizeOf type
decreasing_by
  · simp
  · exact value_smaller type
  · exact element_smaller (List.mem_of_getElem? found)
  · exact alternative_smaller ‹member ∈ members›
  · exact operand_smaller ‹member ∈ members›
  · exact field_smaller ‹(field, type) ∈ fields›
  · exact index_smaller ‹index = some type›

variable {value : Json} {type another : TypeExpr} {types : List TypeExpr}

/-- Every value has the type of that value. -/
theorem literal_self (value : Json) : IsLiteral value value := by
  induction value using json_induction with
  | null => simp [IsLiteral]
  | bool value => simp [IsLiteral]
  | num value => simp [IsLiteral]
  | str value => simp [IsLiteral]
  | arr items ih =>
    rw [IsLiteral]
    refine ⟨items, rfl, rfl, ?_⟩
    intro element position item found held
    rw [found] at held
    cases held
    exact ih element (List.mem_of_getElem? found)
  | obj fields ih =>
    rw [IsLiteral]
    refine ⟨fields, rfl, ?_⟩
    intro name expected found
    obtain ⟨before, after, split, _⟩ := List.lookup_eq_some_iff.mp found
    exact ⟨expected, found, ih (name, expected) (by simp [split])⟩

theorem inhabits_unknown (value : Json) : Inhabits value .unknown := by
  rw [Inhabits]
  trivial

theorem inhabits_literal (value fixed : Json) :
    Inhabits value (.literal fixed) ↔ IsLiteral value fixed := by
  rw [Inhabits]

private theorem list_literal {items : List Json} {elements : List TypeExpr}
    (length : elements.length = items.length)
    (same : ∀ (position : Nat) item element, items[position]? = some item →
      elements[position]? = some element → ∀ value, IsLiteral value item ↔ Inhabits value element) :
    IsLiteral value (.arr items) ↔ Inhabits value (.tuple elements) := by
  rw [IsLiteral, Inhabits]
  constructor
  · rintro ⟨held, rfl, count, each⟩
    refine ⟨held, rfl, count.trans length.symm, ?_⟩
    intro item position element found listed
    obtain ⟨expected, given⟩ : ∃ expected, items[position]? = some expected := by
      have inside := (List.getElem?_eq_some_iff.mp found).1
      exact ⟨items[position], List.getElem?_eq_getElem (by omega)⟩
    exact (same position expected element given listed item).mp
      (each item position expected found given)
  · rintro ⟨held, rfl, count, each⟩
    refine ⟨held, rfl, count.trans length, ?_⟩
    intro element position item found given
    obtain ⟨type, listed⟩ : ∃ type, elements[position]? = some type := by
      have inside := (List.getElem?_eq_some_iff.mp found).1
      exact ⟨elements[position], List.getElem?_eq_getElem (by omega)⟩
    exact (same position item type given listed element).mpr
      (each element position type found listed)

/-- A literal and the type that is written like it have the same values. -/
theorem literalType_inhabits (value fixed : Json) :
    Inhabits value (literalType fixed) ↔ Inhabits value (.literal fixed) := by
  induction fixed using json_induction generalizing value with
  | null =>
    simp only [literalType, Inhabits, IsLiteral]
    cases value <;> simp [kindName]
  | bool fixed => rfl
  | num fixed => rfl
  | str fixed => rfl
  | arr items ih =>
    match items with
    | [] =>
      rw [literalType, inhabits_literal]
      exact (list_literal rfl (by simp)).symm
    | [item] =>
      by_cases plain : ∀ text, item ≠ .str text
      · rw [literalType_single plain, inhabits_literal]
        refine (list_literal rfl ?_).symm
        intro position expected element given listed held
        cases position with
        | zero =>
          cases given
          cases listed
          rw [← inhabits_literal]
          exact (ih item List.mem_cons_self held).symm
        | succ position => cases given
      · simp only [not_forall, not_not] at plain
        obtain ⟨text, rfl⟩ := plain
        rfl
    | first :: second :: rest => cases first <;> rfl
  | obj fields ih =>
    match fields with
    | [] => simp [literalType, Inhabits, IsLiteral]
    | entry :: rest => rfl

private theorem tuple_canonical {elements : List TypeExpr}
    (same : ∀ element ∈ elements, ∀ value, Inhabits value (canonical element) ↔
      Inhabits value element) :
    Inhabits value (.tuple (elements.map canonical)) ↔ Inhabits value (.tuple elements) := by
  simp only [Inhabits, List.length_map, List.getElem?_map]
  constructor
  · rintro ⟨items, rfl, count, each⟩
    refine ⟨items, rfl, count, fun item position element found listed => ?_⟩
    exact (same element (List.mem_of_getElem? listed) item).mp
      (each item position (canonical element) found (by rw [listed]; rfl))
  · rintro ⟨items, rfl, count, each⟩
    refine ⟨items, rfl, count, fun item position element found listed => ?_⟩
    obtain ⟨original, given, rfl⟩ := Option.map_eq_some_iff.mp listed
    exact (same original (List.mem_of_getElem? given) item).mpr
      (each item position original found given)

private theorem record_canonical {fields : List (Field × TypeExpr)} {index : Option TypeExpr}
    (same : ∀ entry ∈ fields, ∀ value, Inhabits value (canonical entry.2) ↔
      Inhabits value entry.2)
    (sameIndex : ∀ type ∈ index, ∀ value, Inhabits value (canonical type) ↔
      Inhabits value type) :
    Inhabits value (canonical (.record fields index)) ↔ Inhabits value (.record fields index) := by
  simp only [canonical, canonicalFields_map, Inhabits]
  constructor
  · rintro ⟨entries, rfl, named, others⟩
    refine ⟨entries, rfl, fun field type member => ?_, fun type given name held found unnamed => ?_⟩
    · obtain ⟨present, typed⟩ := named { field with docs := none } (canonical type)
        (List.mem_map.mpr ⟨(field, type), member, rfl⟩)
      exact ⟨present, fun held found => (same _ member held).mp (typed held found)⟩
    · subst given
      refine (sameIndex type rfl held).mp (others _ rfl name held found ?_)
      intro entry member
      obtain ⟨original, listed, rfl⟩ := List.mem_map.mp member
      exact unnamed original listed
  · rintro ⟨entries, rfl, named, others⟩
    refine ⟨entries, rfl, fun field type member => ?_, fun type given name held found unnamed => ?_⟩
    · obtain ⟨⟨original, inner⟩, listed, pair⟩ := List.mem_map.mp member
      cases pair
      obtain ⟨present, typed⟩ := named original inner listed
      exact ⟨present, fun held found => (same _ listed held).mpr (typed held found)⟩
    · cases index with
      | none => cases given
      | some original =>
        cases given
        refine (sameIndex original rfl held).mpr (others _ rfl name held found ?_)
        intro entry member
        exact unnamed ({ entry.1 with docs := none }, canonical entry.2)
          (List.mem_map.mpr ⟨entry, member, rfl⟩)

/-- Documentation and the way a type is written do not change its values. -/
theorem canonical_inhabits (value : Json) (type : TypeExpr) :
    Inhabits value (canonical type) ↔ Inhabits value type := by
  induction type using type_induction generalizing value with
  | unknown => rfl
  | unspecified => rfl
  | primitive name => rfl
  | literal fixed => exact literalType_inhabits value fixed
  | array element ih => simp only [canonical, Inhabits, ih]
  | map type ih => simp only [canonical, Inhabits, ih]
  | tuple elements ih =>
    rw [canonical, canonicalAll_map]
    exact tuple_canonical ih
  | union members ih =>
    simp only [canonical, canonicalAll_map, Inhabits, List.mem_map, exists_prop]
    constructor
    · rintro ⟨_, ⟨member, inside, rfl⟩, holds⟩
      exact ⟨member, inside, (ih member inside value).mp holds⟩
    · rintro ⟨member, inside, holds⟩
      exact ⟨_, ⟨member, inside, rfl⟩, (ih member inside value).mpr holds⟩
  | intersection members ih =>
    simp only [canonical, canonicalAll_map, Inhabits, List.mem_map]
    constructor
    · intro every member inside
      exact (ih member inside value).mp (every _ ⟨member, inside, rfl⟩)
    · rintro every _ ⟨member, inside, rfl⟩
      exact (ih member inside value).mpr (every member inside)
  | record fields index ih others => exact record_canonical ih others

/-- Types of one text have the same values. -/
theorem text_inhabits (normal : Normal type) (otherNormal : Normal another)
    (same : type.text = another.text) : Inhabits value type ↔ Inhabits value another := by
  rw [← canonical_inhabits value type, ← canonical_inhabits value another,
    text_canonical normal otherNormal same]

/-- Of every text that comes up, the first type is kept. -/
theorem distinct_covers {seen : List String} (member : type ∈ types)
    (fresh : type.text ∉ seen) :
    ∃ kept ∈ TypeExpr.distinctFrom seen types, kept.text = type.text := by
  induction types generalizing seen with
  | nil => cases member
  | cons first rest ih =>
    rw [TypeExpr.distinctFrom]
    simp only [List.contains_eq_mem, decide_eq_true_eq]
    by_cases same : first.text = type.text
    · rw [if_neg (by rwa [same])]
      exact ⟨first, List.mem_cons_self, same⟩
    · have later : type ∈ rest := by
        rcases List.mem_cons.mp member with rfl | later
        · exact absurd rfl same
        · exact later
      split
      · exact ih later fresh
      · have unseen : type.text ∉ first.text :: seen := by simp [fresh, Ne.symm same]
        obtain ⟨kept, inside, texts⟩ := ih later unseen
        exact ⟨kept, List.mem_cons_of_mem _ inside, texts⟩

/-- A value of one of the types is a value of their union. -/
theorem anyOf_inhabits (normal : ∀ type ∈ types, Normal type) (member : type ∈ types)
    (holds : Inhabits value type) : Inhabits value (TypeExpr.anyOf types) := by
  obtain ⟨part, found, partHolds⟩ : ∃ part ∈ types.flatMap TypeExpr.unionMembers,
      Inhabits value part := by
    simp only [List.mem_flatMap]
    cases type with
    | union members =>
      rw [Inhabits] at holds
      obtain ⟨part, inside, partHolds⟩ := holds
      exact ⟨part, ⟨_, member, inside⟩, partHolds⟩
    | _ => exact ⟨_, ⟨_, member, List.mem_singleton.mpr rfl⟩, holds⟩
  have partNormal : ∀ part ∈ types.flatMap TypeExpr.unionMembers, Normal part := by
    intro part inside
    obtain ⟨type, listed, inside⟩ := List.mem_flatMap.mp inside
    exact (unionMembers_normal (normal type listed) part inside).1
  obtain ⟨kept, inside, same⟩ := distinct_covers found (List.not_mem_nil (a := part.text))
  have keptHolds : Inhabits value kept :=
    (text_inhabits (partNormal kept (distinct_member inside)) (partNormal part found) same).mpr
      partHolds
  unfold TypeExpr.anyOf
  change kept ∈ TypeExpr.distinct _ at inside
  match shape : TypeExpr.distinct (types.flatMap TypeExpr.unionMembers) with
  | [] => exact inhabits_unknown value
  | [single] =>
    rw [shape] at inside
    cases List.mem_singleton.mp inside
    exact keptHolds
  | first :: second :: rest =>
    rw [shape] at inside
    rw [TypeExpr.collapse, Inhabits]
    · exact ⟨kept, inside, keptHolds⟩
    · simp
    · simp

/-- A value of all the types is a value of their intersection. -/
theorem allOf_inhabits (holds : ∀ type ∈ types, Inhabits value type) :
    Inhabits value (TypeExpr.allOf types) := by
  have parts : ∀ part ∈ types.flatMap TypeExpr.intersectionMembers, Inhabits value part := by
    intro part inside
    obtain ⟨type, listed, inside⟩ := List.mem_flatMap.mp inside
    have whole := holds type listed
    cases type with
    | intersection members =>
      rw [Inhabits] at whole
      exact whole part inside
    | _ =>
      cases List.mem_singleton.mp inside
      exact whole
  have kept : ∀ part ∈ TypeExpr.distinct (types.flatMap TypeExpr.intersectionMembers),
      Inhabits value part := fun part inside => parts part (distinct_member inside)
  unfold TypeExpr.allOf
  match shape : TypeExpr.distinct (types.flatMap TypeExpr.intersectionMembers) with
  | [] => exact inhabits_unknown value
  | [single] => exact kept single (by simp [shape])
  | first :: second :: rest =>
    rw [shape] at kept
    rw [TypeExpr.collapse, Inhabits]
    · exact kept
    · simp
    · simp

end EntitySchema.Inhabitation
