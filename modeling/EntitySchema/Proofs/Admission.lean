import EntitySchema.Proofs.ConversionView
import EntitySchema.Proofs.Inhabitation

/-! Admitted values. What a schema node lets through is said keyword by keyword,
all keywords of a node counting together, while its type is made from the first
keyword that applies and cut off at loops and at the depth limit. Neither loses
a value: whatever a node admits is a value of the type that is made for it. -/
namespace EntitySchema.Admission
open Reference Synthesis Dispatch StoreView ConversionView NormalTypes Inhabitation

/-- Values that have the type of a name. A name that stands for no type rules
out nothing. -/
def Named (name : String) (value : Json) : Prop :=
  match Shape.primitives.lookup name with
  | some kind => kindName value = kind
  | none => name = "array" ∨ name = "object" → kindName value = name

/-- Values that are the same but for the order of fields: each has all that the
other has. -/
def Alike (value fixed : Json) : Prop :=
  IsLiteral value fixed ∧ IsLiteral fixed value

/-- Equal values are alike, so a node admits what its keywords name. -/
theorem alike_self (value : Json) : Alike value value :=
  ⟨literal_self value, literal_self value⟩

/-- What the keywords of a node ask of a value, when `admits` says what the
nodes under them let through. A list of types asks for one of them in its
place. -/
structure Keywords (admits : Json → Json → Prop) (node value : Json) : Prop where
  oneOf : ∀ options, node.field? "oneOf" = some (.arr options) →
    ∃ option ∈ options, admits option value
  anyOf : ∀ options, node.field? "anyOf" = some (.arr options) →
    ∃ option ∈ options, admits option value
  allOf : ∀ options, node.field? "allOf" = some (.arr options) →
    ∀ option ∈ options, admits option value
  enum : ∀ options, node.field? "enum" = some (.arr options) →
    ∃ option ∈ options, Alike value option
  const : ∀ fixed, node.field? "const" = some fixed → Alike value fixed
  name : ∀ name, node.field? "type" = some (.str name) → Named name value
  names : ∀ types, node.field? "type" = some (.arr types) →
    ∃ type ∈ types, admits (node.withField "type" type) value
  items : ∀ item, node.field? "items" = some item → (∀ items, item ≠ .arr items) →
    ∀ elements, value = .arr elements → ∀ element ∈ elements, admits item element
  properties : ∀ entries, value = .obj entries → ∀ property ∈ declared node,
    ∀ held, entries.lookup property.1 = some held → admits property.2 held
  required : ∀ entries, value = .obj entries → ∀ name ∈ Shape.requiredNames node,
    (entries.lookup name).isSome
  others : ∀ entries, value = .obj entries →
    ∀ fields, node.field? "additionalProperties" = some (.obj fields) →
    ∀ name held, entries.lookup name = some held → (∀ property ∈ declared node, property.1 ≠ name) →
      admits (.obj fields) held

/-- The keywords as they are dispatched: besides what each of them asks, a node
that is taken for a record stands for objects, and one that lists its items for
the lists that have just these. -/
structure Dispatched (admits : Json → Json → Prop) (node value : Json) : Prop
    extends Keywords admits node value where
  record : ∀ properties required others,
    Shape.ofNode node = .record properties required others → ∃ entries, value = .obj entries
  tuple : ∀ items, Shape.ofNode node = .tuple items →
    ∃ elements, value = .arr elements ∧ List.Forall₂ admits items elements

/-- The values that a node of a context admits, the least relation with these
rules. A reference that cannot be resolved rules out nothing, and neither does a
node that is no object. -/
inductive Admits (source : Source) (rule : (Json → Json → Prop) → Json → Json → Prop) :
    Store → Context → Json → Json → Prop where
  | simple {store : Store} {context : Context} {node value : Json}
      (plain : ∀ fields, node ≠ .obj fields) : Admits source rule store context node value
  | dangling {store : Store} {context : Context} {node ref value : Json}
      (refers : node.field? "$ref" = some ref)
      (nowhere : ∀ name target after, ref = .str name →
        (resolve source name context).run store ≠ (.ok (some target), after)) :
      Admits source rule store context node value
  | target {store after : Store} {context target : Context} {node value : Json} {name : String}
      (refers : node.field? "$ref" = some (.str name))
      (led : (resolve source name context).run store = (.ok (some target), after))
      (admitted : Admits source rule after target target.schema value) :
      Admits source rule store context node value
  | keywords {store : Store} {context : Context} {node value : Json}
      {admits : Json → Json → Prop} (inside : node.field? "$ref" = none)
      (below : ∀ child held, admits child held → Admits source rule store context child held)
      (met : rule admits node value) : Admits source rule store context node value

/-- What the rule that a node falls under asks of a value. -/
def Fits (admits : Json → Json → Prop) (value : Json) : Shape → Prop
  | .unknown | .reference _ => True
  | .anyOf nodes => ∃ node ∈ nodes, admits node value
  | .allOf nodes => ∀ node ∈ nodes, admits node value
  | .values options => ∃ option ∈ options, Alike value option
  | .value fixed => Alike value fixed
  | .tuple items => ∃ elements, value = .arr elements ∧ List.Forall₂ admits items elements
  | .array item => ∃ elements, value = .arr elements ∧ ∀ element ∈ elements, admits item element
  | .anyArray => ∃ elements, value = .arr elements
  | .anyObject => ∃ entries, value = .obj entries
  | .record properties required others => ∃ entries, value = .obj entries ∧
    (∀ property ∈ properties, ∀ held, entries.lookup property.1 = some held →
      admits property.2 held) ∧
    (∀ name ∈ required, (entries.lookup name).isSome) ∧
    ∀ node, others = .typed node → ∀ name held, entries.lookup name = some held →
      (∀ property ∈ properties, property.1 ≠ name) → admits node held
  | .primitive name => kindName value = name

variable {admits : Json → Json → Prop} {node value : Json} {type : TypeExpr}

private theorem named_array (named : Named "array" value) : ∃ elements, value = .arr elements := by
  have kind : kindName value = "array" := named (.inl rfl)
  cases value with
  | arr elements => exact ⟨elements, rfl⟩
  | _ => simp [kindName] at kind

private theorem named_object (named : Named "object" value) : ∃ entries, value = .obj entries := by
  have kind : kindName value = "object" := named (.inr rfl)
  cases value with
  | obj entries => exact ⟨entries, rfl⟩
  | _ => simp [kindName] at kind

/-- A value that meets all keywords of a node meets those that decide. -/
theorem dispatched_fits (met : Dispatched admits node value) :
    Fits admits value (Shape.ofNode node) := by
  have calls := ofNode_calls node
  have record := met.record
  have tuple := met.tuple
  generalize Shape.ofNode node = shape at calls record tuple
  cases calls with
  | unknown => trivial
  | reference given => trivial
  | oneOf given => exact met.oneOf _ given
  | anyOf given => exact met.anyOf _ given
  | allOf given => exact met.allOf _ given
  | values given => exact met.enum _ given
  | value given => exact met.const _ given
  | types given =>
    obtain ⟨type, listed, admitted⟩ := met.names _ given
    exact ⟨_, List.mem_map_of_mem listed, admitted⟩
  | tuple named given => exact tuple _ rfl
  | array named given single =>
    obtain ⟨elements, rfl⟩ := named_array (met.name _ named)
    exact ⟨elements, rfl, met.items _ given single elements rfl⟩
  | anyArray named => exact named_array (met.name _ named)
  | anyObject named => exact named_object (met.name _ named)
  | record =>
    obtain ⟨entries, rfl⟩ := record _ _ _ rfl
    refine ⟨entries, rfl, met.properties entries rfl, met.required entries rfl, ?_⟩
    intro other typed
    obtain ⟨fields, found, rfl⟩ := othersOf_typed typed
    exact met.others entries rfl fields found
  | primitive named listed =>
    have typed := met.name _ named
    rw [Named, listed] at typed
    exact typed

/-- The children of a record are the nodes of its properties and then the node
of what is left. -/
private theorem related_properties {R : Json → TypeExpr → Prop} {more : List Json}
    {properties : List (String × Json)} {types : List TypeExpr}
    (each : List.Forall₂ R (properties.map Prod.snd ++ more) types) :
    (∀ pair ∈ properties.zip types, R pair.1.2 pair.2) ∧
      (∀ property ∈ properties, ∃ type, (property, type) ∈ properties.zip types) ∧
      List.Forall₂ R more (types.drop properties.length) := by
  induction properties generalizing types with
  | nil => exact ⟨by simp, by simp, each⟩
  | cons property rest ih =>
    cases each with
    | cons head tail =>
      obtain ⟨named, typed, others⟩ := ih tail
      refine ⟨?_, ?_, others⟩
      · intro pair member
        rcases List.mem_cons.mp member with rfl | later
        · exact head
        · exact named pair later
      · intro found member
        rcases List.mem_cons.mp member with rfl | later
        · exact ⟨_, List.mem_cons_self⟩
        · obtain ⟨type, paired⟩ := typed found later
          exact ⟨type, List.mem_cons_of_mem _ paired⟩

private theorem record_inhabits {properties : List (String × Json)} {required : List String}
    {others : Others} {types : List TypeExpr}
    (each : List.Forall₂ (fun child type => ∀ held, admits child held → Inhabits held type)
      (Shape.record properties required others).children types)
    (fits : Fits admits value (.record properties required others)) :
    Inhabits value ((Shape.record properties required others).build types) := by
  obtain ⟨named, typed, left⟩ := related_properties each
  obtain ⟨entries, rfl, admitted, present, undeclared⟩ := fits
  rw [Shape.build, Inhabits]
  refine ⟨entries, rfl, ?_, ?_⟩
  · intro field type member
    rw [← List.map_uncurry_zip_eq_zipWith, List.mem_map] at member
    obtain ⟨⟨property, inner⟩, paired, same⟩ := member
    cases same
    refine ⟨?_, fun held found => ?_⟩
    · intro needed
      refine present property.1 ?_
      simpa [fieldOf] using needed
    · exact named _ paired held (admitted property (List.of_mem_zip paired).1 held found)
  · intro type index name held found unnamed
    cases others with
    | closed => cases index
    | anything =>
      cases index
      exact inhabits_unknown held
    | typed node =>
      obtain ⟨inner, rest, sound, _, shape⟩ := List.forall₂_cons_left_iff.mp left
      rw [Others.index, shape] at index
      cases index
      refine sound held (undeclared node rfl name held found ?_)
      intro property member same
      obtain ⟨inner, paired⟩ := typed property member
      refine unnamed (fieldOf required property.1 property.2, inner) ?_ same
      rw [← List.map_uncurry_zip_eq_zipWith]
      exact List.mem_map.mpr ⟨_, paired, rfl⟩

private theorem tuple_inhabits {items : List Json} {types : List TypeExpr}
    (each : List.Forall₂ (fun child type => ∀ held, admits child held → Inhabits held type)
      items types)
    (fits : Fits admits value (.tuple items)) : Inhabits value (.tuple types) := by
  obtain ⟨elements, rfl, admitted⟩ := fits
  rw [Inhabits]
  refine ⟨elements, rfl, admitted.length_eq.symm.trans each.length_eq, ?_⟩
  intro element position type found listed
  obtain ⟨inElements, rfl⟩ := List.getElem?_eq_some_iff.mp found
  obtain ⟨inTypes, rfl⟩ := List.getElem?_eq_some_iff.mp listed
  have inItems : position < items.length := by
    rw [each.length_eq]
    exact inTypes
  exact each.get inItems inTypes _ (admitted.get inItems inElements)

/-- From types that have the values of its children, a shape builds one that has
the values it asks for. -/
theorem fits_inhabits {shape : Shape} {types : List TypeExpr}
    (normal : ∀ type ∈ types, Normal type)
    (each : List.Forall₂ (fun child type => ∀ held, admits child held → Inhabits held type)
      shape.children types)
    (fits : Fits admits value shape) : Inhabits value (shape.build types) := by
  cases shape with
  | unknown => exact inhabits_unknown value
  | reference ref => exact inhabits_unknown value
  | anyOf nodes =>
    obtain ⟨node, member, admitted⟩ := fits
    obtain ⟨type, listed, sound⟩ := related_left each member
    exact anyOf_inhabits normal listed (sound value admitted)
  | allOf nodes =>
    refine allOf_inhabits fun type listed => ?_
    obtain ⟨node, member, sound⟩ := related_left each.flip listed
    exact sound value (fits node member)
  | values options =>
    have literals : ∀ type ∈ options.map TypeExpr.literal, Normal type := by
      intro type member
      obtain ⟨option, _, rfl⟩ := List.mem_map.mp member
      exact .literal option
    obtain ⟨option, listed, alike⟩ := fits
    exact anyOf_inhabits literals (List.mem_map_of_mem listed)
      ((inhabits_literal value option).mpr alike.1)
  | value fixed => exact (inhabits_literal value fixed).mpr fits.1
  | tuple items => exact tuple_inhabits each fits
  | array item =>
    obtain ⟨elements, rfl, admitted⟩ := fits
    obtain ⟨type, rest, sound, _, rfl⟩ := List.forall₂_cons_left_iff.mp each
    rw [Shape.build, Inhabits]
    exact ⟨elements, rfl, fun element member => sound element (admitted element member)⟩
  | anyArray =>
    obtain ⟨elements, rfl⟩ := fits
    simp [Shape.build, Inhabits]
  | anyObject =>
    obtain ⟨entries, rfl⟩ := fits
    simp [Shape.build, Inhabits]
  | record properties required others => exact record_inhabits each fits
  | primitive name =>
    rw [Shape.build, Inhabits]
    exact fits

variable {source : Source} {store after : Store} {context : Context} {seen : List Key}

private theorem convertIn_normal {budget : Nat} (steady : Steady source store context)
    (converted : convertIn (fetch source store) budget node context seen = .ok type) :
    Normal type := by
  have gives : Gives source store (convert source budget node context seen) _ :=
    convert_gives steady budget node seen
  obtain ⟨after, ran, _⟩ := gives
  rw [converted] at ran
  exact convert_normal ran

/-- A converted reference is unknown or has the type of its target. -/
private theorem convertIn_reference {view : String → Except Fault Json} {budget : Nat} {ref : Json}
    (shape : Shape.ofNode node = .reference ref)
    (converted : convertIn view (budget + 1) node context seen = .ok type) :
    type = .unknown ∨ ∃ name target key, ref = .str name ∧
      destination view name context = .ok (some target) ∧
      convertIn view budget target.schema target (key :: seen) = .ok type := by
  simp only [convertIn, shape] at converted
  cases ref with
  | str name =>
    simp only [hopIn] at converted
    split at converted
    · cases converted
      exact .inl rfl
    · cases led : destination view name context with
      | error fault =>
        rw [led] at converted
        cases converted
      | ok found =>
        rw [led] at converted
        cases found with
        | none =>
          cases converted
          exact .inl rfl
        | some target => exact .inr ⟨name, target, _, rfl, led, converted⟩
  | _ =>
    cases converted
    exact .inl rfl

/-- Conversion loses no admitted value: by induction on the budget, through
every rule and along every reference. -/
private theorem convertIn_inhabits {budget : Nat} (steady : Steady source store context)
    (admitted : Admits source Dispatched store context node value)
    (converted : convertIn (fetch source store) budget node context seen = .ok type) :
    Inhabits value type := by
  induction budget generalizing store context node value seen type with
  | zero =>
    cases converted
    exact inhabits_unknown value
  | succ budget ih =>
    by_cases leaves : ∃ ref, Shape.ofNode node = .reference ref
    · obtain ⟨ref, shape⟩ := leaves
      have given := Dispatch.ofNode_reference.mp shape
      rcases convertIn_reference shape converted with rfl | ⟨name, target, key, rfl, led, rest⟩
      · exact inhabits_unknown value
      · rcases ran : (resolve source name context).run store with ⟨outcome, after⟩
        obtain ⟨answered, grown, holds⟩ := resolve_ran steady ran
        rw [led] at answered
        subst answered
        cases admitted with
        | simple plain =>
          cases node with
          | obj fields => exact absurd rfl (plain fields)
          | _ => cases given
        | dangling refers nowhere =>
          cases given.symm.trans refers
          exact absurd ran (nowhere name target after rfl)
        | target refers reached below =>
          cases given.symm.trans refers
          cases ran.symm.trans reached
          rw [← grown.same] at rest
          exact ih (holds target rfl) below rest
        | keywords inside below met => cases given.symm.trans inside
    · have inside : ∀ ref, Shape.ofNode node ≠ .reference ref := fun ref shape =>
        leaves ⟨ref, shape⟩
      obtain ⟨types, each, rfl⟩ := (convertIn_ok inside).mp converted
      cases admitted with
      | simple plain =>
        have shape : Shape.ofNode node = .unknown := by
          cases node with
          | obj fields => exact absurd rfl (plain fields)
          | _ => rfl
        rw [shape]
        exact inhabits_unknown value
      | dangling refers nowhere => exact absurd (Dispatch.ofNode_reference.mpr refers) (inside _)
      | target refers reached below => exact absurd (Dispatch.ofNode_reference.mpr refers) (inside _)
      | keywords plain below met =>
        refine fits_inhabits ?_ (each.imp ?_) (dispatched_fits met)
        · intro type member
          obtain ⟨child, _, childConverted⟩ := related_left each.flip member
          exact convertIn_normal steady childConverted
        · intro child type childConverted value childAdmits
          exact ih steady (below child value childAdmits) childConverted

/-- **Synthesis never excludes an admitted value.** In a context whose document
is loaded or cannot be, every value that a node admits is a value of the type
that is made for the node, at every depth and under every limit. -/
theorem synthesis_inhabited {maxDepth depth : Int} (steady : Steady source store context)
    (admitted : Admits source Dispatched store context node value)
    (ran : (synthesize source maxDepth node context depth).run store = (.ok type, after)) :
    Inhabits value type := by
  have gives : Gives source store (synthesize source maxDepth node context depth) _ :=
    synthesize_gives steady maxDepth node depth
  obtain ⟨reached, given, _⟩ := gives
  rw [ran, Prod.mk.injEq] at given
  exact convertIn_inhabits steady admitted given.1.symm

/-- Objects with a name; the keyword says nothing of other values. -/
def namedNode : Json :=
  .obj [("properties", .obj [("name", .obj [("type", .str "string")])])]

/-- A document of lists of such objects. -/
def namedList : Json :=
  .obj [("type", .str "array"), ("items", .obj [("$ref", .str "#/entry")]), ("entry", namedNode)]

def namedStore : Store := ⟨[("d", namedList)]⟩

private theorem string_admitted :
    Admits noFiles Dispatched namedStore ⟨namedNode, "d"⟩ (.obj [("type", .str "string")])
      (.str "x") := by
  refine .keywords rfl (fun _ _ => False.elim) ?_
  refine ⟨⟨?_, ?_, ?_, ?_, ?_, ?_, ?_, ?_, ?_, ?_, ?_⟩, ?_, ?_⟩
  all_goals simp [Json.field?, List.lookup_cons, declared, Shape.requiredNames, Shape.ofNode,
    Shape.ofTyped, Shape.ofType, Shape.ofName, Shape.properties?, Shape.primitives, Named, kindName]

private theorem entry_admitted :
    Admits noFiles Dispatched namedStore ⟨namedNode, "d"⟩ namedNode (.obj [("name", .str "x")]) := by
  refine .keywords rfl (fun child held (given : child = .obj [("type", .str "string")] ∧
    held = .str "x") => ?_) ?_
  · obtain ⟨rfl, rfl⟩ := given
    exact string_admitted
  · refine ⟨⟨?_, ?_, ?_, ?_, ?_, ?_, ?_, ?_, ?_, ?_, ?_⟩, ?_, ?_⟩
    all_goals simp [namedNode, Json.field?, Json.present?, List.lookup_cons, declared,
      Shape.requiredNames, Shape.ofNode, Shape.ofTyped, Shape.ofType, Shape.ofObject,
      Shape.properties?]

private theorem list_admitted :
    Admits noFiles Dispatched namedStore ⟨namedList, "d"⟩ namedList
      (.arr [.obj [("name", .str "x")]]) := by
  refine .keywords rfl (fun child held (given : child = .obj [("$ref", .str "#/entry")] ∧
    held = .obj [("name", .str "x")]) => ?_) ?_
  · obtain ⟨rfl, rfl⟩ := given
    exact .target rfl rfl entry_admitted
  · refine ⟨⟨?_, ?_, ?_, ?_, ?_, ?_, ?_, ?_, ?_, ?_, ?_⟩, ?_, ?_⟩
    all_goals simp [namedList, Json.field?, List.lookup_cons, declared, Shape.requiredNames,
      Shape.ofNode, Shape.ofTyped, Shape.ofType, Shape.ofItems?, Shape.primitives, Named, kindName]

theorem synthesis_inhabited_list :
    Steady noFiles namedStore ⟨namedList, "d"⟩ ∧
      Admits noFiles Dispatched namedStore ⟨namedList, "d"⟩ namedList
        (.arr [.obj [("name", .str "x")]]) ∧
      Inhabits (.arr [.obj [("name", .str "x")]])
        (.array (.record [(⟨"name", true, none⟩, .primitive "string")] none)) := by
  have steady : Steady noFiles namedStore ⟨namedList, "d"⟩ :=
    .inl ⟨namedList, rfl, by simp [namedList]⟩
  have ran : (synthesize noFiles 20 namedList ⟨namedList, "d"⟩ 0).run namedStore =
      (.ok (.array (.record [(⟨"name", true, none⟩, .primitive "string")] none)), namedStore) := rfl
  exact ⟨steady, list_admitted, synthesis_inhabited steady list_admitted ran⟩

/-- A source of one file, `d`, that names the value `1` and nothing else. -/
def fixedSource : Source :=
  ⟨{ entries := [(["d"], .file "\x7b\"x\":\x7b\"const\":1\x7d\x7d".toUTF8)] }, ⟨0, []⟩⟩

def fixedDocument : Json := .obj [("x", .obj [("const", .num 1)])]

/-- What the file admits, and what a pointer leads to in the document at hand. -/
def fixedNode : Json :=
  .obj [("allOf", .arr [.obj [("$ref", .str "d")], .obj [("$ref", .str "#/x")]])]

private theorem fixed_admitted :
    Admits fixedSource Keywords ⟨[]⟩ ⟨.obj [], "d"⟩ fixedNode .null := by
  refine .keywords rfl (fun child held (given : child = .obj [("$ref", .str "d")] ∨
    child = .obj [("$ref", .str "#/x")]) => ?_) ?_
  · rcases given with rfl | rfl
    · have led : (resolve fixedSource "d" ⟨.obj [], "d"⟩).run ⟨[]⟩ =
          (.ok (some ⟨fixedDocument, "d"⟩), ⟨[("d", fixedDocument)]⟩) := rfl
      refine .target rfl led (.keywords rfl (fun _ _ => False.elim) ?_)
      refine ⟨?_, ?_, ?_, ?_, ?_, ?_, ?_, ?_, ?_, ?_, ?_⟩
      all_goals simp [fixedDocument, Json.field?, List.lookup_cons, declared, Shape.requiredNames]
    · have nowhere : (resolve fixedSource "#/x" ⟨.obj [], "d"⟩).run ⟨[]⟩ = (.ok none, ⟨[]⟩) := rfl
      refine .dangling rfl fun name target after same => ?_
      cases same
      rw [nowhere]
      simp
  · refine ⟨?_, ?_, ?_, ?_, ?_, ?_, ?_, ?_, ?_, ?_, ?_⟩
    all_goals simp [fixedNode, Json.field?, List.lookup_cons]

/-- What the dispatch adds to the keywords is needed: they let text through where
properties are named and any list where items are listed, while the types that
are made have only objects and only lists of that length. In a context whose
document is still to be loaded, a pointer may lead elsewhere by the time it is
followed. -/
theorem keywords_alone_exclude :
    (Held namedStore ⟨namedList, "d"⟩ ∧
      Admits noFiles Keywords namedStore ⟨namedList, "d"⟩ namedNode (.str "x") ∧
      ∃ type, (synthesize noFiles 20 namedNode ⟨namedList, "d"⟩ 0).run namedStore =
        (.ok type, namedStore) ∧ ¬ Inhabits (.str "x") type) ∧
    (Admits noFiles Keywords namedStore ⟨namedList, "d"⟩
        (.obj [("type", .str "array"), ("items", .arr [])]) (.arr [.null]) ∧
      ∃ type, (synthesize noFiles 20 (.obj [("type", .str "array"), ("items", .arr [])])
        ⟨namedList, "d"⟩ 0).run namedStore = (.ok type, namedStore) ∧
        ¬ Inhabits (.arr [.null]) type) ∧
    (Admits fixedSource Keywords ⟨[]⟩ ⟨.obj [], "d"⟩ fixedNode .null ∧
      ∃ type, (synthesize fixedSource 20 fixedNode ⟨.obj [], "d"⟩ 0).run ⟨[]⟩ =
        (.ok type, ⟨[("d", fixedDocument)]⟩) ∧ ¬ Inhabits .null type) := by
  refine ⟨⟨⟨namedList, rfl, by simp [namedList]⟩, ?_, _, rfl, ?_⟩, ⟨?_, _, rfl, ?_⟩,
    ⟨fixed_admitted, .intersection [.unknown, .literal (.num 1)], rfl, ?_⟩⟩
  · refine .keywords rfl (fun _ _ => False.elim) ⟨?_, ?_, ?_, ?_, ?_, ?_, ?_, ?_, ?_, ?_, ?_⟩
    all_goals simp [namedNode, Json.field?, List.lookup_cons]
  · simp [Inhabits]
  · refine .keywords rfl (fun _ _ => False.elim) ⟨?_, ?_, ?_, ?_, ?_, ?_, ?_, ?_, ?_, ?_, ?_⟩
    all_goals simp [Json.field?, List.lookup_cons, Shape.primitives, Named, kindName]
  · simp [Inhabits]
  · simp [Inhabits, IsLiteral]

end EntitySchema.Admission
