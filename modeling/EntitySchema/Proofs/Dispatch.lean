import EntitySchema.Shape

/-! What decides the shape of a node. Each shape a node can be given goes with
the keywords that call for it, so a proof about all nodes goes through these
cases instead of the order in which keywords are tried. -/
namespace EntitySchema.Dispatch

/-- The properties that a node names. -/
def declared (node : Json) : List (String × Json) :=
  match node.field? "properties" with
  | some (.obj fields) => fields
  | _ => []

/-- The keywords of a node that call for a shape. Nothing is said of the
keywords that were tried before and did not apply. -/
inductive Calls (node : Json) : Shape → Prop where
  | unknown : Calls node .unknown
  | reference {ref : Json} (given : node.field? "$ref" = some ref) : Calls node (.reference ref)
  | oneOf {options : List Json} (given : node.field? "oneOf" = some (.arr options)) :
    Calls node (.anyOf options)
  | anyOf {options : List Json} (given : node.field? "anyOf" = some (.arr options)) :
    Calls node (.anyOf options)
  | allOf {options : List Json} (given : node.field? "allOf" = some (.arr options)) :
    Calls node (.allOf options)
  | values {options : List Json} (given : node.field? "enum" = some (.arr options)) :
    Calls node (.values options)
  | value {fixed : Json} (given : node.field? "const" = some fixed) : Calls node (.value fixed)
  | types {types : List Json} (given : node.field? "type" = some (.arr types)) :
    Calls node (.anyOf (types.map fun type => node.withField "type" type))
  | tuple {items : List Json} (named : node.field? "type" = some (.str "array"))
    (given : node.field? "items" = some (.arr items)) : Calls node (.tuple items)
  | array {item : Json} (named : node.field? "type" = some (.str "array"))
    (given : node.field? "items" = some item) (single : ∀ items, item ≠ .arr items) :
    Calls node (.array item)
  | anyArray (named : node.field? "type" = some (.str "array")) : Calls node .anyArray
  | anyObject (named : node.field? "type" = some (.str "object")) : Calls node .anyObject
  | record : Calls node (.record (declared node) (Shape.requiredNames node) (Shape.othersOf node))
  | primitive {name kind : String} (named : node.field? "type" = some (.str name))
    (listed : Shape.primitives.lookup name = some kind) : Calls node (.primitive kind)

variable {node : Json}

theorem othersOf_typed {other : Json} (typed : Shape.othersOf node = .typed other) :
    ∃ fields, node.field? "additionalProperties" = some (.obj fields) ∧ other = .obj fields := by
  unfold Shape.othersOf at typed
  split at typed
  · cases typed
  · rename_i fields found
    cases typed
    exact ⟨fields, found, rfl⟩
  · cases typed

theorem declared_named {property : String × Json} (member : property ∈ declared node) :
    ∃ fields, node.field? "properties" = some (.obj fields) ∧ property ∈ fields := by
  unfold declared at member
  split at member
  · rename_i fields given
    exact ⟨fields, given, member⟩
  · cases member

private theorem properties_declared {found : Json} (present : Shape.properties? node = some found) :
    node.field? "properties" = some found := by
  obtain ⟨held, given, same⟩ := Option.bind_eq_some_iff.mp present
  cases held <;> cases same <;> exact given

private theorem properties_absent (absent : Shape.properties? node = none) : declared node = [] := by
  unfold declared
  split
  · rename_i fields given
    rw [Shape.properties?, given] at absent
    cases absent
  · rfl

/-- An object node is a record of the properties it names, or says nothing of
what an object holds. -/
private theorem ofObject_calls
    (object : Shape.properties? node = none → node.field? "type" = some (.str "object")) :
    Calls node (Shape.ofObject node) := by
  unfold Shape.ofObject
  cases present : Shape.properties? node with
  | none =>
    have empty := properties_absent present
    split
    · cases ‹none = some _›
    · rw [← empty]
      exact .record
    · rw [← empty]
      exact .record
    · rw [← empty]
      exact .record
    · exact .anyObject (object present)
  | some found =>
    cases found with
    | obj fields =>
      have same : declared node = fields := by simp [declared, properties_declared present]
      rw [← same]
      exact .record
    | _ =>
      have empty : declared node = [] := by simp [declared, properties_declared present]
      rw [← empty]
      exact .record

private theorem ofItems_calls {shape : Shape} (named : node.field? "type" = some (.str "array"))
    (found : Shape.ofItems? node = some shape) : Calls node shape := by
  unfold Shape.ofItems? at found
  split at found
  · cases found
  · cases found
  · cases found
  · rename_i items given
    cases found
    exact .tuple named given
  · rename_i item _ _ single given
    cases found
    exact .array named given fun items same => single items same

private theorem ofName_calls {name : Option String}
    (named : ∀ given ∈ name, node.field? "type" = some (.str given)) :
    Calls node (Shape.ofName name) := by
  unfold Shape.ofName
  split
  · rename_i array
    exact .anyArray (named _ array)
  · split
    · rename_i kind found
      obtain ⟨given, asked, listed⟩ := Option.bind_eq_some_iff.mp found
      exact .primitive (named given asked) listed
    · exact .unknown

private theorem ofType_calls {name : Option String}
    (named : ∀ given ∈ name, node.field? "type" = some (.str given)) :
    Calls node (Shape.ofType node name) := by
  unfold Shape.ofType
  split
  · rename_i found items
    split at items
    · rename_i array
      exact ofItems_calls (named _ array) items
    · cases items
  · split
    · rename_i object
      refine ofObject_calls fun absent => ?_
      simp only [absent, Option.isSome_none, Bool.or_false, decide_eq_true_eq] at object
      exact named _ object
    · exact ofName_calls named

private theorem ofTyped_calls (node : Json) : Calls node (Shape.ofTyped node) := by
  unfold Shape.ofTyped
  split
  · exact .types ‹_›
  · rename_i name given
    refine ofType_calls fun asked same => ?_
    cases same
    exact given
  · exact ofType_calls fun asked absent => by cases absent

private theorem listed_calls {rule : List Json → Shape} {options : Json}
    (each : ∀ nodes, options = .arr nodes → Calls node (rule nodes)) :
    Calls node (Shape.listed rule options) := by
  unfold Shape.listed
  split
  · exact each _ rfl
  · exact .unknown

/-- The shape of a node is one that its keywords call for. -/
theorem ofNode_calls (node : Json) : Calls node (Shape.ofNode node) := by
  cases node with
  | obj fields =>
    simp only [Shape.ofNode]
    split
    · exact .reference ‹_›
    · rename_i options _ given
      refine listed_calls fun nodes same => ?_
      subst same
      rcases Option.or_eq_some_iff.mp given with first | ⟨_, second⟩
      · exact .oneOf first
      · exact .anyOf second
    · rename_i options _ _ given
      exact listed_calls fun nodes same => .allOf (same ▸ given)
    · rename_i options _ _ _ given
      exact listed_calls fun nodes same => .values (same ▸ given)
    · exact .value ‹_›
    · exact ofTyped_calls _
  | _ => exact .unknown

/-- The nodes that are references are those with the keyword. -/
theorem ofNode_reference {node ref : Json} :
    Shape.ofNode node = .reference ref ↔ node.field? "$ref" = some ref := by
  constructor
  · intro shape
    have calls := ofNode_calls node
    rw [shape] at calls
    cases calls with
    | reference given => exact given
  · intro given
    cases node with
    | obj fields =>
      simp only [Json.field?] at given
      simp only [Shape.ofNode, given]
    | _ => cases given

end EntitySchema.Dispatch
