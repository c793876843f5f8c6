import EntitySchema.Proofs.FaultCauses
import EntitySchema.Proofs.Following

/-! Components about which nothing can be found out. A reference that leads
nowhere or back to itself never ends a compilation: following stops at it, and
converting what following gave finds nothing either. The component is kept as
unknown in its place, and a line is printed for it. -/
namespace EntitySchema.Warnings
open Reference Synthesis Compilation StoreView Following Memoisation

variable {source : Source} {rootSchema : String}

section Faults

variable {σ α β : Type}

private theorem genuine_pure (value : α) : Genuine (pure value : Action σ Fault α) := by
  intro before fault after failed
  cases failed

private theorem genuine_bind {action : Action σ Fault α} {next : α → Action σ Fault β}
    (first : Genuine action) (second : ∀ value, Genuine (next value)) :
    Genuine (action >>= next) := by
  intro before fault after failed
  rw [Action.run_bind] at failed
  rcases ran : action.run before with ⟨stopped | value, middle⟩
  · rw [ran] at failed
    cases failed
    exact first _ _ _ ran
  · rw [ran] at failed
    exact second value _ _ _ failed

private theorem genuine_each {f : β → Action σ Fault α} (single : ∀ item, Genuine (f item))
    (items : List β) : Genuine (Action.each f items) := by
  induction items with
  | nil => exact genuine_pure []
  | cons item rest ih =>
    exact genuine_bind (single item) fun value =>
      genuine_bind ih fun values => genuine_pure (value :: values)

private theorem genuine_onStore {action : Load α} (genuine : Genuine action) :
    Genuine (onStore action) := by
  intro before fault after failed
  rw [run_onStore] at failed
  have stopped := congrArg Prod.fst failed
  exact genuine before.store fault _ (Prod.ext stopped rfl)

private theorem context_genuine (source : Source) (path : String) :
    Genuine (Store.context source path) := by
  intro before fault after failed
  obtain ⟨answered, _⟩ := context_ran failed
  cases read : fetch source before (Location.normalize (Location.normalize path)) with
  | error stopped =>
    rw [read] at answered
    cases answered
    exact fetch_fault read
  | ok document =>
    rw [read] at answered
    cases answered

private theorem convert_genuine (source : Source) (budget : Nat) (node : Json) (context : Context)
    (seen : List Key) : Genuine (convert source budget node context seen) := by
  induction budget generalizing node context seen with
  | zero => exact genuine_pure _
  | succ budget ih =>
    by_cases leaves : ∃ ref, Shape.ofNode node = .reference ref
    · obtain ⟨ref, shape⟩ := leaves
      simp only [convert, shape]
      refine genuine_bind (hop_genuine source ref context seen) fun found => ?_
      cases found with
      | none => exact genuine_pure _
      | some hop => exact ih _ _ _
    · rw [convert_structural source budget context seen fun ref shape => leaves ⟨ref, shape⟩]
      exact genuine_bind (genuine_each (fun child => ih child context seen) _) fun types =>
        genuine_pure _

private theorem notice_genuine (line : String) : Genuine (notice line) := by
  intro before fault after failed
  cases failed

private theorem component_genuine (source : Source) (root : Context) (name : String)
    (node : Json) : Genuine (component source root name node) := by
  refine genuine_bind (genuine_onStore (follow_genuine source node root)) fun resolved => ?_
  refine genuine_bind (genuine_onStore (convert_genuine source _ _ resolved [])) fun type => ?_
  cases type with
  | unknown => exact genuine_bind (notice_genuine _) fun _ => genuine_pure _
  | _ => exact genuine_pure _

/-- A compilation does not fail for a reference. -/
theorem components_genuine (source : Source) (rootSchema : String) :
    Genuine (components source rootSchema) := by
  refine genuine_bind (genuine_onStore (context_genuine source rootSchema)) fun root => ?_
  cases declared? root.schema with
  | some properties =>
    refine genuine_each ?_ properties
    rintro ⟨name, node⟩
    exact component_genuine source root name node
  | none => exact genuine_bind (notice_genuine _) fun _ => genuine_pure _

end Faults

/-- The line that tells of a component without a type. -/
def warning (name : String) : String :=
  "Warning: no type information for component " ++ name

/-- What is printed for a component. -/
def warnings (component : Component) : List String :=
  match component.type with
  | .unknown => [warning component.name]
  | _ => []

section Notices

variable {α β : Type} {lines : α → List String}

/-- When the step gives a value, it has added the lines for it to the notices. -/
private def Prints (step : Compile α) (lines : α → List String) : Prop :=
  ∀ before value after, step.run before = (.ok value, after) →
    after.notices = before.notices ++ lines value

private theorem prints_nothing {value : α} (silent : lines value = []) :
    Prints (pure value) lines := by
  intro before result after ran
  cases ran
  rw [silent, List.append_nil]

private theorem prints_line {value : α} {line : String} (only : lines value = [line]) :
    Prints (notice line >>= fun _ => pure value) lines := by
  intro before result after ran
  cases ran
  rw [only]

/-- A computation on the store prints nothing. -/
private theorem prints_after {action : Load β} {next : β → Compile α}
    (onward : ∀ value, Prints (next value) lines) : Prints (onStore action >>= next) lines := by
  intro before result after ran
  obtain ⟨value, middle, loaded, later⟩ := Action.bind_ran ran
  have quiet : middle.notices = before.notices := by
    rw [run_onStore] at loaded
    rw [← (Prod.mk.inj loaded).2]
  rw [onward value _ _ _ later, quiet]

private theorem prints_each {f : β → Compile α} (single : ∀ item, Prints (f item) lines)
    (items : List β) : Prints (Action.each f items) (List.flatMap lines) := by
  induction items with
  | nil => exact prints_nothing rfl
  | cons item rest ih =>
    intro before results after ran
    obtain ⟨value, values, middle, rfl, head, others⟩ := Action.each_cons_ran ran
    rw [ih _ _ _ others, single item _ _ _ head, List.flatMap_cons, List.append_assoc]

end Notices

private theorem component_prints (source : Source) (root : Context) (name : String) (node : Json) :
    Prints (component source root name node) warnings := by
  refine prints_after fun resolved => prints_after fun type => ?_
  cases type with
  | unknown => exact prints_line rfl
  | _ => exact prints_nothing rfl

variable {before after : Progress} {root : Context} {opened : Store} {found : List Component}

/-- What a compilation prints: that there is nothing declared, or one line for
each component without a type, in order. -/
private theorem components_printed
    (opening : (Store.context source rootSchema).run before.store = (.ok root, opened))
    (ran : (components source rootSchema).run before = (.ok found, after)) :
    after.notices = before.notices ++
      if declared? root.schema = none then
        ["Warning: " ++ rootSchema ++ " declares no component properties"]
      else found.flatMap warnings := by
  simp only [components, Action.run_bind, run_onStore, opening] at ran
  cases declared : declared? root.schema with
  | none =>
    rw [declared] at ran
    cases ran
    rfl
  | some properties =>
    rw [declared] at ran
    rw [if_neg (by simp)]
    have printed := prints_each
      (fun property : String × Json => component_prints source root property.1 property.2)
      properties _ _ _ ran
    exact printed

/-- The root document is in the store that was opened, and the nodes of its
properties stand in it. -/
private theorem property_stands {store : Store} {property : String × Json}
    (opening : (Store.context source rootSchema).run store = (.ok root, opened))
    (member : property ∈ (declared? root.schema).getD []) :
    Held opened root ∧ StandsIn opened root property.2 := by
  obtain ⟨cached, _⟩ := (context_ran opening).2.2 root rfl
  exact ⟨⟨root.schema, cached, id⟩, root.schema, cached, FaultCauses.declared_inside member⟩

/-- A component whose node is followed to a node that still has a reference is
unknown. -/
private theorem dangling_unknown {store : Store} {property : String × Json} {component : Component}
    (opening : (Store.context source rootSchema).run store = (.ok root, opened))
    (member : property ∈ (declared? root.schema).getD [])
    (typed : TypedBy source root opened property component) :
    ∃ resolved reached, (follow source property.2 root).run opened = (.ok resolved, reached) ∧
      (resolved.schema.field? "$ref" ≠ none → component.type = .unknown) := by
  obtain ⟨held, stands⟩ := property_stands opening member
  obtain ⟨_, resolved, reached, followed, converted⟩ := typed
  refine ⟨resolved, reached, followed, ?_⟩
  intro still
  obtain ⟨ref, refers⟩ := Option.ne_none_iff_exists'.mp still
  have nothing := followed_unknown held stands followed refers defaultDepth 0
  rw [converted] at nothing
  exact Except.ok.inj nothing

/-- **A dangling or looping component is only a warning.** Finding the components
never fails for a reference. When it succeeds, there is one component for each
property of the root schema, in order; one whose node is followed to a node that
still has a reference is unknown, and a line tells so. What is printed are these
lines, one for each component without a type, in order. -/
theorem dangling_components_warned (source : Source) (rootSchema : String) :
    (∀ before fault after, (components source rootSchema).run before = (.error fault, after) →
      fault.isReferenceFault = false) ∧
    ∀ before found after, Consistent source before.store →
      (components source rootSchema).run before = (.ok found, after) →
      ∃ root opened, (Store.context source rootSchema).run before.store = (.ok root, opened) ∧
        found.map (·.name) = Entries.names ((declared? root.schema).getD []) ∧
        ∃ printed, after.notices = before.notices ++ printed ∧
          (declared? root.schema ≠ none → printed = found.flatMap warnings) ∧
          List.Forall₂ (fun property component => ∃ resolved reached,
              (follow source property.2 root).run opened = (.ok resolved, reached) ∧
              (resolved.schema.field? "$ref" ≠ none →
                component.type = .unknown ∧ warning property.1 ∈ printed))
            ((declared? root.schema).getD []) found := by
  refine ⟨components_genuine source rootSchema, ?_⟩
  intro before found after consistent ran
  have gathered : (gatherAll source rootSchema).run before.store = (.ok found, after.store) := by
    obtain ⟨same, reached⟩ := components_mirrors source rootSchema before
    rw [ran] at same reached
    exact Prod.ext same.symm reached.symm
  -- What was loaded for the properties before makes no difference to a component,
  -- so each is told from the store into which the root document was just opened.
  obtain ⟨root, opened, opening, ready, apart⟩ := gatherAll_typed consistent gathered
  have typed := apart opened ready
  refine ⟨root, opened, opening, ?_, _, components_printed opening ran, ?_, ?_⟩
  · rw [Entries.names, ← List.forall₂_eq_eq_eq, List.forall₂_map_left_iff,
      List.forall₂_map_right_iff]
    exact (typed.imp fun property component here => here.1).flip
  · intro declared
    rw [if_neg declared]
  · obtain ⟨lengths, pairs⟩ := List.forall₂_iff_zip.mp typed
    refine List.forall₂_iff_zip.mpr ⟨lengths, fun {property component} paired => ?_⟩
    obtain ⟨member, present⟩ := List.of_mem_zip paired
    obtain ⟨resolved, reached, followed, unknown⟩ := dangling_unknown opening member (pairs paired)
    refine ⟨resolved, reached, followed, fun still => ⟨unknown still, ?_⟩⟩
    have declared : declared? root.schema ≠ none := by
      intro nothing
      simp [nothing] at member
    rw [if_neg declared]
    refine List.mem_flatMap.mpr ⟨component, present, ?_⟩
    rw [warnings, unknown still, (pairs paired).1]
    exact List.mem_singleton_self _

/-- A root schema with a plain node and a reference into a loop. -/
def entity : Json :=
  .obj [("properties",
      .obj [("m", .obj [("type", .str "null")]), ("r", .obj [("$ref", .str "#/a")])]),
    ("a", .obj [("$ref", .str "#/a")])]

/-- A disk with the root schema alone. -/
def oneFile : Source :=
  { disk :=
      { entries :=
          [(["e"], fileOf ("\x7b\"properties\":\x7b\"m\":\x7b\"type\":\"null\"\x7d," ++
            "\"r\":\x7b\"$ref\":\"#/a\"\x7d\x7d,\"a\":\x7b\"$ref\":\"#/a\"\x7d\x7d"))] }
    root := ⟨1, []⟩ }

/-- Both components are found, and a line tells of the one that loops. -/
theorem dangling_components_warned_loop :
    ∃ after, (components oneFile "e").run ⟨⟨[("e", entity)]⟩, []⟩ =
        (.ok [⟨"m", .primitive "null", none, none⟩, ⟨"r", .unknown, none, none⟩], after) ∧
      warning "r" ∈ after.notices := by
  have read : oneFile.document "e" = .ok entity := by cbv
  have consistent : Consistent oneFile ⟨[("e", entity)]⟩ := by
    intro key document member
    cases List.mem_singleton.mp member
    exact read
  have ran : (components oneFile "e").run ⟨⟨[("e", entity)]⟩, []⟩ =
      (.ok [⟨"m", .primitive "null", none, none⟩, ⟨"r", .unknown, none, none⟩],
        ⟨⟨[("e", entity)]⟩, ["Warning: no type information for component r"]⟩) := by cbv
  refine ⟨_, ran, ?_⟩
  obtain ⟨root, opened, opening, _, printed, notices, _, reported⟩ :=
    (dangling_components_warned oneFile "e").2 _ _ _ consistent ran
  have opens : (Store.context oneFile "e").run ⟨[("e", entity)]⟩ =
      (.ok ⟨entity, "e"⟩, ⟨[("e", entity)]⟩) := by cbv
  cases opens.symm.trans opening
  have followed : (follow oneFile (.obj [("$ref", .str "#/a")]) ⟨entity, "e"⟩).run
      ⟨[("e", entity)]⟩ = (.ok ⟨.obj [("$ref", .str "#/a")], "e"⟩, ⟨[("e", entity)]⟩) := by cbv
  obtain ⟨_, _, loops, told⟩ := (List.forall₂_cons.mp (List.forall₂_cons.mp reported).2).1
  cases followed.symm.trans loops
  rw [notices]
  exact (told (Option.some_ne_none _)).2

end EntitySchema.Warnings
