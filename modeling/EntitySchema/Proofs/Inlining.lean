import EntitySchema.Proofs.ConversionView

/-! Conversion against plain inlining. Plain inlining replaces each reference by
what it leads to and knows neither a depth limit nor the references it has
followed, so it may never finish. Where it does finish within the limit,
conversion gives the same type: a reference that comes up again on one branch
would have been inlined without end, so cutting it off is never seen.

The keys that conversion remembers hold a path and a reference only, while a
reference to its holder means a different node in each context. Such a
reference below the node it names cannot be inlined to an end either, which is
why the keys suffice. -/
namespace EntitySchema.Inlining
open Reference Synthesis StoreView ConversionView

variable {source : Source} {view : String → Except Fault Json} {before after : Store}
  {node child : Json} {context target : Context} {seen : List Key} {type : TypeExpr}
  {levels more : Nat}

/-- Plain inlining, looked at for a number of levels: nothing is given when the
recursion goes deeper than that. -/
def inline (source : Source) : Nat → Json → Context → Load (Option TypeExpr)
  | 0, _, _ => pure none
  | levels + 1, node, context =>
    match Shape.ofNode node with
    | .reference (.str ref) => do
      match ← resolve source ref context with
      | none => pure (some .unknown)
      | some target => inline source levels target.schema target
    | .reference _ => pure (some .unknown)
    | shape => do
      let types ← Action.each (fun child => inline source levels child context) shape.children
      pure ((types.mapM id).map shape.build)

/-- Plain inlining, told from the answers alone. -/
def inlineIn (view : String → Except Fault Json) :
    Nat → Json → Context → Except Fault (Option TypeExpr)
  | 0, _, _ => .ok none
  | levels + 1, node, context =>
    match Shape.ofNode node with
    | .reference (.str ref) => do
      match ← destination view ref context with
      | none => .ok (some .unknown)
      | some target => inlineIn view levels target.schema target
    | .reference _ => .ok (some .unknown)
    | shape => do
      let types ← shape.children.mapM fun child => inlineIn view levels child context
      pure ((types.mapM id).map shape.build)

private theorem inline_structural (inside : ∀ ref, Shape.ofNode node ≠ .reference ref) :
    inline source (levels + 1) node context = (do
      let types ← Action.each (fun child => inline source levels child context)
        (Shape.ofNode node).children
      pure ((types.mapM id).map (Shape.ofNode node).build)) := by
  rw [inline]
  split
  · rename_i ref shape
    exact absurd shape (inside _)
  · rename_i ref _ shape
    exact absurd shape (inside ref)
  · rfl

private theorem inlineIn_structural (inside : ∀ ref, Shape.ofNode node ≠ .reference ref) :
    inlineIn view (levels + 1) node context = (do
      let types ← (Shape.ofNode node).children.mapM fun child => inlineIn view levels child context
      pure ((types.mapM id).map (Shape.ofNode node).build)) := by
  rw [inlineIn]
  split
  · rename_i ref shape
    exact absurd shape (inside _)
  · rename_i ref _ shape
    exact absurd shape (inside ref)
  · rfl

private theorem inlineIn_reference {ref : String} (shape : Shape.ofNode node = .reference (.str ref)) :
    inlineIn view (levels + 1) node context = (do
      match ← destination view ref context with
      | none => .ok (some .unknown)
      | some target => inlineIn view levels target.schema target) := by
  rw [inlineIn, shape]

/-- In a steady context, plain inlining gives what the answers stand for. -/
theorem inline_gives (steady : Steady source before context) (levels : Nat) (node : Json) :
    Gives source before (inline source levels node context)
      (inlineIn (fetch source before) levels node context) := by
  induction levels generalizing before context node with
  | zero => exact gives_pure _
  | succ levels ih =>
    by_cases leaves : ∃ ref, Shape.ofNode node = .reference ref
    · obtain ⟨ref, shape⟩ := leaves
      cases ref with
      | str name =>
        rcases ran : (resolve source name context).run before with ⟨answer, middle⟩
        obtain ⟨rfl, grown, holds⟩ := resolve_ran steady ran
        rw [inlineIn_reference shape, inline, shape]
        cases led : destination (fetch source before) name context with
        | error fault => exact ⟨middle, by rw [Action.run_bind, ran, led]; rfl, grown⟩
        | ok found =>
          cases found with
          | none => exact ⟨middle, by rw [Action.run_bind, ran, led]; rfl, grown⟩
          | some target =>
            obtain ⟨after, rest, later⟩ := ih (holds target led) target.schema
            rw [grown.same] at rest
            exact ⟨after, by rw [Action.run_bind, ran, led]; exact rest, grows_trans grown later⟩
      | _ =>
        simp only [inline, inlineIn, shape]
        exact gives_pure _
    · have inside : ∀ ref, Shape.ofNode node ≠ .reference ref := fun ref shape =>
        leaves ⟨ref, shape⟩
      rw [inline_structural inside, inlineIn_structural inside]
      refine gives_bind (gives_each ?_) (fun types _ middle _ => gives_pure _)
      intro child _ middle grown
      rw [← grown.same]
      exact ih (steady_later steady grown) child

private theorem all_finished_iff {answers : List (Option TypeExpr)} {types : List TypeExpr} :
    answers.mapM id = some types ↔ answers = types.map some := by
  induction answers generalizing types with
  | nil => cases types <;> simp
  | cons answer rest ih =>
    cases answer with
    | none => cases types <;> simp
    | some first => cases types <;> simp [Option.bind_eq_some_iff, ih, and_comm]

/-- A node that is no reference is inlined exactly when all its children are. -/
theorem inlineIn_ok (inside : ∀ ref, Shape.ofNode node ≠ .reference ref) :
    inlineIn view (levels + 1) node context = .ok (some type) ↔
      ∃ types, List.Forall₂ (fun child type => inlineIn view levels child context = .ok (some type))
        (Shape.ofNode node).children types ∧ type = (Shape.ofNode node).build types := by
  rw [inlineIn_structural inside]
  constructor
  · intro ran
    cases inlined : (Shape.ofNode node).children.mapM fun child =>
        inlineIn view levels child context with
    | error fault => rw [inlined] at ran; cases ran
    | ok answers =>
      rw [inlined] at ran
      cases finished : answers.mapM id with
      | none => simp [finished, bind, Except.bind, pure, Except.pure] at ran
      | some types =>
        simp only [finished, bind, Except.bind, pure, Except.pure, Option.map_some,
          Except.ok.injEq, Option.some.injEq] at ran
        rw [all_finished_iff.mp finished, mapM_ok_iff, List.forall₂_map_right_iff] at inlined
        exact ⟨types, inlined, ran.symm⟩
  · rintro ⟨types, children, rfl⟩
    have inlined : (Shape.ofNode node).children.mapM (fun child =>
        inlineIn view levels child context) = .ok (types.map some) := by
      rw [mapM_ok_iff, List.forall₂_map_right_iff]
      exact children
    rw [inlined]
    change Except.ok (((types.map some).mapM id).map _) = _
    rw [all_finished_iff.mpr rfl]
    rfl

/-- More levels change nothing about an inlining that finishes. -/
theorem inlineIn_mono (finished : inlineIn view levels node context = .ok (some type)) :
    inlineIn view (levels + 1) node context = .ok (some type) := by
  induction levels generalizing node context type with
  | zero => cases finished
  | succ levels ih =>
    by_cases leaves : ∃ ref, Shape.ofNode node = .reference ref
    · obtain ⟨ref, shape⟩ := leaves
      cases ref with
      | str name =>
        rw [inlineIn_reference shape] at finished ⊢
        cases led : destination view name context with
        | error fault => rw [led] at finished; cases finished
        | ok found =>
          rw [led] at finished
          cases found with
          | none => exact finished
          | some target => exact ih finished
      | _ =>
        simp only [inlineIn, shape] at finished ⊢
        exact finished
    · have inside : ∀ ref, Shape.ofNode node ≠ .reference ref := fun ref shape =>
        leaves ⟨ref, shape⟩
      rw [inlineIn_ok inside] at finished ⊢
      obtain ⟨types, children, same⟩ := finished
      exact ⟨types, children.imp fun _ _ => ih, same⟩

/-- A reference is inlined to the type of its target. -/
theorem inlineIn_target {ref : String} (shape : Shape.ofNode node = .reference (.str ref))
    (led : destination view ref context = .ok (some target))
    (finished : inlineIn view levels node context = .ok (some type)) :
    inlineIn view levels target.schema target = .ok (some type) := by
  cases levels with
  | zero => cases finished
  | succ levels =>
    rw [inlineIn_reference shape, led] at finished
    exact inlineIn_mono finished

/-- Plain inlining finishes within a number of levels. -/
def Finishes (view : String → Except Fault Json) (levels : Nat) (node : Json)
    (context : Context) : Prop :=
  ∃ type, inlineIn view levels node context = .ok (some type)

private theorem finishes_mono (finished : Finishes view levels node context) :
    Finishes view (levels + 1) node context := by
  obtain ⟨type, inlined⟩ := finished
  exact ⟨type, inlineIn_mono inlined⟩

/-- What takes one level less whenever it finishes never does. -/
private theorem never_finishes
    (shorter : ∀ levels, Finishes view (levels + 1) node context → Finishes view levels node context) :
    ¬ Finishes view levels node context := by
  intro finished
  induction levels with
  | zero =>
    obtain ⟨type, inlined⟩ := finished
    cases inlined
  | succ levels ih => exact ih (shorter levels finished)

/-- A node leaves a branch open when it finishes as soon as every target that
the branch went through does: its holder, and the targets of the keys. -/
structure Below (view : String → Except Fault Json) (seen : List Key) (node : Json)
    (context : Context) : Prop where
  holder : seen ≠ [] → ∀ levels,
    Finishes view levels context.schema context → Finishes view levels node context
  keys : ∀ owner ref target, (Context.path owner, ref) ∈ seen → namesHolder ref = false →
    Known view owner → destination view ref owner = .ok (some target) →
    ∀ levels, Finishes view levels target.schema target → Finishes view levels node context

private theorem finishes_child (inside : ∀ ref, Shape.ofNode node ≠ .reference ref)
    (member : child ∈ (Shape.ofNode node).children) (finished : Finishes view levels node context) :
    Finishes view levels child context := by
  obtain ⟨type, inlined⟩ := finished
  cases levels with
  | zero => cases inlined
  | succ levels =>
    obtain ⟨types, children, _⟩ := (inlineIn_ok inside).mp inlined
    obtain ⟨type, _, inlined⟩ := related_left children member
    exact finishes_mono ⟨type, inlined⟩

private theorem below_child (below : Below view seen node context)
    (inside : ∀ ref, Shape.ofNode node ≠ .reference ref)
    (member : child ∈ (Shape.ofNode node).children) : Below view seen child context :=
  ⟨fun opened levels finished =>
      finishes_child inside member (below.holder opened levels finished),
    fun owner ref target key away known led levels finished =>
      finishes_child inside member (below.keys owner ref target key away known led levels finished)⟩

private theorem reference_shorter {ref : String} (shape : Shape.ofNode node = .reference (.str ref))
    (led : destination view ref context = .ok (some target))
    (finished : Finishes view (levels + 1) node context) :
    Finishes view levels target.schema target := by
  obtain ⟨type, inlined⟩ := finished
  rw [inlineIn_reference shape, led] at inlined
  exact ⟨type, inlined⟩

/-- A reference that finishes was not followed before on its branch: its target
would have to finish in fewer levels than it takes. -/
private theorem reference_fresh {ref : String} (known : Known view context)
    (below : Below view seen node context)
    (shape : Shape.ofNode node = .reference (.str ref))
    (led : destination view ref context = .ok (some target))
    (finished : Finishes view levels target.schema target) : (context.path, ref) ∉ seen := by
  intro followed
  have again : ∀ levels, Finishes view levels target.schema target →
      Finishes view levels node context := by
    cases holder : namesHolder ref with
    | true =>
      simp only [destination, holder, ↓reduceIte] at led
      cases led
      exact below.holder (List.ne_nil_of_mem followed)
    | false => exact below.keys context ref target followed holder known led
  exact never_finishes
    (fun levels finished => reference_shorter shape led (again _ finished)) finished

private theorem below_target {ref : String} (below : Below view seen node context)
    (shape : Shape.ofNode node = .reference (.str ref))
    (led : destination view ref context = .ok (some target)) :
    Below view ((context.path, ref) :: seen) target.schema target := by
  refine ⟨fun _ _ finished => finished, ?_⟩
  intro owner name other key away known reached levels finished
  rcases List.mem_cons.mp key with same | key
  · obtain ⟨samePath, rfl⟩ := Prod.mk.inj same
    rw [← destination_path away known samePath.symm, led] at reached
    cases reached
    exact finished
  · exact reference_shorter shape led
      (finishes_mono (below.keys owner name other key away known reached levels finished))

/-- **Cutting off is never seen.** Where plain inlining finishes, conversion
with as many levels gives the same type, whatever references the branch has
followed so far. -/
theorem convertIn_of_inlineIn (known : Known view context) (below : Below view seen node context)
    (finished : inlineIn view levels node context = .ok (some type)) :
    convertIn view levels node context seen = .ok type := by
  induction levels generalizing node context seen type with
  | zero => cases finished
  | succ levels ih =>
    by_cases leaves : ∃ ref, Shape.ofNode node = .reference ref
    · obtain ⟨ref, shape⟩ := leaves
      rw [convertIn, shape]
      cases ref with
      | str name =>
        rw [inlineIn_reference shape] at finished
        cases led : destination view name context with
        | error fault => rw [led] at finished; cases finished
        | ok found =>
          rw [led] at finished
          cases found with
          | none =>
            cases finished
            simp only [hopIn, led]
            split <;> rfl
          | some target =>
            have fresh := reference_fresh known below shape led ⟨type, finished⟩
            simp only [hopIn, fresh, ↓reduceIte, led]
            exact ih (destination_known known led) (below_target below shape led) finished
      | _ =>
        simp only [inlineIn, shape] at finished
        cases finished
        rfl
    · have inside : ∀ ref, Shape.ofNode node ≠ .reference ref := fun ref shape =>
        leaves ⟨ref, shape⟩
      obtain ⟨types, children, same⟩ := (inlineIn_ok inside).mp finished
      refine (convertIn_ok inside).mpr ⟨types, ?_, same⟩
      have members := (List.forall₂_and_left _ _).mpr ⟨fun child member => member, children⟩
      exact members.imp fun child type inlined => ih known (below_child below inside inlined.1) inlined.2

/-- Following goes along the references that inlining goes along, so every node
on its way is inlined to the same type. -/
theorem follow_reaches (fuel : Nat) (seen : List Key) (current : Context) {owner : Context}
    (held : Held before owner)
    (inlined : inlineIn (fetch source before) levels current.schema owner = .ok (some type)) :
    ∃ reached after, (followFrom source fuel seen current owner).run before = (.ok reached, after) ∧
      Grows source before after ∧ (reached = current ∨ Held after reached ∧
        inlineIn (fetch source before) levels reached.schema reached = .ok (some type)) := by
  induction fuel generalizing before seen current owner with
  | zero => exact ⟨current, before, rfl, grows_refl _, .inl rfl⟩
  | succ fuel ih =>
    cases field : current.schema.field? "$ref" with
    | none =>
      simp only [followFrom, field]
      exact ⟨current, before, rfl, grows_refl _, .inl rfl⟩
    | some ref =>
      simp only [followFrom, field, Action.run_bind]
      rcases ran : (hop? source ref owner seen).run before with ⟨answer, middle⟩
      obtain ⟨answered, grown, holds⟩ := hop_ran (.inl held) ran
      cases ref with
      | str name =>
        have shape := Dispatch.ofNode_reference.mpr field
        cases levels with
        | zero => cases inlined
        | succ levels =>
          cases led : destination (fetch source before) name owner with
          | error fault =>
            rw [inlineIn_reference shape, led] at inlined
            cases inlined
          | ok found =>
            simp only [hopIn, led] at answered
            split at answered
            · subst answered
              exact ⟨current, middle, rfl, grown, .inl rfl⟩
            · cases found with
              | none =>
                subst answered
                exact ⟨current, middle, rfl, grown, .inl rfl⟩
              | some target =>
                subst answered
                have heldTarget := target_held held grown led (holds target _ rfl)
                have onward := inlineIn_target shape led inlined
                rw [← grown.same] at onward
                obtain ⟨reached, after, rest, later, last⟩ :=
                  ih ((owner.path, name) :: seen) target heldTarget onward
                refine ⟨reached, after, rest, grows_trans grown later, .inr ?_⟩
                rw [grown.same] at last onward
                rcases last with rfl | last
                · exact ⟨held_later heldTarget later, onward⟩
                · exact last
      | _ =>
        subst answered
        exact ⟨current, middle, rfl, grown, .inl rfl⟩

/-- Where inlining finishes below its holder, no reference names the holder, so
every context of the same document inlines the node alike. -/
private theorem inlineIn_other_context {other : Context} (known : Known view context)
    (path : other.path = context.path)
    (below : ∀ levels, Finishes view levels context.schema context →
      Finishes view levels node context)
    (finished : inlineIn view levels node context = .ok (some type)) :
    inlineIn view levels node other = .ok (some type) := by
  induction levels generalizing node type with
  | zero => cases finished
  | succ levels ih =>
    by_cases leaves : ∃ ref, Shape.ofNode node = .reference ref
    · obtain ⟨ref, shape⟩ := leaves
      cases ref with
      | str name =>
        cases holder : namesHolder name with
        | true =>
          have led : destination view name context = .ok (some context) := by
            simp only [destination, holder, ↓reduceIte]
          exact absurd (reference_shorter shape led ⟨type, finished⟩)
            (never_finishes fun levels again => reference_shorter shape led (below _ again))
        | false =>
          rw [inlineIn_reference shape] at finished ⊢
          rw [destination_path holder known path]
          exact finished
      | _ =>
        simp only [inlineIn, shape] at finished ⊢
        exact finished
    · have inside : ∀ ref, Shape.ofNode node ≠ .reference ref := fun ref shape =>
        leaves ⟨ref, shape⟩
      rw [inlineIn_ok inside] at finished ⊢
      obtain ⟨types, children, same⟩ := finished
      have members := (List.forall₂_and_left _ _).mpr ⟨fun child member => member, children⟩
      refine ⟨types, members.imp fun child type inlined => ih ?_ inlined.2, same⟩
      intro levels finished
      exact finishes_child inside inlined.1 (below levels finished)

private theorem synthesize_inlined {maxDepth depth : Int} (held : Held before context)
    (inlined : inlineIn (fetch source before) (budgetAt maxDepth depth) node context =
      .ok (some type)) :
    ((synthesize source maxDepth node context depth).run before).1 = .ok type := by
  obtain ⟨after, ran, _⟩ : Gives source before _ _ := synthesize_gives (.inl held) maxDepth node depth
  rw [ran]
  refine convertIn_of_inlineIn (held_known source held) ⟨fun opened => absurd rfl opened, ?_⟩ inlined
  intro owner ref target impossible
  cases impossible

private theorem inline_ran {answer : Except Fault (Option TypeExpr)} (held : Held before context)
    (ran : (inline source levels node context).run before = (answer, after)) :
    inlineIn (fetch source before) levels node context = answer := by
  obtain ⟨reached, given, _⟩ : Gives source before _ _ := inline_gives (.inl held) levels node
  rw [given] at ran
  exact congrArg Prod.fst ran

/-- After a hop, following ends at a node that is inlined to the same type. -/
private theorem follow_resolved {ref : String} {middle : Store} (held : Held before context)
    (shape : Shape.ofNode node = .reference (.str ref))
    (ran : (resolve source ref context).run before = (.ok (some target), middle))
    (inlined : inlineIn (fetch source before) levels node context = .ok (some type)) :
    ∃ reached last, (follow source node context).run before = (.ok reached, last) ∧
      Held last reached ∧
      inlineIn (fetch source last) levels reached.schema reached = .ok (some type) := by
  obtain ⟨led, _, _⟩ := resolve_ran (.inl held) ran
  rcases hopped : (hop? source (.str ref) context []).run before with ⟨answer, after⟩
  obtain ⟨answered, grown, holds⟩ := hop_ran (.inl held) hopped
  simp only [hopIn, List.not_mem_nil, ↓reduceIte, ← led, Except.map, Option.map_some] at answered
  subst answered
  have heldTarget := target_held held grown led.symm (holds target _ rfl)
  have onward := inlineIn_target shape led.symm inlined
  rw [← grown.same] at onward
  obtain ⟨reached, last, rest, later, ends⟩ :=
    follow_reaches (hopBound source before node context - 1) [(context.path, ref)]
      target heldTarget onward
  refine ⟨reached, last, ?_, ?_⟩
  · have fuel : hopBound source before node context =
        hopBound source before node context - 1 + 1 := by simp [hopBound]
    change (followFrom source (hopBound source before node context) [] ⟨node, context.path⟩
      context).run before = _
    rw [fuel, followFrom, Dispatch.ofNode_reference.mp shape]
    simp only [Action.run_bind, hopped]
    exact rest
  · rw [later.same]
    rcases ends with rfl | ends
    · exact ⟨held_later heldTarget later, onward⟩
    · exact ends

/-- A reference that leads nowhere is unknown in a context of its own too. A local
one in a document that is `null` is left out: it starts at the node itself there. -/
private theorem unresolved_inlined {maxDepth depth : Int} {ref : Json} (held : Held before context)
    (shape : Shape.ofNode node = .reference ref)
    (nowhere : ∀ text target, ref = .str text →
      destination (fetch source before) text context ≠ .ok (some target))
    (present : context.schema = .null → ∀ text, ref ≠ .str text)
    (inlined : inlineIn (fetch source before) (budgetAt maxDepth depth) node context =
      .ok (some type)) :
    ((synthesize source maxDepth node ⟨node, context.path⟩ depth).run before).1 = .ok type := by
  obtain ⟨levels, budget⟩ : ∃ levels, budgetAt maxDepth depth = levels + 1 := by
    cases budget : budgetAt maxDepth depth with
    | zero =>
      rw [budget] at inlined
      cases inlined
    | succ levels => exact ⟨levels, rfl⟩
  rw [budget] at inlined
  cases ref with
  | str text =>
    have away : namesHolder text = false := by
      by_contra holder
      have led : destination (fetch source before) text context = .ok (some context) := by
        simp only [destination, Bool.not_eq_false _ ▸ holder, ↓reduceIte]
      exact nowhere text context rfl led
    have own : Held before ⟨node, context.path⟩ := by
      obtain ⟨document, cached, null⟩ := held
      exact ⟨document, cached, fun same => absurd rfl (present (null same) text)⟩
    have same : destination (fetch source before) text ⟨node, context.path⟩ =
        destination (fetch source before) text context :=
      destination_path away (held_known source held) rfl
    apply synthesize_inlined own
    rw [budget, inlineIn_reference shape, same]
    rw [inlineIn_reference shape] at inlined
    cases led : destination (fetch source before) text context with
    | error fault =>
      rw [led] at inlined
      cases inlined
    | ok found =>
      cases found with
      | none =>
        rw [led] at inlined
        exact inlined
      | some target => exact absurd led (nowhere text target rfl)
  | _ =>
    simp only [inlineIn, shape] at inlined
    cases inlined
    simp only [synthesize, budget, convert, shape]
    rfl

/-- **The visited references and the depth limit are invisible on schemas that
do not need them.** In a context made by the store, a node whose plain inlining
finishes within the limit is given exactly the inlined type. A reference is
given the type of its target. Following the node first gives the same type
again, when it is a reference or else when what following returned is itself a
node of the store that is inlined to an end: a node that is no reference is
returned in a context of its own, and is its own holder then. The same goes for
a reference that leads nowhere, but that matters only where the document is
`null`. -/
theorem synthesis_inlines {maxDepth depth : Int} (made : Made source before context)
    (finished : (inline source (budgetAt maxDepth depth) node context).run before =
      (.ok (some type), after)) :
    ((synthesize source maxDepth node context depth).run before).1 = .ok type ∧
      (∀ ref target middle, Shape.ofNode node = .reference (.str ref) →
        (resolve source ref context).run before = (.ok (some target), middle) →
        ((synthesize source maxDepth target.schema target depth).run middle).1 = .ok type) ∧
      ∃ reached last, (follow source node context).run before = (.ok reached, last) ∧
        ((∃ ref target middle, Shape.ofNode node = .reference (.str ref) ∧
            (resolve source ref context).run before = (.ok (some target), middle)) ∨
          (∃ ref, Shape.ofNode node = .reference ref ∧
            (context.schema = .null → ∀ text, ref ≠ .str text)) ∨
          (Made source last reached ∧ ∃ own final,
            (inline source (budgetAt maxDepth depth) reached.schema reached).run last =
              (.ok (some own), final)) →
        ((synthesize source maxDepth reached.schema reached depth).run last).1 = .ok type) := by
  have held := made_held made
  have inlined := inline_ran held finished
  refine ⟨synthesize_inlined held inlined, ?_, ?_⟩
  · intro ref target middle shape ran
    obtain ⟨led, grown, holds⟩ := resolve_ran (.inl held) ran
    apply synthesize_inlined (target_held held grown led.symm (holds target rfl))
    rw [grown.same]
    exact inlineIn_target shape led.symm inlined
  · by_cases resolves : ∃ ref target middle, Shape.ofNode node = .reference (.str ref) ∧
        (resolve source ref context).run before = (.ok (some target), middle)
    · obtain ⟨ref, target, middle, shape, ran⟩ := resolves
      obtain ⟨reached, last, followed, heldLast, same⟩ := follow_resolved held shape ran inlined
      exact ⟨reached, last, followed, fun _ => synthesize_inlined heldLast same⟩
    · obtain ⟨reached, last, followed, grown, ends⟩ := follow_reaches
        (hopBound source before node context) [] ⟨node, context.path⟩ held inlined
      refine ⟨reached, last, followed, ?_⟩
      rw [← grown.same] at inlined ends
      rintro (impossible | ⟨ref, shape, present⟩ | ⟨madeLast, own, final, ownRan⟩)
      · exact absurd impossible resolves
      · rcases ends with rfl | ⟨heldLast, same⟩
        · refine unresolved_inlined (held_later held grown) shape ?_ present inlined
          rintro text target rfl led
          rcases ran : (resolve source text context).run before with ⟨answer, middle⟩
          rw [grown.same, ← (resolve_ran (.inl held) ran).1] at led
          exact resolves ⟨text, target, middle, shape, by rw [ran, led]⟩
        · exact synthesize_inlined heldLast same
      · have heldLast := made_held madeLast
        apply synthesize_inlined heldLast
        rcases ends with rfl | ⟨_, same⟩
        · have ownInlined := inline_ran heldLast ownRan
          have elsewhere : inlineIn (fetch source last) (budgetAt maxDepth depth) node context =
              .ok (some own) :=
            inlineIn_other_context (held_known source heldLast)
              (show context.path = (⟨node, context.path⟩ : Context).path from rfl)
              (fun _ finished => finished) ownInlined
          rw [inlined] at elsewhere
          cases elsewhere
          exact ownInlined
        · exact same

/-- Arrays of whatever the holder of the node is. -/
def holderArray : Json :=
  .obj [("type", .str "array"), ("items", .obj [("$ref", .str "#")])]

/-- A document that is a string by its first rule and has a property besides. -/
def holderDocument : Json :=
  .obj [("oneOf", .arr [.obj [("type", .str "string")]]),
    ("properties", .obj [("a", holderArray)])]

def holderStore : Store := ⟨[("d", holderDocument)]⟩

theorem synthesis_inlines_property :
    Made noFiles holderStore ⟨holderDocument, "d"⟩ ∧
      (inline noFiles (budgetAt 20 0) holderArray ⟨holderDocument, "d"⟩).run holderStore =
        (.ok (some (.array (.primitive "string"))), holderStore) ∧
      ((synthesize noFiles 20 holderArray ⟨holderDocument, "d"⟩ 0).run holderStore).1 =
        .ok (.array (.primitive "string")) := by
  have made : Made noFiles holderStore ⟨holderDocument, "d"⟩ :=
    .root (show (Store.context noFiles "d").run holderStore = _ from rfl)
  have finished : (inline noFiles (budgetAt 20 0) holderArray ⟨holderDocument, "d"⟩).run
      holderStore = (.ok (some (.array (.primitive "string"))), holderStore) := rfl
  exact ⟨made, finished, (synthesis_inlines made finished).1⟩

/-- Following a property that is no reference puts it in a context of its own.
The holder that its inner reference names is then the property and no longer
the document, so the type is not the inlined one any more. -/
theorem followed_property_differs :
    Made noFiles holderStore ⟨holderDocument, "d"⟩ ∧
      (inline noFiles (budgetAt 20 0) holderArray ⟨holderDocument, "d"⟩).run holderStore =
        (.ok (some (.array (.primitive "string"))), holderStore) ∧
      (follow noFiles holderArray ⟨holderDocument, "d"⟩).run holderStore =
        (.ok ⟨holderArray, "d"⟩, holderStore) ∧
      ((synthesize noFiles 20 holderArray ⟨holderArray, "d"⟩ 0).run holderStore).1 =
        .ok (.array (.array .unknown)) ∧
      TypeExpr.array (.array .unknown) ≠ .array (.primitive "string") := by
  refine ⟨.root (show (Store.context noFiles "d").run holderStore = _ from rfl), rfl, rfl, rfl, ?_⟩
  simp

/-- A reference to a field of the node that holds it. -/
def ownField : Json :=
  .obj [("$ref", .str "#/a"), ("a", .obj [("type", .str "string")])]

def nullStore : Store := ⟨[("d", .null)]⟩

/-- A local reference leads nowhere in a document that is `null`, but from the node
itself once following has returned it. -/
theorem null_document_differs :
    Made noFiles nullStore ⟨.null, "d"⟩ ∧
      (inline noFiles (budgetAt 20 0) ownField ⟨.null, "d"⟩).run nullStore =
        (.ok (some .unknown), nullStore) ∧
      (follow noFiles ownField ⟨.null, "d"⟩).run nullStore = (.ok ⟨ownField, "d"⟩, nullStore) ∧
      ((synthesize noFiles 20 ownField ⟨ownField, "d"⟩ 0).run nullStore).1 =
        .ok (.primitive "string") :=
  ⟨.root (show (Store.context noFiles "d").run nullStore = _ from rfl), rfl, rfl, rfl⟩

end EntitySchema.Inlining
