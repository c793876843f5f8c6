import EntitySchema.Proofs.Anchoring
import EntitySchema.Proofs.ConversionView
import EntitySchema.Proofs.FollowBound

/-! Where following ends. The references of a node are walked along keys of
which none is used twice, to a node that is no reference, or whose reference
leads nowhere or has been followed already. In the last case the keys from the
first use of it on lead round to the node again, since a key determines where
its hop leads. So walking on from there comes back to the same node, and a
conversion that starts there meets nothing but references. -/
namespace EntitySchema.Following
open Reference Synthesis StoreView ConversionView FollowBound Anchoring

variable {source : Source} {before after : Store} {context current owner reached : Context}
  {view : String → Except Fault Json} {seen keys : List Key} {key : Key} {node ref : Json}

/-- Hops from one node to another. Each resolves the reference of the node it
leaves; the first is read in `owner`, the others in the node itself. -/
inductive Chain (source : Source) : Context → Context → Store → List Key → Context → Store →
    Prop where
  | none {owner current : Context} {store : Store} :
    Chain source owner current store [] current store
  | hop {owner current target reached : Context} {before middle after : Store} {ref : String}
    {keys : List Key} (named : current.schema.field? "$ref" = some (.str ref))
    (resolved : (resolve source ref owner).run before = (.ok (some target), middle))
    (rest : Chain source target target middle keys reached after) :
    Chain source owner current before ((owner.path, ref) :: keys) reached after

/-- The same hops, told from the answers alone. -/
inductive Leads (view : String → Except Fault Json) : Context → Context → List Key → Context →
    Prop where
  | none {owner current : Context} : Leads view owner current [] current
  | hop {owner current target reached : Context} {ref : String} {keys : List Key}
    (named : current.schema.field? "$ref" = some (.str ref))
    (led : destination view ref owner = .ok (some target))
    (rest : Leads view target target keys reached) :
    Leads view owner current ((owner.path, ref) :: keys) reached

/-- With the keys in `seen` followed before, the keys may be followed one after
another, and the node they lead to is the last one. -/
structure Arrival (view : String → Except Fault Json) (seen keys : List Key) (reached : Context) :
    Prop where
  distinct : keys.Nodup
  fresh : ∀ key ∈ keys, key ∉ seen
  ends : ∀ ref, reached.schema.field? "$ref" = some ref →
    hopIn view ref reached (keys ++ seen) = .ok none

/-- There is no hop along a reference that is no string, was followed before, or
has no target. -/
private theorem hopIn_none : hopIn view ref context seen = .ok none ↔
    ∀ name, ref = .str name →
      (context.path, name) ∈ seen ∨ destination view name context = .ok none := by
  cases ref with
  | str name =>
    simp only [hopIn, Json.str.injEq, forall_eq']
    by_cases followed : (context.path, name) ∈ seen
    · simp [followed]
    · simp only [followed, ↓reduceIte, false_or]
      rcases destination view name context with fault | _ | target <;> simp [Except.map]
  | _ => simp [hopIn]

/-- A reference that leads nowhere from its holder leads nowhere from any node of
the same document. -/
private theorem stops_alike (known : Known view owner) (path : current.path = owner.path)
    (stops : hopIn view ref owner seen = .ok none) : hopIn view ref current seen = .ok none := by
  rw [hopIn_none] at stops ⊢
  intro name same
  rcases stops name same with followed | nowhere
  · exact .inl (path ▸ followed)
  · have away : namesHolder name = false := by
      by_contra holder
      rw [Bool.not_eq_false] at holder
      simp [destination, holder] at nowhere
    exact .inr (by rw [destination_path away known path]; exact nowhere)

/-- Following one key more first. -/
private theorem arrival_cons : Arrival view seen (key :: keys) reached ↔
    key ∉ seen ∧ Arrival view (key :: seen) keys reached := by
  have order : ∀ other, other ∈ key :: keys ++ seen ↔ other ∈ keys ++ key :: seen := by
    intro other
    simp only [List.cons_append, List.mem_cons, List.mem_append]
    exact or_left_comm
  constructor
  · rintro ⟨distinct, fresh, ends⟩
    obtain ⟨once, distinct⟩ := List.nodup_cons.mp distinct
    refine ⟨fresh key List.mem_cons_self, distinct, ?_, ?_⟩
    · intro other member followed
      rcases List.mem_cons.mp followed with rfl | earlier
      · exact once member
      · exact fresh other (List.mem_cons_of_mem _ member) earlier
    · intro ref named
      have stops := ends ref named
      simp only [hopIn_none, order] at stops
      exact hopIn_none.mpr stops
  · rintro ⟨unused, distinct, fresh, ends⟩
    refine ⟨List.nodup_cons.mpr ⟨?_, distinct⟩, ?_, ?_⟩
    · intro again
      exact fresh key again List.mem_cons_self
    · intro other member earlier
      rcases List.mem_cons.mp member with rfl | later
      · exact unused earlier
      · exact fresh other later (List.mem_cons_of_mem _ earlier)
    · intro ref named
      have stops := ends ref named
      simp only [hopIn_none, ← order] at stops
      exact hopIn_none.mpr stops

/-- A walk that gives a node has come to it along keys of which none was used
twice, and cannot go on from there. -/
private theorem walk_arrives (heldOwner : Held before owner) (held : Held before current)
    (path : current.path = owner.path)
    (walk : Walk source seen current owner before (.ok reached) after) :
    Grows source before after ∧ Held after reached ∧
      ∃ keys middle, Chain source owner current before keys reached middle ∧
        Leads (fetch source before) owner current keys reached ∧
        Arrival (fetch source before) seen keys reached := by
  generalize same : (.ok reached : Except Fault Context) = outcome at walk
  induction walk with
  | plain concrete =>
    cases same
    refine ⟨grows_refl _, held, [], _, .none, .none, List.nodup_nil, by simp, ?_⟩
    intro ref named
    rw [concrete] at named
    cases named
  | stopped named refused =>
    cases same
    obtain ⟨stops, grown, _⟩ := hop_ran (.inl heldOwner) refused
    refine ⟨grown, held_later held grown, [], _, .none, .none, List.nodup_nil, by simp, ?_⟩
    intro ref again
    rw [named] at again
    cases again
    exact stops_alike (held_known source heldOwner) path stops.symm
  | failed named refused => cases same
  | hop named hopped _ ih =>
    obtain ⟨name, rfl, rfl, fresh, resolved⟩ := hop_found hopped
    obtain ⟨led, grown, steady⟩ := resolve_ran (.inl heldOwner) resolved
    have heldTarget := target_held heldOwner grown led.symm (steady _ rfl)
    obtain ⟨later, heldLast, keys, last, chain, leads, arrival⟩ := ih heldTarget heldTarget rfl same
    rw [grown.same] at leads arrival
    exact ⟨grows_trans grown later, heldLast, _, last, .hop named resolved chain,
      .hop named led.symm leads, arrival_cons.mpr ⟨fresh, arrival⟩⟩

/-- The hop along one of the keys, and the way on from its target. -/
private theorem leads_split (known : Known view owner)
    (leads : Leads view owner current keys reached) (member : key ∈ keys) :
    ∃ holder target later, holder.path = key.1 ∧ Known view holder ∧
      destination view key.2 holder = .ok (some target) ∧
      Leads view target target later reached ∧ key :: later <:+ keys := by
  induction leads with
  | none => cases member
  | hop named led rest ih =>
    rcases List.mem_cons.mp member with rfl | later
    · exact ⟨_, _, _, rfl, known, led, rest, List.suffix_refl _⟩
    · obtain ⟨holder, target, onward, path, held, there, way, inside⟩ :=
        ih (destination_known known led) later
      exact ⟨holder, target, onward, path, held, there, way, inside.trans (List.suffix_cons _ _)⟩

/-- Walking on from the node comes to an end at the node itself. -/
def Settled (view : String → Except Fault Json) (context : Context) : Prop :=
  ∃ keys, Leads view context context keys context ∧ Arrival view [] keys context

/-- Where a walk ends, walking on stays or comes round. -/
private theorem leads_settled (known : Known view owner)
    (leads : Leads view owner current keys reached) (arrival : Arrival view [] keys reached) :
    Settled view reached := by
  by_cases round : ∃ name, reached.schema.field? "$ref" = some (.str name) ∧
      (reached.path, name) ∈ keys
  · obtain ⟨name, named, member⟩ := round
    -- However the node is reached again, its own key has been followed by then.
    have comes {others : List Key} (distinct : ((reached.path, name) :: others).Nodup) :
        Arrival view [] ((reached.path, name) :: others) reached := by
      refine ⟨distinct, by simp, ?_⟩
      intro ref again
      rw [named] at again
      cases again
      exact hopIn_none.mpr fun _ same => .inl (by cases same; simp)
    cases holder : namesHolder name with
    | true =>
      have itself : destination view name reached = .ok (some reached) := by
        simp only [destination, holder, ↓reduceIte]
      exact ⟨_, .hop named itself .none, comes (List.nodup_singleton _)⟩
    | false =>
      obtain ⟨first, target, later, path, held, led, way, inside⟩ := leads_split known leads member
      rw [← destination_path holder held path.symm] at led
      exact ⟨_, .hop named led way, comes (arrival.distinct.sublist inside.sublist)⟩
  · refine ⟨[], .none, List.nodup_nil, by simp, ?_⟩
    intro ref named
    refine hopIn_none.mpr fun name same => ?_
    subst same
    rcases hopIn_none.mp (arrival.ends _ named) name rfl with followed | nowhere
    · rw [List.append_nil] at followed
      exact absurd ⟨name, named, followed⟩ round
    · exact .inr nowhere

/-- A way that can be taken is walked. -/
private theorem leads_walk (held : Held before current)
    (leads : Leads (fetch source before) current current keys reached)
    (arrival : Arrival (fetch source before) seen keys reached) :
    ∃ after, Walk source seen current current before (.ok reached) after := by
  induction keys generalizing before current seen with
  | nil =>
    cases leads
    cases named : reached.schema.field? "$ref" with
    | none => exact ⟨before, .plain named⟩
    | some ref =>
      rcases hopped : (hop? source ref reached seen).run before with ⟨outcome, middle⟩
      obtain ⟨answered, _, _⟩ := hop_ran (.inl held) hopped
      have stops : hopIn (fetch source before) ref reached seen = .ok none :=
        arrival.ends ref named
      rw [stops] at answered
      subst answered
      exact ⟨middle, .stopped named hopped⟩
  | cons key rest ih =>
    cases leads with
    | @hop _ _ target _ name _ named led onward =>
      obtain ⟨unused, arrives⟩ := arrival_cons.mp arrival
      rcases hopped : (hop? source (.str name) current seen).run before with ⟨outcome, middle⟩
      obtain ⟨answered, grown, steady⟩ := hop_ran (.inl held) hopped
      simp only [hopIn, unused, ↓reduceIte, led, Except.map, Option.map_some] at answered
      subst answered
      rw [← grown.same] at onward arrives
      have heldTarget := target_held held grown led (steady target _ rfl)
      obtain ⟨last, walk⟩ := ih heldTarget onward arrives
      exact ⟨last, .hop named hopped walk⟩

/-- On a way that ends at a reference there is nothing to convert: whichever
comes first, the end of the way or of the budget, the type is unknown. -/
private theorem leads_unknown (leads : Leads view current current keys reached)
    (arrival : Arrival view seen keys reached) (refers : reached.schema.field? "$ref" = some ref)
    (budget : Nat) : convertIn view budget current.schema current seen = .ok .unknown := by
  induction keys generalizing current seen budget with
  | nil =>
    cases leads
    cases budget with
    | zero => rfl
    | succ budget =>
      have stops : hopIn view ref reached seen = .ok none := arrival.ends ref refers
      simp only [convertIn, Dispatch.ofNode_reference.mpr refers, stops]
      rfl
  | cons key rest ih =>
    cases leads with
    | @hop _ _ target _ name _ named led onward =>
      obtain ⟨unused, arrives⟩ := arrival_cons.mp arrival
      cases budget with
      | zero => rfl
      | succ budget =>
        simp only [convertIn, Dispatch.ofNode_reference.mpr named, hopIn, unused, ↓reduceIte, led]
        exact ih onward arrives budget

/-- No fault of the computation is that of a reference. -/
def Genuine {σ α : Type} (action : Action σ Fault α) : Prop :=
  ∀ before fault after, action.run before = (.error fault, after) → fault.isReferenceFault = false

/-- A hop takes the faults of references for the end of a chain. -/
theorem hop_genuine (source : Source) (ref : Json) (context : Context) (seen : List Key) :
    Genuine (hop? source ref context seen) := by
  intro before fault after failed
  cases ref with
  | str name =>
    by_cases followed : (context.path, name) ∈ seen
    · rw [hop_followed followed] at failed
      cases failed
    · rw [hop_resolved followed] at failed
      rcases resolved : (resolve source name context).run before with ⟨stopped | found, middle⟩
      · rw [resolved] at failed
        simp only [hopOutcome] at failed
        split at failed
        · cases failed
        · rename_i genuine
          cases failed
          simpa using genuine
      · rw [resolved] at failed
        cases failed
  | _ => cases failed

private theorem walk_genuine {fault : Fault}
    (walk : Walk source seen current owner before (.error fault) after) :
    fault.isReferenceFault = false := by
  generalize same : (.error fault : Except Fault Context) = outcome at walk
  induction walk with
  | plain concrete => cases same
  | stopped named refused => cases same
  | failed named refused =>
    cases same
    exact hop_genuine _ _ _ _ _ _ _ refused
  | hop named hopped _ ih => exact ih same

theorem follow_genuine (source : Source) (node : Json) (context : Context) :
    Genuine (follow source node context) := by
  intro before fault after failed
  have walk := follow_walks source before node context
  rw [failed] at walk
  exact walk_genuine walk

/-- The node stands in the document that the context is of. -/
def StandsIn (store : Store) (context : Context) (node : Json) : Prop :=
  ∃ document, store.cached? context.path = some document ∧ Inside node document

/-- What following a node of a document gives is held, and settled. -/
theorem follow_settles (held : Held before context) (stands : StandsIn before context node)
    (followed : (follow source node context).run before = (.ok reached, after)) :
    Grows source before after ∧ Held after reached ∧ Settled (fetch source before) reached ∧
      ∃ keys middle, Chain source context ⟨node, context.path⟩ before keys reached middle ∧
        Arrival (fetch source before) [] keys reached := by
  have heldNode : Held before ⟨node, context.path⟩ := by
    obtain ⟨document, found, inside⟩ := stands
    refine ⟨document, found, ?_⟩
    rintro rfl
    cases inside
    rfl
  have walk := follow_walks source before node context
  rw [followed] at walk
  obtain ⟨grown, heldLast, keys, middle, chain, leads, arrival⟩ :=
    walk_arrives held heldNode rfl walk
  exact ⟨grown, heldLast, leads_settled (held_known source held) leads arrival,
    keys, middle, chain, arrival⟩

/-- What following gives is unknown, if it is still a reference. -/
theorem followed_unknown (held : Held before context) (stands : StandsIn before context node)
    (followed : (follow source node context).run before = (.ok reached, after))
    (refers : reached.schema.field? "$ref" = some ref) (maxDepth depth : Int) :
    ((synthesize source maxDepth reached.schema reached depth).run after).1 = .ok .unknown := by
  obtain ⟨grown, heldLast, ⟨keys, leads, arrival⟩, _⟩ := follow_settles held stands followed
  obtain ⟨last, ran, _⟩ : Gives source after _ _ :=
    synthesize_gives (.inl heldLast) maxDepth reached.schema depth
  rw [ran, grown.same]
  exact leads_unknown leads arrival refers _

/-- **Following always ends, at the right node.** In a context made by the store
and for every node of its document, walking without a bound comes to an end,
with what following gives. A fault is never that of a reference. A node that it
gives is reached by a chain of hops along distinct keys, and its own reference,
if that is a string, is a key of the chain or cannot be resolved from there.
Following that node gives it again, wherever on a cycle it stands. -/
theorem following_ends (made : Made source before context) (stands : StandsIn before context node) :
    Walk source [] ⟨node, context.path⟩ context before
        ((follow source node context).run before).1 ((follow source node context).run before).2 ∧
      (∀ fault after, (follow source node context).run before = (.error fault, after) →
        fault.isReferenceFault = false) ∧
      ∀ reached after, (follow source node context).run before = (.ok reached, after) →
        (∃ keys middle, Chain source context ⟨node, context.path⟩ before keys reached middle ∧
          keys.Nodup ∧
          ∀ ref, reached.schema.field? "$ref" = some (.str ref) →
            (reached.path, ref) ∈ keys ∨ ((resolve source ref reached).run after).1 = .ok none) ∧
        ((follow source reached.schema reached).run after).1 = .ok reached := by
  refine ⟨follow_walks source before node context, follow_genuine source node context before, ?_⟩
  intro reached after followed
  obtain ⟨grown, heldLast, ⟨round, leads, arrives⟩, keys, middle, chain, arrival⟩ :=
    follow_settles (made_held made) stands followed
  refine ⟨⟨keys, middle, chain, arrival.distinct, ?_⟩, ?_⟩
  · intro ref named
    rcases hopIn_none.mp (arrival.ends _ named) ref rfl with used | nowhere
    · rw [List.append_nil] at used
      exact .inl used
    · rcases resolved : (resolve source ref reached).run after with ⟨outcome, last⟩
      obtain ⟨answered, _, _⟩ := resolve_ran (.inl heldLast) resolved
      rw [answered, grown.same, nowhere]
      exact .inr rfl
  · rw [← grown.same] at leads arrives
    obtain ⟨last, walk⟩ := leads_walk heldLast leads arrives
    rw [walk_follows walk]

/-- A node with a title and a reference to another place of its document. -/
def pointing (title place : String) : Json :=
  .obj [("title", .str title), ("$ref", .str place)]

/-- A document with a way into a cycle of two references. -/
def cycleDocument : Json :=
  .obj [("start", pointing "start" "#/a"), ("a", pointing "a" "#/b"), ("b", pointing "b" "#/a")]

def cycleStore : Store := ⟨[("d", cycleDocument)]⟩

/-- From the way in, the walk goes round once and stops at the second node of the
cycle, and from there it comes back to it. -/
theorem following_ends_cycle :
    Made noFiles cycleStore ⟨cycleDocument, "d"⟩ ∧
      StandsIn cycleStore ⟨cycleDocument, "d"⟩ (pointing "start" "#/a") ∧
      (follow noFiles (pointing "start" "#/a") ⟨cycleDocument, "d"⟩).run cycleStore =
        (.ok ⟨pointing "b" "#/a", "d"⟩, cycleStore) ∧
      ((follow noFiles (pointing "b" "#/a") ⟨pointing "b" "#/a", "d"⟩).run cycleStore).1 =
        .ok ⟨pointing "b" "#/a", "d"⟩ := by
  have made : Made noFiles cycleStore ⟨cycleDocument, "d"⟩ :=
    .root (show (Store.context noFiles "d").run cycleStore = _ from rfl)
  have stands : StandsIn cycleStore ⟨cycleDocument, "d"⟩ (pointing "start" "#/a") :=
    ⟨cycleDocument, rfl, .field List.mem_cons_self .self⟩
  have followed : (follow noFiles (pointing "start" "#/a") ⟨cycleDocument, "d"⟩).run cycleStore =
      (.ok ⟨pointing "b" "#/a", "d"⟩, cycleStore) := by cbv
  exact ⟨made, stands, followed, ((following_ends made stands).2.2 _ _ followed).2⟩

end EntitySchema.Following
