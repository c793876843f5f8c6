import EntitySchema.Proofs.Anchoring

/-! In a document no object has a name twice. Reading sees to it, since a name
that comes again takes the place of the one before, and nothing that is done
with documents afterwards breaks it: the nodes that are converted for a node,
and those that references lead to, stand in documents or differ from a node of
one by a field that was written over. -/
namespace EntitySchema.DistinctNames
open Json Json.Reader Reference Loading Anchoring

variable {source : Source} {before after : Store} {context target : Context}
  {node part whole : Json}

/-- No object in the document has a name twice. -/
def Distinct (document : Json) : Prop :=
  ∀ fields, Inside (.obj fields) document → (Entries.names fields).Nodup

theorem distinct_inside (distinct : Distinct whole) (inside : Inside part whole) :
    Distinct part :=
  fun fields inner => distinct fields (inside_trans inner inside)

@[simp] theorem distinct_str (text : String) : Distinct (.str text) := by
  rintro fields ⟨⟩

@[simp] theorem distinct_arr {items : List Json} :
    Distinct (.arr items) ↔ ∀ item ∈ items, Distinct item := by
  constructor
  · intro distinct item member
    exact distinct_inside distinct (.item member .self)
  · intro each fields inside
    cases inside with
    | item member inner => exact each _ member fields inner

@[simp] theorem distinct_obj {fields : List (String × Json)} :
    Distinct (.obj fields) ↔
      (Entries.names fields).Nodup ∧ ∀ entry ∈ fields, Distinct entry.2 := by
  constructor
  · intro distinct
    exact ⟨distinct fields .self, fun entry member =>
      distinct_inside distinct (.field member .self)⟩
  · rintro ⟨names, each⟩ inner inside
    cases inside with
    | self => exact names
    | field member deeper => exact each _ member inner deeper

private theorem distinct_put {fields : List (String × Json)} (name : String) {value : Json}
    (distinct : Distinct (.obj fields)) (added : Distinct value) :
    Distinct (.obj (Entries.put name value fields)) := by
  obtain ⟨names, each⟩ := distinct_obj.mp distinct
  refine distinct_obj.mpr ⟨?_, ?_⟩
  · rw [Entries.names_put]
    split
    · exact names
    · rename_i fresh
      refine List.nodup_append.mpr ⟨names, by simp, ?_⟩
      intro earlier member new same
      rw [List.mem_singleton.mp same]
      rintro rfl
      exact fresh member
  · intro entry member
    rcases Entries.mem_put member with rfl | old
    · exact added
    · exact each entry old

section Reading

variable {fuel : Nat} {s rest : List Char}

private theorem scalar_distinct {found : Json} (read : scalar s = .ok (found, rest)) :
    Distinct found := by
  have simple : ∀ entry ∈ words, ∀ fields, ¬ Inside (.obj fields) entry.2 := by
    simp only [words, List.forall_mem_cons, List.not_mem_nil, false_implies, implies_true, and_true]
    refine ⟨?_, ?_, ?_, ?_, ?_, ?_⟩ <;> rintro fields ⟨⟩
  intro fields inside
  unfold scalar at read
  split at read
  · rename_i matching
    cases read
    exact absurd inside (simple _ (List.mem_of_find?_eq_some matching) fields)
  · unfold number at read
    simp only at read
    split at read
    · cases read
    · split at read
      · split at read
        · cases read
        · cases read
          cases inside
      · cases read
        cases inside

/-- What is known of all readers that enter fewer values than `fuel`. -/
private structure AllDistinct (fuel : Nat) : Prop where
  value {s rest : List Char} {found : Json} (read : value fuel s = .ok (found, rest)) :
    Distinct found
  items {done found : List Json} {s rest : List Char} (read : items fuel done s = .ok (found, rest))
    (earlier : ∀ item ∈ done, Distinct item) : ∀ item ∈ found, Distinct item
  fields {done found : List (String × Json)} {s rest : List Char}
    (read : fields fuel done s = .ok (found, rest)) (earlier : Distinct (.obj done)) :
    Distinct (.obj found)

private theorem value_distinct (inner : AllDistinct fuel) {found : Json}
    (read : value (fuel + 1) s = .ok (found, rest)) : Distinct found := by
  rw [value.eq_def] at read
  simp only at read
  split at read
  · split at read
    · cases read
    · cases read
      exact distinct_str _
  · split at read
    · cases read
      simp
    · split at read
      · cases read
      · rename_i listed
        cases read
        exact distinct_arr.mpr (inner.items listed (by simp))
  · have empty : Distinct (.obj []) := by simp [Entries.names]
    split at read
    · cases read
      exact empty
    · split at read
      · cases read
      · rename_i listed
        cases read
        exact inner.fields listed empty
  · exact scalar_distinct read

private theorem items_distinct (inner : AllDistinct fuel) {done found : List Json}
    (read : items (fuel + 1) done s = .ok (found, rest)) (earlier : ∀ item ∈ done, Distinct item) :
    ∀ item ∈ found, Distinct item := by
  rw [items.eq_def] at read
  simp only at read
  split at read
  · cases read
  · rename_i item tail first
    have more : ∀ other ∈ item :: done, Distinct other :=
      List.forall_mem_cons.mpr ⟨inner.value first, earlier⟩
    split at read
    · cases read
      intro other member
      exact more other (List.mem_reverse.mp member)
    · exact inner.items read more
    · cases read

private theorem fields_distinct (inner : AllDistinct fuel) {done found : List (String × Json)}
    (read : fields (fuel + 1) done s = .ok (found, rest)) (earlier : Distinct (.obj done)) :
    Distinct (.obj found) := by
  rw [fields.eq_def] at read
  simp only at read
  split at read
  · split at read
    · cases read
    · split at read
      · split at read
        · cases read
        · rename_i valued
          split at read
          · cases read
            exact distinct_put _ earlier (inner.value valued)
          · exact inner.fields read (distinct_put _ earlier (inner.value valued))
          · cases read
      · cases read
  · cases read

private theorem all_distinct (fuel : Nat) : AllDistinct fuel := by
  induction fuel with
  | zero =>
    constructor
    · intro s rest found read
      cases read
    · intro done found s rest read
      cases read
    · intro done found s rest read
      cases read
  | succ fuel inner => exact ⟨value_distinct inner, items_distinct inner, fields_distinct inner⟩

/-- Whatever the bytes of a file, no object that is read from them has a name
twice. -/
theorem ofBytes_distinct {bytes : List UInt8} {found : Json} (read : ofBytes bytes = .ok found) :
    Distinct found := by
  unfold ofBytes at read
  split at read
  · cases read
  · rename_i chars _
    cases parsed : document chars with
    | error fault =>
      rw [parsed] at read
      cases read
    | ok document =>
      rw [parsed] at read
      cases read
      unfold Reader.document at parsed
      split at parsed
      · cases parsed
      · rename_i valued
        split at parsed
        · cases parsed
          exact (all_distinct _).value valued
        · cases parsed

end Reading

/-- All documents of a store are such. Documents that are read are, so this can
fail only for what was in the store before. -/
def Stocked (store : Store) : Prop :=
  ∀ entry ∈ store.documents, Distinct entry.2

theorem reads_stocked (reads : Reads source before after) (stocked : Stocked before) :
    Stocked after := by
  rintro ⟨key, document⟩ member
  by_cases earlier : (key, document) ∈ before.documents
  · exact stocked _ earlier
  · obtain ⟨_, _, read⟩ := reads_added reads member earlier
    obtain ⟨_, content, _, parsed⟩ := SourcePaths.document_bytes read
    exact ofBytes_distinct parsed

private theorem stocked_lookup {key : String} {document : Json} (stocked : Stocked before)
    (found : before.documents.lookup key = some document) : Distinct document := by
  obtain ⟨earlier, later, split, _⟩ := List.lookup_eq_some_iff.mp found
  exact stocked (key, document) (by simp [split])

private theorem target_distinct {pointer path : String} (distinct : Distinct whole)
    (ran : (target? whole pointer path).run before = (.ok (some target), after)) :
    Distinct target.schema := by
  unfold target? at ran
  split at ran
  · cases ran
  · cases ran
  · cases ran
  · rename_i descended
    cases ran
    exact distinct_inside distinct (descend_inside descended)

/-- Wherever a reference leads, no object there has a name twice. -/
theorem resolve_distinct {ref : String} (stocked : Stocked before)
    (distinct : Distinct context.schema)
    (ran : (resolve source ref context).run before = (.ok (some target), after)) :
    Distinct target.schema := by
  unfold resolve at ran
  simp only at ran
  split at ran
  · cases ran
    exact distinct
  · split at ran
    · simp only [Action.run_bind, Action.run_state] at ran
      refine target_distinct ?_ ran
      -- The loaded document, or the node at hand when there is none.
      cases found : (before.cached? context.path).bind Json.present? with
      | none => exact distinct
      | some document =>
        obtain ⟨cached, looked, present⟩ := Option.bind_eq_some_iff.mp found
        have same : cached = document := by
          cases cached <;> cases present <;> rfl
        subst same
        exact stocked_lookup stocked looked
    · split at ran
      · cases ran
        exact distinct
      · rw [Action.run_bind] at ran
        rcases opened : (Store.context source (Location.relativeTo context.path
          (String.ofList (ref.toList.takeWhile (· ≠ '#'))))).run before with ⟨outcome, middle⟩
        have reads := context_onlyReads source (Location.relativeTo context.path
          (String.ofList (ref.toList.takeWhile (· ≠ '#')))) before
        rw [opened] at ran reads
        cases outcome with
        | error fault => cases ran
        | ok found =>
          have held := ((StoreView.context_ran opened).2.2 found rfl).1
          have root := stocked_lookup (reads_stocked reads stocked) held
          simp only at ran
          split at ran
          · exact target_distinct root ran
          · cases ran
            exact root

private theorem distinct_withField {name : String} {value : Json} (distinct : Distinct node)
    (written : Distinct value) : Distinct (node.withField name value) := by
  cases node with
  | obj fields => exact distinct_put name distinct written
  | _ => exact distinct

/-- The nodes that are converted for a node have no name twice if it has none. -/
theorem children_distinct (distinct : Distinct node)
    (member : part ∈ (Shape.ofNode node).children) : Distinct part := by
  rcases children_inside member with inside | ⟨types, given, type, listed, rfl⟩
  · exact distinct_inside distinct inside
  · have within : Inside type node := inside_trans (.item listed .self) (inside_field given)
    exact distinct_withField distinct (distinct_inside distinct within)

/-- The properties that a node names are named once each. -/
theorem declared_distinct (distinct : Distinct node) :
    (Entries.names (Dispatch.declared node)).Nodup := by
  unfold Dispatch.declared
  split
  · rename_i fields given
    exact distinct fields (inside_field given)
  · exact List.nodup_nil

end EntitySchema.DistinctNames
