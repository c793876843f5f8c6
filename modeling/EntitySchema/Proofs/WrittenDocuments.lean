import EntitySchema.Proofs.EncodedText
import EntitySchema.Proofs.ValueTexts

/-! Documents that are written and read again. A file with the compact text of a
document is loaded as that document, whatever encoding it is stored in; so the
texts of documents that can be read back are distinct, and where comments and
literal types show a value, the text denotes the value of the schema. -/
namespace EntitySchema.WrittenDocuments
open Json JsonText EncodedText DocumentReading ValueTexts Synthesis Enumerations

variable {source : Source} {path : String} {document : Json}

private theorem announced_basic {c : Char} (known : announced c ≠ 6) : c.toNat < 0x80 := by
  unfold announced at known
  split_ifs at known with null bool number text list object
  · simp [null]
  · simp only [Bool.or_eq_true, decide_eq_true_eq] at bool
    rcases bool with rfl | rfl <;> simp
  · simp only [Bool.or_eq_true, decide_eq_true_eq] at number
    rcases number with ((digit | rfl) | rfl) | rfl
    · exact Nat.lt_of_le_of_lt (Char.isDigit_iff_toNat.mp digit).2 (by decide)
    · simp
    · simp
    · simp
  · simp [text]
  · simp [list]
  · simp [object]
  · exact absurd rfl known

/-- The first character of a document is a basic one, and none is zero. -/
private theorem render_detectable (document : Json) : Detectable document.render.toList where
  starts := by
    obtain ⟨c, more, starts, kind⟩ := render_starts document
    exact ⟨c, more, starts, announced_basic (kind ▸ kind_known document)⟩
  nonzero := by
    intro c member zero
    have printable := render_printable document c member
    omega

/-- The file at a path holds the compact text of a document in an encoding, behind
its mark or without it. -/
structure Stored (source : Source) (path : String) (encoding : Text.Encoding) (marked : Bool)
    (document : Json) : Prop where
  within : Location.leavesRoot (Location.normalize path) = false
  held : ∃ content, source.disk.read (source.root.child (Location.normalize path)) = .ok content ∧
    content.data.toList = (if marked then encoding.mark else []) ++
      encoding.encode document.render.toList

/-- A file that holds a readable document gives that document. -/
theorem stored_document {encoding : Text.Encoding} {marked : Bool}
    (stored : Stored source path encoding marked document) (readable : Readable document) :
    source.document (Location.normalize path) = .ok document := by
  obtain ⟨content, read, bytes⟩ := stored.held
  have text := decode_stored encoding marked (render_detectable document)
  rw [Source.document, stored.within, read]
  simp only [Bool.false_eq_true, ↓reduceIte, bytes, Json.ofBytes, text,
    document_read render_compact readable]
  rfl

private theorem load_stored {encoding : Text.Encoding} {marked : Bool} {store : Store}
    (stored : Stored source path encoding marked document) (readable : Readable document)
    (absent : store.cached? path = none) :
    (Store.load source path).run store =
      (.ok document, store.add (Location.normalize path) document) := by
  have unread : store.documents.lookup (Location.normalize path) = none := absent
  simp only [Store.load, Action.run_bind, Action.run_state, unread, Action.run_ofExcept,
    stored_document stored readable, Action.run_update, Action.run_pure]

/-- Readable documents with one text are one document. -/
private theorem render_injective {other : Json} (readable : Readable document)
    (also : Readable other) (same : other.render = document.render) : other = document := by
  have read := document_read render_compact also
  rw [same, document_read render_compact readable] at read
  exact (Except.ok.inj read).symm

/-- The line of a comment for an example, if there is one. -/
def exampleLine (indent : String) (node : Json) : List String :=
  (Docs.firstExample? node).toList.map fun value =>
    Docs.commentLine indent ("@example " ++ value.render).toList

private theorem default_shown {node : Json} (given : node.field? "default" = some document)
    (readable : Readable document) (indent : String) :
    ShowsValue ((Docs.ofNode node).comment indent) (indent ++ " * @default ")
      (exampleLine indent node ++ [indent ++ " */"]) document := by
  have present : (Docs.ofNode node).defaultValue = some document := given
  have listed := Docs.lines.eq_1 (Docs.ofNode node)
  simp only [present, Option.map_some, Option.toList_some, List.append_assoc,
    List.singleton_append] at listed
  rw [← List.append_assoc] at listed
  have shows := tag_shows listed (by decide) readable indent
  rw [String.append_assoc, Option.toList_map, List.map_map] at shows
  exact shows

private theorem example_shown {node : Json} (given : Docs.firstExample? node = some document)
    (readable : Readable document) (indent : String) :
    ShowsValue ((Docs.ofNode node).comment indent) (indent ++ " * @example ") [indent ++ " */"]
      document := by
  have present : (Docs.ofNode node).exampleValue = some document := given
  have listed := Docs.lines.eq_1 (Docs.ofNode node)
  simp only [present, Option.map_some, Option.toList_some] at listed
  have shows := tag_shows listed (by decide) readable indent
  rw [String.append_assoc] at shows
  exact shows

private theorem ofNode_const {node : Json} (given : node.field? "const" = some document)
    (alone : ∀ keyword ∈ "enum" :: earlier, node.field? keyword = none) :
    Shape.ofNode node = .value document := by
  cases node with
  | obj fields =>
    have fixed : fields.lookup "const" = some document := given
    have absent : ∀ keyword ∈ "enum" :: earlier, fields.lookup keyword = none := alone
    simp only [earlier, List.forall_mem_cons] at absent
    obtain ⟨listed, ref, one, any, all, _⟩ := absent
    simp only [Shape.ofNode, ref, one, any, all, listed, fixed, Option.or_none]
  | _ => cases given

/-- **Written documents are read back.** Let a document have no doubles, no integer
of more digits than the limit and no object that names a field twice.

Then a file that holds its compact text in UTF-8, UTF-16 or UTF-32 of either byte
order, behind a mark or without one, is loaded as that document, its fields in
order. No other such document has the same text. And wherever a schema shows the
document, the text denotes it: the line of a comment behind `@default` or
`@example`, and the literal type of a node that is fixed to it. -/
theorem written_documents_read (readable : Readable document) :
    (∀ source path encoding marked store, Stored source path encoding marked document →
        store.cached? path = none →
        (Store.load source path).run store =
          (.ok document, store.add (Location.normalize path) document)) ∧
      (∀ other, Readable other → other.render = document.render → other = document) ∧
      (∀ (node : Json) indent, node.field? "default" = some document →
        ShowsValue ((Docs.ofNode node).comment indent) (indent ++ " * @default ")
          (exampleLine indent node ++ [indent ++ " */"]) document) ∧
      (∀ node indent, Docs.firstExample? node = some document →
        ShowsValue ((Docs.ofNode node).comment indent) (indent ++ " * @example ")
          [indent ++ " */"] document) ∧
      ∀ (node : Json) source maxDepth context depth store,
        node.field? "const" = some document →
        (∀ keyword ∈ "enum" :: earlier, node.field? keyword = none) → depth ≤ maxDepth →
        ∃ type, (synthesize source maxDepth node context depth).run store = (.ok type, store) ∧
          ∀ level, readLiteral (type.render level).toList = some document := by
  refine ⟨?_, fun other => render_injective readable, ?_, ?_, ?_⟩
  · intro source path encoding marked store stored absent
    exact load_stored stored readable absent
  · exact fun node indent given => default_shown given readable indent
  · exact fun node indent given => example_shown given readable indent
  · intro node source maxDepth context depth store given alone allowed
    refine ⟨.literal document, ?_, fun level => literal_read readable⟩
    obtain ⟨budget, levels⟩ : ∃ budget, budgetAt maxDepth depth = budget + 1 :=
      ⟨(maxDepth - depth).toNat, by unfold budgetAt; omega⟩
    rw [synthesize, levels, convert, ofNode_const given alone]
    rfl

/-- A document with an escape, a character beyond the first plane and a text that
would end a comment. -/
def mixed : Json :=
  .obj [("x", .arr [.num (.int (-12)), .null, .str "\t𝄞 */"]), ("", .obj [])]

/-- A disk with the document in one file, without a mark. -/
def mixedFile : Source :=
  { disk := { entries :=
      [(["e"], .file ⟨((Text.Encoding.utf16 .little).encode mixed.render.toList).toArray⟩)] }
    root := ⟨1, []⟩ }

/-- The document is loaded from the file, and the comment of a default shows it. -/
theorem written_documents_read_mixed :
    (Store.load mixedFile "e").run {} = (.ok mixed, ⟨[("e", mixed)]⟩) ∧
      ShowsValue ((Docs.ofNode (.obj [("default", mixed)])).comment "") " * @default " [" */"]
        mixed := by
  have readable : Readable mixed := by
    have short : (Nat.toDigits 10 12).length ≤ Number.digitLimit := by decide
    simpa [mixed, Entries.names] using short
  obtain ⟨loads, _, default, _⟩ := written_documents_read readable
  refine ⟨loads mixedFile "e" (.utf16 .little) false {} ⟨rfl, ?_⟩ rfl, default _ "" rfl⟩
  exact ⟨_, rfl, by simp⟩

end EntitySchema.WrittenDocuments
