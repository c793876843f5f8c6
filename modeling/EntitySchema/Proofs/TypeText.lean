import EntitySchema.Proofs.OperandText

/-! Types are told apart by their text. The first character of a core decides
its kind, and the core ends at a bracket, a quote, or the next character that
cannot belong to it; operands, alternatives and whole types are read from there
upwards. So the text of a converted type determines it, up to its comments and
the few literals that are written like another type. -/
namespace EntitySchema.TypeText
open TypeExpr CanonicalTypes OperandText NormalTypes UniqueReading RecordText JsonText NumberText

variable {level : Int} {type another : TypeExpr} {rest other : List Char}

/-- The characters that may follow a type as a whole. -/
def isClosing (c : Char) : Bool :=
  ")],>;".toList.contains c

/-- What may follow a type: its end, or the end of what it stands in. -/
def Closed (rest : List Char) : Prop :=
  ∀ c ∈ rest.head?, isClosing c = true

/-- What may follow an operand: also a blank and an operator. -/
def Joined (rest : List Char) : Prop :=
  ∀ c ∈ rest.head?, isClosing c = true ∨ c = ' '

/-- What may follow a core: also `[]`. -/
def Followed (rest : List Char) : Prop :=
  ∀ c ∈ rest.head?, isClosing c = true ∨ c = ' ' ∨ c = '['

/-- Two types with one text are the same, and are followed by the same. -/
def ReadsType (level : Int) (type another : TypeExpr) : Prop :=
  ∀ rest other, Closed rest → Closed other →
    (type.render level).toList ++ rest = (another.render level).toList ++ other →
    canonical type = canonical another ∧ rest = other

/-- The same of operands. -/
def ReadsOperand (level : Int) (type another : TypeExpr) : Prop :=
  ∀ rest other, Joined rest → Joined other →
    operandText level type ++ rest = operandText level another ++ other →
    canonical type = canonical another ∧ rest = other

/-- The same of cores. -/
def ReadsCore (level : Int) (type another : TypeExpr) : Prop :=
  ∀ rest other, Followed rest → Followed other →
    operandText level type ++ rest = operandText level another ++ other →
    canonical type = canonical another ∧ rest = other

private theorem followed_stops {continues : Char → Bool} (follows : Followed rest)
    (unlike : (")],>; [".toList.any continues) = false) : Stops continues rest := by
  intro c head
  refine Bool.eq_false_iff.mpr fun continued => ?_
  refine absurd (List.any_eq_true.mpr ⟨c, ?_, continued⟩) (Bool.eq_false_iff.mp unlike)
  rcases follows c head with closing | rfl | rfl
  · simp only [isClosing, List.contains_eq_mem, decide_eq_true_eq] at closing
    exact List.mem_append_left [' ', '['] closing
  · decide
  · decide

private theorem operand_of_core
    (core : ReadsCore level (stem type) (stem another)) : ReadsOperand level type another := by
  intro rest other joins otherJoins same
  have follows : ∀ {n : Nat} {rest : List Char}, Joined rest → Followed (brackets n ++ rest) := by
    intro n rest joins c head
    cases n with
    | zero =>
      rcases joins c head with closing | blank
      · exact .inl closing
      · exact .inr (.inl blank)
    | succ n =>
      cases head
      exact .inr (.inr rfl)
  have stops : ∀ {rest : List Char}, Joined rest → rest.head? ≠ some '[' := by
    intro rest joins head
    rcases joins '[' head with closing | blank
    · cases closing
    · cases blank
  rw [operand_stem type, operand_stem another, List.append_assoc, List.append_assoc] at same
  obtain ⟨stems, tails⟩ := core _ _ (follows joins) (follows otherJoins) same
  obtain ⟨depths, rests⟩ := brackets_unique (stops joins) (stops otherJoins) tails
  rw [canonical_stem type, canonical_stem another, stems, depths]
  exact ⟨rfl, rests⟩

/-- The operands that a type is made of, alternative by alternative. -/
def IsOperand (operand type : TypeExpr) : Prop :=
  ∃ member ∈ unionMembers type, operand ∈ intersectionMembers member

/-- Alternatives are followed by the end of the type or by a bar. -/
private def Barred (rest : List Char) : Prop :=
  Closed rest ∨ [' ', '|', ' '] <+: rest

private theorem closed_not_blank {text : List Char} (closed : Closed rest) :
    ¬ (' ' :: text <+: rest) := by
  rintro ⟨more, rfl⟩
  cases closed ' ' rfl

/-- A type is a combination of several members, or its own only member. -/
private theorem combined_same {members : TypeExpr → List TypeExpr}
    {combine : List TypeExpr → TypeExpr}
    (spread : ∀ types, canonical (combine types) = combine (types.map canonical))
    (form : type = combine (members type) ∧ 2 ≤ (members type).length ∨ members type = [type])
    (otherForm : another = combine (members another) ∧ 2 ≤ (members another).length ∨
      members another = [another])
    (same : (members type).map canonical = (members another).map canonical) :
    canonical type = canonical another := by
  have lengths := congrArg List.length same
  simp only [List.length_map] at lengths
  rcases form with ⟨built, several⟩ | alone <;> rcases otherForm with ⟨otherBuilt, many⟩ | single
  · rw [built, otherBuilt, spread, spread, same]
  · rw [single, List.length_singleton] at lengths
    omega
  · rw [alone, List.length_singleton] at lengths
    omega
  · rw [alone, single] at same
    exact (List.cons.inj same).1

private theorem union_form (normal : Normal type) :
    type = .union (unionMembers type) ∧ 2 ≤ (unionMembers type).length ∨
      unionMembers type = [type] := by
  cases normal with
  | union inner form => exact .inl ⟨rfl, form.several⟩
  | _ => exact .inr rfl

private theorem intersection_form (normal : Normal type) :
    type = .intersection (intersectionMembers type) ∧ 2 ≤ (intersectionMembers type).length ∨
      intersectionMembers type = [type] := by
  cases normal with
  | intersection inner form => exact .inl ⟨rfl, form.several⟩
  | _ => exact .inr rfl

private theorem alternative_reads (normal : Normal type) (otherNormal : Normal another)
    (single : type.isUnion = false) (otherSingle : another.isUnion = false)
    (reads : ∀ operand ∈ intersectionMembers type, ∀ second ∈ intersectionMembers another,
      ReadsOperand level operand second)
    (ends : Barred rest) (otherEnds : Barred other)
    (same : (type.render level).toList ++ rest = (another.render level).toList ++ other) :
    canonical type = canonical another ∧ rest = other := by
  have joined : ∀ {rest : List Char}, Barred rest → Joined rest := by
    rintro rest (closed | ⟨more, rfl⟩) c head
    · exact .inl (closed c head)
    · cases head
      exact .inr rfl
  have stops : ∀ {rest : List Char}, Barred rest → ¬[' ', '&', ' '] <+: rest := by
    rintro rest (closed | ⟨more, rfl⟩)
    · exact closed_not_blank closed
    · simp
  rw [alternative_text normal single, alternative_text otherNormal otherSingle] at same
  obtain ⟨operands, rests⟩ := separated_unique canonical Joined
    (fun operand member second listed rest other joins otherJoins =>
      reads operand member second listed rest other joins otherJoins)
    (by rintro rest c ⟨⟩; exact .inr rfl) (members_filled normal).2 (members_filled otherNormal).2
    (joined ends) (joined otherEnds) (stops ends) (stops otherEnds) same
  refine ⟨combined_same ?_ (intersection_form normal) (intersection_form otherNormal) operands, rests⟩
  intro types
  rw [canonical, canonicalAll_map]

private theorem type_of_operands (normal : Normal type) (otherNormal : Normal another)
    (reads : ∀ {operand second : TypeExpr}, IsOperand operand type → IsOperand second another →
      ReadsOperand level operand second) :
    ReadsType level type another := by
  intro rest other closed otherClosed same
  rw [alternatives_text type, alternatives_text another] at same
  obtain ⟨members, rests⟩ := separated_unique canonical Barred
    (fun member inside second listed rest other ends otherEnds =>
      alternative_reads (unionMembers_normal normal member inside).1
        (unionMembers_normal otherNormal second listed).1
        (unionMembers_normal normal member inside).2
        (unionMembers_normal otherNormal second listed).2
        (fun operand found secondOperand secondFound =>
          reads ⟨member, inside, found⟩ ⟨second, listed, secondFound⟩)
        ends otherEnds)
    (fun rest => .inr (List.prefix_append _ _)) (members_filled normal).1
    (members_filled otherNormal).1 (.inl closed) (.inl otherClosed) (closed_not_blank closed)
    (closed_not_blank otherClosed) same
  refine ⟨combined_same ?_ (union_form normal) (union_form otherNormal) members, rests⟩
  intro types
  rw [canonical, canonicalAll_map]

private theorem words_read (normal : Normal type) (otherNormal : Normal another)
    (word : kind type = .word) (otherWord : kind another = .word) : ReadsCore level type another := by
  intro rest other follows otherFollows same
  obtain ⟨first, member, text, meaning⟩ := word_form level normal word
  obtain ⟨second, otherMember, otherText, otherMeaning⟩ := word_form level otherNormal otherWord
  have letters : ∀ word ∈ words, ∀ c ∈ word.toList, c.isAlpha = true := by
    have all : ∀ word ∈ words, word.toList.all Char.isAlpha = true := by decide
    exact fun word member => List.all_eq_true.mp (all word member)
  rw [text, otherText] at same
  obtain ⟨spelled, rests⟩ := run_unique (letters first member) (letters second otherMember)
    (followed_stops follows (by decide)) (followed_stops otherFollows (by decide)) same
  rw [meaning, otherMeaning, String.toList_inj.mp spelled]
  exact ⟨rfl, rests⟩

private theorem literals_read {value otherValue : Json}
    (text : operandText level (.literal value) = value.render.toList)
    (otherText : operandText level (.literal otherValue) = otherValue.render.toList) :
    ReadsCore level (.literal value) (.literal otherValue) := by
  intro rest other follows otherFollows same
  rw [text, otherText] at same
  obtain ⟨rfl, rests⟩ := json_unique (followed_stops follows (by decide))
    (followed_stops otherFollows (by decide)) same
  exact ⟨rfl, rests⟩

private theorem closed_of {c : Char} (closing : isClosing c = true) (rest : List Char) :
    Closed (c :: rest) := by
  rintro d ⟨⟩
  exact closing

private theorem maps_read (reads : ReadsType level type another) :
    ReadsCore level (.map type) (.map another) := by
  intro rest other _ _ same
  rw [operand_simple rfl, operand_simple rfl, map_text, map_text] at same
  simp only [List.append_assoc, List.append_cancel_left_eq, List.cons_append, List.nil_append]
    at same
  obtain ⟨meaning, tails⟩ := reads _ _ (closed_of rfl _) (closed_of rfl _) same
  exact ⟨by rw [canonical, canonical, meaning], (List.cons.inj tails).2⟩

section Lists

variable {items : List Json} {elements others : List TypeExpr}

private theorem tuples_read (normal : ∀ element ∈ elements, Normal element)
    (otherNormal : ∀ element ∈ others, Normal element)
    (reads : ∀ element ∈ elements, ∀ second ∈ others, ReadsType level element second) :
    ReadsCore level (.tuple elements) (.tuple others) := by
  intro rest other _ _ same
  rw [operand_simple rfl, operand_simple rfl, tuple_text, tuple_text] at same
  simp only [List.cons_append, List.append_assoc, List.nil_append] at same
  obtain ⟨meanings, rests⟩ := enclosed_unique canonical Closed reads
    (fun _ => closed_of rfl _) (closed_of rfl) (by simp)
    (by
      intro element member rest other
      rcases List.mem_append.mp member with member | member
      · exact type_not_starts (normal element member) rfl
      · exact type_not_starts (otherNormal element member) rfl)
    (List.cons.inj same).2
  simp only [canonical, canonicalAll_map, meanings]
  exact ⟨trivial, rests⟩

/-- What follows the first item of a list, up to the end of the list. -/
private theorem intercalate_tail (separator first : List Char) (more : List (List Char)) :
    ∃ tail, separator.intercalate (first :: more) = first ++ tail ∧
      (more = [] ∧ tail = [] ∨ ∃ next later, more = next :: later ∧
        tail = separator ++ separator.intercalate more) := by
  cases more with
  | nil => exact ⟨[], by simp, .inl ⟨rfl, rfl⟩⟩
  | cons next later =>
    exact ⟨_, by rw [List.intercalate_cons_cons, List.append_assoc], .inr ⟨next, later, rfl, rfl⟩⟩

/-- A list of values is written like a list of types only when there is at most
one value in it, which is no string: values have no blank between them. -/
private theorem mixed_read (normal : ∀ element ∈ elements, Normal element)
    (reads : ∀ item ∈ items, ∀ element ∈ elements, ReadsType level (.literal item) element) :
    ReadsCore level (.literal (.arr items)) (.tuple elements) := by
  intro rest other _ _ same
  rw [operand_simple rfl, operand_simple rfl, tuple_text] at same
  change (Json.arr items).render.toList ++ rest = _ at same
  rw [items_text] at same
  simp only [List.cons_append, List.append_assoc, List.nil_append] at same
  replace same := (List.cons.inj same).2
  rcases items with _ | ⟨item, more⟩ <;> rcases elements with _ | ⟨element, further⟩
  · exact ⟨rfl, (List.cons.inj same).2⟩
  · obtain ⟨tail, joined, _⟩ := intercalate_tail [',', ' '] (element.render level).toList
      (further.map fun element => (element.render level).toList)
    rw [List.map_cons, joined, List.append_assoc] at same
    exact absurd same.symm (type_not_starts (normal element List.mem_cons_self) rfl)
  · obtain ⟨tail, joined, _⟩ := intercalate_tail [','] item.render.toList
      (more.map fun item => item.render.toList)
    rw [List.map_cons, joined, List.append_assoc] at same
    exact absurd same (render_not_starts rfl)
  · obtain ⟨tail, joined, ends⟩ := intercalate_tail [','] item.render.toList
      (more.map fun item => item.render.toList)
    obtain ⟨otherTail, otherJoined, otherEnds⟩ := intercalate_tail [',', ' ']
      (element.render level).toList (further.map fun element => (element.render level).toList)
    rw [List.map_cons, List.map_cons, joined, otherJoined, List.append_assoc, List.append_assoc]
      at same
    by_cases plain : ∀ value, item ≠ .str value
    · have text : ((TypeExpr.literal item).render level).toList = item.render.toList := by
        cases item with
        | str value => exact absurd rfl (plain value)
        | _ => rfl
      have closed : ∀ {texts : List (List Char)} {tail separator rest : List Char},
          (texts = [] ∧ tail = [] ∨ ∃ next later, texts = next :: later ∧
            tail = ',' :: separator ++ (',' :: separator).intercalate texts) →
          Closed (tail ++ ']' :: rest) := by
        rintro texts tail separator rest (⟨_, rfl⟩ | ⟨next, later, _, rfl⟩)
        · exact closed_of rfl _
        · exact closed_of rfl _
      rw [← text] at same
      obtain ⟨meaning, tails⟩ := reads item List.mem_cons_self element List.mem_cons_self _ _
        (closed ends) (closed otherEnds) same
      rcases ends with ⟨last, rfl⟩ | ⟨next, later, listed, rfl⟩ <;>
        rcases otherEnds with ⟨otherLast, rfl⟩ | ⟨otherNext, otherLater, _, rfl⟩
      · cases List.map_eq_nil_iff.mp last
        cases List.map_eq_nil_iff.mp otherLast
        rw [canonical, canonical, literalType_single plain, canonicalAll_map]
        rw [canonical] at meaning
        exact ⟨by rw [meaning]; rfl, (List.cons.inj tails).2⟩
      · exact absurd (List.cons.inj tails).1 (by decide)
      · exact absurd (List.cons.inj tails).1 (by decide)
      · -- The next value would have to start with a blank.
        obtain ⟨second, others, rfl⟩ : ∃ second others, more = second :: others := by
          cases more with
          | nil => cases listed
          | cons second others => exact ⟨second, others, rfl⟩
        obtain ⟨tail, spelled, _⟩ := intercalate_tail [','] second.render.toList
          (others.map fun item => item.render.toList)
        rw [List.map_cons, spelled] at tails
        simp only [List.cons_append, List.nil_append, List.append_assoc] at tails
        exact absurd (List.cons.inj tails).2 (render_not_starts rfl)
    · simp only [not_forall, not_not] at plain
      obtain ⟨value, rfl⟩ := plain
      simp only [Json.render, string_text, List.cons_append] at same
      exact absurd same.symm (type_not_starts (normal element List.mem_cons_self) rfl)

end Lists

section Records

variable {fields others : List (Field × TypeExpr)} {index otherIndex : Option TypeExpr}

private theorem indentation_text (level : Int) :
    (indentation level).toList = List.replicate (2 * level.toNat) ' ' :=
  String.toList_ofList

/-- The lines of a record's fields, each behind a line feed. -/
def fieldsText (level : Int) (fields : List (Field × TypeExpr)) : List Char :=
  fields.flatMap fun entry => entryText (indentation level) entry.1 (entry.2.render level)

/-- What follows the fields of a record at `level`, up to the closing brace. -/
def closeText (level : Int) (index : Option TypeExpr) : List Char :=
  (index.elim [] fun type => '\n' :: ((indentation (level + 1)).toList ++
    ("[key: string]: ".toList ++ ((type.render (level + 1)).toList ++ [';'])))) ++
    '\n' :: ((indentation level).toList ++ ['\x7d'])

theorem record_text (filled : (fields.isEmpty && index.isNone) = false) :
    ((TypeExpr.record fields index).render level).toList =
      '\x7b' :: (fieldsText (level + 1) fields ++ closeText level index) := by
  have lines : ∀ (level : Int) (fields : List (Field × TypeExpr)),
      ((renderFields level fields).flatMap fun line => '\n' :: line.toList) =
        fieldsText level fields := by
    intro level fields
    induction fields with
    | nil => rfl
    | cons entry more ih =>
      rw [renderFields, List.flatMap_append, ih]
      rfl
  rw [render, filled, if_neg Bool.false_ne_true, List.cons_append, List.cons_append, lines_joined,
    List.flatMap_append, List.flatMap_append, lines]
  cases index with
  | none => simp [closeText, renderIndex]
  | some type => simp [closeText, renderIndex]

/-- Behind its indentation, what follows the fields starts with a bracket or a
brace. -/
private theorem closeText_starts (level : Int) (index : Option TypeExpr) :
    ∃ count c more, closeText level index = '\n' :: (List.replicate count ' ' ++ c :: more) ∧
      (c = '[' ∨ c = '\x7d') := by
  cases index with
  | none =>
    simp only [closeText, Option.elim_none, List.nil_append, indentation_text]
    exact ⟨_, '\x7d', [], rfl, .inr rfl⟩
  | some type =>
    simp only [closeText, Option.elim_some, indentation_text]
    exact ⟨_, '[', _, by simp; rfl, .inl rfl⟩

private theorem close_unique
    (reads : ∀ type ∈ index, ∀ second ∈ otherIndex, ReadsType (level + 1) type second)
    (same : closeText level index ++ rest = closeText level otherIndex ++ other) :
    canonicalIndex index = canonicalIndex otherIndex ∧ rest = other := by
  cases index with
  | none =>
    cases otherIndex with
    | none => exact ⟨rfl, List.append_cancel_left same⟩
    | some second =>
      simp only [closeText, Option.elim_none, Option.elim_some, List.nil_append, List.cons_append,
        List.append_assoc, indentation_text] at same
      exact absurd (margin_unique (by decide) (by decide) (List.cons.inj same).2).1 (by decide)
  | some type =>
    cases otherIndex with
    | none =>
      simp only [closeText, Option.elim_none, Option.elim_some, List.nil_append, List.cons_append,
        List.append_assoc, indentation_text] at same
      exact absurd (margin_unique (by decide) (by decide) (List.cons.inj same).2).1 (by decide)
    | some second =>
      simp only [closeText, Option.elim_some, List.append_assoc, List.cons_append,
        List.nil_append] at same
      have types := List.append_cancel_left (List.append_cancel_left (List.cons.inj same).2)
      obtain ⟨meaning, tails⟩ := reads type rfl second rfl _ _ (closed_of rfl _) (closed_of rfl _)
        types
      simp only [canonicalIndex, meaning]
      have ends := List.append_cancel_left (List.cons.inj (List.cons.inj tails).2).2
      exact ⟨trivial, (List.cons.inj ends).2⟩

private theorem entry_not_close (entry : Field × TypeExpr) (more : List Char) :
    entryText (indentation (level + 1)) entry.1 (entry.2.render (level + 1)) ++ rest ≠
      closeText level index ++ more := by
  intro same
  obtain ⟨c, further, starts, visible, notBracket, notBrace⟩ :=
    entry_starts (indentation (level + 1)) entry.1 (entry.2.render (level + 1))
  obtain ⟨count, d, later, closes, bracket⟩ := closeText_starts level index
  rw [starts, closes, indentation_text] at same
  simp only [List.cons_append, List.append_assoc] at same
  have shown : d ≠ ' ' := by
    rcases bracket with rfl | rfl <;> decide
  have heads := (margin_unique visible shown (List.cons.inj same).2).1
  rcases bracket with rfl | rfl
  · exact notBracket heads
  · exact notBrace heads

private theorem fields_unique
    (reads : ∀ entry ∈ fields, ∀ second ∈ others, ReadsType (level + 1) entry.2 second.2)
    (indexReads : ∀ type ∈ index, ∀ second ∈ otherIndex, ReadsType (level + 1) type second)
    (same : fieldsText (level + 1) fields ++ (closeText level index ++ rest) =
      fieldsText (level + 1) others ++ (closeText level otherIndex ++ other)) :
    canonicalFields fields = canonicalFields others ∧
      canonicalIndex index = canonicalIndex otherIndex ∧ rest = other := by
  induction fields generalizing others with
  | nil =>
    cases others with
    | nil => exact ⟨rfl, close_unique indexReads same⟩
    | cons entry further =>
      rw [fieldsText, fieldsText, List.flatMap_nil, List.nil_append, List.flatMap_cons,
        List.append_assoc] at same
      exact absurd same.symm (entry_not_close entry _)
  | cons entry more ih =>
    cases others with
    | nil =>
      rw [fieldsText, fieldsText, List.flatMap_nil, List.nil_append, List.flatMap_cons,
        List.append_assoc] at same
      exact absurd same (entry_not_close entry _)
    | cons second further =>
      rw [fieldsText, fieldsText, List.flatMap_cons, List.flatMap_cons, List.append_assoc,
        List.append_assoc] at same
      obtain ⟨names, optionals, meanings, tails⟩ := entry_unique (indentation_text (level + 1))
        (fun rest other lines => by
          obtain ⟨meaning, rests⟩ := reads entry List.mem_cons_self second List.mem_cons_self _ _
            (closed_of rfl _) (closed_of rfl _) lines
          exact ⟨meaning, (List.cons.inj rests).2⟩)
        same
      obtain ⟨fields, ends⟩ := ih
        (fun entry member second listed => reads entry (List.mem_cons_of_mem _ member) second
          (List.mem_cons_of_mem _ listed)) tails
      obtain ⟨⟨name, optional, docs⟩, type⟩ := entry
      obtain ⟨⟨otherName, otherOptional, otherDocs⟩, otherType⟩ := second
      simp only at names optionals meanings
      subst names optionals
      exact ⟨by simp only [canonicalFields, meanings, fields], ends⟩

/-- A record is two braces, or its lines between them. -/
private theorem record_form (level : Int) (fields : List (Field × TypeExpr))
    (index : Option TypeExpr) :
    ∃ body, operandText level (.record fields index) = '\x7b' :: body ∧
      (fields = [] ∧ index = none ∧ body = ['\x7d'] ∨
        body = fieldsText (level + 1) fields ++ closeText level index ∧
          ∃ more, body = '\n' :: more) := by
  cases empty : fields.isEmpty && index.isNone with
  | true =>
    simp only [Bool.and_eq_true, List.isEmpty_iff, Option.isNone_iff_eq_none] at empty
    obtain ⟨rfl, rfl⟩ := empty
    refine ⟨['\x7d'], ?_, .inl ⟨rfl, rfl, rfl⟩⟩
    rw [operand_simple rfl, render]
    simp
  | false =>
    refine ⟨_, record_text empty, .inr ⟨rfl, ?_⟩⟩
    cases fields with
    | nil =>
      obtain ⟨count, c, more, starts, _⟩ := closeText_starts level index
      exact ⟨_, starts⟩
    | cons entry others =>
      obtain ⟨c, more, starts, _⟩ :=
        entry_starts (indentation (level + 1)) entry.1 (entry.2.render (level + 1))
      rw [fieldsText, List.flatMap_cons, starts]
      exact ⟨_, rfl⟩

private theorem records_read
    (reads : ∀ entry ∈ fields, ∀ second ∈ others, ReadsType (level + 1) entry.2 second.2)
    (indexReads : ∀ type ∈ index, ∀ second ∈ otherIndex, ReadsType (level + 1) type second) :
    ReadsCore level (.record fields index) (.record others otherIndex) := by
  intro rest other _ _ same
  obtain ⟨body, text, form⟩ := record_form level fields index
  obtain ⟨otherBody, otherText, otherForm⟩ := record_form level others otherIndex
  rw [text, otherText] at same
  replace same := (List.cons.inj same).2
  rcases form with ⟨rfl, rfl, rfl⟩ | ⟨lines, more, starts⟩ <;>
    rcases otherForm with ⟨rfl, rfl, rfl⟩ | ⟨otherLines, further, otherStarts⟩
  · exact ⟨rfl, (List.cons.inj same).2⟩
  · rw [otherStarts] at same
    exact absurd (List.cons.inj same).1 (by decide)
  · rw [starts] at same
    exact absurd (List.cons.inj same).1 (by decide)
  · rw [lines, otherLines, List.append_eq, List.append_eq, List.append_assoc,
      List.append_assoc] at same
    obtain ⟨meanings, index, rests⟩ := fields_unique reads indexReads same
    simp only [canonical, meanings, index]
    exact ⟨trivial, rests⟩

/-- An object literal is written like a record only when both are empty. -/
private theorem object_read {entries : List (String × Json)} :
    ReadsCore level (.literal (.obj entries)) (.record fields index) := by
  intro rest other _ _ same
  obtain ⟨body, text, form⟩ := record_form level fields index
  rw [text, show operandText level (.literal (.obj entries)) = _ from fields_text entries] at same
  replace same := (List.cons.inj same).2
  cases entries with
  | nil =>
    rcases form with ⟨rfl, rfl, rfl⟩ | ⟨_, more, starts⟩
    · exact ⟨rfl, (List.cons.inj same).2⟩
    · rw [starts] at same
      exact absurd (List.cons.inj same).1 (by decide)
  | cons entry others =>
    obtain ⟨more, starts⟩ : ∃ more, fieldText entry = '"' :: more :=
      ⟨_, by rw [fieldText, string_text]; rfl⟩
    obtain ⟨further, opens⟩ := intercalate_starts starts
    rw [List.map_cons, opens] at same
    rcases form with ⟨rfl, rfl, rfl⟩ | ⟨_, more, starts⟩
    · exact absurd (List.cons.inj same).1 (by decide)
    · rw [starts] at same
      exact absurd (List.cons.inj same).1 (by decide)

end Records

private theorem core_symmetric (reads : ReadsCore level type another) :
    ReadsCore level another type := by
  intro rest other follows otherFollows same
  obtain ⟨meaning, rests⟩ := reads other rest otherFollows follows same.symm
  exact ⟨meaning.symm, rests.symm⟩

private theorem type_symmetric (reads : ReadsType level type another) :
    ReadsType level another type := by
  intro rest other closed otherClosed same
  obtain ⟨meaning, rests⟩ := reads other rest otherClosed closed same.symm
  exact ⟨meaning.symm, rests.symm⟩

section Cores

variable {bound : Nat}

private theorem lists_read
    (inner : ∀ {level : Int} {first second : TypeExpr}, Normal first → Normal second →
      sizeOf first + sizeOf second < bound → ReadsType level first second)
    (normal : Normal type) (otherNormal : Normal another) (list : kind type = .list)
    (otherList : kind another = .list) (fits : sizeOf type + sizeOf another ≤ bound) :
    ReadsCore level type another := by
  cases normal with
  | literal value =>
    cases value with
    | arr items =>
      cases otherNormal with
      | literal otherValue =>
        cases otherValue with
        | arr others => exact literals_read rfl rfl
        | _ => cases otherList
      | tuple elements =>
        refine mixed_read elements fun item member element listed => ?_
        exact inner (.literal item) (elements element listed)
          ((Nat.add_lt_add (item_smaller member) (element_smaller listed)).trans_le fits)
      | _ => cases otherList
    | _ => cases list
  | tuple elements =>
    cases otherNormal with
    | literal otherValue =>
      cases otherValue with
      | arr items =>
        refine core_symmetric (mixed_read elements fun item member element listed => ?_)
        refine type_symmetric (inner (elements element listed) (.literal item) ?_)
        exact (Nat.add_lt_add (element_smaller listed) (item_smaller member)).trans_le fits
      | _ => cases otherList
    | tuple others =>
      refine tuples_read elements others fun element member second listed => ?_
      exact inner (elements element member) (others second listed)
        ((Nat.add_lt_add (element_smaller member) (element_smaller listed)).trans_le fits)
    | _ => cases otherList
  | _ => cases list

private theorem braces_read
    (inner : ∀ {level : Int} {first second : TypeExpr}, Normal first → Normal second →
      sizeOf first + sizeOf second < bound → ReadsType level first second)
    (normal : Normal type) (otherNormal : Normal another) (brace : kind type = .braces)
    (otherBrace : kind another = .braces) (fits : sizeOf type + sizeOf another ≤ bound) :
    ReadsCore level type another := by
  cases normal with
  | literal value =>
    cases value with
    | obj entries =>
      cases otherNormal with
      | literal otherValue =>
        cases otherValue with
        | obj others => exact literals_read rfl rfl
        | _ => cases otherBrace
      | record fields index => exact object_read
      | _ => cases otherBrace
    | _ => cases brace
  | record fields index =>
    cases otherNormal with
    | literal otherValue =>
      cases otherValue with
      | obj others => exact core_symmetric object_read
      | _ => cases otherBrace
    | record others otherIndex =>
      refine records_read (fun entry member second listed => ?_) (fun type member second listed => ?_)
      · exact inner (fields entry member) (others second listed)
          ((Nat.add_lt_add (field_smaller member) (field_smaller listed)).trans_le fits)
      · exact inner (index type member) (otherIndex second listed)
          ((Nat.add_lt_add (index_smaller member) (index_smaller listed)).trans_le fits)
    | _ => cases otherBrace
  | _ => cases brace

/-- Cores are read in one way only, if the types inside them are. -/
private theorem core_reads
    (inner : ∀ {level : Int} {first second : TypeExpr}, Normal first → Normal second →
      sizeOf first + sizeOf second < bound → ReadsType level first second)
    (normal : Normal type) (otherNormal : Normal another)
    (core : ∀ element, type ≠ .array element) (otherCore : ∀ element, another ≠ .array element)
    (fits : sizeOf type + sizeOf another ≤ bound)
    (enclosed : isCompound type = true → sizeOf type + sizeOf another < bound) :
    ReadsCore level type another := by
  intro rest other follows otherFollows same
  have kinds : kind type = kind another := by
    obtain ⟨c, more, starts, opens⟩ := core_starts level normal core
    obtain ⟨d, further, otherStarts, otherOpens⟩ := core_starts level otherNormal otherCore
    rw [starts, otherStarts] at same
    rw [← opens, ← otherOpens, (List.cons.inj same).1]
  have word : kind type = .word → canonical type = canonical another ∧ rest = other := fun short =>
    words_read normal otherNormal short (kinds.symm.trans short) rest other follows otherFollows
      same
  have list : kind type = .list → canonical type = canonical another ∧ rest = other := fun bracket =>
    lists_read inner normal otherNormal bracket (kinds.symm.trans bracket) fits rest other follows
      otherFollows same
  have brace : kind type = .braces → canonical type = canonical another ∧ rest = other := fun brace =>
    braces_read inner normal otherNormal brace (kinds.symm.trans brace) fits rest other follows
      otherFollows same
  have compound : isCompound type = true → isCompound another = true →
      canonical type = canonical another ∧ rest = other := by
    intro first second
    rw [operand_compound first, operand_compound second] at same
    simp only [List.cons_append, List.append_assoc, List.nil_append] at same
    obtain ⟨meaning, tails⟩ := inner normal otherNormal (enclosed first) _ _ (closed_of rfl _)
      (closed_of rfl _) (List.cons.inj same).2
    exact ⟨meaning, (List.cons.inj tails).2⟩
  cases normal with
  | unknown => exact word rfl
  | primitive known => exact word rfl
  | literal value =>
    cases value with
    | null => exact word rfl
    | bool value => exact word rfl
    | num value =>
      cases otherNormal with
      | literal otherValue =>
        cases otherValue with
        | num _ => exact literals_read rfl rfl rest other follows otherFollows same
        | _ => cases kinds
      | _ => cases kinds
    | str value =>
      cases otherNormal with
      | literal otherValue =>
        cases otherValue with
        | str _ =>
          obtain ⟨rfl, rests⟩ := quoted_unique same
          exact ⟨rfl, rests⟩
        | _ => cases kinds
      | _ => cases kinds
    | arr items => exact list rfl
    | obj fields => exact brace rfl
  | array element => exact absurd rfl (core _)
  | map value =>
    cases otherNormal with
    | map otherValue =>
      have less := (Nat.add_lt_add (value_smaller _) (value_smaller _)).trans_le fits
      exact maps_read (inner value otherValue less) rest other follows otherFollows same
    | literal otherValue => cases otherValue <;> cases kinds
    | _ => cases kinds
  | tuple elements => exact list rfl
  | union members form =>
    cases otherNormal with
    | union => exact compound rfl rfl
    | intersection => exact compound rfl rfl
    | literal otherValue => cases otherValue <;> cases kinds
    | _ => cases kinds
  | intersection members form =>
    cases otherNormal with
    | union => exact compound rfl rfl
    | intersection => exact compound rfl rfl
    | literal otherValue => cases otherValue <;> cases kinds
    | _ => cases kinds
  | record fields index => exact brace rfl

end Cores

private theorem stem_size (type : TypeExpr) :
    sizeOf (stem type) ≤ sizeOf type ∧ (isCompound type = false → isCompound (stem type) = true →
      sizeOf (stem type) < sizeOf type) := by
  fun_induction stem type with
  | case1 element ih =>
    simp only [TypeExpr.array.sizeOf_spec]
    exact ⟨by omega, fun _ _ => by omega⟩
  | case2 type notArray =>
    refine ⟨le_rfl, fun simple compound => ?_⟩
    rw [simple] at compound
    cases compound

private theorem alternative_size (member : type ∈ unionMembers another) :
    sizeOf type ≤ sizeOf another := by
  cases another with
  | union members => exact (alternative_smaller member).le
  | _ =>
    cases List.mem_singleton.mp member
    exact le_rfl

private theorem intersectionMembers_size (member : type ∈ intersectionMembers another) :
    type = another ∨ sizeOf type < sizeOf another := by
  cases another with
  | intersection members => exact .inr (operand_smaller member)
  | _ => exact .inl (List.mem_singleton.mp member)

/-- The core of an operand is no larger than the type, and smaller if it stands
in parentheses: a union is never an alternative, nor an intersection an operand. -/
private theorem operand_size {operand : TypeExpr} (normal : Normal type)
    (inside : IsOperand operand type) :
    sizeOf (stem operand) ≤ sizeOf type ∧
      (isCompound (stem operand) = true → sizeOf (stem operand) < sizeOf type) := by
  obtain ⟨member, alternative, found⟩ := inside
  obtain ⟨memberNormal, single⟩ := unionMembers_normal normal member alternative
  obtain ⟨_, flat⟩ := intersectionMembers_normal memberNormal operand found
  have stems := stem_size operand
  have members := alternative_size alternative
  rcases intersectionMembers_size found with rfl | smaller
  · refine ⟨stems.1.trans members, fun compound => ?_⟩
    have simple : isCompound operand = false := by
      rw [isCompound, single, flat]
      rfl
    exact (stems.2 simple compound).trans_le members
  · exact ⟨by omega, fun _ => by omega⟩

private theorem operand_normal {operand : TypeExpr} (normal : Normal type)
    (inside : IsOperand operand type) : Normal operand := by
  obtain ⟨member, alternative, found⟩ := inside
  exact (intersectionMembers_normal (unionMembers_normal normal member alternative).1 operand
    found).1

/-- Types in normal form are read in one way only. -/
private theorem type_reads (level : Int) (normal : Normal type) (otherNormal : Normal another) :
    ReadsType level type another := by
  induction size : sizeOf type + sizeOf another using Nat.strong_induction_on
    generalizing type another level with
  | _ bound ih =>
    subst size
    refine type_of_operands normal otherNormal fun {operand second} inside otherInside => ?_
    have sizes := operand_size normal inside
    have otherSizes := operand_size otherNormal otherInside
    refine operand_of_core (core_reads ?_ (stem_normal (operand_normal normal inside))
      (stem_normal (operand_normal otherNormal otherInside)) (stem_simple _) (stem_simple _)
      (Nat.add_le_add sizes.1 otherSizes.1)
      fun compound => Nat.add_lt_add_of_lt_of_le (sizes.2 compound) otherSizes.1)
    intro level first second firstNormal secondNormal smaller
    exact ih _ smaller level firstNormal secondNormal rfl

theorem text_canonical (normal : Normal type) (otherNormal : Normal another)
    (same : type.render level = another.render level) : canonical type = canonical another := by
  have closed : Closed [] := by
    intro c head
    cases head
  refine (type_reads level normal otherNormal [] [] closed closed ?_).1
  rw [same]

/-- A type that synthesis gives for some node, from some store. -/
def Synthesized (type : TypeExpr) : Prop :=
  ∃ source maxDepth node context depth before after,
    (Synthesis.synthesize source maxDepth node context depth).run before = (.ok type, after)

/-- Types that synthesis gives and that have one text at one level are the same,
apart from documentation and from literals that are written like other types. -/
theorem rendering_unambiguous {type another : TypeExpr} (level : Int) (made : Synthesized type)
    (otherMade : Synthesized another) (same : type.render level = another.render level) :
    canonical type = canonical another := by
  obtain ⟨source, maxDepth, node, context, depth, before, after, ran⟩ := made
  obtain ⟨otherSource, otherDepth, otherNode, otherContext, start, early, late, otherRan⟩ :=
    otherMade
  exact text_canonical (convert_normal ran) (convert_normal otherRan) same

/-- The list of one `null`, and the lists of one value that is `null`. -/
theorem rendering_unambiguous_null :
    Synthesized (.literal (.arr [.null])) ∧ Synthesized (.tuple [.primitive "null"]) ∧
      canonical (.literal (.arr [.null])) = canonical (.tuple [.primitive "null"]) := by
  have fixed : Synthesized (.literal (.arr [.null])) :=
    ⟨⟨{}, ⟨0, []⟩⟩, 20, .obj [("const", .arr [.null])], ⟨.null, "."⟩, 0, ⟨[]⟩, ⟨[]⟩, rfl⟩
  have listed : Synthesized (.tuple [.primitive "null"]) :=
    ⟨⟨{}, ⟨0, []⟩⟩, 20,
      .obj [("type", .str "array"), ("items", .arr [.obj [("type", .str "null")]])],
      ⟨.null, "."⟩, 0, ⟨[]⟩, ⟨[]⟩, rfl⟩
  exact ⟨fixed, listed, rendering_unambiguous 0 fixed listed rfl⟩

end EntitySchema.TypeText
