import EntitySchema.Proofs.TypeText

/-! Keys of records. A key is read as a property name: in quotes up to the
closing one, with the escapes undone, or as the letters of an identifier. Every
name is printed so that it is read back, except an identifier with a line feed
behind it: that is printed as it is, and read as the identifier alone. -/
namespace EntitySchema.RecordKeys
open UniqueReading RecordText TypeText

/-- The first character of an identifier. -/
def opensIdentifier (c : Char) : Bool :=
  c.isAlpha || c == '_' || c == '$'

/-- The other characters of an identifier. -/
def withinIdentifier (c : Char) : Bool :=
  c.isAlphanum || c == '_' || c == '$'

/-- A letter, underscore or dollar, followed by letters, digits, underscores and
dollars only. -/
def Identifier (name : String) : Prop :=
  ∃ c more, name.toList = c :: more ∧ opensIdentifier c = true ∧
    ∀ d ∈ more, withinIdentifier d = true

/-- An identifier with a line feed behind it. -/
def Broken (name : String) : Prop :=
  ∃ plain, Identifier plain ∧ name = plain ++ "\n"

/-- The character that is meant by one behind a backslash. -/
def escaped? : Char → Option Char
  | '\\' => some '\\'
  | '\'' => some '\''
  | 'n' => some '\n'
  | 'r' => some '\r'
  | _ => none

/-- The characters up to the closing quote, and what follows it. A string may
not hold a line break. -/
def readQuoted : List Char → Option (List Char × List Char)
  | [] => none
  | '\'' :: rest => some ([], rest)
  | '\\' :: letter :: rest =>
    match escaped? letter with
    | some c => (readQuoted rest).map fun (characters, rest) => (c :: characters, rest)
    | none => none
  | c :: rest =>
    if c = '\\' ∨ c = '\n' ∨ c = '\r' then none
    else (readQuoted rest).map fun (characters, rest) => (c :: characters, rest)

/-- The property name that a text starts with, and what follows it. -/
def readKey : List Char → Option (String × List Char)
  | '\'' :: rest => (readQuoted rest).map fun (characters, rest) => (String.ofList characters, rest)
  | c :: rest =>
    if opensIdentifier c then
      some (String.ofList (c :: rest.takeWhile withinIdentifier), rest.dropWhile withinIdentifier)
    else none
  | [] => none

/-- The property name that a text starts with. -/
def propertyName (text : List Char) : Option String :=
  (readKey text).map Prod.fst

variable {name plain : String} {rest : List Char}

private theorem startsName_eq (c : Char) : startsName c = opensIdentifier c := by
  have upper : c.isUpper = ('A' ≤ c && c ≤ 'Z') := Bool.decide_and _ _
  have lower : c.isLower = ('a' ≤ c && c ≤ 'z') := rfl
  have alpha : c.isAlpha = (c.isUpper || c.isLower) := rfl
  rw [startsName, opensIdentifier, alpha, upper, lower]

private theorem continuesName_eq (c : Char) : continuesName c = withinIdentifier c := by
  have digit : ('0' ≤ c && c ≤ '9') = c.isDigit := rfl
  rw [continuesName, startsName_eq, opensIdentifier, digit, withinIdentifier, Char.isAlphanum]
  cases c.isAlpha <;> cases c.isDigit <;> simp

private theorem plain_identifier : isPlainName name.toList = true ↔ Identifier name := by
  unfold isPlainName Identifier
  split
  · simp [*]
  · rename_i c more same
    simp only [same, startsName_eq, Bool.and_eq_true, List.all_eq_true, continuesName_eq]
    constructor
    · rintro ⟨opens, within⟩
      exact ⟨c, more, rfl, opens, within⟩
    · rintro ⟨_, _, ⟨rfl, rfl⟩, opens, within⟩
      exact ⟨opens, within⟩

theorem identifier_within (identifier : Identifier name) :
    ∀ d ∈ name.toList, withinIdentifier d = true := by
  obtain ⟨c, more, same, opens, within⟩ := identifier
  intro d member
  rw [same] at member
  rcases List.mem_cons.mp member with rfl | later
  · rw [← continuesName_eq, continuesName, startsName_eq, opens, Bool.true_or]
  · exact within d later

/-- Which names are printed bare. -/
private theorem bare_iff :
    isPlainName (dropFinalNewline name.toList) = true ↔ Identifier name ∨ Broken name := by
  constructor
  · intro bare
    unfold dropFinalNewline at bare
    split at bare
    · rename_i last
      obtain ⟨front, ends⟩ := List.getLast?_eq_some_iff.mp last
      rw [ends, List.dropLast_concat, ← String.toList_ofList (l := front)] at bare
      refine .inr ⟨String.ofList front, plain_identifier.mp bare, ?_⟩
      rw [← String.toList_inj, ends, String.toList_append, String.toList_ofList]
      rfl
    · exact .inl (plain_identifier.mp bare)
  · rintro (identifier | ⟨plain, identifier, rfl⟩)
    -- No character of an identifier is a line feed, so nothing is taken off.
    · have unbroken : name.toList.getLast? ≠ some '\n' := by
        intro last
        have inside := identifier_within identifier _ (List.mem_of_getLast? last)
        exact absurd inside (by decide)
      rw [dropFinalNewline, if_neg unbroken]
      exact plain_identifier.mpr identifier
    · have ends : (plain ++ "\n").toList = plain.toList ++ ['\n'] := String.toList_append
      rw [dropFinalNewline, ends, List.getLast?_concat, if_pos rfl, List.dropLast_concat]
      exact plain_identifier.mpr identifier

/-- An identifier is read up to the first character that cannot be part of it. -/
theorem read_identifier (identifier : Identifier plain)
    (stops : Stops withinIdentifier rest) :
    readKey (plain.toList ++ rest) = some (plain, rest) := by
  obtain ⟨c, more, same, opens, within⟩ := identifier
  have unquoted : c ≠ '\'' := by
    rintro rfl
    cases opens
  have ends : rest.takeWhile withinIdentifier = [] ∧ rest.dropWhile withinIdentifier = rest := by
    cases rest with
    | nil => exact ⟨rfl, rfl⟩
    | cons d further => simp [stops d rfl]
  rw [same, List.cons_append, readKey, if_pos opens, List.takeWhile_append_of_pos within,
    List.dropWhile_append_of_pos within, ends.1, ends.2, List.append_nil, ← same,
    String.ofList_toList]
  exact unquoted

private theorem read_char (c : Char) (text : List Char) :
    readQuoted (quoteChar c ++ text) =
      (readQuoted text).map fun (characters, rest) => (c :: characters, rest) := by
  unfold quoteChar
  split_ifs with slash quote newline carriage
  · rw [slash]
    rfl
  · rw [quote]
    rfl
  · rw [newline]
    rfl
  · rw [carriage]
    rfl
  · rw [List.singleton_append, readQuoted, if_neg (by simp [slash, newline, carriage])]
    · exact quote
    · exact fun _ _ same => absurd same slash

/-- A quoted string is read up to its own quote, whatever follows. -/
theorem read_quoted (characters rest : List Char) :
    readQuoted (characters.flatMap quoteChar ++ '\'' :: rest) = some (characters, rest) := by
  induction characters with
  | nil => rfl
  | cons c more ih => rw [List.flatMap_cons, List.append_assoc, read_char, ih, Option.map_some]

private theorem key_bare (bare : Identifier name ∨ Broken name) : fieldKey name = name := by
  rw [fieldKey, if_pos (bare_iff.mpr bare)]

private theorem key_quoted (other : ¬(Identifier name ∨ Broken name)) :
    fieldKey name = quoteString name := by
  rw [fieldKey, if_neg (mt bare_iff.mp other)]

private theorem marked_stops (mark : Marked rest) : Stops withinIdentifier rest := by
  intro c head
  obtain ⟨more, rfl | rfl⟩ := mark <;> cases head <;> decide

/-- A key is read back as the name. -/
private theorem key_read (whole : ¬Broken name) (mark : Marked rest) :
    readKey ((fieldKey name).toList ++ rest) = some (name, rest) := by
  by_cases identifier : Identifier name
  · rw [key_bare (.inl identifier)]
    exact read_identifier identifier (marked_stops mark)
  · rw [key_quoted (not_or.mpr ⟨identifier, whole⟩), quoted_text, List.cons_append,
      List.append_assoc, readKey, List.singleton_append, read_quoted]
    simp only [Option.map_some, String.ofList_toList]

/-- Only the identifier is read of one with a line feed behind it. -/
private theorem broken_read (identifier : Identifier plain) (rest : List Char) :
    readKey ((fieldKey (plain ++ "\n")).toList ++ rest) = some (plain, '\n' :: rest) := by
  have shown : (plain ++ "\n").toList ++ rest = plain.toList ++ '\n' :: rest := by
    rw [String.toList_append, List.append_assoc]
    rfl
  rw [key_bare (.inr ⟨plain, identifier, rfl⟩), shown]
  refine read_identifier identifier ?_
  rintro c ⟨⟩
  decide

/-- Where the key of a field stands in the text of a record. -/
private theorem record_key (level : Int) (earlier later : List (Field × TypeExpr)) (field : Field)
    (type : TypeExpr) (index : Option TypeExpr) :
    ∃ rest, ((TypeExpr.record (earlier ++ (field, type) :: later) index).render level).toList =
        '\x7b' :: (fieldsText (level + 1) earlier ++ (commentText (indentation (level + 1)) field ++
          '\n' :: ((indentation (level + 1)).toList ++ ((fieldKey field.name).toList ++ rest)))) ∧
      Marked rest := by
  obtain ⟨rest, line, more, mark⟩ :=
    entry_key (indentation (level + 1)) field (type.render (level + 1))
  refine ⟨rest ++ (fieldsText (level + 1) later ++ closeText level index), ?_, ?_⟩
  · have filled : ((earlier ++ (field, type) :: later).isEmpty && index.isNone) = false := by simp
    rw [record_text filled, fieldsText, List.flatMap_append, List.flatMap_cons, line]
    simp [fieldsText]
  · rcases mark with rfl | rfl
    · exact ⟨_, .inl rfl⟩
    · exact ⟨_, .inr rfl⟩

/-- **Record keys are printed faithfully, but for a final line feed.** In the text
of a record, the line of each field starts with its key, up to the mark of an
optional field or the colon. The key is the bare name if that is an identifier
or one with a line feed behind it, and the quoted name otherwise. It is read
back as the name, and differs from the keys of all other names, unless there is
such a line feed: then the identifier alone is read. -/
theorem record_keys_read (level : Int) (earlier later : List (Field × TypeExpr)) (field : Field)
    (type : TypeExpr) (index : Option TypeExpr) :
    ∃ rest, ((TypeExpr.record (earlier ++ (field, type) :: later) index).render level).toList =
        '\x7b' :: (fieldsText (level + 1) earlier ++ (commentText (indentation (level + 1)) field ++
          '\n' :: ((indentation (level + 1)).toList ++ ((fieldKey field.name).toList ++ rest)))) ∧
      Marked rest ∧
      (Identifier field.name ∨ Broken field.name → fieldKey field.name = field.name) ∧
      (¬(Identifier field.name ∨ Broken field.name) →
        fieldKey field.name = quoteString field.name) ∧
      (¬Broken field.name →
        readKey ((fieldKey field.name).toList ++ rest) = some (field.name, rest) ∧
        ∀ name other, ¬Broken name → Marked other →
          propertyName ((fieldKey name).toList ++ other) =
            propertyName ((fieldKey field.name).toList ++ rest) → name = field.name) ∧
      ∀ plain, Identifier plain → field.name = plain ++ "\n" →
        readKey ((fieldKey field.name).toList ++ rest) = some (plain, '\n' :: rest) := by
  obtain ⟨rest, text, mark⟩ := record_key level earlier later field type index
  refine ⟨rest, text, mark, key_bare, key_quoted, ?_, ?_⟩
  · intro whole
    refine ⟨key_read whole mark, ?_⟩
    intro name other unbroken otherMark same
    rw [propertyName, propertyName, key_read unbroken otherMark, key_read whole mark] at same
    exact Option.some.inj same
  · intro plain identifier broken
    rw [broken]
    exact broken_read identifier rest

/-- A name that has to be quoted. -/
def spokenField : Field :=
  { name := "it's\n" }

/-- A name with a quote and a line feed is read back, since it is no identifier. -/
theorem record_keys_read_quote :
    ∃ rest, ((TypeExpr.record [(spokenField, .unknown)] none).render 0).toList =
        "\x7b\n  ".toList ++ ((fieldKey "it's\n").toList ++ rest) ∧
      fieldKey "it's\n" = "'it\\'s\\n'" ∧
      readKey ((fieldKey "it's\n").toList ++ rest) = some ("it's\n", rest) := by
  have whole : ¬Broken "it's\n" := by
    rintro ⟨plain, identifier, same⟩
    have characters := congrArg String.toList same
    rw [show "it's\n" = "it's" ++ "\n" from rfl, String.toList_append, String.toList_append]
      at characters
    have inside := identifier_within identifier '\''
    rw [← List.append_cancel_right characters] at inside
    exact absurd (inside (by decide)) (by decide)
  obtain ⟨rest, text, _, _, _, faithful, _⟩ :=
    record_keys_read 0 [] [] spokenField .unknown none
  exact ⟨rest, text, by decide, (faithful whole).1⟩

/-- A name and the same with a line feed behind it are read as one property, and
the second is no identifier. -/
theorem final_line_feed_lost :
    (TypeExpr.record [({ name := "a\n" }, .unknown)] none).render 0 =
        "\x7b\n  a\n?: unknown;\n\x7d" ∧
      ¬Identifier "a\n" ∧ "a\n" ≠ "a" ∧
      propertyName ((fieldKey "a\n").toList ++ "?: unknown;".toList) =
        propertyName ((fieldKey "a").toList ++ "?: unknown;".toList) := by
  refine ⟨by decide, ?_, by decide, by decide⟩
  intro identifier
  exact absurd (identifier_within identifier '\n' (by decide)) (by decide)

end EntitySchema.RecordKeys
