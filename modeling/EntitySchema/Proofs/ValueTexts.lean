import EntitySchema.Proofs.DocumentReading
import EntitySchema.Proofs.EncodedText
import EntitySchema.Proofs.Enumerations
import EntitySchema.Proofs.RecordKeys

/-! Values in comments and in literals. A comment shows a document with a
backslash in every `*/`. That can only stand inside a string, where a slash behind
a backslash is a slash, so the document is read back all the same. A literal is
a string in single quotes or a document. -/
namespace EntitySchema.ValueTexts
open Docs Json Json.Reader DocumentReading EncodedText JsonText NumberText RecordText RecordKeys
open UniqueReading

variable {text front : List Char} {document : Json}

section Written

private theorem hex4_control {n : Nat} (small : n < 32) :
    hex4 n = ['0', '0', (n / 16).digitChar, (n % 16).digitChar] ∧
      hexValue4? '0' '0' (n / 16).digitChar (n % 16).digitChar = some n := by
  revert n
  decide

private theorem escapeChar_shows (c : Char) : Shows (escapeChar false c) c := by
  unfold escapeChar
  split_ifs with quote slash newline carriage tab backspace feed control
  · exact .letter (by rw [quote]; rfl)
  · exact .letter (by rw [slash]; rfl)
  · exact .letter (by rw [newline]; rfl)
  · exact .letter (by rw [carriage]; rfl)
  · exact .letter (by rw [tab]; rfl)
  · exact .letter (by rw [backspace]; rfl)
  · exact .letter (by rw [feed]; rfl)
  · simp only [Bool.false_and, Bool.or_false, decide_eq_true_eq] at control
    obtain ⟨shown, read⟩ := hex4_control control
    have single : Text.isHighSurrogate c.toNat = false := by
      simp only [Text.isHighSurrogate, Bool.and_eq_false_iff, decide_eq_false_iff_not]
      omega
    have shows := Shows.number read single
    rw [charOf_toNat] at shows
    simpa only [numberEscape, shown, show c.toNat < 65536 by omega, ↓reduceIte] using shows
  · simp only [Bool.false_and, Bool.or_false, decide_eq_true_eq, Nat.not_lt] at control
    exact .plain control quote slash

private theorem escaped_spells (characters : List Char) :
    Spells (characters.flatMap (escapeChar false)) characters := by
  induction characters with
  | nil => exact .nothing
  | cons c more ih => exact .piece (escapeChar_shows c) ih

/-- Documents are written so that they are read back. -/
theorem render_compact : Compact fun document => document.render.toList where
  null := rfl
  bool _ := rfl
  num _ := rfl
  str text := ⟨_, string_text text, escaped_spells text.toList⟩
  arr := items_text
  obj := fields_text

end Written

section Guarded

private theorem guard_cons {c : Char} (notStar : c ≠ '*') (text : List Char) :
    guardComment (c :: text) = c :: guardComment text := by
  rw [guardComment]
  rintro rest rfl
  exact absurd rfl notStar

/-- Only a star and a slash next to each other are told apart. -/
private theorem guard_append (front : List Char) {c : Char} (notSlash : c ≠ '/')
    (text : List Char) :
    guardComment (front ++ c :: text) = guardComment front ++ guardComment (c :: text) := by
  fun_induction guardComment front with
  | case1 rest ih => rw [List.cons_append, List.cons_append, guardComment, ih]; rfl
  | case2 d rest unlike ih =>
    rw [List.cons_append, guardComment, ih]
    · rfl
    · intro more star same
      cases rest with
      | nil => exact notSlash (List.cons.inj same).1
      | cons e later => exact unlike later star (by rw [(List.cons.inj same).1])
  | case3 => rfl

private theorem guard_mark (front : List Char) {c : Char} (apart : c ≠ '*' ∧ c ≠ '/')
    (text : List Char) :
    guardComment (front ++ c :: text) = guardComment front ++ c :: guardComment text := by
  rw [guard_append front apart.2, guard_cons apart.1]

private theorem guard_starless (starless : '*' ∉ front) (text : List Char) :
    guardComment (front ++ text) = front ++ guardComment text := by
  induction front with
  | nil => rfl
  | cons c more ih =>
    simp only [List.mem_cons, not_or] at starless
    rw [List.cons_append, guard_cons (Ne.symm starless.1), ih starless.2, List.cons_append]

private theorem guard_joined (texts : List (List Char)) :
    guardComment ([','].intercalate texts) = [','].intercalate (texts.map guardComment) := by
  induction texts with
  | nil => rfl
  | cons first more ih =>
    cases more with
    | nil => simp
    | cons next later =>
      rw [List.intercalate_cons_cons, List.map_cons, List.map_cons, List.intercalate_cons_cons,
        ← List.map_cons, ← ih, List.append_assoc, List.singleton_append, guard_mark first (by simp),
        List.append_assoc, List.singleton_append]

private theorem guard_enclosed {opening closing : Char} (opens : opening ≠ '*')
    (closes : closing ≠ '*' ∧ closing ≠ '/') (text : List Char) :
    guardComment (opening :: (text ++ [closing])) =
      opening :: (guardComment text ++ [closing]) := by
  rw [guard_cons opens, guard_mark text closes]
  rfl

/-- A slash may as well have a backslash in front of it. -/
private theorem spells_slash {characters : List Char} (spells : Spells text characters)
    (starts : text.head? = some '/') : Spells ('\\' :: text) characters := by
  cases spells with
  | nothing => cases starts
  | piece shows inner =>
    cases shows with
    | plain printable notQuote notSlash =>
      cases starts
      have letter : Shows ['\\', '/'] '/' := .letter rfl
      exact .piece letter inner
    | letter meant => cases starts
    | number digits single => cases starts

/-- No escape has a star in it. -/
private theorem shows_star {c : Char} (shows : Shows text c) (star : '*' ∈ text) :
    text = ['*'] := by
  have notDigit : hexValue? '*' = none := by decide
  cases shows with
  | plain printable notQuote notSlash => rw [List.mem_singleton.mp star]
  | letter meant =>
    simp only [List.mem_cons, List.not_mem_nil, or_false] at star
    rcases star with impossible | rfl
    · cases impossible
    · cases meant
  | number digits single =>
    simp only [List.mem_cons, List.not_mem_nil, or_false] at star
    rcases star with impossible | impossible | rfl | rfl | rfl | rfl
    · cases impossible
    · cases impossible
    all_goals simp [hexValue4?, notDigit] at digits

/-- Guarding changes how a string is spelled, but not the string. -/
private theorem guarded_spells {characters : List Char} (spells : Spells text characters) :
    Spells (guardComment text) characters := by
  induction spells with
  | nothing => exact .nothing
  | @piece shown body characters c shows inner ih =>
    by_cases star : '*' ∈ shown
    · cases shows_star shows star
      cases body with
      | nil => exact .piece shows ih
      | cons next more =>
        by_cases slash : next = '/'
        -- The slash is the next piece of the string, and gets its backslash.
        · subst slash
          rw [guard_cons (by simp)] at ih
          exact .piece shows (spells_slash ih rfl)
        · rw [guard_append ['*'] slash]
          exact .piece shows ih
    · rw [guard_starless star]
      exact .piece shows ih

/-- What a comment shows of documents is read back. -/
theorem guarded_compact : Compact fun document => guardComment document.render.toList where
  null := rfl
  bool value := by cases value <;> rfl
  num number := by
    have starless : '*' ∉ (number.render numberLayout).toList := by
      intro star
      exact absurd (render_chars number _ star) (by decide)
    have same := guard_starless starless []
    rw [guardComment, List.append_nil] at same
    exact same
  str text := by
    refine ⟨_, ?_, guarded_spells (escaped_spells text.toList)⟩
    have shown := string_text text
    rw [Json.render, shown]
    exact guard_enclosed (by simp) (by simp) _
  arr items := by
    rw [items_text, guard_enclosed (by simp) (by simp), guard_joined, List.map_map]
    rfl
  obj fields := by
    have field : ∀ entry : String × Json, guardComment (fieldText entry) =
        guardComment (Json.str entry.1).render.toList ++
          ':' :: guardComment entry.2.render.toList := by
      intro entry
      rw [fieldText]
      exact guard_mark _ (by simp) _
    rw [fields_text, guard_enclosed (by simp) (by simp), guard_joined, List.map_map]
    simp only [Function.comp_def, field]

end Guarded

section Comments

variable {docs : Docs} {indent tag : String}

private theorem numberChar_visible {c : Char} (number : isNumberChar c = true) :
    Text.isBlank c = false := by
  have ascii : 33 ≤ c.toNat ∧ c.toNat < 127 := by
    unfold isNumberChar at number
    rw [Bool.or_eq_true] at number
    rcases number with digit | other
    · obtain ⟨least, most⟩ := Char.isDigit_iff_toNat.mp digit
      rw [show '0'.toNat = 48 from rfl] at least
      rw [show '9'.toNat = 57 from rfl] at most
      omega
    · have printable : ∀ d ∈ "-+.eNaInfity".toList, 33 ≤ d.toNat ∧ d.toNat < 127 := by simp
      exact printable c (List.contains_iff_mem.mp other)
  simp only [Text.isBlank, Bool.or_eq_false_iff, Bool.and_eq_false_iff, decide_eq_false_iff_not,
    beq_eq_false_iff_ne]
  omega

/-- The last character of a document is not blank. -/
private theorem compact_ends {write : Json → List Char} (compact : Compact write)
    (document : Json) : ∃ front c, write document = front ++ [c] ∧ Text.isBlank c = false := by
  cases document with
  | null => exact ⟨['n', 'u', 'l'], 'l', compact.null, rfl⟩
  | bool value =>
    rw [compact.bool]
    cases value with
    | true => exact ⟨['t', 'r', 'u'], 'e', rfl, rfl⟩
    | false => exact ⟨['f', 'a', 'l', 's'], 'e', rfl, rfl⟩
  | num number =>
    have written := compact.num number
    obtain ⟨first, more, starts, _⟩ := compact_starts compact (.num number)
    obtain none | ⟨front, c, ends⟩ := List.eq_nil_or_concat' (write (.num number))
    · rw [none] at starts
      cases starts
    · refine ⟨front, c, ends, numberChar_visible (render_chars number c ?_)⟩
      rw [Json.render, ends] at written
      simp [← written]
  | str text =>
    obtain ⟨body, written, _⟩ := compact.str text
    exact ⟨'"' :: body, '"', written, rfl⟩
  | arr items => exact ⟨'[' :: _, ']', compact.arr items, rfl⟩
  | obj fields => exact ⟨'\x7b' :: _, '\x7d', compact.obj fields, rfl⟩

/-- The comment has a line that consists of the opening and a text that denotes
the document, and behind it come the `later` lines only. -/
def ShowsValue (comment opening : String) (later : List String) (document : Json) : Prop :=
  ∃ earlier text, comment = "\n".intercalate (earlier ++ (opening ++ text) :: later) ∧
    '\n' ∉ text.toList ∧ Json.parse text = .ok document

/-- A line with a tag in front of a document keeps both, but for the guard. -/
private theorem tagged_line (starless : '*' ∉ tag.toList) (document : Json) (indent : String) :
    commentLine indent (tag ++ document.render).toList =
      indent ++ " * " ++ tag ++ String.ofList (guardComment document.render.toList) := by
  obtain ⟨front, c, ends, visible⟩ := compact_ends guarded_compact document
  have kept : Text.trimEnd ([' ', '*', ' '] ++ (tag.toList ++ (front ++ [c]))) =
      [' ', '*', ' '] ++ (tag.toList ++ (front ++ [c])) := by
    simp [Text.trimEnd, visible]
  have line : guardComment (tag ++ document.render).toList = tag.toList ++ (front ++ [c]) := by
    rw [String.toList_append, guard_starless starless, ← ends]
  rw [← String.toList_inj, commentLine_text, line, kept, ends]
  simp only [String.toList_append, String.toList_ofList, List.append_assoc]
  rfl

/-- What stands behind a tag denotes the document. -/
theorem tag_shows {first second : List (List Char)}
    (listed : docs.lines = first ++ (tag ++ document.render).toList :: second)
    (starless : '*' ∉ tag.toList) (readable : Readable document) (indent : String) :
    ShowsValue (docs.comment indent) (indent ++ " * " ++ tag)
      (second.map (commentLine indent) ++ [indent ++ " */"]) document := by
  refine ⟨(indent ++ "/**") :: first.map (commentLine indent),
    String.ofList (guardComment document.render.toList), ?_, ?_, ?_⟩
  · have filled : docs.lines.isEmpty = false := by simp [listed]
    rw [comment, filled, listed, List.map_append, List.map_cons, tagged_line starless]
    simp
  · rw [String.toList_ofList]
    apply guardComment_unbroken
    intro broken
    exact absurd (render_printable document _ broken) (by decide)
  · rw [Json.parse, String.toList_ofList, document_read guarded_compact readable]
    rfl

end Comments

section Literals

/-- The value that the text of a literal stands for: a string in single quotes, or
else a document. -/
def readLiteral (text : List Char) : Option Json :=
  match text with
  | '\'' :: rest =>
    match readQuoted rest with
    | some (characters, []) => some (.str (String.ofList characters))
    | _ => none
  | _ => (Reader.document text).toOption

private theorem readLiteral_document (unquoted : ∀ rest, text ≠ '\'' :: rest)
    (read : Reader.document text = .ok document) : readLiteral text = some document := by
  unfold readLiteral
  split
  · rename_i rest
    exact absurd rfl (unquoted rest)
  · rw [read]
    rfl

/-- **Literals denote their values.** -/
theorem literal_read (readable : Readable document) :
    readLiteral document.literalText.toList = some document := by
  by_cases quoted : ∃ text, document = .str text
  · obtain ⟨text, rfl⟩ := quoted
    rw [Json.literalText, quoted_text, readLiteral, read_quoted]
    simp
  · rw [Enumerations.literalText_document (not_exists.mp quoted)]
    apply readLiteral_document _ (document_read render_compact readable)
    intro rest same
    rw [← List.append_nil document.render.toList] at same
    exact render_not_starts rfl same

end Literals

end EntitySchema.ValueTexts
