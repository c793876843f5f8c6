import EntitySchema.Proofs.UniqueReading
import Mathlib.Data.List.TakeWhile

/-! Lines of records. The comment above a field ends at the first `*/` in it,
whatever its documentation says, so it can be skipped; the key behind it, bare
or quoted, ends at the mark that follows; and the first character behind the
indentation tells a comment, a key, the index and the closing brace apart. -/
namespace EntitySchema.RecordText
open UniqueReading

variable {rest other : List Char}

/-- What follows the first end of a comment. -/
def afterComment : List Char → List Char
  | '*' :: '/' :: rest => rest
  | _ :: rest => afterComment rest
  | [] => []

/-- Text in which no comment ends. -/
def Quiet (text : List Char) : Prop :=
  ∀ before after, text ≠ before ++ '*' :: '/' :: after

private theorem quiet_cons {c : Char} {text : List Char} (quiet : Quiet text)
    (apart : c = '*' → text.head? ≠ some '/') : Quiet (c :: text) := by
  intro before after same
  cases before with
  | nil =>
    obtain ⟨rfl, tail⟩ := List.cons.inj same
    exact apart rfl (by simp [tail])
  | cons d more => exact quiet more after (List.cons.inj same).2

private theorem quiet_append {first second : List Char} (early : Quiet first) (late : Quiet second)
    (apart : second.head? ≠ some '/') : Quiet (first ++ second) := by
  induction first with
  | nil => exact late
  | cons c more ih =>
    have inner : Quiet more := fun before after same => early (c :: before) after (by simp [same])
    refine quiet_cons (ih inner) ?_
    rintro rfl
    cases more with
    | nil => simpa using apart
    | cons d further =>
      intro slash
      cases slash
      exact early [] further rfl

private theorem quiet_prefix {text whole : List Char} (quiet : Quiet whole)
    (within : text <+: whole) : Quiet text := by
  obtain ⟨more, rfl⟩ := within
  intro before after same
  exact quiet before (after ++ more) (by simp [same])

private theorem quiet_indented {text : List Char} (count : Nat) (quiet : Quiet text) :
    Quiet (List.replicate count ' ' ++ text) := by
  induction count with
  | zero => exact quiet
  | succ count ih => exact quiet_cons ih (by simp)

private theorem quiet_guarded (text : List Char) :
    Quiet (Docs.guardComment text) ∧
      ((Docs.guardComment text).head? = some '/' → text.head? = some '/') := by
  fun_induction Docs.guardComment text with
  | case1 rest ih =>
    refine ⟨?_, by simp⟩
    exact quiet_cons (quiet_cons (quiet_cons ih.1 (by simp)) (by simp)) (by simp)
  | case2 c rest unlike ih =>
    refine ⟨quiet_cons ih.1 ?_, by simp⟩
    rintro rfl slash
    obtain ⟨more, tail⟩ := List.head?_eq_some_iff.mp (ih.2 slash)
    exact unlike more rfl tail
  | case3 => exact ⟨by intro before after; simp, by simp⟩

/-- Guarding breaks no line. -/
theorem guardComment_unbroken {text : List Char} (unbroken : '\n' ∉ text) :
    '\n' ∉ Docs.guardComment text := by
  fun_induction Docs.guardComment text with
  | case1 rest ih => simp_all
  | case2 c rest _ ih => simp_all
  | case3 => simp

private theorem after_quiet {text : List Char} (quiet : Quiet text)
    (apart : rest.head? ≠ some '/') : afterComment (text ++ rest) = afterComment rest := by
  induction text with
  | nil => rfl
  | cons c more ih =>
    have inner : Quiet more := fun before after same => quiet (c :: before) after (by simp [same])
    rw [List.cons_append, afterComment]
    · exact ih inner
    · intro tail starred same
      subst starred
      cases more with
      | nil => exact apart (by simp [show rest = '/' :: tail from same])
      | cons d further =>
        obtain ⟨rfl, _⟩ := List.cons.inj same
        exact quiet [] further rfl

/-- Lines are a first one and others, each behind a line feed. -/
theorem lines_joined (first : String) (lines : List String) :
    ("\n".intercalate (first :: lines)).toList =
      first.toList ++ lines.flatMap fun line => '\n' :: line.toList := by
  rw [String.toList_intercalate]
  induction lines generalizing first with
  | nil => simp
  | cons next more ih =>
    rw [List.map_cons, List.map_cons, List.intercalate_cons_cons, ← List.map_cons, ih,
      List.flatMap_cons, List.append_assoc, List.cons_append]
    rfl

private theorem trimEnd_shorter (text : List Char) : Text.trimEnd text <+: text := by
  have suffix := List.dropWhile_suffix Text.isBlank (l := text.reverse)
  rw [← List.reverse_prefix, List.reverse_reverse] at suffix
  exact suffix

/-- Nothing is trimmed off in front of a character that is not blank. -/
private theorem trimEnd_append (front : List Char) {text : List Char}
    (shown : ∃ c ∈ text, Text.isBlank c = false) :
    Text.trimEnd (front ++ text) = front ++ Text.trimEnd text := by
  have left : (text.reverse.dropWhile Text.isBlank).isEmpty = false := by
    obtain ⟨c, member, visible⟩ := shown
    rw [List.isEmpty_eq_false_iff, Ne, List.dropWhile_eq_nil_iff]
    intro blank
    have hidden := blank c (List.mem_reverse.mpr member)
    rw [visible] at hidden
    cases hidden
  simp [Text.trimEnd, List.dropWhile_append, left]

section Comments

variable {docs : Docs} {indent : String} {count : Nat}

/-- The star that starts a line of a comment keeps its indentation. -/
theorem commentLine_text (indent : String) (line : List Char) :
    (Docs.commentLine indent line).toList =
      indent.toList ++ Text.trimEnd ([' ', '*', ' '] ++ Docs.guardComment line) := by
  rw [Docs.commentLine, String.toList_ofList, List.append_assoc]
  exact trimEnd_append indent.toList ⟨'*', by simp, rfl⟩

private theorem quiet_line (spaces : indent.toList = List.replicate count ' ') (line : List Char) :
    Quiet ('\n' :: (Docs.commentLine indent line).toList) := by
  have marked : Quiet ([' ', '*', ' '] ++ Docs.guardComment line) :=
    quiet_cons (quiet_cons (quiet_cons (quiet_guarded line).1 (by simp)) (by simp)) (by simp)
  have inner : Quiet (Docs.commentLine indent line).toList := by
    rw [Docs.commentLine, String.toList_ofList, List.append_assoc, spaces]
    exact quiet_prefix (quiet_indented count marked) (trimEnd_shorter _)
  exact quiet_cons inner (by simp)

private theorem lines_head (lines : List (List Char)) :
    (lines.flatMap fun line => '\n' :: (Docs.commentLine indent line).toList).head? ≠ some '/' := by
  cases lines <;> simp

private theorem quiet_lines (spaces : indent.toList = List.replicate count ' ')
    (lines : List (List Char)) :
    Quiet (lines.flatMap fun line => '\n' :: (Docs.commentLine indent line).toList) := by
  induction lines with
  | nil => intro before after; simp
  | cons line more ih =>
    rw [List.flatMap_cons]
    exact quiet_append (quiet_line spaces line) ih (lines_head more)

/-- A comment that is not empty: its opening, its lines and its end. -/
theorem comment_text (filled : docs.comment indent ≠ "") :
    (docs.comment indent).toList = indent.toList ++ ['/', '*', '*'] ++
      (docs.lines.flatMap fun line => '\n' :: (Docs.commentLine indent line).toList) ++
        '\n' :: (indent.toList ++ [' ', '*', '/']) := by
  unfold Docs.comment at filled ⊢
  split at filled
  · exact absurd rfl filled
  · rename_i some
    rw [if_neg some, List.cons_append, lines_joined, List.flatMap_append, List.flatMap_map]
    simp [String.toList_append]

/-- There is a comment exactly when it has lines. -/
theorem comment_empty (docs : Docs) (indent : String) :
    docs.comment indent = "" ↔ docs.lines = [] := by
  unfold Docs.comment
  split
  · rename_i none
    exact iff_of_true rfl (List.isEmpty_iff.mp none)
  · rename_i some
    refine iff_of_false ?_ (mt List.isEmpty_iff.mpr some)
    intro empty
    have opening := congrArg String.toList empty
    rw [List.cons_append, lines_joined] at opening
    simp at opening

/-- A comment is passed over as a whole: nothing in it ends it early. -/
theorem comment_skipped (spaces : indent.toList = List.replicate count ' ')
    (filled : docs.comment indent ≠ "") (rest : List Char) :
    afterComment ((docs.comment indent).toList ++ rest) = rest := by
  have opening : Quiet (indent.toList ++ ['/', '*', '*']) := by
    rw [spaces]
    refine quiet_indented count ?_
    intro before after same
    rcases before with _ | ⟨_, _ | ⟨_, _ | ⟨_, more⟩⟩⟩ <;> simp at same
  have closing : Quiet ('\n' :: (indent.toList ++ [' '])) := by
    rw [spaces]
    exact quiet_cons (quiet_indented count (quiet_indented 1 (by intro before after; simp)))
      (by simp)
  have body := quiet_append (quiet_append opening (quiet_lines spaces docs.lines) (lines_head _))
    closing (by simp)
  have text : (docs.comment indent).toList ++ rest = indent.toList ++ ['/', '*', '*'] ++
      (docs.lines.flatMap fun line => '\n' :: (Docs.commentLine indent line).toList) ++
        '\n' :: (indent.toList ++ [' ']) ++ '*' :: '/' :: rest := by
    rw [comment_text filled]
    simp
  rw [text, after_quiet body (by simp)]
  rfl

/-- What follows any end of a comment comes after the first one. -/
private theorem afterComment_first (before after : List Char) :
    after <:+ afterComment (before ++ '*' :: '/' :: after) := by
  induction before with
  | nil => exact List.suffix_rfl
  | cons c more ih =>
    cases more with
    | nil =>
      -- A star before the end does not end the comment: what follows it is a star.
      rw [List.cons_append, afterComment]
      · exact ih
      · intro rest _ slash
        cases slash
    | cons d further =>
      rw [List.cons_append, List.cons_append] at *
      by_cases early : c = '*' ∧ d = '/'
      · obtain ⟨rfl, rfl⟩ := early
        exact ⟨further ++ ['*', '/'], by simp [afterComment]⟩
      · rw [afterComment]
        · exact ih
        · rintro rest starred slash
          exact early ⟨starred, (List.cons.inj slash).1⟩

/-- No end of a comment has anything behind it, so there is one only. -/
private theorem comment_final (spaces : indent.toList = List.replicate count ' ')
    (filled : docs.comment indent ≠ "") {before after : List Char}
    (same : (docs.comment indent).toList = before ++ '*' :: '/' :: after) : after = [] := by
  have nothing := comment_skipped spaces filled []
  rw [List.append_nil, same] at nothing
  have later := afterComment_first before after
  rw [nothing] at later
  exact List.suffix_nil.mp later

/-- **Documentation cannot end its comment.** Whatever the texts and values in
it, a comment indented by blanks opens with `/**`, closes with ` */` at the same
indentation, and holds `*/` nowhere before its last two characters. -/
theorem comment_closed_once (docs : Docs) (indent : String)
    (spaces : ∀ c ∈ indent.toList, c = ' ') (filled : docs.comment indent ≠ "") :
    indent.toList ++ "/**".toList <+: (docs.comment indent).toList ∧
      indent.toList ++ " */".toList <:+ (docs.comment indent).toList ∧
      ∃ inner, (docs.comment indent).toList = inner ++ "*/".toList ∧
        ∀ before after, (docs.comment indent).toList = before ++ "*/".toList ++ after →
          before = inner ∧ after = [] := by
  obtain ⟨middle, text⟩ : ∃ middle, (docs.comment indent).toList =
      indent.toList ++ "/**".toList ++ middle ++ (indent.toList ++ " ".toList ++ "*/".toList) :=
    ⟨(docs.lines.flatMap fun line => '\n' :: (Docs.commentLine indent line).toList) ++ ['\n'],
      by simp [comment_text filled]⟩
  refine ⟨⟨middle ++ (indent.toList ++ " ".toList ++ "*/".toList), by simp [text]⟩,
    ⟨indent.toList ++ "/**".toList ++ middle, by simp [text]⟩,
    indent.toList ++ "/**".toList ++ middle ++ indent.toList ++ " ".toList, by simp [text], ?_⟩
  intro before after same
  rw [List.append_assoc] at same
  obtain rfl := comment_final (List.eq_replicate_of_mem spaces) filled same
  rw [text, List.append_nil, ← List.append_assoc, ← List.append_assoc] at same
  exact ⟨(List.append_cancel_right same).symm, rfl⟩

/-- A title with overlapping ends, a description that breaks a line between star
and slash, and an example that is an end. -/
def hostileDocs : Docs :=
  { title := "**//", description := some "a*\n/ b", exampleValue := some (.str "*/") }

/-- None of these ends the comment. -/
theorem comment_closed_once_hostile :
    hostileDocs.comment "  " =
        "  /**\n   * **\\//\n   * a*\n   * / b\n   * @example \"*\\/\"\n   */" ∧
      ∀ before after, (hostileDocs.comment "  ").toList = before ++ "*/".toList ++ after →
        after = [] := by
  have printed : hostileDocs.comment "  " =
      "  /**\n   * **\\//\n   * a*\n   * / b\n   * @example \"*\\/\"\n   */" := by decide
  have filled : hostileDocs.comment "  " ≠ "" := by
    rw [printed]
    decide
  obtain ⟨_, _, inner, _, once⟩ := comment_closed_once hostileDocs "  " (by simp) filled
  exact ⟨printed, fun before after same => (once before after same).2⟩

end Comments

/-- A bare key: name characters and perhaps one line feed. -/
private theorem bare_form {name : List Char} (bare : isPlainName (dropFinalNewline name) = true) :
    ∃ c letters ending, name = c :: letters ++ ending ∧ startsName c = true ∧
      (∀ d ∈ c :: letters, continuesName d = true) ∧ (ending = [] ∨ ending = ['\n']) := by
  have form : ∀ {text : List Char}, isPlainName text = true → ∃ c letters, text = c :: letters ∧
      startsName c = true ∧ ∀ d ∈ c :: letters, continuesName d = true := by
    intro text plain
    cases text with
    | nil => cases plain
    | cons c letters =>
      simp only [isPlainName, Bool.and_eq_true, List.all_eq_true] at plain
      refine ⟨c, letters, rfl, plain.1, ?_⟩
      intro d member
      rcases List.mem_cons.mp member with rfl | member
      · simp [continuesName, plain.1]
      · exact plain.2 d member
  unfold dropFinalNewline at bare
  split at bare
  · rename_i last
    obtain ⟨front, rfl⟩ := List.getLast?_eq_some_iff.mp last
    rw [List.dropLast_concat] at bare
    obtain ⟨c, letters, rfl, starts, continues⟩ := form bare
    exact ⟨c, letters, ['\n'], rfl, starts, continues, .inr rfl⟩
  · obtain ⟨c, letters, same, starts, continues⟩ := form bare
    exact ⟨c, letters, [], by simp [same], starts, continues, .inl rfl⟩

/-- What follows a key: the mark of an optional field, or the colon. -/
def Marked (rest : List Char) : Prop :=
  ∃ more, rest = '?' :: more ∨ rest = ':' :: more

/-- A key shows which name it is of. -/
theorem key_unique {name another : String} (mark : Marked rest) (otherMark : Marked other)
    (same : (fieldKey name).toList ++ rest = (fieldKey another).toList ++ other) :
    name = another ∧ rest = other := by
  have unquoted : ∀ {c : Char}, startsName c = true → c ≠ '\'' := by
    rintro c starts rfl
    cases starts
  have stops : ∀ {ending rest : List Char}, ending = [] ∨ ending = ['\n'] → Marked rest →
      Stops continuesName (ending ++ rest) := by
    rintro ending rest (rfl | rfl) ⟨more, rfl | rfl⟩ c ⟨⟩ <;> rfl
  unfold fieldKey at same
  split at same <;> split at same
  · rename_i bare otherBare
    obtain ⟨c, letters, ending, form, _, continues, final⟩ := bare_form bare
    obtain ⟨d, others, otherEnding, otherForm, _, otherContinues, otherFinal⟩ := bare_form otherBare
    rw [form, otherForm, List.append_assoc, List.append_assoc] at same
    obtain ⟨heads, tails⟩ := run_unique continues otherContinues (stops final mark)
      (stops otherFinal otherMark) same
    rw [← String.toList_inj, form, otherForm, heads]
    -- Only a line feed that belongs to the name stands before the mark.
    obtain ⟨more, rfl | rfl⟩ := mark <;> obtain ⟨further, rfl | rfl⟩ := otherMark <;>
      rcases final with rfl | rfl <;> rcases otherFinal with rfl | rfl <;> simp_all
  · rename_i bare _
    obtain ⟨c, letters, ending, form, starts, _, _⟩ := bare_form bare
    rw [form, quoted_text] at same
    exact absurd (List.cons.inj same).1 (unquoted starts)
  · rename_i _ otherBare
    obtain ⟨c, letters, ending, form, starts, _, _⟩ := bare_form otherBare
    rw [form, quoted_text] at same
    exact absurd (List.cons.inj same).1.symm (unquoted starts)
  · exact quoted_unique same

/-- The first character of a key. -/
theorem key_starts (name : String) : ∃ c more, (fieldKey name).toList = c :: more ∧
    c ≠ ' ' ∧ c ≠ '/' ∧ c ≠ '[' ∧ c ≠ '\x7d' := by
  unfold fieldKey
  split
  · rename_i bare
    obtain ⟨c, letters, ending, form, starts, _, _⟩ := bare_form bare
    refine ⟨c, letters ++ ending, form, ?_, ?_, ?_, ?_⟩ <;> rintro rfl <;> cases starts
  · rw [quoted_text]
    exact ⟨'\'', _, rfl, by decide, by decide, by decide, by decide⟩

/-- Behind any indentation, the first other character and what follows it are
the same in equal lines. -/
theorem margin_unique {count otherCount : Nat} {c d : Char} (visible : c ≠ ' ')
    (otherVisible : d ≠ ' ')
    (same : List.replicate count ' ' ++ c :: rest = List.replicate otherCount ' ' ++ d :: other) :
    c = d ∧ rest = other := by
  have spaces : ∀ n, ∀ c ∈ List.replicate n ' ', (c == ' ') = true := by
    intro n c member
    simp [List.eq_of_mem_replicate member]
  have stops : ∀ {c : Char} {rest : List Char}, c ≠ ' ' → Stops (· == ' ') (c :: rest) := by
    rintro c rest visible d ⟨⟩
    simpa using visible
  obtain ⟨_, tails⟩ := run_unique (spaces count) (spaces otherCount) (stops visible)
    (stops otherVisible) same
  exact List.cons.inj tails

section Fields

variable {field another : Field} {type otherType : String} {indent : String} {count : Nat}

/-- The lines of a field, each behind a line feed. -/
def entryText (indent : String) (field : Field) (type : String) : List Char :=
  (TypeExpr.fieldLines indent field type).flatMap fun line => '\n' :: line.toList

/-- The comment of a field, which may be missing. -/
def commentOf (indent : String) (field : Field) : String :=
  (field.docs.map (·.comment indent)).getD ""

/-- The line of a field from its key on. -/
def lineText (field : Field) (type : String) : List Char :=
  (fieldKey field.name).toList ++ ((if field.optional then ['?'] else []) ++
    ':' :: ' ' :: (type.toList ++ [';']))

theorem entry_text : entryText indent field type =
    (if commentOf indent field = "" then [] else '\n' :: (commentOf indent field).toList) ++
      '\n' :: (indent.toList ++ lineText field type) := by
  unfold entryText TypeExpr.fieldLines
  simp only
  rw [List.flatMap_append]
  change (if commentOf indent field = "" then [] else [commentOf indent field]).flatMap _ ++ _ = _
  congr 1
  · split <;> simp
  · cases optional : field.optional <;> simp [lineText, optional]

/-- The lines of a field before its own. -/
def commentText (indent : String) (field : Field) : List Char :=
  if commentOf indent field = "" then [] else '\n' :: (commentOf indent field).toList

/-- The line of a field starts with its key, up to a mark. -/
theorem entry_key (indent : String) (field : Field) (type : String) :
    ∃ rest, entryText indent field type = commentText indent field ++
        '\n' :: (indent.toList ++ ((fieldKey field.name).toList ++ rest)) ∧
      Marked rest := by
  refine ⟨_, entry_text, ?_⟩
  cases field.optional with
  | false => exact ⟨_, .inr rfl⟩
  | true => exact ⟨_, .inl rfl⟩

private theorem commentOf_skipped (spaces : indent.toList = List.replicate count ' ')
    (filled : commentOf indent field ≠ "") (rest : List Char) :
    afterComment ((commentOf indent field).toList ++ rest) = rest := by
  unfold commentOf at filled ⊢
  cases given : field.docs with
  | none => simp [given] at filled
  | some docs =>
    simp only [given, Option.map_some, Option.getD_some] at filled ⊢
    exact comment_skipped spaces filled rest

private theorem commentOf_starts (filled : commentOf indent field ≠ "") :
    ∃ more, (commentOf indent field).toList = indent.toList ++ '/' :: more := by
  unfold commentOf at filled ⊢
  cases given : field.docs with
  | none => simp [given] at filled
  | some docs =>
    simp only [given, Option.map_some, Option.getD_some] at filled ⊢
    rw [comment_text filled]
    exact ⟨_, by simp; rfl⟩

private theorem lineText_starts (field : Field) (type : String) : ∃ c more, lineText field type = c :: more ∧
    c ≠ ' ' ∧ c ≠ '/' ∧ c ≠ '[' ∧ c ≠ '\x7d' := by
  obtain ⟨c, more, starts, visible⟩ := key_starts field.name
  rw [lineText, starts]
  exact ⟨c, _, rfl, visible⟩

private theorem lineText_unique {meaning : Prop}
    (reads : ∀ rest other, type.toList ++ ';' :: rest = otherType.toList ++ ';' :: other →
      meaning ∧ rest = other)
    (same : lineText field type ++ rest = lineText another otherType ++ other) :
    field.name = another.name ∧ field.optional = another.optional ∧ meaning ∧ rest = other := by
  have marked : ∀ (optional : Bool) (more : List Char),
      Marked ((if optional then ['?'] else []) ++ ':' :: more) := by
    rintro (_ | _) more
    · exact ⟨_, .inr rfl⟩
    · exact ⟨_, .inl rfl⟩
  simp only [lineText, List.append_assoc, List.cons_append, List.nil_append] at same
  obtain ⟨names, tails⟩ := key_unique (marked _ _) (marked _ _) same
  refine ⟨names, ?_⟩
  cases optional : field.optional <;> cases otherOptional : another.optional <;>
    rw [optional, otherOptional] at tails
  · exact ⟨rfl, reads _ _ (List.cons.inj (List.cons.inj tails).2).2⟩
  · exact absurd (List.cons.inj tails).1 (by decide)
  · exact absurd (List.cons.inj tails).1 (by decide)
  · exact ⟨rfl, reads _ _ (List.cons.inj (List.cons.inj (List.cons.inj tails).2).2).2⟩

/-- The lines of a field show its name, whether it is optional and its type;
the comment above does not matter. -/
theorem entry_unique {meaning : Prop} (spaces : indent.toList = List.replicate count ' ')
    (reads : ∀ rest other, type.toList ++ ';' :: rest = otherType.toList ++ ';' :: other →
      meaning ∧ rest = other)
    (same : entryText indent field type ++ rest = entryText indent another otherType ++ other) :
    field.name = another.name ∧ field.optional = another.optional ∧ meaning ∧ rest = other := by
  have unlike : ∀ {field another : Field} {type : String} {rest other : List Char},
      commentOf indent another ≠ "" →
      indent.toList ++ (lineText field type ++ rest) ≠ (commentOf indent another).toList ++ other := by
    intro field another type rest other filled same
    obtain ⟨c, more, starts, _, notSlash, _⟩ := lineText_starts field type
    obtain ⟨further, opens⟩ := commentOf_starts filled
    rw [starts, opens, List.append_assoc] at same
    exact notSlash (List.cons.inj (List.append_cancel_left same)).1
  rw [entry_text, entry_text] at same
  by_cases empty : commentOf indent field = "" <;>
    by_cases otherEmpty : commentOf indent another = ""
  · simp only [empty, otherEmpty, ↓reduceIte, List.nil_append, List.cons_append,
      List.append_assoc] at same
    exact lineText_unique reads (List.append_cancel_left (List.cons.inj same).2)
  · simp only [empty, otherEmpty, ↓reduceIte, List.nil_append, List.cons_append,
      List.append_assoc] at same
    exact absurd (List.cons.inj same).2 (unlike otherEmpty)
  · simp only [empty, otherEmpty, ↓reduceIte, List.nil_append, List.cons_append,
      List.append_assoc] at same
    exact absurd (List.cons.inj same).2.symm (unlike empty)
  · simp only [empty, otherEmpty, ↓reduceIte, List.cons_append, List.append_assoc] at same
    have tails := congrArg afterComment (List.cons.inj same).2
    rw [commentOf_skipped spaces empty, commentOf_skipped spaces otherEmpty] at tails
    exact lineText_unique reads (List.append_cancel_left (List.cons.inj tails).2)

theorem entry_starts (indent : String) (field : Field) (type : String) :
    ∃ c more, entryText indent field type = '\n' :: (indent.toList ++ c :: more) ∧
      c ≠ ' ' ∧ c ≠ '[' ∧ c ≠ '\x7d' := by
  rw [entry_text]
  by_cases empty : commentOf indent field = ""
  · obtain ⟨c, more, starts, visible, _, notBracket, notBrace⟩ := lineText_starts field type
    rw [if_pos empty, starts]
    exact ⟨c, more, rfl, visible, notBracket, notBrace⟩
  · obtain ⟨more, opens⟩ := commentOf_starts empty
    rw [if_neg empty, opens]
    exact ⟨'/', _, by simp; rfl, by decide, by decide, by decide⟩

end Fields

end EntitySchema.RecordText
