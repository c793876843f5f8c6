import EntitySchema.Proofs.Addressing
import EntitySchema.Proofs.RecordKeys

/-! Quoted strings are read back. Between its quotes a string shows every
character as itself or as an escape of two, so no quote in it closes it, no
backslash reaches past its end, and no line ends inside. The escapes may as well
be put in one kind after the other, as long as backslashes come first. -/
namespace EntitySchema.QuotedText
open Addressing RecordKeys UniqueReading

/-- Text that may stand between single quotes on one line: each character is an
ordinary one, or a backslash together with the character behind it. -/
inductive Enclosable : List Char → Prop where
  | nothing : Enclosable []
  | plain {c : Char} {rest : List Char} (notQuote : c ≠ '\'') (notSlash : c ≠ '\\')
    (sameLine : c ≠ '\n' ∧ c ≠ '\r') (inner : Enclosable rest) : Enclosable (c :: rest)
  | escape {c : Char} {rest : List Char} (sameLine : c ≠ '\n' ∧ c ≠ '\r')
    (inner : Enclosable rest) : Enclosable ('\\' :: c :: rest)

/-- A text with escapes put in for backslashes, then for quotes, line feeds and
carriage returns, each time in the whole text. -/
def escapedInTurn (text : List Char) : List Char :=
  replaceAll ['\r'] ['\\', 'r'] (replaceAll ['\n'] ['\\', 'n']
    (replaceAll ['\''] ['\\', '\''] (replaceAll ['\\'] ['\\', '\\'] text)))

private theorem replaceAll_single (old : Char) (new text : List Char) :
    replaceAll [old] new text = text.flatMap fun c => if c = old then new else [c] := by
  unfold replaceAll
  induction text with
  | nil => rfl
  | cons c rest ih =>
    by_cases same : c = old
    · subst same
      simp [replaceFrom, ih]
    · have absent : ([old].isPrefixOf (c :: rest)) = false := by
        simp [List.isPrefixOf, Ne.symm same]
      simp [replaceFrom, absent, ih, same]

/-- No escape puts in a character that is escaped later, except for the
backslashes, which come first. -/
theorem escaped_in_turn (text : List Char) : escapedInTurn text = text.flatMap quoteChar := by
  simp only [escapedInTurn, replaceAll_single, List.flatMap_assoc]
  congr 1
  funext c
  unfold quoteChar
  split_ifs with slash quote newline carriage <;> simp_all

private theorem quoteChar_enclosable (c : Char) {rest : List Char} (inner : Enclosable rest) :
    Enclosable (quoteChar c ++ rest) := by
  unfold quoteChar
  split_ifs with slash quote newline carriage
  · exact .escape (by decide) inner
  · exact .escape (by decide) inner
  · exact .escape (by decide) inner
  · exact .escape (by decide) inner
  · exact .plain quote slash ⟨newline, carriage⟩ inner

theorem escaped_enclosable (text : List Char) : Enclosable (text.flatMap quoteChar) := by
  induction text with
  | nil => exact .nothing
  | cons c rest ih =>
    rw [List.flatMap_cons]
    exact quoteChar_enclosable c ih

/-- All of it is on one line. -/
theorem enclosable_one_line {text : List Char} (enclosable : Enclosable text) :
    ∀ c ∈ text, c ≠ '\n' ∧ c ≠ '\r' := by
  induction enclosable with
  | nothing => simp
  | plain notQuote notSlash sameLine inner ih => exact List.forall_mem_cons.mpr ⟨sameLine, ih⟩
  | escape sameLine inner ih =>
    refine List.forall_mem_cons.mpr ⟨by decide, ?_⟩
    exact List.forall_mem_cons.mpr ⟨sameLine, ih⟩

/-- **Quoted strings are read back.** Every string in quotes is a quote, a text
that may stand between quotes and a quote, without a line feed or a carriage
return; the text is the string with its escapes put in one kind after the other.
Whatever follows the literal, reading the escapes from left to right gives the
string and stops at the last quote. So no two strings have one literal. -/
theorem quoted_strings_read :
    (∀ value : String, ∃ body,
      (quoteString value).toList = '\'' :: (body ++ ['\'']) ∧
        Enclosable body ∧ (∀ c ∈ body, c ≠ '\n' ∧ c ≠ '\r') ∧
        body = escapedInTurn value.toList ∧
        ∀ rest, readQuoted (body ++ '\'' :: rest) = some (value.toList, rest)) ∧
      Function.Injective quoteString := by
  constructor
  · intro value
    have enclosable := escaped_enclosable value.toList
    exact ⟨_, quoted_text value, enclosable, enclosable_one_line enclosable,
      (escaped_in_turn _).symm, read_quoted value.toList⟩
  · intro value other same
    have shown : (quoteString value).toList ++ [] = (quoteString other).toList ++ [] := by rw [same]
    exact (quoted_unique shown).1

example : quoteString "\\n'\n\\" = "'\\\\n\\'\\n\\\\'" := by decide

end EntitySchema.QuotedText
