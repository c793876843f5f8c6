import EntitySchema.Proofs.TypeNames
import Mathlib

/-! Keys run together into one word. What stands between words does not matter,
nor how much of it, so running a text together is done piece by piece: cut at any
separators, it gives what the pieces give, one behind the other. Together with
what becomes of a single word, this leaves no choice for any text. What comes out
is one word again, or nothing, and stays as it is from then on. -/
namespace EntitySchema.Casing
open Component TypeNames

variable {text before after : List Char}

private theorem words_empty : words [] = [] := by
  simp [words]

/-- A separator belongs to no word and ends the one before it. -/
theorem words_separated {c : Char} (separator : isWordChar c = false) (before after : List Char) :
    words (before ++ c :: after) = words before ++ words after := by
  unfold words
  rw [List.splitOnP_append_cons before after (by simp [separator]), List.filter_append]

/-- Separators in front of a text are passed over. -/
theorem words_led (separators : ∀ c ∈ before, isWordChar c = false) :
    words (before ++ after) = words after := by
  induction before with
  | nil => rfl
  | cons c rest ih =>
    obtain ⟨first, others⟩ := List.forall_mem_cons.mp separators
    have cut := words_separated first [] (rest ++ after)
    rw [words_empty] at cut
    exact cut.trans (ih others)

/-- A text without separators is one word. -/
theorem words_single (filled : text ≠ []) (letters : ∀ c ∈ text, isWordChar c = true) :
    words text = [text] := by
  have uncut : text.splitOnP (fun c => !isWordChar c) = [text] := by
    apply List.splitOnP_eq_singleton
    intro c member
    simp [letters c member]
  rw [words, uncut]
  simp [filled]

/-- Cutting a text at a run of separators cuts its words. -/
private theorem pascalCase_cut {a s b : String} (filled : s ≠ "")
    (separators : ∀ c ∈ s.toList, c.isAlphanum = false) :
    pascalCase (a ++ s ++ b) = pascalCase a ++ pascalCase b := by
  have long : s.toList ≠ [] := mt String.toList_eq_nil_iff.mp filled
  obtain ⟨c, rest, split⟩ := List.exists_cons_of_ne_nil long
  simp only [← isWordChar_eq, split] at separators
  obtain ⟨first, others⟩ := List.forall_mem_cons.mp separators
  have pieces : words (a ++ s ++ b).toList = words a.toList ++ words b.toList := by
    rw [String.toList_append, String.toList_append, split, List.append_assoc, List.cons_append,
      words_separated first, words_led others]
  simp only [pascalCase, pieces, List.flatMap_append, String.ofList_append]

/-- A single word gets a capital in front. -/
private theorem pascalCase_word {c : Char} {rest : List Char}
    (letters : ∀ d ∈ c :: rest, d.isAlphanum = true) :
    pascalCase (String.ofList (c :: rest)) = String.ofList (c.toUpper :: rest) := by
  simp only [← isWordChar_eq] at letters
  rw [pascalCase, String.toList_ofList, words_single (List.cons_ne_nil c rest) letters]
  simp [capitalize]

/-- A word with no small letter in front has its capital already. -/
private theorem pascalCase_plain_fixed {key : String} (plain : Plain key.toList) :
    pascalCase key = key := by
  cases letters : key.toList with
  | nil =>
    rw [String.toList_eq_nil_iff.mp letters]
    rfl
  | cons c rest =>
    have spelled : key = String.ofList (c :: rest) := by rw [← letters, String.ofList_toList]
    have capital : c.isLower = false := plain.capital c (by simp [letters])
    rw [spelled, pascalCase_word (letters ▸ plain.alphanumeric),
      Char.toUpper_eq_of_not_isLower (by simp [capital])]

/-- **Casing depends on the words alone.** Cut at any run of characters that are
no ASCII letters or digits, a text gives what its two parts give, one behind the
other; a text of letters and digits is kept, save for a capital in front. What
comes out holds ASCII letters and digits only, starts with no small letter, and
is kept when it is run together again. -/
theorem casing_by_words :
    (∀ a s b : String, s ≠ "" → (∀ c ∈ s.toList, c.isAlphanum = false) →
      pascalCase (a ++ s ++ b) = pascalCase a ++ pascalCase b) ∧
      (∀ c rest, (∀ d ∈ c :: rest, d.isAlphanum = true) →
        pascalCase (String.ofList (c :: rest)) = String.ofList (c.toUpper :: rest)) ∧
      ∀ text : String,
        pascalCase (pascalCase text) = pascalCase text ∧
          (∀ c ∈ (pascalCase text).toList, c.isAlphanum = true) ∧
          ∀ c ∈ (pascalCase text).toList.head?, c.isLower = false := by
  refine ⟨fun a s b => pascalCase_cut, fun c rest => pascalCase_word, fun text => ?_⟩
  have plain := pascalCase_plain text
  exact ⟨pascalCase_plain_fixed plain, plain.alphanumeric, plain.capital⟩

/-- Letters outside of ASCII separate words, a digit has no capital, and what
has been run together is one word from then on. -/
theorem casing_by_words_mixed :
    pascalCase "minecraft:2nd_éé.über-x" = "Minecraft2ndBerX" ∧
      pascalCase ("minecraft:2nd" ++ "_éé." ++ "über-x") =
        pascalCase "minecraft:2nd" ++ pascalCase "über-x" ∧
      pascalCase (String.ofList ['2', 'n', 'd']) = String.ofList ['2', 'n', 'd'] := by
  obtain ⟨cut, word, _⟩ := casing_by_words
  refine ⟨by cbv, cut "minecraft:2nd" "_éé." "über-x" (by decide) (by simp), ?_⟩
  exact word '2' ['n', 'd'] (by simp)

end EntitySchema.Casing
