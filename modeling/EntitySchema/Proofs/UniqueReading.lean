import EntitySchema.TypeExpr.Printer
import Mathlib.Tactic.SplitIfs

/-! Texts that can be read in one way only. A piece of text is compared together
with whatever follows it; when what follows cannot continue the piece, equal
texts have equal pieces and equal remainders. The lemmas here say so for runs
of characters, escaped strings and lists with a separator, which all printed
forms are made of. -/
namespace EntitySchema.UniqueReading

variable {α β : Type} {first second rest other : List Char}

/-- What follows does not start with a character of the class. -/
def Stops (continues : Char → Bool) (rest : List Char) : Prop :=
  ∀ c ∈ rest.head?, continues c = false

/-- A run of characters of one class ends where another character comes. -/
theorem run_unique {continues : Char → Bool} (firstRun : ∀ c ∈ first, continues c = true)
    (secondRun : ∀ c ∈ second, continues c = true) (stops : Stops continues rest)
    (otherStops : Stops continues other) (same : first ++ rest = second ++ other) :
    first = second ∧ rest = other := by
  induction first generalizing second with
  | nil =>
    cases second with
    | nil => exact ⟨rfl, same⟩
    | cons c more =>
      rw [List.nil_append] at same
      have stopped := stops c (by simp [same])
      rw [secondRun c List.mem_cons_self] at stopped
      cases stopped
  | cons c more ih =>
    cases second with
    | nil =>
      rw [List.nil_append] at same
      have stopped := otherStops c (by simp [← same])
      rw [firstRun c List.mem_cons_self] at stopped
      cases stopped
    | cons d later =>
      obtain ⟨rfl, tails⟩ := List.cons.inj same
      obtain ⟨rfl, rests⟩ := ih (fun c member => firstRun c (List.mem_cons_of_mem _ member))
        (fun c member => secondRun c (List.mem_cons_of_mem _ member)) tails
      exact ⟨rfl, rests⟩

/-- Escapes of single characters, none of which starts like another or with the
quote that ends the string. -/
structure Escape (quote : Char) (escape : Char → List Char) : Prop where
  distinct : ∀ {c d : Char} {rest other : List Char},
    escape c ++ rest = escape d ++ other → c = d
  unquoted : ∀ {c : Char} {rest other : List Char}, escape c ++ rest ≠ quote :: other

/-- A quoted string ends at its own quote and shows all its characters. -/
theorem escaped_unique {quote : Char} {escape : Char → List Char} (code : Escape quote escape)
    (same : first.flatMap escape ++ quote :: rest = second.flatMap escape ++ quote :: other) :
    first = second ∧ rest = other := by
  induction first generalizing second with
  | nil =>
    cases second with
    | nil => exact ⟨rfl, (List.cons.inj same).2⟩
    | cons d later =>
      rw [List.flatMap_cons, List.append_assoc] at same
      exact absurd same.symm code.unquoted
  | cons c more ih =>
    cases second with
    | nil =>
      rw [List.flatMap_cons, List.append_assoc] at same
      exact absurd same code.unquoted
    | cons d later =>
      rw [List.flatMap_cons, List.flatMap_cons, List.append_assoc, List.append_assoc] at same
      obtain rfl := code.distinct same
      obtain ⟨rfl, rests⟩ := ih (List.append_cancel_left same)
      exact ⟨rfl, rests⟩

section Lists

variable {text : α → List Char} (meaning : α → β) (good : List Char → Prop)
variable {separator : List Char} {items others : List α}

/-- The text of a list, told by its first item and what comes after. -/
private theorem intercalate_cons (item : α) (more : List α) :
    separator.intercalate ((item :: more).map text) =
      text item ++ if more = [] then [] else separator ++ separator.intercalate (more.map text) := by
  cases more with
  | nil => simp
  | cons next later => simp [List.intercalate_cons_cons]

/-- Lists with a separator are read item by item: each item is followed by the
separator, or by the remainder, which does not start with it. -/
theorem separated_unique
    (reads : ∀ item ∈ items, ∀ another ∈ others, ∀ rest other, good rest → good other →
      text item ++ rest = text another ++ other → meaning item = meaning another ∧ rest = other)
    (goes : ∀ rest, good (separator ++ rest)) (filled : items ≠ []) (otherFilled : others ≠ [])
    (ends : good rest) (otherEnds : good other) (stops : ¬separator <+: rest)
    (otherStops : ¬separator <+: other)
    (same : separator.intercalate (items.map text) ++ rest =
      separator.intercalate (others.map text) ++ other) :
    items.map meaning = others.map meaning ∧ rest = other := by
  induction items generalizing others with
  | nil => exact absurd rfl filled
  | cons item more ih =>
    obtain ⟨another, further, rfl⟩ := List.exists_cons_of_ne_nil otherFilled
    rw [intercalate_cons, intercalate_cons, List.append_assoc, List.append_assoc] at same
    have continues : ∀ (list : List α) {rest : List Char}, good rest →
        good ((if list = [] then [] else separator ++ separator.intercalate (list.map text)) ++
          rest) := by
      intro list rest ends
      split
      · exact ends
      · rw [List.append_assoc]
        exact goes _
    obtain ⟨heads, tails⟩ := reads item List.mem_cons_self another List.mem_cons_self _ _
      (continues more ends) (continues further otherEnds) same
    by_cases last : more = [] <;> by_cases otherLast : further = []
    · subst last otherLast
      exact ⟨by simp [heads], tails⟩
    · rw [if_pos last, if_neg otherLast, List.nil_append, List.append_assoc] at tails
      exact absurd ⟨_, tails.symm⟩ stops
    · rw [if_neg last, if_pos otherLast, List.nil_append, List.append_assoc] at tails
      exact absurd ⟨_, tails⟩ otherStops
    · rw [if_neg last, if_neg otherLast, List.append_assoc, List.append_assoc] at tails
      obtain ⟨meanings, rests⟩ := ih
        (fun item member another listed => reads item (List.mem_cons_of_mem _ member) another
          (List.mem_cons_of_mem _ listed))
        last otherLast (List.append_cancel_left tails)
      exact ⟨by rw [List.map_cons, List.map_cons, heads, meanings], rests⟩

/-- Lists up to a closing character, which starts neither an item nor the
separator; they may be empty. -/
theorem enclosed_unique {close : Char}
    (reads : ∀ item ∈ items, ∀ another ∈ others, ∀ rest other, good rest → good other →
      text item ++ rest = text another ++ other → meaning item = meaning another ∧ rest = other)
    (goes : ∀ rest, good (separator ++ rest)) (closes : ∀ rest, good (close :: rest))
    (apart : ∀ rest, ¬separator <+: close :: rest)
    (starts : ∀ item ∈ items ++ others, ∀ rest other, text item ++ rest ≠ close :: other)
    (same : separator.intercalate (items.map text) ++ close :: rest =
      separator.intercalate (others.map text) ++ close :: other) :
    items.map meaning = others.map meaning ∧ rest = other := by
  by_cases filled : items = [] <;> by_cases otherFilled : others = []
  · subst filled otherFilled
    exact ⟨rfl, (List.cons.inj same).2⟩
  · subst filled
    obtain ⟨another, further, rfl⟩ := List.exists_cons_of_ne_nil otherFilled
    rw [intercalate_cons, List.append_assoc] at same
    exact absurd same.symm (starts another (by simp) _ _)
  · subst otherFilled
    obtain ⟨item, more, rfl⟩ := List.exists_cons_of_ne_nil filled
    rw [intercalate_cons, List.append_assoc] at same
    exact absurd same (starts item (by simp) _ _)
  · obtain ⟨meanings, rests⟩ := separated_unique meaning good reads goes filled otherFilled
      (closes _) (closes _) (apart _) (apart _) same
    exact ⟨meanings, (List.cons.inj rests).2⟩

end Lists

/-- The character that a letter behind a backslash stands for. -/
def unquoteChar : Char → Char
  | 'n' => '\n'
  | 'r' => '\r'
  | c => c

private theorem quoteChar_shown (c : Char) :
    quoteChar c = [c] ∧ c ≠ '\\' ∧ c ≠ '\'' ∨
      ∃ letter, quoteChar c = ['\\', letter] ∧ unquoteChar letter = c := by
  unfold quoteChar
  split_ifs with slash quote newline carriage
  · exact .inr ⟨'\\', rfl, slash.symm⟩
  · exact .inr ⟨'\'', rfl, quote.symm⟩
  · exact .inr ⟨'n', rfl, newline.symm⟩
  · exact .inr ⟨'r', rfl, carriage.symm⟩
  · exact .inl ⟨rfl, slash, quote⟩

private theorem quote_escape : Escape '\'' quoteChar where
  distinct := by
    intro c d rest other same
    rcases quoteChar_shown c with ⟨shown, notSlash, _⟩ | ⟨letter, shown, meant⟩ <;>
      rcases quoteChar_shown d with ⟨otherShown, otherSlash, _⟩ | ⟨otherLetter, otherShown, otherMeant⟩ <;>
      rw [shown, otherShown] at same
    · exact (List.cons.inj same).1
    · exact absurd (List.cons.inj same).1 notSlash
    · exact absurd (List.cons.inj same).1.symm otherSlash
    · rw [← meant, ← otherMeant, (List.cons.inj (List.cons.inj same).2).1]
  unquoted := by
    intro c rest other same
    rcases quoteChar_shown c with ⟨shown, _, notQuote⟩ | ⟨letter, shown, _⟩ <;> rw [shown] at same
    · exact notQuote (List.cons.inj same).1
    · exact absurd (List.cons.inj same).1 (by decide)

theorem quoted_text (value : String) : (quoteString value).toList =
    '\'' :: (value.toList.flatMap quoteChar ++ ['\'']) := by
  simp only [quoteString, String.toList_append, String.toList_ofList]
  rfl

/-- A string in single quotes shows which string it is, whatever follows. -/
theorem quoted_unique {value another : String}
    (same : (quoteString value).toList ++ rest = (quoteString another).toList ++ other) :
    value = another ∧ rest = other := by
  rw [quoted_text, quoted_text, List.cons_append, List.cons_append] at same
  simp only [List.append_assoc, List.singleton_append] at same
  obtain ⟨characters, rests⟩ := escaped_unique quote_escape (List.cons.inj same).2
  exact ⟨String.toList_inj.mp characters, rests⟩

end EntitySchema.UniqueReading
