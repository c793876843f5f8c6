import EntitySchema.Proofs.NumberText
import EntitySchema.Proofs.UniqueReading

/-! Compact documents are unambiguous. The first character of a text tells its
kind, strings end at their own quote, and lists and objects at their own
bracket; only a number ends because something else begins. So a document that
is followed by anything but more of a number is read in one way only. -/
namespace EntitySchema.JsonText
open NumberText UniqueReading

variable {rest other : List Char}

/-- Documents are built from the documents inside them. -/
theorem json_induction {motive : Json → Prop} (null : motive .null)
    (bool : ∀ value, motive (.bool value)) (num : ∀ value, motive (.num value))
    (str : ∀ value, motive (.str value))
    (arr : ∀ items, (∀ item ∈ items, motive item) → motive (.arr items))
    (obj : ∀ fields, (∀ entry ∈ fields, motive entry.2) → motive (.obj fields)) (value : Json) :
    motive value := by
  induction size : sizeOf value using Nat.strong_induction_on generalizing value with
  | _ bound ih =>
    cases value with
    | null => exact null
    | bool value => exact bool value
    | num value => exact num value
    | str value => exact str value
    | arr items =>
      refine arr items fun item member => ih (sizeOf item) ?_ item rfl
      have smaller := List.sizeOf_lt_of_mem member
      simp only [Json.arr.sizeOf_spec] at size
      omega
    | obj fields =>
      refine obj fields fun entry member => ih (sizeOf entry.2) ?_ entry.2 rfl
      have smaller := List.sizeOf_lt_of_mem member
      have inner : sizeOf entry.2 < sizeOf entry := by
        cases entry
        simp only [Prod.mk.sizeOf_spec]
        omega
      simp only [Json.obj.sizeOf_spec] at size
      omega

/-- The character that a letter behind a backslash stands for. -/
def unescapeChar : Char → Char
  | 'n' => '\n'
  | 'r' => '\r'
  | 't' => '\t'
  | 'b' => '\x08'
  | 'f' => '\x0c'
  | c => c

private theorem escapeChar_shown (c : Char) :
    Json.escapeChar false c = [c] ∧ c ≠ '\\' ∧ c ≠ '"' ∨
      (∃ letter, Json.escapeChar false c = ['\\', letter] ∧ letter ≠ 'u' ∧
        unescapeChar letter = c) ∨
      Json.escapeChar false c = '\\' :: 'u' :: Json.hex4 c.toNat ∧ c.toNat < 32 := by
  unfold Json.escapeChar
  split_ifs with quote slash newline carriage tab backspace feed control
  · exact .inr (.inl ⟨'"', rfl, by decide, quote.symm⟩)
  · exact .inr (.inl ⟨'\\', rfl, by decide, slash.symm⟩)
  · exact .inr (.inl ⟨'n', rfl, by decide, newline.symm⟩)
  · exact .inr (.inl ⟨'r', rfl, by decide, carriage.symm⟩)
  · exact .inr (.inl ⟨'t', rfl, by decide, tab.symm⟩)
  · exact .inr (.inl ⟨'b', rfl, by decide, backspace.symm⟩)
  · exact .inr (.inl ⟨'f', rfl, by decide, feed.symm⟩)
  · simp only [Bool.false_and, Bool.or_false, decide_eq_true_eq] at control
    refine .inr (.inr ⟨?_, control⟩)
    simp [Json.numberEscape, show c.toNat < 65536 by omega]
  · exact .inl ⟨rfl, slash, quote⟩

private theorem hex4_unique {first second : Nat} (small : first < 32) (otherSmall : second < 32)
    (same : Json.hex4 first ++ rest = Json.hex4 second ++ other) : first = second := by
  have length : ∀ n < 32, (Json.hex4 n).length = 4 := by decide
  have distinct : ∀ m < 32, ∀ n < 32, Json.hex4 m = Json.hex4 n → m = n := by decide
  have widths : (Json.hex4 first).length = (Json.hex4 second).length := by
    rw [length first small, length second otherSmall]
  exact distinct first small second otherSmall (List.append_inj same widths).1

private theorem json_escape : Escape '"' (Json.escapeChar false) where
  distinct := by
    intro c d rest other same
    rcases escapeChar_shown c with ⟨shown, notSlash, _⟩ | ⟨letter, shown, notU, meant⟩ |
        ⟨shown, small⟩ <;>
      rcases escapeChar_shown d with ⟨otherShown, otherSlash, _⟩ |
        ⟨otherLetter, otherShown, otherU, otherMeant⟩ | ⟨otherShown, otherSmall⟩ <;>
      rw [shown, otherShown] at same
    · exact (List.cons.inj same).1
    · exact absurd (List.cons.inj same).1 notSlash
    · exact absurd (List.cons.inj same).1 notSlash
    · exact absurd (List.cons.inj same).1.symm otherSlash
    · rw [← meant, ← otherMeant, (List.cons.inj (List.cons.inj same).2).1]
    · exact absurd (List.cons.inj (List.cons.inj same).2).1 notU
    · exact absurd (List.cons.inj same).1.symm otherSlash
    · exact absurd (List.cons.inj (List.cons.inj same).2).1.symm otherU
    · exact Char.toNat_inj.mp (hex4_unique small otherSmall (List.cons.inj (List.cons.inj same).2).2)
  unquoted := by
    intro c rest other same
    rcases escapeChar_shown c with ⟨shown, _, notQuote⟩ | ⟨letter, shown, _⟩ | ⟨shown, _⟩ <;>
      rw [shown] at same
    · exact notQuote (List.cons.inj same).1
    · exact absurd (List.cons.inj same).1 (by decide)
    · exact absurd (List.cons.inj same).1 (by decide)

theorem string_text (value : String) : (Json.renderString false value).toList =
    '"' :: (value.toList.flatMap (Json.escapeChar false) ++ ['"']) := by
  simp only [Json.renderString, String.toList_append, String.toList_ofList]
  rfl

private theorem string_unique {value another : String}
    (same : (Json.renderString false value).toList ++ rest =
      (Json.renderString false another).toList ++ other) : value = another ∧ rest = other := by
  rw [string_text, string_text, List.cons_append, List.cons_append] at same
  simp only [List.append_assoc, List.singleton_append] at same
  obtain ⟨characters, rests⟩ := escaped_unique json_escape (List.cons.inj same).2
  exact ⟨String.toList_inj.mp characters, rests⟩

/-- The kind of document that a first character announces, counted as the
constructors are; no document starts with any other character. -/
def announced (c : Char) : Nat :=
  if c = 'n' then 0
  else if c = 't' || c = 'f' then 1
  else if c.isDigit || c = '-' || c = 'N' || c = 'I' then 2
  else if c = '"' then 3
  else if c = '[' then 4
  else if c = '\x7b' then 5
  else 6

theorem items_text (items : List Json) : (Json.arr items).render.toList =
    '[' :: ([','].intercalate (items.map fun item => item.render.toList) ++ [']']) := by
  have texts : Json.renderItems items = items.map Json.render := by
    induction items with
    | nil => rfl
    | cons item more ih => rw [Json.renderItems, ih, List.map_cons]
  simp only [Json.render, texts, String.toList_append, String.toList_intercalate, List.map_map]
  rfl

/-- A field as an object shows it. -/
def fieldText (entry : String × Json) : List Char :=
  (Json.renderString false entry.1).toList ++ ':' :: entry.2.render.toList

theorem fields_text (fields : List (String × Json)) : (Json.obj fields).render.toList =
    '\x7b' :: ([','].intercalate (fields.map fieldText) ++ ['\x7d']) := by
  have texts : (Json.renderFields fields).map String.toList = fields.map fieldText := by
    induction fields with
    | nil => rfl
    | cons entry more ih =>
      rw [Json.renderFields, List.map_cons, List.map_cons, ih, String.toList_append,
        String.toList_append, fieldText, List.append_assoc]
      rfl
  simp only [Json.render, String.toList_append, String.toList_intercalate, texts]
  rfl

/-- The first character of a text tells the kind of the document. -/
theorem render_starts (value : Json) :
    ∃ c more, value.render.toList = c :: more ∧ announced c = value.ctorIdx := by
  cases value with
  | null => exact ⟨'n', _, rfl, rfl⟩
  | bool value => cases value <;> exact ⟨_, _, rfl, rfl⟩
  | num value =>
    obtain ⟨c, more, starts, head⟩ := unsigned_head value
    have text := render_signed value
    rw [starts] at text
    simp only [Json.render]
    split at text
    · exact ⟨'-', _, text, rfl⟩
    · refine ⟨c, _, text, ?_⟩
      rcases head with digit | rfl | rfl
      · have notN : c ≠ 'n' := by rintro rfl; cases digit
        have notT : c ≠ 't' := by rintro rfl; cases digit
        have notF : c ≠ 'f' := by rintro rfl; cases digit
        simp [announced, notN, notT, notF, digit, Json.ctorIdx]
      · rfl
      · rfl
  | str value =>
    simp only [Json.render, string_text]
    exact ⟨'"', _, rfl, rfl⟩
  | arr items =>
    rw [items_text]
    exact ⟨'[', _, rfl, rfl⟩
  | obj fields =>
    rw [fields_text]
    exact ⟨'\x7b', _, rfl, rfl⟩

theorem kind_known (value : Json) : value.ctorIdx ≠ 6 := by
  cases value <;> simp [Json.ctorIdx]

theorem render_kind {value another : Json}
    (same : value.render.toList ++ rest = another.render.toList ++ other) :
    value.ctorIdx = another.ctorIdx := by
  obtain ⟨c, more, starts, kind⟩ := render_starts value
  obtain ⟨d, further, otherStarts, otherKind⟩ := render_starts another
  rw [starts, otherStarts] at same
  rw [← kind, ← otherKind, (List.cons.inj same).1]

theorem render_not_starts {value : Json} {c : Char} (never : announced c = 6) :
    value.render.toList ++ rest ≠ c :: other := by
  intro same
  obtain ⟨d, more, starts, kind⟩ := render_starts value
  rw [starts] at same
  rw [(List.cons.inj same).1, never] at kind
  exact kind_known value kind.symm

/-- A document followed by anything that does not go on a number is read in one
way only. -/
theorem json_unique {value another : Json} (stops : Stops isNumberChar rest)
    (otherStops : Stops isNumberChar other)
    (same : value.render.toList ++ rest = another.render.toList ++ other) :
    value = another ∧ rest = other := by
  have kind := render_kind same
  have comma : ∀ rest, Stops isNumberChar ([','] ++ rest) := by
    rintro rest c ⟨⟩
    rfl
  induction value using json_induction generalizing another rest other with
  | null =>
    cases another <;> cases kind
    exact ⟨rfl, List.append_cancel_left same⟩
  | bool value =>
    cases another <;> cases kind
    rename_i otherValue
    cases value <;> cases otherValue
    · exact ⟨rfl, List.append_cancel_left same⟩
    · exact absurd (List.cons.inj same).1 (by decide)
    · exact absurd (List.cons.inj same).1 (by decide)
    · exact ⟨rfl, List.append_cancel_left same⟩
  | num value =>
    cases another <;> cases kind
    simp only [Json.render] at same
    obtain ⟨texts, rests⟩ := run_unique (render_chars _) (render_chars _) stops otherStops same
    exact ⟨by rw [render_unique (String.toList_inj.mp texts)], rests⟩
  | str value =>
    cases another <;> cases kind
    simp only [Json.render] at same
    obtain ⟨rfl, rests⟩ := string_unique same
    exact ⟨rfl, rests⟩
  | arr items ih =>
    cases another <;> cases kind
    rw [items_text, items_text, List.cons_append, List.cons_append] at same
    simp only [List.append_assoc, List.singleton_append] at same
    obtain ⟨items, rests⟩ := enclosed_unique id (Stops isNumberChar)
      (fun item member another _ rest other ends otherEnds same =>
        ih item member ends otherEnds same (render_kind same))
      comma (by rintro rest c ⟨⟩; rfl) (by simp) (fun _ _ _ _ => render_not_starts rfl)
      (List.cons.inj same).2
    simp only [List.map_id] at items
    exact ⟨by rw [items], rests⟩
  | obj fields ih =>
    cases another <;> cases kind
    rw [fields_text, fields_text, List.cons_append, List.cons_append] at same
    simp only [List.append_assoc, List.singleton_append] at same
    obtain ⟨fields, rests⟩ := enclosed_unique id (Stops isNumberChar)
      (by
        rintro ⟨name, held⟩ member ⟨otherName, otherHeld⟩ _ rest other ends otherEnds same
        simp only [fieldText, List.append_assoc] at same
        obtain ⟨rfl, tails⟩ := string_unique same
        have values := (List.cons.inj tails).2
        obtain ⟨rfl, rests⟩ := ih _ member ends otherEnds values (render_kind values)
        exact ⟨rfl, rests⟩)
      comma (by rintro rest c ⟨⟩; rfl) (by simp)
      (by simp [fieldText, string_text]) (List.cons.inj same).2
    simp only [List.map_id] at fields
    exact ⟨by rw [fields], rests⟩

private theorem numberChar_printable {c : Char} (number : isNumberChar c = true) :
    32 ≤ c.toNat := by
  unfold isNumberChar at number
  rw [Bool.or_eq_true] at number
  rcases number with digit | other
  · have least : '0'.toNat ≤ c.toNat := (Char.isDigit_iff_toNat.mp digit).1
    exact Nat.le_trans (by decide) least
  · have printable : ∀ d ∈ "-+.eNaInfity".toList, 32 ≤ d.toNat := by simp
    exact printable c (List.contains_iff_mem.mp other)

private theorem escapeChar_printable (c : Char) : ∀ d ∈ Json.escapeChar false c, 32 ≤ d.toNat := by
  have letters : ∀ letter ∈ ['"', '\\', 'n', 'r', 't', 'b', 'f'],
      ∀ d ∈ ['\\', letter], 32 ≤ d.toNat := by simp
  unfold Json.escapeChar
  split_ifs with quote slash newline carriage tab backspace feed control
  · exact letters '"' (by simp)
  · exact letters '\\' (by simp)
  · exact letters 'n' (by simp)
  · exact letters 'r' (by simp)
  · exact letters 't' (by simp)
  · exact letters 'b' (by simp)
  · exact letters 'f' (by simp)
  · have digits : (List.range 32).all (fun n =>
        ('\\' :: 'u' :: Json.hex4 n).all fun d => 32 ≤ d.toNat) = true := by rfl
    simp only [Bool.false_and, Bool.or_false, decide_eq_true_eq] at control
    simp only [List.all_eq_true, List.mem_range, decide_eq_true_eq] at digits
    simp only [Json.numberEscape, show c.toNat < 65536 by omega, ↓reduceIte]
    exact digits c.toNat control
  · simp only [Bool.false_and, Bool.or_false, decide_eq_true_eq] at control
    simpa using control

private theorem joined_printable {texts : List (List Char)}
    (each : ∀ text ∈ texts, ∀ c ∈ text, 32 ≤ c.toNat) :
    ∀ c ∈ [','].intercalate texts, 32 ≤ c.toNat := by
  induction texts with
  | nil => simp
  | cons text more ih =>
    obtain ⟨first, others⟩ := List.forall_mem_cons.mp each
    cases more with
    | nil => simpa using first
    | cons next later =>
      intro c member
      rw [List.intercalate_cons_cons, List.mem_append, List.mem_append] at member
      rcases member with (head | comma) | tail
      · exact first c head
      · cases List.mem_singleton.mp comma
        decide
      · exact ih others c tail

private theorem enclosed_printable {opening closing : Char} {body : List Char}
    (opens : 32 ≤ opening.toNat) (closes : 32 ≤ closing.toNat)
    (inside : ∀ c ∈ body, 32 ≤ c.toNat) :
    ∀ c ∈ opening :: (body ++ [closing]), 32 ≤ c.toNat := by
  intro c member
  simp only [List.mem_cons, List.mem_append, List.not_mem_nil, or_false] at member
  rcases member with rfl | inner | rfl
  · exact opens
  · exact inside c inner
  · exact closes

private theorem string_printable (value : String) :
    ∀ c ∈ (Json.renderString false value).toList, 32 ≤ c.toNat := by
  rw [string_text]
  apply enclosed_printable (by decide) (by decide)
  intro c member
  obtain ⟨d, _, shown⟩ := List.mem_flatMap.mp member
  exact escapeChar_printable d c shown

/-- A compact document has no control character, so it is all on one line. -/
theorem render_printable (value : Json) : ∀ c ∈ value.render.toList, 32 ≤ c.toNat := by
  induction value using json_induction with
  | null => simp [Json.render]
  | bool value => cases value <;> simp [Json.render]
  | num value => exact fun c member => numberChar_printable (render_chars value c member)
  | str value => exact string_printable value
  | arr items ih =>
    rw [items_text]
    apply enclosed_printable (by decide) (by decide)
    apply joined_printable
    intro text member
    obtain ⟨item, listed, rfl⟩ := List.mem_map.mp member
    exact ih item listed
  | obj fields ih =>
    rw [fields_text]
    apply enclosed_printable (by decide) (by decide)
    apply joined_printable
    intro text member
    obtain ⟨entry, listed, rfl⟩ := List.mem_map.mp member
    intro c inside
    rw [fieldText, List.mem_append, List.mem_cons] at inside
    rcases inside with name | rfl | held
    · exact string_printable entry.1 c name
    · decide
    · exact ih entry listed c held

end EntitySchema.JsonText
