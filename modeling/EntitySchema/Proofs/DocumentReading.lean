import EntitySchema.Proofs.DistinctNames
import EntitySchema.Proofs.JsonText

/-! Compact documents are read back. A writer without blanks may spell strings as
it likes, as long as what stands between the quotes is read as the string; with
numbers in full and marks between items, the reader finds the end of each part
where it was written and rebuilds the document. Left out are doubles, integers
beyond the limit of digits and objects that have a name twice. -/
namespace EntitySchema.DocumentReading
open Json Json.Reader Anchoring DistinctNames JsonText NumberText

variable {rest : List Char}

section Strings

/-- A piece of a string's text that is read as one character. -/
inductive Shows : List Char → Char → Prop where
  | plain {c : Char} (printable : 32 ≤ c.toNat) (notQuote : c ≠ '"') (notSlash : c ≠ '\\') :
    Shows [c] c
  | letter {letter c : Char} (meant : simpleEscape? letter = some c) : Shows ['\\', letter] c
  | number {first second third fourth : Char} {n : Nat}
    (digits : hexValue4? first second third fourth = some n)
    (single : Text.isHighSurrogate n = false) :
    Shows ['\\', 'u', first, second, third, fourth] (Text.charOf n)

/-- Text between quotes and the characters it stands for. -/
inductive Spells : List Char → List Char → Prop where
  | nothing : Spells [] []
  | piece {shown body characters : List Char} {c : Char} (shows : Shows shown c)
    (inner : Spells body characters) : Spells (shown ++ body) (c :: characters)

/-- A numbered escape is read only when something follows it, and the closing
quote always does. -/
private theorem stringBody_piece {shown : List Char} {c : Char} (shows : Shows shown c)
    (opening done : List Char) {more : List Char} (follows : more ≠ []) :
    stringBody opening 0 done (shown ++ more) = stringBody opening 0 (c :: done) more := by
  obtain ⟨next, after, rfl⟩ := List.exists_cons_of_ne_nil follows
  cases shows with
  | plain printable notQuote notSlash =>
    rw [List.singleton_append, stringBody]
    simp only [notQuote, notSlash, ↓reduceIte, Nat.not_lt.mpr printable]
  | letter meant =>
    rename_i letter
    have notNumber : letter ≠ 'u' := by
      rintro rfl
      cases meant
    rw [List.cons_append, List.singleton_append, stringBody]
    simp only [meant, notNumber, ↓reduceIte, stringBody]
    rfl
  | number digits single =>
    simp only [List.cons_append, List.nil_append]
    rw [stringBody]
    simp only [unicodeEscape, digits, single, ↓reduceIte, stringBody]
    rfl

theorem stringBody_spelled {body characters : List Char} (spells : Spells body characters)
    (opening done rest : List Char) :
    stringBody opening 0 done (body ++ '"' :: rest) =
      .ok (String.ofList (done.reverse ++ characters), rest) := by
  induction spells generalizing done with
  | nothing => simp [stringBody]
  | piece shows inner ih =>
    rw [List.append_assoc, stringBody_piece shows opening done (by simp), ih]
    simp

end Strings

section Numbers

/-- What may follow a part of a document: nothing, a comma or a closing bracket. -/
def Ends (rest : List Char) : Prop :=
  ∀ c ∈ rest.head?, c = ',' ∨ c = ']' ∨ c = '\x7d'

private theorem ends_not_digit (ends : Ends rest) : ∀ c ∈ rest.head?, isDigit c = false := by
  intro c starts
  rcases ends c starts with rfl | rfl | rfl <;> rfl

private theorem fraction_ends (ends : Ends rest) : fractionPart rest = ([], rest) := by
  cases rest with
  | nil => rfl
  | cons c more => rcases ends c rfl with rfl | rfl | rfl <;> rfl

private theorem exponent_ends (ends : Ends rest) : exponentPart rest = (none, rest) := by
  cases rest with
  | nil => rfl
  | cons c more => rcases ends c rfl with rfl | rfl | rfl <;> rfl

private theorem digits_isDigit (n : Nat) : ∀ c ∈ Nat.toDigits 10 n, isDigit c = true :=
  fun _ member => Nat.isDigit_of_mem_toDigits (by decide) (by decide) member

private theorem digits_filled (n : Nat) :
    ∃ c more, Nat.toDigits 10 n = c :: more ∧ isDigit c = true := by
  obtain ⟨c, more, starts⟩ := List.exists_cons_of_ne_nil (Nat.toDigits_ne_nil (n := n))
  exact ⟨c, more, starts, digits_isDigit n c (by simp [starts])⟩

/-- The digits of a number start with a zero only if it is all of them. -/
private theorem digits_start {n : Nat} (positive : 0 < n) :
    ∃ c more, Nat.toDigits 10 n = c :: more ∧ c ≠ '0' := by
  induction n using Nat.strong_induction_on with
  | _ n ih =>
    by_cases single : n < 10
    · refine ⟨n.digitChar, [], Nat.toDigits_of_lt_base single, ?_⟩
      have apart : ∀ digit < 10, 0 < digit → digit.digitChar ≠ '0' := by decide
      exact apart n single positive
    · obtain ⟨c, more, starts, notZero⟩ := ih (n / 10) (by omega) (by omega)
      rw [Nat.toDigits_of_base_le (by decide) (by omega), starts]
      exact ⟨c, _, rfl, notZero⟩

private theorem integerPart_digits (n : Nat) (ends : Ends rest) :
    integerPart? (Nat.toDigits 10 n ++ rest) = some (Nat.toDigits 10 n, rest) := by
  rcases Nat.eq_zero_or_pos n with rfl | positive
  · rfl
  · have stops : rest.takeWhile isDigit = [] ∧ rest.dropWhile isDigit = rest := by
      cases rest with
      | nil => exact ⟨rfl, rfl⟩
      | cons c more =>
        have other := ends_not_digit ends c rfl
        simp [other]
    have digits := digits_isDigit n
    have taken : (Nat.toDigits 10 n ++ rest).takeWhile isDigit = Nat.toDigits 10 n := by
      rw [List.takeWhile_append_of_pos digits, stops.1, List.append_nil]
    have dropped : (Nat.toDigits 10 n ++ rest).dropWhile isDigit = rest := by
      rw [List.dropWhile_append_of_pos digits, stops.2]
    obtain ⟨c, more, starts, notZero⟩ := digits_start positive
    have digit : isDigit c = true := digits c (by simp [starts])
    rw [starts, List.cons_append] at taken dropped ⊢
    rw [integerPart?, if_neg notZero, if_pos digit, taken, dropped]

private theorem digitsValue_digits (n : Nat) : digitsValue (Nat.toDigits 10 n) = n := by
  rw [digitsValue, Text.ofDigits, List.foldl_map, ← Nat.ofDigitChars_eq_foldl,
    Nat.ofDigitChars_ten_toDigits]

/-- A number that is not too long is read as the number it is. -/
private theorem number_read {n : Int}
    (short : (Nat.toDigits 10 n.natAbs).length ≤ Number.digitLimit) (ends : Ends rest) :
    number (((Num.int n).render numberLayout).toList ++ rest) = .ok (.num (.int n), rest) := by
  obtain ⟨c, more, starts, digit⟩ := digits_filled n.natAbs
  have notMinus : c ≠ '-' := by
    rintro rfl
    cases digit
  have whole := integerPart_digits n.natAbs ends
  rw [render_signed]
  simp only [isSigned, unsigned, decide_eq_true_eq]
  by_cases negative : n < 0
  · have value : -(n.natAbs : Int) = n := by omega
    rw [if_pos negative, List.singleton_append, List.cons_append]
    simp only [number, List.head?_cons, BEq.rfl, ↓reduceIte, List.drop_succ_cons, List.drop_zero,
      whole, fraction_ends ends, exponent_ends ends, List.isEmpty_nil, Option.isNone_none,
      Bool.and_self, Nat.not_lt.mpr short, digitsValue_digits, value]
  · have value : (n.natAbs : Int) = n := by omega
    have unmarked : ((Nat.toDigits 10 n.natAbs ++ rest).head? == some '-') = false := by
      simp [starts, notMinus]
    rw [if_neg negative, List.nil_append]
    simp only [number, unmarked, Bool.false_eq_true, ↓reduceIte, whole, fraction_ends ends,
      exponent_ends ends, List.isEmpty_nil, Option.isNone_none, Bool.and_self,
      Nat.not_lt.mpr short, digitsValue_digits, value]

/-- No word starts with a digit, or with a minus sign and a digit. -/
private theorem words_missed (n : Int) (rest : List Char) :
    words.find? (fun word => word.1.isPrefixOf (((Num.int n).render numberLayout).toList ++ rest)) =
      none := by
  obtain ⟨c, more, starts, digit⟩ := digits_filled n.natAbs
  have apart : ∀ letter, isDigit letter = false → letter ≠ c := by
    rintro letter other rfl
    rw [other] at digit
    cases digit
  rw [render_signed, unsigned, starts]
  split
  · simp [words, apart 'I' rfl]
  · simp [words, apart 'n' rfl, apart 't' rfl, apart 'f' rfl, apart 'N' rfl, apart 'I' rfl,
      apart '-' rfl]

end Numbers

/-- A way of writing documents without blanks. Strings may be spelled in any way
that is read as the string. -/
structure Compact (write : Json → List Char) : Prop where
  null : write .null = Json.null.render.toList
  bool : ∀ value, write (.bool value) = (Json.bool value).render.toList
  num : ∀ number, write (.num number) = (Json.num number).render.toList
  str : ∀ text, ∃ body, write (.str text) = '"' :: (body ++ ['"']) ∧ Spells body text.toList
  arr : ∀ items, write (.arr items) = '[' :: ([','].intercalate (items.map write) ++ [']'])
  obj : ∀ fields, write (.obj fields) = '\x7b' :: ([','].intercalate
    (fields.map fun entry => write (.str entry.1) ++ ':' :: write entry.2) ++ ['\x7d'])

/-- Documents that are read back: no object has a name twice, and all numbers are
integers within the limit of digits. -/
structure Readable (document : Json) : Prop where
  distinct : Distinct document
  numbers : ∀ number, Inside (.num number) document →
    ∃ n : Int, number = .int n ∧ (Nat.toDigits 10 n.natAbs).length ≤ Number.digitLimit

private theorem readable_inside {part whole : Json} (readable : Readable whole)
    (inside : Inside part whole) : Readable part :=
  ⟨distinct_inside readable.distinct inside, fun number inner =>
    readable.numbers number (inside_trans inner inside)⟩

@[simp] theorem readable_null : Readable .null :=
  ⟨by rintro fields ⟨⟩, by rintro number ⟨⟩⟩

@[simp] theorem readable_bool (value : Bool) : Readable (.bool value) :=
  ⟨by rintro fields ⟨⟩, by rintro number ⟨⟩⟩

@[simp] theorem readable_str (text : String) : Readable (.str text) :=
  ⟨by rintro fields ⟨⟩, by rintro number ⟨⟩⟩

@[simp] theorem readable_num {number : Num} : Readable (.num number) ↔
    ∃ n : Int, number = .int n ∧ (Nat.toDigits 10 n.natAbs).length ≤ Number.digitLimit := by
  constructor
  · exact fun readable => readable.numbers number .self
  · intro whole
    refine ⟨by rintro fields ⟨⟩, ?_⟩
    rintro _ ⟨⟩
    exact whole

@[simp] theorem readable_arr {items : List Json} :
    Readable (.arr items) ↔ ∀ item ∈ items, Readable item := by
  constructor
  · exact fun readable item member => readable_inside readable (.item member .self)
  · intro each
    refine ⟨distinct_arr.mpr fun item member => (each item member).distinct, ?_⟩
    intro number inside
    cases inside with
    | item member inner => exact (each _ member).numbers number inner

@[simp] theorem readable_obj {fields : List (String × Json)} :
    Readable (.obj fields) ↔
      (Entries.names fields).Nodup ∧ ∀ entry ∈ fields, Readable entry.2 := by
  constructor
  · exact fun readable => ⟨readable.distinct fields .self, fun entry member =>
      readable_inside readable (.field member .self)⟩
  · rintro ⟨names, each⟩
    refine ⟨distinct_obj.mpr ⟨names, fun entry member => (each entry member).distinct⟩, ?_⟩
    intro number inside
    cases inside with
    | field member inner => exact (each _ member).numbers number inner

section Documents

variable {write : Json → List Char}

/-- What is written starts as documents do. -/
theorem compact_starts (compact : Compact write) (document : Json) :
    ∃ c more, write document = c :: more ∧ announced c = document.ctorIdx := by
  cases document with
  | null =>
    rw [compact.null]
    exact render_starts .null
  | bool value =>
    rw [compact.bool]
    exact render_starts (.bool value)
  | num number =>
    rw [compact.num]
    exact render_starts (.num number)
  | str text =>
    obtain ⟨body, written, _⟩ := compact.str text
    exact ⟨'"', _, written, rfl⟩
  | arr items => exact ⟨'[', _, compact.arr items, rfl⟩
  | obj fields => exact ⟨'\x7b', _, compact.obj fields, rfl⟩

/-- Nothing is skipped in front of a document, and it is no closing bracket. -/
private theorem compact_visible (compact : Compact write) (document : Json) (rest : List Char) :
    skip (write document ++ rest) = write document ++ rest ∧
      ∀ more, write document ++ rest ≠ ']' :: more := by
  obtain ⟨c, tail, starts, kind⟩ := compact_starts compact document
  have known : announced c ≠ 6 := kind ▸ kind_known document
  constructor
  · have visible : isSpace c = false := by
      simp only [isSpace, Bool.or_eq_false_iff, beq_eq_false_iff_ne]
      refine ⟨⟨⟨?_, ?_⟩, ?_⟩, ?_⟩ <;> (rintro rfl; exact known rfl)
    simp [starts, skip, visible]
  · rintro more same
    rw [starts] at same
    rw [(List.cons.inj same).1] at known
    exact known rfl

/-- The document is read from the front of any text, with fuel for twice its
length. -/
private def ReadsBack (write : Json → List Char) (document : Json) : Prop :=
  ∀ fuel rest, Ends rest → 2 * (write document).length ≤ fuel →
    value fuel (write document ++ rest) = .ok (document, rest)

private theorem value_scalar {c : Char} (kind : announced c < 3) (fuel : Nat) (s : List Char) :
    value (fuel + 1) (c :: s) = scalar (c :: s) := by
  rw [value]
  · rintro rest ⟨⟩
    exact absurd kind (by decide)
  · rintro rest ⟨⟩
    exact absurd kind (by decide)
  · rintro rest ⟨⟩
    exact absurd kind (by decide)

private theorem scalar_reads {document : Json} {text : List Char} (kind : document.ctorIdx < 3)
    (written : write document = text) (compact : Compact write)
    (read : ∀ rest, Ends rest → scalar (text ++ rest) = .ok (document, rest)) :
    ReadsBack write document := by
  intro fuel rest ends enough
  obtain ⟨c, more, starts, same⟩ := compact_starts compact document
  obtain ⟨fuel, rfl⟩ : ∃ less, fuel = less + 1 :=
    ⟨fuel - 1, by rw [starts, List.length_cons] at enough; omega⟩
  rw [← read rest ends, ← written, starts, List.cons_append, value_scalar (same ▸ kind)]

/-- An array that is not closed at once is read item by item. -/
private theorem value_array {fuel : Nat} {inner rest : List Char} {found : List Json}
    (visible : skip inner = inner) (opens : ∀ more, inner ≠ ']' :: more)
    (read : items fuel [] inner = .ok (found, rest)) :
    value (fuel + 1) ('[' :: inner) = .ok (.arr found, rest) := by
  rw [value, visible]
  split
  · rename_i more
    exact absurd rfl (opens more)
  · rw [read]

/-- An object that is not closed at once is read field by field. -/
private theorem value_object {fuel : Nat} {inner rest : List Char} {found : List (String × Json)}
    (visible : skip inner = inner) (opens : ∀ more, inner ≠ '\x7d' :: more)
    (read : fields fuel [] inner = .ok (found, rest)) :
    value (fuel + 1) ('\x7b' :: inner) = .ok (.obj found, rest) := by
  rw [value, visible]
  split
  · rename_i more
    exact absurd rfl (opens more)
  · rw [read]

private theorem string_reads (compact : Compact write) (text : String) :
    ReadsBack write (.str text) := by
  intro fuel rest _ enough
  obtain ⟨body, written, spells⟩ := compact.str text
  rw [written] at enough ⊢
  obtain ⟨fuel, rfl⟩ : ∃ less, fuel = less + 1 :=
    ⟨fuel - 1, by rw [List.length_cons] at enough; omega⟩
  rw [List.cons_append, List.append_assoc, List.singleton_append, value,
    stringBody_spelled spells]
  simp

/-- What is joined starts as the first of it does. -/
private theorem joined_starts (first : List Char) (others : List (List Char)) (rest : List Char) :
    ∃ more, [','].intercalate (first :: others) ++ rest = first ++ more := by
  cases others with
  | nil => exact ⟨rest, by simp⟩
  | cons next later =>
    rw [List.intercalate_cons_cons, List.append_assoc, List.append_assoc]
    exact ⟨_, rfl⟩

private theorem items_visible (compact : Compact write) (item : Json) (more : List Json)
    (rest : List Char) :
    skip ([','].intercalate ((item :: more).map write) ++ rest) =
        [','].intercalate ((item :: more).map write) ++ rest ∧
      ∀ after, [','].intercalate ((item :: more).map write) ++ rest ≠ ']' :: after := by
  obtain ⟨tail, same⟩ := joined_starts (write item) (more.map write) rest
  rw [List.map_cons, same]
  exact compact_visible compact item tail

private theorem items_read (compact : Compact write) {list : List Json}
    (each : ∀ item ∈ list, ReadsBack write item) (filled : list ≠ []) (fuel : Nat)
    (done : List Json) (rest : List Char)
    (enough : 2 * ([','].intercalate (list.map write)).length + 1 ≤ fuel) :
    items fuel done ([','].intercalate (list.map write) ++ ']' :: rest) =
      .ok (done.reverse ++ list, rest) := by
  -- An item and its comma free fuel for two, of which entering the next takes one.
  induction list generalizing fuel done with
  | nil => exact absurd rfl filled
  | cons item more ih =>
    obtain ⟨first, others⟩ := List.forall_mem_cons.mp each
    obtain ⟨fuel, rfl⟩ : ∃ less, fuel = less + 1 := ⟨fuel - 1, by omega⟩
    cases more with
    | nil =>
      simp only [List.map_cons, List.map_nil, List.intercalate_singleton] at enough ⊢
      rw [items, first fuel _ (by rintro c ⟨⟩; simp) (by omega)]
      simp [skip, isSpace]
    | cons next later =>
      rw [List.map_cons, List.map_cons, List.intercalate_cons_cons, ← List.map_cons] at enough ⊢
      simp only [List.length_append, List.length_singleton] at enough
      have comma : ∀ tail, skip (',' :: tail) = ',' :: tail := fun _ => rfl
      rw [List.append_assoc, List.append_assoc, List.singleton_append, items,
        first fuel _ (by rintro c ⟨⟩; simp) (by omega)]
      simp only [comma]
      rw [(items_visible compact next later _).1, ih others (by simp) fuel _ (by omega)]
      simp

private theorem array_reads (compact : Compact write) {list : List Json}
    (each : ∀ item ∈ list, ReadsBack write item) : ReadsBack write (.arr list) := by
  intro fuel rest _ enough
  rw [compact.arr] at enough ⊢
  simp only [List.length_cons, List.length_append, List.length_nil] at enough
  obtain ⟨fuel, rfl⟩ : ∃ less, fuel = less + 1 := ⟨fuel - 1, by omega⟩
  rw [List.cons_append, List.append_assoc, List.singleton_append]
  cases list with
  | nil => simp [value, skip, isSpace]
  | cons item more =>
    obtain ⟨same, notClosed⟩ := items_visible compact item more (']' :: rest)
    exact value_array same notClosed (items_read compact each (by simp) fuel [] rest (by omega))

/-- A field as a writer shows it. -/
private def fieldOf (write : Json → List Char) (entry : String × Json) : List Char :=
  write (.str entry.1) ++ ':' :: write entry.2

/-- A new name goes to the end. -/
private theorem put_fresh {name : String} {done : List (String × Json)} (found : Json)
    (fresh : name ∉ Entries.names done) :
    Entries.put name found done = done ++ [(name, found)] := by
  induction done with
  | nil => rfl
  | cons entry more ih =>
    simp only [Entries.names, List.map_cons, List.mem_cons, not_or] at fresh
    rw [Entries.put, if_neg (Ne.symm fresh.1), ih fresh.2, List.cons_append]

/-- One field is read and written into the fields before it; a brace ends them
and a comma goes on to the next. -/
private theorem field_read (compact : Compact write) {entry : String × Json}
    (reads : ReadsBack write entry.2) {fuel : Nat} (done : List (String × Json))
    (enough : 2 * (fieldOf write entry).length ≤ fuel) (rest : List Char) :
    fields (fuel + 1) done (fieldOf write entry ++ '\x7d' :: rest) =
        .ok (Entries.put entry.1 entry.2 done, rest) ∧
      fields (fuel + 1) done (fieldOf write entry ++ ',' :: rest) =
        fields fuel (Entries.put entry.1 entry.2 done) (skip rest) := by
  obtain ⟨body, written, spells⟩ := compact.str entry.1
  have shown : ∀ tail, fieldOf write entry ++ tail =
      '"' :: (body ++ '"' :: ':' :: (write entry.2 ++ tail)) := by
    intro tail
    simp [fieldOf, written]
  have name : ∀ tail, stringBody ('"' :: (body ++ '"' :: ':' :: tail)) 0 []
      (body ++ '"' :: ':' :: tail) = .ok (entry.1, ':' :: tail) := by
    intro tail
    rw [stringBody_spelled spells]
    simp
  have mark : ∀ c ∈ [':', ',', '\x7d'], ∀ tail, skip (c :: tail) = c :: tail := by
    simp [skip, isSpace]
  have short : (write entry.2).length ≤ (fieldOf write entry).length := by
    simp [fieldOf]
    omega
  have held : ∀ tail, Ends tail → value fuel (write entry.2 ++ tail) = .ok (entry.2, tail) :=
    fun tail ends => reads fuel tail ends (by omega)
  constructor
  · rw [shown, fields]
    simp only [name, mark ':' (by simp), (compact_visible compact _ _).1,
      held ('\x7d' :: rest) (by rintro c ⟨⟩; simp), mark '\x7d' (by simp)]
  · rw [shown, fields]
    simp only [name, mark ':' (by simp), (compact_visible compact _ _).1,
      held (',' :: rest) (by rintro c ⟨⟩; simp), mark ',' (by simp)]

private theorem fields_visible (compact : Compact write) (entry : String × Json)
    (more : List (String × Json)) (rest : List Char) :
    skip ([','].intercalate ((entry :: more).map (fieldOf write)) ++ rest) =
        [','].intercalate ((entry :: more).map (fieldOf write)) ++ rest ∧
      ∀ after, [','].intercalate ((entry :: more).map (fieldOf write)) ++ rest ≠
        '\x7d' :: after := by
  obtain ⟨tail, same⟩ := joined_starts (fieldOf write entry) (more.map (fieldOf write)) rest
  obtain ⟨body, written, _⟩ := compact.str entry.1
  rw [List.map_cons, same, fieldOf, written]
  exact ⟨rfl, by simp⟩

private theorem fields_read (compact : Compact write) {list : List (String × Json)}
    (each : ∀ entry ∈ list, ReadsBack write entry.2) (filled : list ≠ []) (fuel : Nat)
    (done : List (String × Json)) (distinct : (Entries.names (done ++ list)).Nodup)
    (rest : List Char)
    (enough : 2 * ([','].intercalate (list.map (fieldOf write))).length + 1 ≤ fuel) :
    fields fuel done ([','].intercalate (list.map (fieldOf write)) ++ '\x7d' :: rest) =
      .ok (done ++ list, rest) := by
  induction list generalizing fuel done with
  | nil => exact absurd rfl filled
  | cons entry more ih =>
    obtain ⟨first, others⟩ := List.forall_mem_cons.mp each
    obtain ⟨fuel, rfl⟩ : ∃ less, fuel = less + 1 := ⟨fuel - 1, by omega⟩
    have added : Entries.put entry.1 entry.2 done = done ++ [entry] := by
      apply put_fresh
      simp only [Entries.names, List.map_append, List.map_cons, List.nodup_append] at distinct
      exact fun present => distinct.2.2 _ present _ List.mem_cons_self rfl
    cases more with
    | nil =>
      simp only [List.map_cons, List.map_nil, List.intercalate_singleton] at enough ⊢
      rw [(field_read compact first done (by omega) rest).1, added]
    | cons next later =>
      rw [List.map_cons, List.map_cons, List.intercalate_cons_cons, ← List.map_cons] at enough ⊢
      simp only [List.length_append, List.length_singleton] at enough
      rw [List.append_assoc, List.append_assoc, List.singleton_append,
        (field_read compact first done (by omega) _).2, added,
        (fields_visible compact next later _).1]
      have placed : done ++ [entry] ++ next :: later = done ++ entry :: next :: later := by simp
      rw [ih others (by simp) fuel _ (by rwa [placed]) (by omega), placed]

private theorem object_reads (compact : Compact write) {list : List (String × Json)}
    (distinct : (Entries.names list).Nodup) (each : ∀ entry ∈ list, ReadsBack write entry.2) :
    ReadsBack write (.obj list) := by
  intro fuel rest _ enough
  have written : write (.obj list) =
      '\x7b' :: ([','].intercalate (list.map (fieldOf write)) ++ ['\x7d']) := compact.obj list
  rw [written] at enough ⊢
  simp only [List.length_cons, List.length_append, List.length_nil] at enough
  obtain ⟨fuel, rfl⟩ : ∃ less, fuel = less + 1 := ⟨fuel - 1, by omega⟩
  rw [List.cons_append, List.append_assoc, List.singleton_append]
  cases list with
  | nil => simp [value, skip, isSpace]
  | cons entry more =>
    obtain ⟨same, notClosed⟩ := fields_visible compact entry more ('\x7d' :: rest)
    exact value_object same notClosed
      (fields_read compact each (by simp) fuel [] distinct rest (by omega))

/-- Every readable document is read back from the front of a text. -/
private theorem document_reads (compact : Compact write) {document : Json}
    (readable : Readable document) : ReadsBack write document := by
  induction document using json_induction with
  | null => exact scalar_reads (by decide) compact.null compact fun rest _ => rfl
  | bool value =>
    refine scalar_reads (by simp [Json.ctorIdx]) (compact.bool value) compact fun rest _ => ?_
    cases value <;> rfl
  | num number =>
    obtain ⟨n, rfl, short⟩ := readable_num.mp readable
    refine scalar_reads (by simp [Json.ctorIdx]) (compact.num _) compact fun rest ends => ?_
    rw [Json.render, scalar, words_missed]
    exact number_read short ends
  | str text => exact string_reads compact text
  | arr items ih =>
    apply array_reads compact
    exact fun item member => ih item member (readable_arr.mp readable item member)
  | obj fields ih =>
    obtain ⟨distinct, each⟩ := readable_obj.mp readable
    apply object_reads compact distinct
    exact fun entry member => ih entry member (each entry member)

/-- **Compact documents are read back.** -/
theorem document_read (compact : Compact write) {document : Json} (readable : Readable document) :
    Reader.document (write document) = .ok document := by
  have ends : Ends [] := by
    rintro c ⟨⟩
  have visible := (compact_visible compact document []).1
  have read := document_reads compact readable (2 * (write document).length + 2) [] ends (by omega)
  rw [List.append_nil] at visible read
  rw [Reader.document, visible, read]
  rfl

end Documents

end EntitySchema.DocumentReading
