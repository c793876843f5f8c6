import EntitySchema.Json.Reader

/-! A document is no larger than the file it was read from. Every value takes
at least one character of its text and the values inside an array or object
take other characters than its brackets, so the values read and the characters
left over never outnumber the characters there were; and no encoding makes two
characters of one byte. -/
namespace EntitySchema.DocumentSize
open Json Json.Reader

/-- The values in what was read and the characters that are left are no more
than the characters there were. -/
def Fits (size : Nat) (rest s : List Char) : Prop :=
  size + rest.length ≤ s.length

private theorem skip_length (s : List Char) : (skip s).length ≤ s.length :=
  (List.dropWhile_suffix _).length_le

private theorem skipped {s rest : List Char} {c : Char} (next : skip s = c :: rest) :
    rest.length < s.length := by
  have shorter := skip_length s
  rw [next, List.length_cons] at shorter
  exact shorter

private theorem stringBody_length {opening done s rest : List Char} {left : Nat} {text : String}
    (read : stringBody opening left done s = .ok (text, rest)) : rest.length < s.length := by
  induction s generalizing left done with
  | nil => cases read
  | cons c tail ih =>
    have later {left : Nat} {done : List Char}
        (read : stringBody opening left done tail = .ok (text, rest)) :
        rest.length < (c :: tail).length := Nat.lt_succ_of_lt (ih read)
    rw [stringBody.eq_def] at read
    cases left with
    | succ left => exact later read
    | zero =>
      simp only at read
      split at read
      · cases read
        exact Nat.lt_succ_self _
      · split at read
        · split at read
          · cases read
          · split at read
            · split at read
              · cases read
              · exact later read
            · split at read
              · cases read
              · exact later read
        · split at read
          · cases read
          · exact later read

private theorem integerPart_length {s whole rest : List Char}
    (read : integerPart? s = some (whole, rest)) : rest.length < s.length := by
  cases s with
  | nil => cases read
  | cons c tail =>
    rw [integerPart?] at read
    split at read
    · cases read
      exact Nat.lt_succ_self _
    · split at read
      · rename_i digit
        cases read
        rw [List.dropWhile_cons_of_pos digit]
        exact Nat.lt_succ_of_le (List.dropWhile_suffix _).length_le
      · cases read

private theorem fractionPart_length (s : List Char) : (fractionPart s).2.length ≤ s.length := by
  unfold fractionPart
  split
  · simp only
    split
    · exact Nat.le_refl _
    · exact Nat.le_succ_of_le (List.dropWhile_suffix _).length_le
  · exact Nat.le_refl _

private theorem exponentPart_length (s : List Char) : (exponentPart s).2.length ≤ s.length := by
  cases s with
  | nil => exact Nat.le_refl _
  | cons mark rest =>
    simp only [exponentPart]
    generalize unsigned : (if (rest.head? == some '-' || rest.head? == some '+') = true
      then rest.drop 1 else rest) = digits
    have fewer : digits.length ≤ rest.length := by
      rw [← unsigned]
      split
      · simp
      · exact Nat.le_refl _
    split
    · split
      · exact Nat.le_refl _
      · have run : (digits.dropWhile isDigit).length ≤ digits.length :=
          (List.dropWhile_suffix _).length_le
        exact Nat.le_succ_of_le (Nat.le_trans run fewer)
    · exact Nat.le_refl _

private theorem number_fits {s rest : List Char} {found : Json}
    (read : number s = .ok (found, rest)) : Fits found.size rest s := by
  unfold number at read
  simp only at read
  split at read
  · cases read
  · rename_i whole afterWhole integer
    have unsigned : (if (s.head? == some '-') = true then s.drop 1 else s).length ≤ s.length := by
      split
      · simp
      · exact Nat.le_refl _
    have first := integerPart_length integer
    have second := fractionPart_length afterWhole
    have third := exponentPart_length (fractionPart afterWhole).2
    have shorter : (exponentPart (fractionPart afterWhole).2).2.length < s.length := by omega
    split at read
    · split at read
      · cases read
      · cases read
        simp only [Fits, size]
        omega
    · cases read
      simp only [Fits, size]
      omega

private theorem words_filled {word : List Char} {found : Json} (member : (word, found) ∈ words) :
    0 < word.length ∧ found.size = 1 := by
  simp only [words, List.mem_cons, Prod.mk.injEq, List.not_mem_nil, or_false] at member
  rcases member with ⟨rfl, rfl⟩ | ⟨rfl, rfl⟩ | ⟨rfl, rfl⟩ | ⟨rfl, rfl⟩ | ⟨rfl, rfl⟩ | ⟨rfl, rfl⟩ <;>
    exact ⟨by decide, rfl⟩

private theorem scalar_fits {s rest : List Char} {found : Json}
    (read : scalar s = .ok (found, rest)) : Fits found.size rest s := by
  unfold scalar at read
  split at read
  · rename_i word held matching
    obtain ⟨filled, single⟩ := words_filled (List.mem_of_find?_eq_some matching)
    have spelled : word <+: s := by
      have starts := List.find?_some matching
      exact List.isPrefixOf_iff_prefix.mp starts
    have within := spelled.length_le
    cases read
    rw [Fits, single, List.length_drop]
    omega
  · exact number_fits read

private theorem sizeItems_append (first second : List Json) :
    sizeItems (first ++ second) = sizeItems first + sizeItems second := by
  induction first with
  | nil => simp [sizeItems]
  | cons item rest ih =>
    rw [List.cons_append, sizeItems, sizeItems, ih, Nat.add_assoc]

private theorem sizeItems_reverse (items : List Json) :
    sizeItems items.reverse = sizeItems items := by
  induction items with
  | nil => rfl
  | cons item rest ih =>
    rw [List.reverse_cons, sizeItems_append, ih, sizeItems, sizeItems, sizeItems]
    omega

private theorem sizeFields_put (name : String) (value : Json) (fields : List (String × Json)) :
    sizeFields (Entries.put name value fields) ≤ value.size + sizeFields fields := by
  induction fields with
  | nil => exact Nat.le_refl _
  | cons field rest ih =>
    obtain ⟨other, held⟩ := field
    rw [Entries.put]
    split
    · simp only [sizeFields]
      omega
    · simp only [sizeFields]
      omega

/-- What is known of all readers that enter fewer values than `fuel`. -/
structure AllFit (fuel : Nat) : Prop where
  value {s rest : List Char} {found : Json} (read : value fuel s = .ok (found, rest)) :
    Fits found.size rest s
  items {done found : List Json} {s rest : List Char} (read : items fuel done s = .ok (found, rest)) :
    sizeItems found + rest.length ≤ sizeItems done + s.length
  fields {done found : List (String × Json)} {s rest : List Char}
    (read : fields fuel done s = .ok (found, rest)) :
    sizeFields found + rest.length ≤ sizeFields done + s.length

variable {fuel : Nat} {s rest : List Char}

private theorem value_step (inner : AllFit fuel) {found : Json}
    (read : value (fuel + 1) s = .ok (found, rest)) : Fits found.size rest s := by
  rw [value.eq_def] at read
  simp only at read
  split at read
  · split at read
    · cases read
    · rename_i body
      cases read
      have shorter := stringBody_length body
      simp only [Fits, size, List.length_cons]
      omega
  · rename_i opened
    split at read
    · rename_i closed
      cases read
      have shorter := skipped closed
      simp only [Fits, size, sizeItems, List.length_cons]
      omega
    · split at read
      · cases read
      · rename_i listed
        cases read
        have inside := inner.items listed
        have shorter := skip_length opened
        simp only [Fits, size, sizeItems, List.length_cons] at inside ⊢
        omega
  · rename_i opened
    split at read
    · rename_i closed
      cases read
      have shorter := skipped closed
      simp only [Fits, size, sizeFields, List.length_cons]
      omega
    · split at read
      · cases read
      · rename_i listed
        cases read
        have inside := inner.fields listed
        have shorter := skip_length opened
        simp only [Fits, size, sizeFields, List.length_cons] at inside ⊢
        omega
  · exact scalar_fits read

private theorem items_step (inner : AllFit fuel) {done found : List Json}
    (read : items (fuel + 1) done s = .ok (found, rest)) :
    sizeItems found + rest.length ≤ sizeItems done + s.length := by
  rw [items.eq_def] at read
  simp only at read
  split at read
  · cases read
  · rename_i item tail first
    have taken := inner.value first
    unfold Fits at taken
    split at read
    · rename_i closed
      cases read
      have shorter := skipped closed
      rw [sizeItems_reverse, sizeItems]
      omega
    · rename_i next comma
      have shorter := skipped comma
      have fewer := skip_length next
      have later := inner.items read
      rw [sizeItems] at later
      omega
    · cases read

private theorem fields_step (inner : AllFit fuel) {done found : List (String × Json)}
    (read : fields (fuel + 1) done s = .ok (found, rest)) :
    sizeFields found + rest.length ≤ sizeFields done + s.length := by
  rw [fields.eq_def] at read
  simp only at read
  split at read
  · split at read
    · cases read
    · rename_i name afterName named
      have title := stringBody_length named
      split at read
      · rename_i afterColon colon
        have divided := skipped colon
        have start := skip_length afterColon
        split at read
        · cases read
        · rename_i value tail valued
          have taken := inner.value valued
          -- A name that comes again takes the place of a value, so this is no equation.
          have written := sizeFields_put name value done
          simp only [Fits, List.length_cons] at taken ⊢
          split at read
          · rename_i closed
            cases read
            have shorter := skipped closed
            omega
          · rename_i next comma
            have shorter := skipped comma
            have fewer := skip_length next
            have later := inner.fields read
            omega
          · cases read
      · cases read
  · cases read

/-- By induction on the fuel, which values, items and fields share. -/
theorem all_fit (fuel : Nat) : AllFit fuel := by
  induction fuel with
  | zero =>
    constructor
    · intro s rest found read
      cases read
    · intro done found s rest read
      cases read
    · intro done found s rest read
      cases read
  | succ fuel inner => exact ⟨value_step inner, items_step inner, fields_step inner⟩

theorem document_size {found : Json} (read : document s = .ok found) : found.size ≤ s.length := by
  unfold document at read
  split at read
  · cases read
  · rename_i tail valued
    have taken := (all_fit _).value valued
    have start := skip_length s
    unfold Fits at taken
    split at read
    · cases read
      omega
    · cases read

section Encodings

open Text

variable {chars : List Char} {bytes : List UInt8}

private theorem decodeUtf8_length {position skip : Nat} {done : List Char}
    (decoded : decodeUtf8 position skip done bytes = .ok chars) :
    chars.length ≤ done.length + bytes.length := by
  induction bytes generalizing position skip done with
  | nil =>
    cases decoded
    simp
  | cons first rest ih =>
    rw [decodeUtf8.eq_def] at decoded
    cases skip with
    | succ skip => exact Nat.le_succ_of_le (ih decoded)
    | zero =>
      simp only at decoded
      split at decoded
      · have later := ih decoded
        simp only [List.length_cons] at later ⊢
        omega
      · cases decoded

private theorem units16_length {order : ByteOrder} {position : Nat} {done units : List Nat}
    (split : units16 order position done bytes = .ok units) :
    units.length ≤ done.length + bytes.length := by
  fun_induction units16 order position done bytes with
  | case1 position done =>
    cases split
    simp
  | case2 => cases split
  | case3 position done a b rest ih =>
    have later := ih split
    simp only [List.length_cons] at later ⊢
    omega

private theorem charsOfUnits_length (done : List Char) (units : List Nat) :
    (charsOfUnits done units).length ≤ done.length + units.length := by
  fun_induction charsOfUnits done units with
  | case1 done => simp
  | case2 done n => simp
  | case3 done n m rest pair ih =>
    simp only [List.length_cons] at ih ⊢
    omega
  | case4 done n m rest single ih =>
    simp only [List.length_cons] at ih ⊢
    omega

private theorem decodeUtf32_length {order : ByteOrder} {position : Nat} {done : List Char}
    (decoded : decodeUtf32 order position done bytes = .ok chars) :
    chars.length ≤ done.length + bytes.length := by
  fun_induction decodeUtf32 order position done bytes with
  | case1 position done =>
    cases decoded
    simp
  | case2 position done a b c d rest n inRange ih =>
    have later := ih decoded
    simp only [List.length_cons] at later ⊢
    omega
  | case3 => cases decoded
  | case4 => cases decoded

private theorem decodeFrom_length {encoding : Encoding} {position : Nat}
    (decoded : encoding.decodeFrom position bytes = .ok chars) :
    chars.length ≤ bytes.length := by
  cases encoding with
  | utf8 => simpa using decodeUtf8_length decoded
  | utf32 order => simpa using decodeUtf32_length decoded
  | utf16 order =>
    simp only [Encoding.decodeFrom, decodeUtf16] at decoded
    cases split : units16 order position [] bytes with
    | error fault =>
      rw [split] at decoded
      cases decoded
    | ok units =>
      rw [split] at decoded
      cases decoded
      have joined := charsOfUnits_length [] units
      have paired := units16_length split
      simp only [List.length_nil] at joined paired
      omega

/-- No encoding makes more characters than there are bytes. -/
theorem decode_length (decoded : decode bytes = .ok chars) : chars.length ≤ bytes.length := by
  unfold decode at decoded
  split at decoded
  · rename_i encoding marked
    have unmarked : (bytes.drop encoding.mark.length).length ≤ bytes.length := by simp
    exact Nat.le_trans (decodeFrom_length decoded) unmarked
  · exact decodeFrom_length decoded

end Encodings

/-- A document holds no more values than its file has bytes. -/
theorem ofBytes_size {bytes : List UInt8} {found : Json} (read : ofBytes bytes = .ok found) :
    found.size ≤ bytes.length := by
  unfold ofBytes at read
  split at read
  · cases read
  · rename_i chars decoded
    cases parsed : document chars with
    | error fault =>
      rw [parsed] at read
      cases read
    | ok document =>
      rw [parsed] at read
      cases read
      exact Nat.le_trans (document_size parsed) (decode_length decoded)

end EntitySchema.DocumentSize
