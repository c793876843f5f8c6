import EntitySchema.Text.Encoding
import Mathlib.Tactic.SplitIfs

/-! Stored text is read back. Each encoding gives a character as bytes from which
the character is rebuilt, whatever follows them, and the encoding itself is found
from the first bytes. Without a mark that takes a text that starts with a basic
character and has no zero character: then a zero byte among the first four is
half of a unit, and which of them are zero tells the encodings apart. -/
namespace EntitySchema.EncodedText
open Text Encoding

variable {c : Char} {rest : List UInt8} {text : List Char}

/-- No character is half of a surrogate pair, and none is beyond the last. -/
private theorem toNat_valid (c : Char) :
    c.toNat < 0xD800 ∨ 0xDFFF < c.toNat ∧ c.toNat < 0x110000 :=
  c.valid

theorem charOf_toNat (c : Char) : charOf c.toNat = c := by
  have valid : c.toNat.isValidChar := c.valid
  rw [charOf, if_pos valid, Char.ofNat_toNat]

private theorem byte_toNat {n : Nat} (small : n < 256) : (UInt8.ofNat n).toNat = n :=
  UInt8.toNat_ofNat_of_lt' small

private theorem byte_eq {n : Nat} (small : n < 256) (byte : UInt8) :
    UInt8.ofNat n = byte ↔ n = byte.toNat := by
  rw [← UInt8.toNat_inj, byte_toNat small]

section Utf8

/-- The byte that follows another in UTF-8 and carries six bits of a number. -/
private theorem tail_toNat (n : Nat) : (UInt8.ofNat (0x80 + n % 64)).toNat = 0x80 + n % 64 :=
  byte_toNat (by omega)

private theorem tail_bits (n : Nat) : tailBits (UInt8.ofNat (0x80 + n % 64)) = n % 64 := by
  rw [tailBits, tail_toNat]
  omega

private theorem tail_isTail (n : Nat) : isTail (UInt8.ofNat (0x80 + n % 64)) = true := by
  simp only [isTail, Bool.and_eq_true, decide_eq_true_eq, UInt8.le_iff_toNat_le, tail_toNat]
  exact ⟨by simp, by simp; omega⟩

variable {n : Nat}

private theorem readTwo_bytes (small : n < 0x800) (rest : List UInt8) :
    readTwo (UInt8.ofNat (0xC0 + n / 64)) (UInt8.ofNat (0x80 + n % 64) :: rest) =
      .ok (charOf n) := by
  have first : (UInt8.ofNat (0xC0 + n / 64)).toNat = 0xC0 + n / 64 := byte_toNat (by omega)
  have joined : (0xC0 + n / 64) % 32 * 64 + n % 64 = n := by omega
  rw [readTwo, if_pos (tail_isTail n), first, tail_bits, joined]

private theorem readThree_bytes (least : 0x800 ≤ n) (small : n < 0x10000) (rest : List UInt8) :
    readThree (UInt8.ofNat (0xE0 + n / 4096))
        (UInt8.ofNat (0x80 + n / 64 % 64) :: UInt8.ofNat (0x80 + n % 64) :: rest) =
      .ok (charOf n) := by
  have first : (UInt8.ofNat (0xE0 + n / 4096)).toNat = 0xE0 + n / 4096 := byte_toNat (by omega)
  have second : isSecondOfThree (UInt8.ofNat (0xE0 + n / 4096))
      (UInt8.ofNat (0x80 + n / 64 % 64)) = true := by
    simp only [isSecondOfThree, tail_isTail, Bool.true_and, Bool.or_eq_true, bne_iff_ne,
      decide_eq_true_eq, Ne, ← UInt8.toNat_inj, UInt8.le_iff_toNat_le, first, tail_toNat]
    simp
    omega
  have joined : (0xE0 + n / 4096) % 16 * 4096 + n / 64 % 64 * 64 + n % 64 = n := by omega
  rw [readThree, second, tail_isTail, first, tail_bits, tail_bits, joined]
  rfl

private theorem readFour_bytes (least : 0x10000 ≤ n) (small : n < 0x110000) (rest : List UInt8) :
    readFour (UInt8.ofNat (0xF0 + n / 262144))
        (UInt8.ofNat (0x80 + n / 4096 % 64) :: UInt8.ofNat (0x80 + n / 64 % 64) ::
          UInt8.ofNat (0x80 + n % 64) :: rest) =
      .ok (charOf n) := by
  have first : (UInt8.ofNat (0xF0 + n / 262144)).toNat = 0xF0 + n / 262144 :=
    byte_toNat (by omega)
  have second : isSecondOfFour (UInt8.ofNat (0xF0 + n / 262144))
      (UInt8.ofNat (0x80 + n / 4096 % 64)) = true := by
    simp only [isSecondOfFour, tail_isTail, Bool.true_and, Bool.and_eq_true, Bool.or_eq_true,
      bne_iff_ne, decide_eq_true_eq, Ne, ← UInt8.toNat_inj, UInt8.le_iff_toNat_le, first,
      tail_toNat]
    simp
    omega
  have joined : (0xF0 + n / 262144) % 8 * 262144 + n / 4096 % 64 * 4096 + n / 64 % 64 * 64 +
      n % 64 = n := by omega
  rw [readFour, second, tail_isTail, tail_isTail, first, tail_bits, tail_bits, tail_bits, joined]
  rfl

/-- The branches of reading, with the first byte as a number. -/
private theorem readUtf8_lead (small : n < 256) (rest : List UInt8) :
    readUtf8 (UInt8.ofNat n) rest =
      if n < 0x80 then .ok (charOf n, 0)
      else if n < 0xC2 then .error (.startByte, 1)
      else if n < 0xE0 then (readTwo (UInt8.ofNat n) rest).map (·, 1)
      else if n < 0xF0 then (readThree (UInt8.ofNat n) rest).map (·, 2)
      else if n < 0xF5 then (readFour (UInt8.ofNat n) rest).map (·, 3)
      else .error (.startByte, 1) := by
  simp only [readUtf8, UInt8.lt_iff_toNat_lt, byte_toNat small]
  rfl

/-- The first byte tells how many follow, and together they give the character. -/
private theorem readUtf8_bytes (c : Char) (rest : List UInt8) :
    ∃ first tail, utf8Bytes c = first :: tail ∧
      readUtf8 first (tail ++ rest) = .ok (c, tail.length) := by
  have valid := toNat_valid c
  simp only [utf8Bytes]
  split_ifs with one two three
  · refine ⟨_, [], rfl, ?_⟩
    rw [readUtf8_lead (by omega), if_pos one, charOf_toNat]
    rfl
  · refine ⟨_, _, rfl, ?_⟩
    rw [readUtf8_lead (by omega), if_neg (by omega), if_neg (by omega), if_pos (by omega),
      List.cons_append, readTwo_bytes two, charOf_toNat]
    rfl
  · refine ⟨_, _, rfl, ?_⟩
    rw [readUtf8_lead (by omega), if_neg (by omega), if_neg (by omega), if_neg (by omega),
      if_pos (by omega), List.cons_append, List.cons_append, readThree_bytes (by omega) three,
      charOf_toNat]
    rfl
  · refine ⟨_, _, rfl, ?_⟩
    rw [readUtf8_lead (by omega), if_neg (by omega), if_neg (by omega), if_neg (by omega),
      if_neg (by omega), if_pos (by omega), List.cons_append, List.cons_append, List.cons_append,
      readFour_bytes (by omega) (by omega), charOf_toNat]
    rfl

private theorem decodeUtf8_skip (tail : List UInt8) (position : Nat) (done : List Char) :
    decodeUtf8 position tail.length done (tail ++ rest) =
      decodeUtf8 (position + tail.length) 0 done rest := by
  induction tail generalizing position with
  | nil => rfl
  | cons byte tail ih =>
    rw [List.cons_append, List.length_cons, decodeUtf8, ih]
    congr 1
    omega

private theorem decodeUtf8_text (text : List Char) (position : Nat) (done : List Char) :
    decodeUtf8 position 0 done (text.flatMap utf8Bytes) = .ok (done.reverse ++ text) := by
  induction text generalizing position done with
  | nil => simp [decodeUtf8]
  | cons c text ih =>
    obtain ⟨first, tail, bytes, read⟩ := readUtf8_bytes c (text.flatMap utf8Bytes)
    rw [List.flatMap_cons, bytes, List.cons_append, decodeUtf8]
    simp only [read]
    rw [decodeUtf8_skip, ih]
    simp

end Utf8

section Utf16

variable {order : ByteOrder}

private theorem units16_bytes {n : Nat} (small : n < 0x10000) (order : ByteOrder) (position : Nat)
    (done : List Nat) (rest : List UInt8) :
    units16 order position done (bytes16 order n ++ rest) =
      units16 order (position + 2) (n :: done) rest := by
  have low : (UInt8.ofNat (n % 256)).toNat = n % 256 := byte_toNat (by omega)
  have high : (UInt8.ofNat (n / 256)).toNat = n / 256 := byte_toNat (by omega)
  have joined : n / 256 * 256 + n % 256 = n := by omega
  cases order with
  | little =>
    simp only [bytes16, List.cons_append, List.nil_append, units16, unit16, low, high, joined]
  | big =>
    simp only [bytes16, List.cons_append, List.nil_append, units16, unit16, low, high, joined]

/-- The units of a character in UTF-16. -/
private def unitsOf (c : Char) : List Nat :=
  if c.toNat < 0x10000 then [c.toNat]
  else [0xD800 + (c.toNat - 0x10000) / 1024, 0xDC00 + (c.toNat - 0x10000) % 1024]

private theorem units16_char (c : Char) (position : Nat) (done : List Nat) (rest : List UInt8) :
    units16 order position done (utf16Bytes order c ++ rest) =
      units16 order (position + 2 * (unitsOf c).length) ((unitsOf c).reverse ++ done) rest := by
  have valid := toNat_valid c
  simp only [utf16Bytes, unitsOf]
  split
  · rw [units16_bytes (by omega)]
    rfl
  · rw [List.append_assoc, units16_bytes (by omega), units16_bytes (by omega)]
    rfl

private theorem units16_text (text : List Char) (position : Nat) (done : List Nat) :
    units16 order position done (text.flatMap (utf16Bytes order)) =
      .ok (done.reverse ++ text.flatMap unitsOf) := by
  induction text generalizing position done with
  | nil => simp [units16]
  | cons c text ih =>
    rw [List.flatMap_cons, units16_char, ih]
    simp

/-- A character by itself is no half of a pair, and two halves join to the one
they were taken from. -/
private theorem charsOfUnits_char (c : Char) (done : List Char) (units : List Nat) :
    charsOfUnits done (unitsOf c ++ units) = charsOfUnits (c :: done) units := by
  have valid := toNat_valid c
  unfold unitsOf
  split
  · have single : isHighSurrogate c.toNat = false := by
      simp only [isHighSurrogate, Bool.and_eq_false_iff, decide_eq_false_iff_not]
      omega
    cases units with
    | nil => simp [charsOfUnits, charOf_toNat]
    | cons next units =>
      rw [List.singleton_append, charsOfUnits, single, charOf_toNat]
      rfl
  · have halves : isHighSurrogate (0xD800 + (c.toNat - 0x10000) / 1024) = true ∧
        isLowSurrogate (0xDC00 + (c.toNat - 0x10000) % 1024) = true := by
      simp only [isHighSurrogate, isLowSurrogate, Bool.and_eq_true, decide_eq_true_eq]
      omega
    have joined : 0x10000 + (0xD800 + (c.toNat - 0x10000) / 1024 - 0xD800) * 1024 +
        (0xDC00 + (c.toNat - 0x10000) % 1024 - 0xDC00) = c.toNat := by omega
    rw [List.cons_append, List.singleton_append, charsOfUnits, halves.1, halves.2, joinSurrogates,
      joined, charOf_toNat]
    rfl

private theorem charsOfUnits_text (text done : List Char) :
    charsOfUnits done (text.flatMap unitsOf) = done.reverse ++ text := by
  induction text generalizing done with
  | nil => simp [charsOfUnits]
  | cons c text ih =>
    rw [List.flatMap_cons, charsOfUnits_char, ih]
    simp

end Utf16

private theorem decodeUtf32_char (order : ByteOrder) (c : Char) (position : Nat) (done : List Char)
    (rest : List UInt8) :
    decodeUtf32 order position done (utf32Bytes order c ++ rest) =
      decodeUtf32 order (position + 4) (c :: done) rest := by
  have valid := toNat_valid c
  have bytes : ∀ n < 256, (UInt8.ofNat n).toNat = n := fun n small => byte_toNat small
  have first := bytes (c.toNat % 65536 % 256) (by omega)
  have second := bytes (c.toNat % 65536 / 256) (by omega)
  have third := bytes (c.toNat / 65536 % 256) (by omega)
  have fourth := bytes (c.toNat / 65536 / 256) (by omega)
  have joined : (c.toNat / 65536 / 256 * 256 + c.toNat / 65536 % 256) * 65536 +
      (c.toNat % 65536 / 256 * 256 + c.toNat % 65536 % 256) = c.toNat := by omega
  have small : c.toNat < 0x110000 := by omega
  cases order with
  | little =>
    simp only [utf32Bytes, bytes16, List.cons_append, List.nil_append, decodeUtf32, unit32, unit16,
      first, second, third, fourth, joined, charOf_toNat, if_pos small]
  | big =>
    simp only [utf32Bytes, bytes16, List.cons_append, List.nil_append, decodeUtf32, unit32, unit16,
      first, second, third, fourth, joined, charOf_toNat, if_pos small]

private theorem decodeUtf32_text (order : ByteOrder) (text : List Char) (position : Nat)
    (done : List Char) :
    decodeUtf32 order position done (text.flatMap (utf32Bytes order)) =
      .ok (done.reverse ++ text) := by
  induction text generalizing position done with
  | nil => simp [decodeUtf32]
  | cons c text ih =>
    rw [List.flatMap_cons, decodeUtf32_char, ih]
    simp

/-- In each encoding a text is read back from its bytes, wherever they start. -/
theorem decode_encoded (encoding : Encoding) (position : Nat) (text : List Char) :
    encoding.decodeFrom position (encoding.encode text) = .ok text := by
  cases encoding with
  | utf8 => exact decodeUtf8_text text position []
  | utf16 order =>
    rw [decodeFrom, decodeUtf16, encode, units16_text, List.reverse_nil, List.nil_append,
      Except.map, charsOfUnits_text]
    rfl
  | utf32 order => exact decodeUtf32_text order text position []

/-- Text of which the encoding can be found: it starts with a basic character and
no character is zero. -/
structure Detectable (text : List Char) : Prop where
  starts : ∃ c more, text = c :: more ∧ c.toNat < 0x80
  nonzero : ∀ c ∈ text, c.toNat ≠ 0

section Detection

/-- The bytes of a basic character. -/
private def basicBytes (byte : UInt8) : Encoding → List UInt8
  | .utf8 => [byte]
  | .utf16 .little => [byte, 0]
  | .utf16 .big => [0, byte]
  | .utf32 .little => [byte, 0, 0, 0]
  | .utf32 .big => [0, 0, 0, byte]

private theorem encode_basic (encoding : Encoding) (basic : c.toNat < 0x80) (more : List Char) :
    encoding.encode (c :: more) =
      basicBytes (UInt8.ofNat c.toNat) encoding ++ encoding.encode more := by
  have low : c.toNat % 256 = c.toNat := by omega
  have high : c.toNat / 256 = 0 := by omega
  have unit : c.toNat % 65536 = c.toNat := by omega
  have plane : c.toNat / 65536 = 0 := by omega
  rcases encoding with _ | (_ | _) | (_ | _)
  · simp only [encode, List.flatMap_cons, utf8Bytes, if_pos basic, basicBytes]
  all_goals
    simp [encode, utf16Bytes, utf32Bytes, bytes16, basicBytes, low, high, unit, plane,
      show c.toNat < 65536 by omega]

/-- Where nothing is zero, no character starts with a zero byte in UTF-8. -/
private theorem utf8_nonzero (nonzero : ∀ c ∈ text, c.toNat ≠ 0) :
    ∀ byte ∈ (encode .utf8 text).head?, byte ≠ 0 := by
  cases text with
  | nil => simp [encode]
  | cons c more =>
    have valid := toNat_valid c
    have filled := nonzero c List.mem_cons_self
    have positive : ∀ n, 0 < n → n < 256 → UInt8.ofNat n ≠ 0 :=
      fun n least small => mt (byte_eq small 0).mp (Nat.ne_of_gt least)
    simp only [encode, List.flatMap_cons, utf8Bytes]
    split_ifs <;> simp only [List.cons_append, List.head?_cons, Option.mem_some_iff, forall_eq']
    · exact positive _ (by omega) (by omega)
    · exact positive _ (by omega) (by omega)
    · exact positive _ (by omega) (by omega)
    · exact positive _ (by omega) (by omega)

/-- A unit other than zero has a byte other than zero. -/
private theorem bytes16_nonzero {n : Nat} (filled : 0 < n) (small : n < 0x10000)
    (order : ByteOrder) : ∃ a b, bytes16 order n = [a, b] ∧ ¬(a = 0 ∧ b = 0) := by
  have low := byte_eq (show n % 256 < 256 by omega) 0
  have high := byte_eq (show n / 256 < 256 by omega) 0
  rw [show (0 : UInt8).toNat = 0 from rfl] at low high
  cases order with
  | little =>
    refine ⟨_, _, rfl, ?_⟩
    rw [low, high]
    omega
  | big =>
    refine ⟨_, _, rfl, ?_⟩
    rw [low, high]
    omega

/-- Where nothing is zero, no character starts with a zero unit in UTF-16. -/
private theorem utf16_nonzero (nonzero : ∀ c ∈ text, c.toNat ≠ 0) (order : ByteOrder) :
    encode (.utf16 order) text = [] ∨
      ∃ a b more, encode (.utf16 order) text = a :: b :: more ∧ ¬(a = 0 ∧ b = 0) := by
  cases text with
  | nil => exact .inl rfl
  | cons c more =>
    right
    have valid := toNat_valid c
    have filled := nonzero c List.mem_cons_self
    simp only [encode, List.flatMap_cons, utf16Bytes]
    split_ifs
    · obtain ⟨a, b, unit, visible⟩ := bytes16_nonzero (show 0 < c.toNat by omega) (by omega) order
      exact ⟨a, b, _, by rw [unit]; rfl, visible⟩
    · obtain ⟨a, b, unit, visible⟩ := bytes16_nonzero
        (show 0 < 0xD800 + (c.toNat - 0x10000) / 1024 by omega) (by omega) order
      exact ⟨a, b, _, by rw [unit]; rfl, visible⟩

/-- A basic byte starts no mark and is not zero. -/
private theorem basic_byte (basic : c.toNat < 0x80) (filled : c.toNat ≠ 0) :
    UInt8.ofNat c.toNat ≠ 0 ∧ UInt8.ofNat c.toNat ≠ 0xEF ∧ UInt8.ofNat c.toNat ≠ 0xFE ∧
      UInt8.ofNat c.toNat ≠ 0xFF := by
  simp only [Ne, byte_eq (show c.toNat < 256 by omega)]
  simp
  omega

/-- A mark names its encoding. The mark of UTF-16 starts that of UTF-32 and is
told from it by the first character, which is not zero. -/
theorem mark_found (encoding : Encoding) (detectable : Detectable text) :
    ofMark? (encoding.mark ++ encoding.encode text) = some encoding := by
  obtain ⟨⟨c, more, rfl, basic⟩, nonzero⟩ := detectable
  obtain ⟨notZero, _⟩ := basic_byte basic (nonzero c List.mem_cons_self)
  rw [encode_basic encoding basic]
  rcases encoding with _ | (_ | _) | (_ | _) <;>
    simp [ofMark?, mark, basicBytes, List.isPrefixOf, notZero.symm]

/-- A text does not start with a mark. -/
theorem mark_absent (encoding : Encoding) (detectable : Detectable text) :
    ofMark? (encoding.encode text) = none := by
  obtain ⟨⟨c, more, rfl, basic⟩, nonzero⟩ := detectable
  obtain ⟨notZero, notEF, notFE, notFF⟩ := basic_byte basic (nonzero c List.mem_cons_self)
  rw [encode_basic encoding basic]
  rcases encoding with _ | (_ | _) | (_ | _) <;>
    simp [ofMark?, mark, basicBytes, List.isPrefixOf, notZero.symm, notEF.symm, notFE.symm,
      notFF.symm]

/-- The zero bytes tell the encoding of a text. -/
theorem zeros_found (encoding : Encoding) (detectable : Detectable text) :
    ofZeros (encoding.encode text) = encoding := by
  obtain ⟨⟨c, more, rfl, basic⟩, nonzero⟩ := detectable
  obtain ⟨notZero, _⟩ := basic_byte basic (nonzero c List.mem_cons_self)
  have later : ∀ c ∈ more, c.toNat ≠ 0 := fun d member => nonzero d (List.mem_cons_of_mem c member)
  rw [encode_basic encoding basic]
  -- With units of one or two bytes it takes the second character to rule out longer ones.
  rcases encoding with _ | (_ | _) | (_ | _)
  · have second := utf8_nonzero later
    match encode .utf8 more, second with
    | [], _ => rfl
    | [a], second => simp [basicBytes, ofZeros, notZero, second a rfl]
    | [a, b], _ => rfl
    | a :: b :: d :: _, second => simp [basicBytes, ofZeros, notZero, second a rfl]
  · obtain none | ⟨a, b, rest, starts, unit⟩ := utf16_nonzero later .little
    · simp [none, basicBytes, ofZeros, notZero]
    · simp [starts, basicBytes, ofZeros, notZero, unit]
  · obtain none | ⟨a, b, rest, starts, _⟩ := utf16_nonzero later .big
    · simp [none, basicBytes, ofZeros]
    · simp [starts, basicBytes, ofZeros, notZero]
  · simp [basicBytes, ofZeros, notZero]
  · simp [basicBytes, ofZeros]

end Detection

/-- **Stored text is read back**, in each encoding and with or without its mark. -/
theorem decode_stored (encoding : Encoding) (marked : Bool) (detectable : Detectable text) :
    decode ((if marked then encoding.mark else []) ++ encoding.encode text) = .ok text := by
  cases marked with
  | true =>
    rw [if_pos rfl, decode, mark_found encoding detectable]
    simp only [List.drop_left]
    exact decode_encoded encoding _ text
  | false =>
    rw [if_neg (by decide), List.nil_append, decode, mark_absent encoding detectable]
    simp only [zeros_found encoding detectable]
    exact decode_encoded encoding 0 text

end EntitySchema.EncodedText
