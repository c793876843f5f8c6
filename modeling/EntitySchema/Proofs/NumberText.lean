import EntitySchema.Json.Printer
import EntitySchema.Proofs.ShortestDecimal
import Mathlib.Data.List.TakeWhile

/-! Texts of numbers. Whichever way a decimal is laid out, its text can be read
back as the exact value, so two doubles with one text share a shortest decimal
and are the same double. A double always shows a point, an exponent or a word,
which no integer does; distinct numbers therefore have distinct texts. -/
namespace EntitySchema.NumberText
open Number ShortestDecimal

/-- The exponent at the end of a text. -/
def powerOf : List Char → Int
  | 'e' :: '-' :: digits => -(Nat.ofDigitChars 10 digits 0 : Int)
  | 'e' :: '+' :: digits => Nat.ofDigitChars 10 digits 0
  | _ => 0

/-- The value of digits with a point among them. -/
def positional (text : List Char) : ℚ :=
  let fraction := (text.dropWhile (· ≠ '.')).drop 1
  Nat.ofDigitChars 10 (text.takeWhile (· ≠ '.') ++ fraction) 0 * 10 ^ (-(fraction.length : Int))

/-- The value that a decimal text stands for. -/
def readValue (text : List Char) : ℚ :=
  positional (text.takeWhile (· ≠ 'e')) * 10 ^ powerOf (text.dropWhile (· ≠ 'e'))

def Digits (text : List Char) : Prop :=
  ∀ c ∈ text, c.isDigit = true

/-- A decimal text: digits, a point with more of them, and an exponent. -/
structure Spelling where
  whole : List Char
  fraction : Option (List Char)
  power : Option Int

namespace Spelling

def text (spelling : Spelling) : List Char :=
  spelling.whole ++ spelling.fraction.elim [] ('.' :: ·) ++
    spelling.power.elim [] fun power => (Layout.renderExponent 2 power).toList

def value (spelling : Spelling) : ℚ :=
  Nat.ofDigitChars 10 (spelling.whole ++ spelling.fraction.getD []) 0 *
    10 ^ (spelling.power.getD 0 - (spelling.fraction.getD []).length)

/-- There are digits in front, and a point or an exponent tells the text from
that of an integer. -/
structure Valid (spelling : Spelling) : Prop where
  filled : spelling.whole ≠ []
  wholeDigits : Digits spelling.whole
  fractionDigits : Digits (spelling.fraction.getD [])
  marked : spelling.fraction.isSome ∨ spelling.power.isSome

end Spelling

variable {text : List Char} {spelling : Spelling}

private theorem digits_avoid {c : Char} (digits : Digits text) (other : c.isDigit = false) :
    c ∉ text := by
  intro member
  rw [digits c member] at other
  cases other

private theorem toDigits_digits (n : Nat) : Digits (Nat.toDigits 10 n) :=
  fun _ member => Nat.isDigit_of_mem_toDigits (by decide) (by decide) member

private theorem zeros_digits (n : Nat) : Digits (List.replicate n '0') := by
  intro c member
  rw [List.eq_of_mem_replicate member]
  rfl

private theorem digits_append {first second : List Char} (early : Digits first)
    (late : Digits second) : Digits (first ++ second) := by
  intro c member
  rcases List.mem_append.mp member with member | member
  · exact early c member
  · exact late c member

private theorem positional_spelled {whole : List Char} {fraction : Option (List Char)}
    (digits : Digits whole) :
    positional (whole ++ fraction.elim [] ('.' :: ·)) =
      Nat.ofDigitChars 10 (whole ++ fraction.getD []) 0 *
        10 ^ (-((fraction.getD []).length : Int)) := by
  have clean : ∀ c ∈ whole, decide (c ≠ '.') = true := by
    intro c member
    simp only [decide_eq_true_eq]
    rintro rfl
    exact digits_avoid digits rfl member
  cases fraction with
  | none =>
    simp only [positional, Option.elim_none, Option.getD_none, List.append_nil,
      List.takeWhile_eq_self_iff.mpr clean, List.dropWhile_eq_nil_iff.mpr clean, List.drop_nil]
  | some fraction =>
    simp only [positional, Option.elim_some, Option.getD_some,
      List.takeWhile_append_of_pos clean, List.dropWhile_append_of_pos clean]
    simp

private theorem exponent_text (power : Int) : (Layout.renderExponent 2 power).toList =
    'e' :: (if power < 0 then '-' else '+') ::
      (List.replicate (2 - Double.digitCount power.natAbs) '0' ++ Nat.toDigits 10 power.natAbs) := by
  unfold Layout.renderExponent
  simp only [String.toList_append, String.toList_ofList, Nat.toString_eq_repr, Nat.toList_repr,
    ← String.length_toList, Double.digitCount]
  split <;> rfl

private theorem powerOf_exponent (power : Int) :
    powerOf (Layout.renderExponent 2 power).toList = power := by
  have digits : Nat.ofDigitChars 10 (List.replicate (2 - Double.digitCount power.natAbs) '0' ++
      Nat.toDigits 10 power.natAbs) 0 = power.natAbs := by
    rw [Nat.ofDigitChars_append, Nat.ofDigitChars_replicate_zero, Nat.mul_zero,
      Nat.ofDigitChars_ten_toDigits]
  rw [exponent_text]
  split
  · rw [powerOf, digits]
    omega
  · rw [powerOf, digits]
    omega

/-- Reading the text of a decimal gives its value. -/
private theorem read_text (valid : spelling.Valid) : readValue spelling.text = spelling.value := by
  obtain ⟨whole, fraction, power⟩ := spelling
  obtain ⟨_, wholeDigits, fractionDigits, _⟩ := valid
  simp only [Spelling.text, Spelling.value] at wholeDigits fractionDigits ⊢
  have clean : ∀ c ∈ whole ++ fraction.elim [] ('.' :: ·), decide (c ≠ 'e') = true := by
    intro c member
    simp only [decide_eq_true_eq]
    rintro rfl
    rcases List.mem_append.mp member with member | member
    · exact digits_avoid wholeDigits rfl member
    · cases fraction with
      | none => cases member
      | some fraction =>
        rcases List.mem_cons.mp member with impossible | member
        · cases impossible
        · exact digits_avoid fractionDigits rfl member
  unfold readValue
  cases power with
  | none =>
    simp only [Option.elim_none, List.append_nil, List.takeWhile_eq_self_iff.mpr clean,
      List.dropWhile_eq_nil_iff.mpr clean, powerOf, zpow_zero, mul_one, Option.getD_none, zero_sub]
    exact positional_spelled wholeDigits
  | some power =>
    have starts : (Layout.renderExponent 2 power).toList.takeWhile (· ≠ 'e') = [] ∧
        (Layout.renderExponent 2 power).toList.dropWhile (· ≠ 'e') =
          (Layout.renderExponent 2 power).toList := by
      rw [exponent_text]
      exact ⟨rfl, rfl⟩
    simp only [Option.elim_some, List.takeWhile_append_of_pos clean,
      List.dropWhile_append_of_pos clean, starts, List.append_nil, powerOf_exponent,
      Option.getD_some]
    rw [positional_spelled wholeDigits, mul_assoc, ← zpow_add₀ (by norm_num)]
    congr 2
    ring

section Layouts

variable (decimal : Decimal)

/-- One digit before the point, the others behind it, and an exponent. -/
private def scientific : Spelling where
  whole := (Nat.toDigits 10 decimal.digits).take 1
  fraction := if Double.digitCount decimal.digits = 1 then none
    else some ((Nat.toDigits 10 decimal.digits).drop 1)
  power := some (decimal.point - 1)

private theorem scientific_fraction :
    (scientific decimal).fraction.getD [] = (Nat.toDigits 10 decimal.digits).drop 1 := by
  unfold scientific
  split
  · rename_i single
    exact (List.drop_eq_nil_of_le single.le).symm
  · rfl

private theorem scientific_valid : (scientific decimal).Valid where
  filled := by simp [scientific, Nat.toDigits_ne_nil]
  wholeDigits := fun c member => toDigits_digits _ c (List.mem_of_mem_take member)
  fractionDigits := by
    rw [scientific_fraction]
    exact fun c member => toDigits_digits _ c (List.mem_of_mem_drop member)
  marked := .inr rfl

private theorem scientific_value : (scientific decimal).value = valueOf decimal := by
  have positive := digitCount_positive decimal.digits
  rw [Spelling.value, scientific_fraction]
  simp only [scientific, List.take_append_drop, Nat.ofDigitChars_ten_toDigits, List.length_drop,
    valueOf, Option.getD_some]
  congr 2
  unfold Double.digitCount at positive ⊢
  omega

/-- Digits in front of the point, zeros included, and at least one behind it. -/
private def plain : Spelling where
  whole :=
    if decimal.point ≤ 0 then ['0']
    else (Nat.toDigits 10 decimal.digits).take decimal.point.toNat ++
      List.replicate (decimal.point - Double.digitCount decimal.digits).toNat '0'
  fraction := some (
    if decimal.point ≤ 0 then
      List.replicate (-decimal.point).toNat '0' ++ Nat.toDigits 10 decimal.digits
    else if Double.digitCount decimal.digits ≤ decimal.point then ['0']
    else (Nat.toDigits 10 decimal.digits).drop decimal.point.toNat)
  power := none

private theorem plain_valid : (plain decimal).Valid where
  filled := by
    unfold plain
    split
    · simp
    · rename_i inside
      simp only [ne_eq, List.append_eq_nil_iff, List.take_eq_nil_iff, not_and]
      intro nothing
      rcases nothing with _ | nothing
      · omega
      · exact absurd nothing Nat.toDigits_ne_nil
  wholeDigits := by
    unfold plain
    split
    · exact zeros_digits 1
    · exact digits_append (fun c member => toDigits_digits _ c (List.mem_of_mem_take member))
        (zeros_digits _)
  fractionDigits := by
    simp only [plain, Option.getD_some]
    split
    · exact digits_append (zeros_digits _) (toDigits_digits _)
    · split
      · exact zeros_digits 1
      · exact fun c member => toDigits_digits _ c (List.mem_of_mem_drop member)
  marked := .inl rfl

private theorem plain_value : (plain decimal).value = valueOf decimal := by
  have length : (Nat.toDigits 10 decimal.digits).length = Double.digitCount decimal.digits := rfl
  simp only [Spelling.value, plain, Option.getD_some, Option.getD_none, valueOf]
  by_cases small : decimal.point ≤ 0
  · simp only [small, ↓reduceIte]
    rw [← List.append_assoc, ← List.replicate_one, List.replicate_append_replicate,
      Nat.ofDigitChars_append, Nat.ofDigitChars_replicate_zero, Nat.mul_zero,
      Nat.ofDigitChars_ten_toDigits, List.length_append, List.length_replicate, length]
    congr 2
    omega
  · by_cases whole : (Double.digitCount decimal.digits : Int) ≤ decimal.point
    · simp only [small, whole, ↓reduceIte]
      rw [List.take_of_length_le (by rw [length]; omega), List.append_assoc, ← List.replicate_one,
        List.replicate_append_replicate, Nat.ofDigitChars_append, Nat.ofDigitChars_replicate_zero,
        Nat.ofDigitChars_ten_toDigits]
      push_cast
      rw [mul_comm ((10 : ℚ) ^ _), mul_assoc, ← zpow_natCast, ← zpow_add₀ (by norm_num)]
      congr 2
      simp
      omega
    · simp only [small, whole, ↓reduceIte]
      rw [show (decimal.point - (Double.digitCount decimal.digits : Int)).toNat = 0 by omega,
        List.replicate_zero, List.append_nil, List.take_append_drop,
        Nat.ofDigitChars_ten_toDigits, List.length_drop, length]
      congr 2
      omega

private theorem decimal_spelled : ∃ spelling : Spelling, spelling.Valid ∧
    (Json.numberLayout.renderDecimal decimal).toList = spelling.text ∧
      spelling.value = valueOf decimal := by
  have length : (Nat.toDigits 10 decimal.digits).length = Double.digitCount decimal.digits := rfl
  unfold Layout.renderDecimal
  simp only [Nat.toString_eq_repr, ← String.length_toList, Nat.toList_repr, Json.numberLayout,
    length]
  split
  · refine ⟨scientific decimal, scientific_valid decimal, ?_, scientific_value decimal⟩
    simp only [Spelling.text, scientific, String.toList_append, String.toList_ofList,
      Option.elim_some, Int.toNat_one]
    split <;> simp
  · refine ⟨plain decimal, plain_valid decimal, ?_, plain_value decimal⟩
    simp only [Spelling.text, plain, Option.elim_some, Option.elim_none, List.append_nil]
    by_cases small : decimal.point ≤ 0
    · simp only [small, ↓reduceIte]
      simp
    · by_cases whole : (Double.digitCount decimal.digits : Int) ≤ decimal.point
      · simp only [small, whole, ↓reduceIte]
        rw [List.take_of_length_le (by rw [length]; omega)]
        simp
      · simp only [small, whole, ↓reduceIte]
        rw [show (decimal.point - (Double.digitCount decimal.digits : Int)).toNat = 0 by omega]
        simp

end Layouts

/-- The text of a finite double without its sign. -/
def magnitude (mantissa : Nat) (exponent : Int) : String :=
  if mantissa = 0 then "0.0" else Json.numberLayout.renderDecimal (Double.shortest mantissa exponent)

/-- What a magnitude stands for. -/
private def magnitudeValue (mantissa : Nat) (exponent : Int) : ℚ :=
  if mantissa = 0 then 0 else valueOf (Double.shortest mantissa exponent)

private theorem magnitude_spelled (mantissa : Nat) (exponent : Int) :
    ∃ spelling : Spelling, spelling.Valid ∧ (magnitude mantissa exponent).toList = spelling.text ∧
      spelling.value = magnitudeValue mantissa exponent := by
  unfold magnitude magnitudeValue
  split
  · refine ⟨⟨['0'], some ['0'], none⟩, ⟨by simp, zeros_digits 1, zeros_digits 1, .inl rfl⟩, rfl, ?_⟩
    simp [Spelling.value, Nat.ofDigitChars]
  · exact decimal_spelled _

/-- Canonical numbers with one text are the same number. -/
private theorem magnitude_unique {mantissa other : Nat} {exponent otherExponent : Int}
    (canonical : IsCanonical mantissa exponent) (canonicalOther : IsCanonical other otherExponent)
    (same : magnitude mantissa exponent = magnitude other otherExponent) :
    mantissa = other ∧ exponent = otherExponent := by
  have values : magnitudeValue mantissa exponent = magnitudeValue other otherExponent := by
    obtain ⟨first, firstValid, firstText, firstValue⟩ := magnitude_spelled mantissa exponent
    obtain ⟨second, secondValid, secondText, secondValue⟩ := magnitude_spelled other otherExponent
    rw [← firstValue, ← secondValue, ← read_text firstValid, ← read_text secondValid, ← firstText,
      ← secondText, same]
  have least : ∀ {e : Int}, IsCanonical 0 e → e = leastExponent := by
    intro e zero
    obtain ⟨_, _, _, full | least⟩ := zero
    · exact absurd full (by decide)
    · exact least
  unfold magnitudeValue at values
  by_cases zero : mantissa = 0 <;> by_cases otherZero : other = 0
  · subst zero otherZero
    exact ⟨rfl, (least canonical).trans (least canonicalOther).symm⟩
  · rw [if_pos zero, if_neg otherZero] at values
    exact absurd values (shortest_positive otherZero canonicalOther.1).ne
  · rw [if_neg zero, if_pos otherZero] at values
    exact absurd values (shortest_positive zero canonical.1).ne'
  · rw [if_neg zero, if_neg otherZero] at values
    have second : Inside (Double.neighbourhood other otherExponent) (2 ^ (otherExponent - 2))
        (valueOf (Double.shortest mantissa exponent)) := by
      rw [values]
      exact shortest_inside otherZero canonicalOther.1
    exact inside_unique canonical canonicalOther (shortest_inside zero canonical.1) second

/-- The characters that number texts are made of. -/
def isNumberChar (c : Char) : Bool :=
  c.isDigit || "-+.eNaInfity".toList.contains c

private theorem exponent_chars (power : Int) :
    ∀ c ∈ (Layout.renderExponent 2 power).toList, isNumberChar c = true := by
  have digits := digits_append (zeros_digits (2 - Double.digitCount power.natAbs))
    (toDigits_digits power.natAbs)
  intro c member
  rw [exponent_text] at member
  rcases List.mem_cons.mp member with rfl | member
  · rfl
  · rcases List.mem_cons.mp member with rfl | member
    · split <;> rfl
    · simp [isNumberChar, digits c member]

private theorem spelling_chars (valid : spelling.Valid) :
    ∀ c ∈ spelling.text, isNumberChar c = true := by
  obtain ⟨whole, fraction, power⟩ := spelling
  intro c member
  simp only [Spelling.text, List.mem_append] at member
  rcases member with (inWhole | inFraction) | inPower
  · simp [isNumberChar, valid.wholeDigits c inWhole]
  · cases fraction with
    | none => cases inFraction
    | some fraction =>
      rcases List.mem_cons.mp inFraction with rfl | later
      · rfl
      · simp [isNumberChar, valid.fractionDigits c later]
  · cases power with
    | none => cases inPower
    | some power => exact exponent_chars power c inPower

private theorem spelling_head (valid : spelling.Valid) :
    ∃ c rest, spelling.text = c :: rest ∧ c.isDigit = true := by
  obtain ⟨c, rest, same⟩ := List.exists_cons_of_ne_nil valid.filled
  have digit := valid.wholeDigits c (by simp [same])
  rw [Spelling.text, same]
  exact ⟨c, _, rfl, digit⟩

private theorem spelling_mark (valid : spelling.Valid) : '.' ∈ spelling.text ∨ 'e' ∈ spelling.text := by
  rcases valid.marked with point | exponent
  · obtain ⟨fraction, same⟩ := Option.isSome_iff_exists.mp point
    left
    simp [Spelling.text, same]
  · obtain ⟨power, same⟩ := Option.isSome_iff_exists.mp exponent
    right
    simp [Spelling.text, same, exponent_text]

/-- Is there a minus sign in front of a number? -/
def isSigned : Num → Bool
  | .int value => value < 0
  | .float .nan => false
  | .float (.infinite negative) => negative
  | .float (.finite negative _ _ _) => negative

/-- The text of a number without its sign. -/
def unsigned : Num → List Char
  | .int value => Nat.toDigits 10 value.natAbs
  | .float .nan => ['N', 'a', 'N']
  | .float (.infinite _) => ['I', 'n', 'f', 'i', 'n', 'i', 't', 'y']
  | .float (.finite _ mantissa exponent _) => (magnitude mantissa exponent).toList

theorem render_signed (number : Num) : (number.render Json.numberLayout).toList =
    (if isSigned number then ['-'] else []) ++ unsigned number := by
  cases number with
  | int value =>
    simp only [Num.render, Int.toString_eq_repr, Int.repr_eq_if, isSigned, unsigned,
      decide_eq_true_eq]
    by_cases negative : value < 0
    · rw [if_neg (by omega), if_pos negative, String.toList_append, Nat.toList_repr,
        show (-value).toNat = value.natAbs by omega]
      rfl
    · rw [if_pos (by omega), if_neg negative, Nat.toList_repr,
        show value.toNat = value.natAbs by omega]
      rfl
  | float value =>
    cases value with
    | nan => rfl
    | infinite negative => cases negative <;> rfl
    | finite negative mantissa exponent canonical =>
      simp only [Num.render, Layout.render, isSigned, unsigned, magnitude, String.toList_append]
      cases negative <;> rfl

/-- The first character after the sign. -/
theorem unsigned_head (number : Num) :
    ∃ c rest, unsigned number = c :: rest ∧ (c.isDigit = true ∨ c = 'N' ∨ c = 'I') := by
  rcases number with value | value
  · obtain ⟨c, rest, same⟩ := List.exists_cons_of_ne_nil (Nat.toDigits_ne_nil (n := value.natAbs))
    exact ⟨c, rest, same, .inl (toDigits_digits value.natAbs c (by simp [same]))⟩
  · rcases value with _ | negative | ⟨negative, mantissa, exponent, canonical⟩
    · exact ⟨'N', _, rfl, .inr (.inl rfl)⟩
    · exact ⟨'I', _, rfl, .inr (.inr rfl)⟩
    · obtain ⟨spelling, valid, same, _⟩ := magnitude_spelled mantissa exponent
      obtain ⟨c, rest, starts, digit⟩ := spelling_head valid
      exact ⟨c, rest, same.trans starts, .inl digit⟩

private theorem unsigned_chars (number : Num) : ∀ c ∈ unsigned number, isNumberChar c = true := by
  rcases number with value | value
  · intro c member
    simp [isNumberChar, toDigits_digits value.natAbs c member]
  · rcases value with _ | negative | ⟨negative, mantissa, exponent, canonical⟩
    · simp [unsigned, isNumberChar]
    · simp [unsigned, isNumberChar]
    · obtain ⟨spelling, valid, same, _⟩ := magnitude_spelled mantissa exponent
      intro c member
      exact spelling_chars valid c (same ▸ member)

theorem render_chars (number : Num) :
    ∀ c ∈ (number.render Json.numberLayout).toList, isNumberChar c = true := by
  intro c member
  rw [render_signed] at member
  rcases List.mem_append.mp member with sign | later
  · split at sign
    · cases List.mem_singleton.mp sign
      rfl
    · cases sign
  · exact unsigned_chars number c later

/-- The texts of doubles are told from those of integers by a character. -/
private theorem float_unlike (value : Int) (double : Double) :
    unsigned (.int value) ≠ unsigned (.float double) := by
  have digits := toDigits_digits value.natAbs
  intro same
  simp only [unsigned] at same
  rw [same] at digits
  rcases double with _ | negative | ⟨negative, mantissa, exponent, canonical⟩
  · exact absurd (digits 'N' (by decide)) (by decide)
  · exact absurd (digits 'I' (by simp)) (by decide)
  · obtain ⟨spelling, valid, spelled, _⟩ := magnitude_spelled mantissa exponent
    simp only [spelled] at digits
    rcases spelling_mark valid with point | exponent
    · exact absurd (digits _ point) (by decide)
    · exact absurd (digits _ exponent) (by decide)

private theorem finite_unlike (mantissa : Nat) (exponent : Int) {c : Char} {rest : List Char}
    (letter : c.isDigit = false) : (magnitude mantissa exponent).toList ≠ c :: rest := by
  intro same
  obtain ⟨spelling, valid, spelled, _⟩ := magnitude_spelled mantissa exponent
  obtain ⟨first, more, starts, digit⟩ := spelling_head valid
  rw [← spelled, same] at starts
  cases starts
  rw [digit] at letter
  cases letter

private theorem unsigned_unique {first second : Num} (signs : isSigned first = isSigned second)
    (same : unsigned first = unsigned second) : first = second := by
  rcases first with value | double <;> rcases second with other | otherDouble
  · simp only [unsigned] at same
    have sizes : value.natAbs = other.natAbs := by
      rw [← Nat.ofDigitChars_ten_toDigits (n := value.natAbs), same, Nat.ofDigitChars_ten_toDigits]
    simp only [isSigned, decide_eq_decide] at signs
    rw [show value = other by omega]
  · exact absurd same (float_unlike _ _)
  · exact absurd same.symm (float_unlike _ _)
  · rcases double with _ | negative | ⟨negative, mantissa, exponent, canonical⟩ <;>
      rcases otherDouble with _ | otherNegative | ⟨otherNegative, other, otherExponent, canonicalOther⟩
    · rfl
    · exact absurd same (by simp [unsigned])
    · exact absurd same.symm (finite_unlike _ _ rfl)
    · exact absurd same (by simp [unsigned])
    · rw [show negative = otherNegative from signs]
    · exact absurd same.symm (finite_unlike _ _ rfl)
    · exact absurd same (finite_unlike _ _ rfl)
    · exact absurd same (finite_unlike _ _ rfl)
    · cases signs
      obtain ⟨rfl, rfl⟩ := magnitude_unique canonical canonicalOther (String.toList_inj.mp same)
      rfl

/-- Distinct numbers have distinct texts. -/
theorem render_unique {first second : Num}
    (same : first.render Json.numberLayout = second.render Json.numberLayout) : first = second := by
  have texts : (first.render Json.numberLayout).toList = (second.render Json.numberLayout).toList :=
    congrArg String.toList same
  rw [render_signed, render_signed] at texts
  obtain ⟨c, rest, starts, head⟩ := unsigned_head first
  obtain ⟨d, more, startsOther, headOther⟩ := unsigned_head second
  have unsignedHead : ∀ {x : Char}, x.isDigit = true ∨ x = 'N' ∨ x = 'I' → x ≠ '-' := by
    rintro x (digit | rfl | rfl)
    · rintro rfl
      cases digit
    · decide
    · decide
  cases sign : isSigned first <;> cases signOther : isSigned second
  · rw [sign, signOther] at texts
    exact unsigned_unique (sign.trans signOther.symm) texts
  · rw [sign, signOther, starts] at texts
    exact absurd (List.cons.inj texts).1 (unsignedHead head)
  · rw [sign, signOther, startsOther] at texts
    exact absurd (List.cons.inj texts).1.symm (unsignedHead headOther)
  · rw [sign, signOther] at texts
    exact unsigned_unique (sign.trans signOther.symm) (List.cons.inj texts).2

end EntitySchema.NumberText
