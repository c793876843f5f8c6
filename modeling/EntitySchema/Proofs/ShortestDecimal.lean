import EntitySchema.Number.Shortest
import Mathlib.Algebra.Order.Field.Power
import Mathlib.Data.Rat.Cast.Order
import Mathlib.Tactic.FieldSimp
import Mathlib.Tactic.Linarith
import Mathlib.Tactic.Ring

/-! The shortest decimal names its double. The decimal that is chosen lies among
the values that round to the double, since the search of up to seventeen digits
always finds one there, and no value rounds to two doubles. So two doubles with
the same shortest decimal are the same. -/
namespace EntitySchema.ShortestDecimal
open Number Double

variable {mantissa : Nat} {exponent place : Int} {hood : Neighbourhood} {unit grid value : ℚ}
variable {num den candidate : Nat}

/-- The number that a decimal stands for. -/
def valueOf (decimal : Decimal) : ℚ :=
  decimal.digits * 10 ^ (decimal.point - digitCount decimal.digits)

/-- Values that round to the middle of the neighbourhood, whose bounds are
counted in `unit`s. -/
def Inside (hood : Neighbourhood) (unit value : ℚ) : Prop :=
  if hood.closed then hood.low * unit ≤ value ∧ value ≤ hood.high * unit
  else hood.low * unit < value ∧ value < hood.high * unit

private theorem inside_bounds (inside : Inside hood unit value) :
    hood.low * unit ≤ value ∧ value ≤ hood.high * unit := by
  unfold Inside at inside
  split at inside
  · exact inside
  · exact ⟨inside.1.le, inside.2.le⟩

private theorem inside_open (inside : Inside hood unit value) (isOpen : hood.closed = false) :
    hood.low * unit < value ∧ value < hood.high * unit := by
  unfold Inside at inside
  rwa [isOpen, if_neg Bool.false_ne_true] at inside

private theorem power_split (base : ℚ) (nonzero : base ≠ 0) (power : Int) :
    base ^ power * base ^ (-power).toNat = base ^ power.toNat := by
  rw [← zpow_natCast, ← zpow_natCast, ← zpow_add₀ nonzero]
  congr 1
  omega

private theorem tenTo_cast (n : Nat) : (tenTo n : ℚ) = 10 ^ n := by
  simp [tenTo]

private theorem twoTo_cast (n : Nat) : (twoTo n : ℚ) = 2 ^ n := by
  simp [twoTo]

/-- The scale of a grid compares its step with the unit of the exponent. -/
private theorem scale_ratio (exponent place : Int) :
    ((gridScale exponent place).1 : ℚ) * 10 ^ place =
      (gridScale exponent place).2 * 2 ^ (exponent - 2) := by
  have two := power_split 2 (by norm_num) (exponent - 2)
  have ten := power_split 10 (by norm_num) place
  simp only [gridScale, Nat.cast_mul, tenTo_cast, twoTo_cast]
  rw [← two, ← ten]
  ring

private theorem scale_positive (exponent place : Int) :
    0 < (gridScale exponent place).1 ∧ 0 < (gridScale exponent place).2 := by
  simp only [gridScale, twoTo, tenTo]
  exact ⟨Nat.mul_pos (Nat.pow_pos (by decide)) (Nat.pow_pos (by decide)),
    Nat.mul_pos (Nat.pow_pos (by decide)) (Nat.pow_pos (by decide))⟩

/-- Bounds and candidates are compared as naturals: both are multiples of one
positive step. -/
private theorem common_step (exponent place : Int) :
    ∃ step : ℚ, 0 < step ∧
      (∀ bound : Nat, (bound : ℚ) * 2 ^ (exponent - 2) =
        ((bound * (gridScale exponent place).1 : Nat) : ℚ) * step) ∧
      ∀ candidate : Nat, (candidate : ℚ) * 10 ^ place =
        ((candidate * (gridScale exponent place).2 : Nat) : ℚ) * step := by
  have ratio := scale_ratio exponent place
  have positive : (0 : ℚ) < (gridScale exponent place).2 := by
    exact_mod_cast (scale_positive exponent place).2
  have ten : (0 : ℚ) < 10 ^ place := zpow_pos (by norm_num) place
  refine ⟨10 ^ place / (gridScale exponent place).2, div_pos ten positive, ?_, ?_⟩
  · intro bound
    push_cast
    rw [mul_div_assoc', mul_assoc, ratio, eq_div_iff positive.ne']
    ring
  · intro candidate
    push_cast
    rw [mul_div_assoc', eq_div_iff positive.ne']
    ring

private theorem admits_inside
    (admitted : hood.admits (gridScale exponent place).1 (gridScale exponent place).2 candidate =
      true) :
    Inside hood (2 ^ (exponent - 2)) (candidate * 10 ^ place) := by
  obtain ⟨step, positive, bounds, candidates⟩ := common_step exponent place
  unfold Inside
  rw [bounds, bounds, candidates]
  unfold Neighbourhood.admits at admitted
  split at admitted
  · rename_i closed
    simp only [Bool.and_eq_true, decide_eq_true_eq] at admitted
    rw [if_pos closed]
    exact ⟨mul_le_mul_of_nonneg_right (by exact_mod_cast admitted.1) positive.le,
      mul_le_mul_of_nonneg_right (by exact_mod_cast admitted.2) positive.le⟩
  · rename_i isOpen
    simp only [Bool.and_eq_true, decide_eq_true_eq] at admitted
    rw [if_neg isOpen]
    exact ⟨mul_lt_mul_of_pos_right (by exact_mod_cast admitted.1) positive,
      mul_lt_mul_of_pos_right (by exact_mod_cast admitted.2) positive⟩

private theorem pick_admits (picked : hood.pick num den = some candidate) :
    hood.admits num den candidate = true := by
  unfold Neighbourhood.pick at picked
  simp only at picked
  split at picked
  · split at picked
    · cases picked; assumption
    · split at picked
      · cases picked; assumption
      · split at picked <;> cases picked <;> assumption
  · cases picked; assumption
  · cases picked; assumption
  · cases picked

/-- A grid on which nothing is picked is coarser than the neighbourhood. -/
private theorem pick_fails (ordered : hood.low ≤ hood.middle ∧ hood.middle < hood.high)
    (numPositive : 0 < num) (denPositive : 0 < den) (failed : hood.pick num den = none) :
    (hood.high - hood.low) * num ≤ den := by
  have below : hood.middle * num / den * den ≤ hood.middle * num := Nat.div_mul_le_self _ _
  have above : hood.middle * num < (hood.middle * num / den + 1) * den := by
    rw [Nat.mul_comm _ den]
    exact Nat.lt_mul_div_succ _ denPositive
  have lowest : hood.low * num ≤ hood.middle * num := Nat.mul_le_mul_right _ ordered.1
  have highest : hood.middle * num < hood.high * num :=
    (Nat.mul_lt_mul_right numPositive).mpr ordered.2
  unfold Neighbourhood.pick at failed
  simp only at failed
  generalize hood.middle * num / den = floor at *
  have refused : hood.admits num den floor = false ∧ hood.admits num den (floor + 1) = false := by
    split at failed
    · split at failed
      · cases failed
      · split at failed
        · cases failed
        · split at failed <;> cases failed
    · cases failed
    · cases failed
    · exact ⟨‹_›, ‹_›⟩
  have wide : hood.high * num ≤ hood.low * num + den := by
    have next : (floor + 1) * den = floor * den + den := Nat.succ_mul floor den
    obtain ⟨lower, upper⟩ := refused
    unfold Neighbourhood.admits at lower upper
    cases closed : hood.closed with
    | true =>
      simp only [closed, ↓reduceIte, Bool.and_eq_false_imp, decide_eq_true_eq,
        decide_eq_false_iff_not] at lower upper
      omega
    | false =>
      simp only [closed, Bool.false_eq_true, ↓reduceIte, Bool.and_eq_false_imp, decide_eq_true_eq,
        decide_eq_false_iff_not] at lower upper
      omega
  rw [Nat.sub_mul]
  omega

theorem digitCount_positive (n : Nat) : 0 < digitCount n :=
  Nat.length_toDigits_pos

private theorem lt_digitCount (n : Nat) : n < 10 ^ digitCount n :=
  (Nat.length_toDigits_le_iff (by decide) (digitCount_positive n)).mp le_rfl

private theorem digitCount_le {n : Nat} (positive : 0 < n) : 10 ^ (digitCount n - 1) ≤ n := by
  by_cases single : digitCount n - 1 = 0
  · rw [single]
    exact positive
  · by_contra less
    have short : digitCount n ≤ digitCount n - 1 :=
      (Nat.length_toDigits_le_iff (by decide) (Nat.pos_of_ne_zero single)).mpr (by omega)
    have := digitCount_positive n
    omega

private theorem digitCount_tenth {n : Nat} (many : 10 ≤ n) :
    digitCount n = digitCount (n / 10) + 1 := by
  unfold digitCount
  rw [Nat.toDigits_of_base_le (by decide) many, List.length_append, List.length_singleton]

private theorem small_power {k : Nat} (bound : den ≤ num * 10 ^ k) :
    (10 : ℚ) ^ (-(k : Int)) * den ≤ num := by
  have ten : (0 : ℚ) < 10 ^ k := by positivity
  rw [zpow_neg, zpow_natCast, inv_mul_le_iff₀ ten, mul_comm]
  exact_mod_cast bound

/-- The point is not too high: the number has a digit before it. -/
private theorem pointOf_le (numPositive : 0 < num) (denPositive : 0 < den) :
    (10 : ℚ) ^ (pointOf num den - 1) * den ≤ num := by
  unfold pointOf
  split
  · rename_i large
    have positive := digitCount_positive (num / den)
    have whole : 10 ^ (digitCount (num / den) - 1) * den ≤ num :=
      le_trans (Nat.mul_le_mul_right _ (digitCount_le (Nat.div_pos large denPositive)))
        (Nat.div_mul_le_self num den)
    rw [show ((digitCount (num / den) : Int) - 1) = ((digitCount (num / den) - 1 : Nat) : Int) by
      omega, zpow_natCast]
    exact_mod_cast whole
  · have positive := digitCount_positive (den / num)
    have short : den ≤ num * 10 ^ digitCount (den / num) := by
      have less := (Nat.div_lt_iff_lt_mul numPositive).mp (lt_digitCount (den / num))
      rw [Nat.mul_comm]
      exact less.le
    simp only
    split
    · rename_i shorter
      rw [show (2 - (digitCount (den / num) : Int) - 1) = -((digitCount (den / num) - 1 : Nat) : Int)
        by omega]
      exact small_power shorter
    · rw [show (1 - (digitCount (den / num) : Int) - 1) = -(digitCount (den / num) : Int) by omega]
      exact small_power short

private theorem neighbourhood_ordered (mantissa : Nat) (exponent : Int) :
    (neighbourhood mantissa exponent).low ≤ (neighbourhood mantissa exponent).middle ∧
      (neighbourhood mantissa exponent).middle < (neighbourhood mantissa exponent).high := by
  simp only [neighbourhood]
  split <;> omega

/-- With seventeen digits the grid is finer than any neighbourhood. -/
private theorem seventeen_suffice (nonzero : mantissa ≠ 0) (bounded : mantissa < mantissaBound)
    {point : Int} (high : (10 : ℚ) ^ (point - 1) ≤ (4 * mantissa : Nat) * 2 ^ (exponent - 2)) :
    (neighbourhood mantissa exponent).pick (gridScale exponent (point - 17)).1
      (gridScale exponent (point - 17)).2 ≠ none := by
  intro failed
  obtain ⟨numPositive, denPositive⟩ := scale_positive exponent (point - 17)
  have coarse := pick_fails (neighbourhood_ordered mantissa exponent) numPositive denPositive failed
  obtain ⟨step, positive, bounds, candidates⟩ := common_step exponent (point - 17)
  have fine : 10 ^ 16 * (gridScale exponent (point - 17)).2 ≤
      4 * mantissa * (gridScale exponent (point - 17)).1 := by
    have shifted : (10 : ℚ) ^ (point - 1) = ((10 ^ 16 : Nat) : ℚ) * 10 ^ (point - 17) := by
      rw [show point - 1 = 16 + (point - 17) by ring, zpow_add₀ (by norm_num)]
      norm_num
    rw [shifted, candidates, bounds] at high
    exact_mod_cast le_of_mul_le_mul_right high positive
  have limit : mantissaBound = 9007199254740992 := by decide
  rw [limit] at bounded
  generalize (gridScale exponent (point - 17)).1 = num at *
  generalize (gridScale exponent (point - 17)).2 = den at *
  simp only [neighbourhood, limit] at coarse
  split at coarse
  · rename_i narrow
    simp only [Bool.and_eq_true, beq_iff_eq] at narrow
    obtain ⟨rfl, _⟩ := narrow
    omega
  · have width : 4 * mantissa + 2 - (4 * mantissa - 2) = 4 := by omega
    rw [width] at coarse
    have : mantissa * num ≤ 9007199254740991 * num := Nat.mul_le_mul_right _ (by omega)
    have : 4 * mantissa * num = 4 * (mantissa * num) := Nat.mul_assoc _ _ _
    omega

private theorem shortestFrom_finds {point : Int} {tries count : Nat}
    (found : ∃ more < tries, hood.pick (gridScale exponent (point - (count + more : Nat))).1
      (gridScale exponent (point - (count + more : Nat))).2 ≠ none) :
    ∃ place digits, hood.pick (gridScale exponent place).1 (gridScale exponent place).2 =
        some digits ∧
      shortestFrom hood exponent point tries count =
        ⟨dropZeros (digitCount digits) digits, digitCount digits + place⟩ := by
  induction tries generalizing count with
  | zero =>
    obtain ⟨more, less, _⟩ := found
    omega
  | succ tries ih =>
    rw [shortestFrom]
    cases here : hood.pick (gridScale exponent (point - count)).1
      (gridScale exponent (point - count)).2 with
    | some digits => exact ⟨point - count, digits, here, rfl⟩
    | none =>
      apply ih
      obtain ⟨more, less, picked⟩ := found
      cases more with
      | zero => exact absurd here picked
      | succ more =>
        refine ⟨more, by omega, ?_⟩
        rwa [show count + 1 + more = count + (more + 1) by omega]

private theorem dropZeros_value (fuel n : Nat) (point : Int) :
    valueOf ⟨dropZeros fuel n, point⟩ = n * 10 ^ (point - digitCount n) := by
  induction fuel generalizing n with
  | zero => rfl
  | succ fuel ih =>
    rw [dropZeros]
    split
    · rename_i round
      simp only [Bool.and_eq_true, bne_iff_ne, beq_iff_eq] at round
      obtain ⟨nonzero, divisible⟩ := round
      have many : 10 ≤ n := by omega
      rw [ih, digitCount_tenth many]
      obtain ⟨tenth, rfl⟩ : ∃ tenth, n = 10 * tenth := ⟨n / 10, by omega⟩
      rw [Nat.mul_div_cancel_left tenth (by decide)]
      push_cast
      rw [show point - (digitCount tenth : Int) = 1 + (point - (digitCount tenth + 1)) by ring,
        zpow_add₀ (by norm_num), zpow_one]
      ring
    · rfl

/-- The shortest decimal of a double is a value that rounds to it. -/
theorem shortest_inside (nonzero : mantissa ≠ 0) (bounded : mantissa < mantissaBound) :
    Inside (neighbourhood mantissa exponent) (2 ^ (exponent - 2))
      (valueOf (shortest mantissa exponent)) := by
  obtain ⟨numPositive, denPositive⟩ := scale_positive exponent 0
  have ratio := scale_ratio exponent 0
  rw [zpow_zero, mul_one] at ratio
  have high : (10 : ℚ) ^ (pointOf (4 * mantissa * (gridScale exponent 0).1)
      (gridScale exponent 0).2 - 1) ≤ (4 * mantissa : Nat) * 2 ^ (exponent - 2) := by
    have filled : 0 < 4 * mantissa * (gridScale exponent 0).1 :=
      Nat.mul_pos (by omega) numPositive
    have below := pointOf_le filled denPositive
    have positive : (0 : ℚ) < (gridScale exponent 0).2 := by exact_mod_cast denPositive
    refine le_of_mul_le_mul_right (below.trans_eq ?_) positive
    rw [Nat.cast_mul, ratio]
    ring
  obtain ⟨place, digits, picked, chosen⟩ : ∃ place digits,
      (neighbourhood mantissa exponent).pick (gridScale exponent place).1
        (gridScale exponent place).2 = some digits ∧
      shortest mantissa exponent =
        ⟨dropZeros (digitCount digits) digits, digitCount digits + place⟩ :=
    shortestFrom_finds ⟨16, by decide, seventeen_suffice nonzero bounded high⟩
  have value : valueOf (shortest mantissa exponent) = digits * 10 ^ place := by
    rw [chosen, dropZeros_value]
    congr 2
    ring
  rw [value]
  exact admits_inside (pick_admits picked)

section Apart

variable {larger : Nat} {higher : Int}

private theorem unit_positive (exponent : Int) : (0 : ℚ) < 2 ^ (exponent - 2) :=
  zpow_pos (by norm_num) _

/-- At one exponent, neighbourhoods touch in a point that belongs to the even
mantissa only. -/
private theorem apart_mantissa (less : mantissa < larger)
    (first : Inside (neighbourhood mantissa exponent) (2 ^ (exponent - 2)) value)
    (second : Inside (neighbourhood larger exponent) (2 ^ (exponent - 2)) value) : False := by
  have positive := unit_positive exponent
  have upper := (inside_bounds first).2
  have lower := (inside_bounds second).1
  have touching : (neighbourhood larger exponent).low ≤ (neighbourhood mantissa exponent).high := by
    exact_mod_cast le_of_mul_le_mul_right (lower.trans upper) positive
  have adjacent : larger = mantissa + 1 ∧
      (neighbourhood larger exponent).low = (neighbourhood mantissa exponent).high := by
    simp only [neighbourhood] at touching ⊢
    split at touching
    · omega
    · rename_i wide
      rw [if_neg wide]
      omega
  obtain ⟨rfl, same⟩ := adjacent
  rw [same] at lower
  rcases Nat.mod_two_eq_zero_or_one mantissa with even | odd
  · have isOpen : (neighbourhood (mantissa + 1) exponent).closed = false := by
      simp only [neighbourhood, beq_eq_false_iff_ne]
      omega
    have strict := (inside_open second isOpen).1
    rw [same] at strict
    exact absurd (strict.trans_le upper) (lt_irrefl _)
  · have isOpen : (neighbourhood mantissa exponent).closed = false := by
      simp only [neighbourhood, beq_eq_false_iff_ne]
      omega
    exact absurd ((inside_open first isOpen).2.trans_le lower) (lt_irrefl _)

/-- Above the least exponent mantissas have full length, so all values at a
higher exponent are larger. -/
private theorem apart_exponent (canonical : IsCanonical mantissa exponent)
    (other : IsCanonical larger higher) (less : exponent < higher)
    (first : Inside (neighbourhood mantissa exponent) (2 ^ (exponent - 2)) value)
    (second : Inside (neighbourhood larger higher) (2 ^ (higher - 2)) value) : False := by
  have positive := unit_positive exponent
  have limit : mantissaBound = 9007199254740992 := by decide
  obtain ⟨bounded, atLeast, _, _⟩ := canonical
  obtain ⟨_, _, _, full | least⟩ := other
  · rw [limit] at bounded full
    have upper := (inside_bounds first).2
    have lower := (inside_bounds second).1
    have floor : 18014398509481983 ≤ (neighbourhood larger higher).low := by
      have above : leastExponent < higher := atLeast.trans_lt less
      simp only [neighbourhood, above, limit, decide_true, Bool.and_true, beq_iff_eq]
      split <;> omega
    have scaled : (18014398509481983 : ℚ) * 2 * 2 ^ (exponent - 2) ≤ value := by
      refine le_trans ?_ lower
      have steps : (2 : ℚ) * 2 ^ (exponent - 2) ≤ 2 ^ (higher - 2) := by
        rw [← zpow_one_add₀ (by norm_num)]
        exact zpow_le_zpow_right₀ (by norm_num) (by omega)
      rw [mul_assoc]
      exact mul_le_mul (by exact_mod_cast floor) steps (by positivity) (by positivity)
    have touching : 18014398509481983 * 2 ≤ (neighbourhood mantissa exponent).high := by
      exact_mod_cast le_of_mul_le_mul_right (scaled.trans upper) positive
    -- Only the last mantissa reaches that far, and it is odd.
    have last : mantissa = 9007199254740991 := by
      simp only [neighbourhood] at touching
      omega
    subst last
    have strict := (inside_open first rfl).2
    have bound : ((neighbourhood 9007199254740991 exponent).high : ℚ) = 18014398509481983 * 2 := by
      norm_num [neighbourhood]
    rw [bound] at strict
    exact absurd (strict.trans_le scaled) (lt_irrefl _)
  · omega

end Apart

/-- No value rounds to two doubles. -/
theorem inside_unique {other : Nat} {otherExponent : Int} (canonical : IsCanonical mantissa exponent)
    (canonicalOther : IsCanonical other otherExponent)
    (first : Inside (neighbourhood mantissa exponent) (2 ^ (exponent - 2)) value)
    (second : Inside (neighbourhood other otherExponent) (2 ^ (otherExponent - 2)) value) :
    mantissa = other ∧ exponent = otherExponent := by
  rcases lt_trichotomy exponent otherExponent with less | rfl | more
  · exact (apart_exponent canonical canonicalOther less first second).elim
  · rcases lt_trichotomy mantissa other with less | rfl | more
    · exact (apart_mantissa less first second).elim
    · exact ⟨rfl, rfl⟩
    · exact (apart_mantissa more second first).elim
  · exact (apart_exponent canonicalOther canonical more second first).elim

theorem shortest_positive (nonzero : mantissa ≠ 0) (bounded : mantissa < mantissaBound) :
    0 < valueOf (shortest mantissa exponent) := by
  refine lt_of_lt_of_le ?_ (inside_bounds (shortest_inside nonzero bounded)).1
  have low : 0 < (neighbourhood mantissa exponent).low := by
    simp only [neighbourhood]
    split <;> omega
  exact mul_pos (by exact_mod_cast low) (unit_positive exponent)

end EntitySchema.ShortestDecimal
