import DeskCalculator.Proofs.Denotation
import DeskCalculator.Proofs.Overflow

namespace DeskCalculator

open Float.Model (Format UnpackedFloat totalExponent)
open Float.Model.UnpackedFloat (ExtendedMantissa Accuracy)
open Binary64 (ofParts Fits)

/-!
# No float is nearer

A quotient of natural numbers is rounded to a whole multiple of some power of
two, and the multiple is the nearest one, a half going to the even one.  Every
other float is either a multiple of the same power or no larger than a multiple
below the quotient, so none of them is nearer to the quotient.  A signed multiple of
any power of two is rounded in the same way, and of two floats that are equally near
the one with the even significand is taken.
-/

/-! ## Rounding to whole numbers -/

/-- A whole number next to an exact one, the even one where two are equally
near. -/
structure IsRounded (ideal : ℚ) (rounded : ℕ) : Prop where
  near : |(rounded : ℚ) - ideal| ≤ 1 / 2
  even : |(rounded : ℚ) - ideal| = 1 / 2 -> rounded % 2 = 0

namespace IsRounded

variable {ideal : ℚ} {rounded other : ℕ}

/-- No whole number is nearer. -/
theorem le_abs (isRounded : IsRounded ideal rounded) (number : ℤ) :
    |(rounded : ℚ) - ideal| ≤ |(number : ℚ) - ideal| := by
  by_cases same : number = rounded
  · rw [same, Int.cast_natCast]
  · have apart : (1 : ℚ) ≤ |(number : ℚ) - rounded| := by
      have distance : 1 ≤ |number - rounded| := Int.one_le_abs (sub_ne_zero.mpr same)
      exact_mod_cast distance
    have through := abs_sub_le (number : ℚ) ideal rounded
    rw [abs_sub_comm ideal] at through
    have near := isRounded.near
    linarith

/-- A whole number that is as near as another one is even. -/
theorem even_of_tie (isRounded : IsRounded ideal rounded) {number : ℤ}
    (different : number ≠ rounded) (tie : |(number : ℚ) - ideal| ≤ |(rounded : ℚ) - ideal|) :
    rounded % 2 = 0 := by
  have apart : (1 : ℚ) ≤ |(number : ℚ) - rounded| := by
    have distance : 1 ≤ |number - rounded| := Int.one_le_abs (sub_ne_zero.mpr different)
    exact_mod_cast distance
  have through := abs_sub_le (number : ℚ) ideal rounded
  rw [abs_sub_comm ideal] at through
  exact isRounded.even (le_antisymm isRounded.near (by linarith))

/-- Two nearest numbers would both be half a unit away, hence even, and next to
each other. -/
theorem unique (isRounded : IsRounded ideal rounded) (again : IsRounded ideal other) :
    rounded = other := by
  have first := isRounded.le_abs other
  have second := again.le_abs rounded
  rw [Int.cast_natCast] at first second
  by_contra different
  have apart : (1 : ℚ) ≤ |(rounded : ℚ) - other| := by
    have distance : 1 ≤ |(rounded : ℤ) - other| := Int.one_le_abs (by omega)
    exact_mod_cast distance
  have through := abs_sub_le (rounded : ℚ) ideal other
  rw [abs_sub_comm ideal] at through
  have near := isRounded.near
  have nearOther := again.near
  have evenFirst := isRounded.even (by linarith)
  have evenSecond := again.even (by linarith)
  have close : |(rounded : ℤ) - other| ≤ 1 := by
    have distance : |(rounded : ℚ) - other| ≤ 1 := by linarith
    exact_mod_cast distance
  rw [abs_le] at close
  omega

/-- A number that is no farther from the rounded one is rounded to it too. -/
theorem of_nearer {second : ℚ} (isRounded : IsRounded ideal rounded)
    (nearer : |(rounded : ℚ) - second| ≤ |(rounded : ℚ) - ideal|) : IsRounded second rounded :=
  ⟨nearer.trans isRounded.near, fun half =>
    isRounded.even (le_antisymm isRounded.near (half ▸ nearer))⟩

theorem self (number : ℕ) : IsRounded number number := by
  constructor
  · rw [sub_self, abs_zero]
    norm_num
  · intro half
    rw [sub_self, abs_zero] at half
    norm_num at half

/-- Rounding does not pass a whole number. -/
theorem le_of_le (isRounded : IsRounded ideal rounded) {bound : ℕ} (le : ideal ≤ bound) :
    rounded ≤ bound := by
  by_contra above
  have more : (bound : ℚ) < rounded := by exact_mod_cast not_le.mp above
  have nearest := isRounded.le_abs bound
  rw [Int.cast_natCast, abs_of_nonneg (by linarith), abs_of_nonneg (by linarith)] at nearest
  linarith

end IsRounded

/-! ## Mantissas with what is behind them -/

/-- What the accuracy says about the exact number behind a mantissa. -/
def Places (mantissa : ℕ) (ideal : ℚ) : Accuracy -> Prop
  | .exact => ideal = mantissa
  | .inexact .lt => mantissa < ideal ∧ ideal < mantissa + 1 / 2
  | .inexact .eq => ideal = mantissa + 1 / 2
  | .inexact .gt => mantissa + 1 / 2 < ideal ∧ ideal < mantissa + 1

section Places

variable {mantissa : ℕ} {ideal : ℚ} {accuracy : Accuracy}

/-- The accuracy is all that rounding needs to know. -/
theorem Places.isRounded (places : Places mantissa ideal accuracy) :
    IsRounded ideal (accuracy.roundToNearestEven mantissa) := by
  cases accuracy with
  | exact =>
      have distance : |(mantissa : ℚ) - ideal| = 0 := abs_eq_zero.mpr (sub_eq_zero.mpr places.symm)
      exact ⟨by rw [Accuracy.roundToNearestEven, distance]; norm_num, fun half => by
        rw [Accuracy.roundToNearestEven, distance] at half
        norm_num at half⟩
  | inexact relative =>
      cases relative with
      | lt =>
          have distance : |(mantissa : ℚ) - ideal| < 1 / 2 := by
            rw [abs_lt]
            constructor <;> linarith [places.1, places.2]
          exact ⟨distance.le, fun half => absurd half distance.ne⟩
      | eq =>
          have same : ideal = mantissa + 1 / 2 := places
          rw [Accuracy.roundToNearestEven]
          rcases Nat.mod_two_eq_zero_or_one mantissa with even | odd
          · rw [even, Nat.add_zero]
            refine ⟨?_, fun _ => even⟩
            rw [same, abs_le]
            constructor <;> linarith
          · rw [odd]
            refine ⟨?_, fun _ => by omega⟩
            rw [same, Nat.cast_add, Nat.cast_one, abs_le]
            constructor <;> linarith
      | gt =>
          have distance : |((mantissa + 1 : ℕ) : ℚ) - ideal| < 1 / 2 := by
            rw [Nat.cast_add, Nat.cast_one, abs_lt]
            constructor <;> linarith [places.1, places.2]
          exact ⟨distance.le, fun half => absurd half distance.ne⟩

theorem Places.le (places : Places mantissa ideal accuracy) : (mantissa : ℚ) ≤ ideal := by
  cases accuracy with
  | exact => exact le_of_eq places.symm
  | inexact relative =>
      cases relative with
      | lt => exact places.1.le
      | eq =>
          have same : ideal = mantissa + 1 / 2 := places
          linarith
      | gt => linarith [places.1]

/-- The whole part of a quotient, with the accuracy of the rest. -/
theorem places_quotient (numerator : ℕ) {denominator : ℕ} (divides : 0 < denominator) :
    Places (numerator / denominator) (numerator / denominator : ℚ)
      (UnpackedFloat.accuracyOfFraction (numerator % denominator) denominator) := by
  have positive : (0 : ℚ) < denominator := Nat.cast_pos.mpr divides
  have below := Nat.mod_lt numerator divides
  have quotient : (numerator / denominator : ℚ) =
      ((numerator / denominator : ℕ) : ℚ) + (numerator % denominator : ℕ) / denominator := by
    rw [div_eq_iff positive.ne', add_mul, div_mul_cancel₀ _ positive.ne']
    exact_mod_cast (Nat.div_add_mod' numerator denominator).symm
  generalize numerator / denominator = whole at quotient
  generalize numerator % denominator = rest at below quotient
  rw [quotient, UnpackedFloat.accuracyOfFraction]
  split
  · next zero => rw [zero, Nat.cast_zero, zero_div]; exact add_zero _
  · next nonzero =>
      have positiveRest : (0 : ℚ) < rest / denominator :=
        div_pos (Nat.cast_pos.mpr (Nat.pos_of_ne_zero nonzero)) positive
      cases order : compare (2 * rest) denominator with
      | lt =>
          have less : (2 : ℚ) * rest < denominator := by
            exact_mod_cast Nat.compare_eq_lt.mp order
          have half : (rest / denominator : ℚ) < 1 / 2 := by
            rw [div_lt_iff₀ positive]
            linarith
          exact ⟨by linarith, by linarith⟩
      | eq =>
          have same : (2 : ℚ) * rest = denominator := by
            exact_mod_cast Nat.compare_eq_eq.mp order
          have half : (rest / denominator : ℚ) = 1 / 2 := by
            rw [div_eq_iff positive.ne']
            linarith
          exact congrArg ((whole : ℚ) + ·) half
      | gt =>
          have more : (denominator : ℚ) < 2 * rest := by
            exact_mod_cast Nat.compare_eq_gt.mp order
          have half : (1 / 2 : ℚ) < rest / denominator := by
            rw [lt_div_iff₀ positive]
            linarith
          have one : (rest / denominator : ℚ) < 1 := by
            rw [div_lt_one positive]
            exact_mod_cast below
          exact ⟨by linarith, by linarith⟩

/-- Rounding a quotient rounds it in this sense. -/
theorem isRounded_roundHalfEven (numerator : ℕ) {denominator : ℕ} (divides : 0 < denominator) :
    IsRounded (numerator / denominator) (roundHalfEven numerator denominator) := by
  have same : roundHalfEven numerator denominator =
      (UnpackedFloat.accuracyOfFraction (numerator % denominator) denominator).roundToNearestEven
        (numerator / denominator) := by
    unfold roundHalfEven UnpackedFloat.accuracyOfFraction
    dsimp only
    by_cases zero : numerator % denominator = 0
    · rw [if_pos zero, zero, Nat.compare_eq_lt.mpr (by omega)]
      rfl
    · rw [if_neg zero]
      cases compare (2 * (numerator % denominator)) denominator <;> rfl
  rw [same]
  exact (places_quotient numerator divides).isRounded

end Places

/-- What the round bit of a mantissa stands for. -/
def halfOf (roundBit : Bool) : ℚ :=
  if roundBit then 1 / 2 else 0

theorem halfOf_true : halfOf true = 1 / 2 :=
  if_pos rfl

theorem halfOf_false : halfOf false = 0 :=
  if_neg nofun

/-- The mantissa and its two further bits describe the exact number: behind them
there is less than half a unit, and the sticky bit says whether there is
anything. -/
def Describes (extended : ExtendedMantissa) (ideal : ℚ) : Prop :=
  Exists fun rest : ℚ => 0 ≤ rest ∧ rest < 1 / 2 ∧ (extended.stickyBit = true ↔ 0 < rest) ∧
    ideal = extended.mantissa + halfOf extended.roundBit + rest

namespace Describes

variable {extended : ExtendedMantissa} {ideal : ℚ}

theorem places (describes : Describes extended ideal) :
    Places extended.mantissa ideal extended.accuracy := by
  rcases extended with ⟨mantissa, roundBit, stickyBit⟩
  rcases describes with ⟨rest, nonneg, small, sticky, rfl⟩
  cases stickyBit with
  | true =>
      have positiveRest : 0 < rest := sticky.mp rfl
      cases roundBit with
      | true =>
          rw [halfOf_true]
          exact ⟨by linarith, by linarith⟩
      | false =>
          rw [halfOf_false]
          exact ⟨by linarith, by linarith⟩
  | false =>
      have noRest : rest = 0 :=
        le_antisymm
          (not_lt.mp fun positiveRest => Bool.false_ne_true (sticky.mpr positiveRest)) nonneg
      rw [noRest, add_zero]
      cases roundBit with
      | true =>
          rw [halfOf_true]
          rfl
      | false =>
          rw [halfOf_false]
          exact add_zero _

theorem ofAccuracy {mantissa : ℕ} {accuracy : Accuracy} (places : Places mantissa ideal accuracy) :
    Describes (.ofMantissaAndAccuracy mantissa accuracy) ideal := by
  cases accuracy with
  | exact =>
      refine ⟨0, le_refl 0, by norm_num, iff_of_false Bool.false_ne_true (lt_irrefl 0), ?_⟩
      change ideal = mantissa + halfOf false + 0
      rw [halfOf_false, add_zero, add_zero]
      exact places
  | inexact relative =>
      cases relative with
      | lt =>
          rcases places with ⟨above, below⟩
          refine ⟨ideal - mantissa, by linarith, by linarith, iff_of_true rfl (by linarith), ?_⟩
          change ideal = mantissa + halfOf false + (ideal - mantissa)
          rw [halfOf_false]
          ring
      | eq =>
          refine ⟨0, le_refl 0, by norm_num, iff_of_false Bool.false_ne_true (lt_irrefl 0), ?_⟩
          change ideal = mantissa + halfOf true + 0
          rw [halfOf_true, add_zero]
          exact places
      | gt =>
          rcases places with ⟨above, below⟩
          refine ⟨ideal - mantissa - 1 / 2, by linarith, by linarith,
            iff_of_true rfl (by linarith), ?_⟩
          change ideal = mantissa + halfOf true + (ideal - mantissa - 1 / 2)
          rw [halfOf_true]
          ring

/-- Shifting halves the exact number. -/
theorem shiftRightOne (describes : Describes extended ideal) :
    Describes extended.shiftRightOne (ideal / 2) := by
  rcases extended with ⟨mantissa, roundBit, stickyBit⟩
  rcases describes with ⟨rest, nonneg, small, sticky, rfl⟩
  have whole : (mantissa : ℚ) = 2 * (mantissa / 2 : ℕ) + (mantissa % 2 : ℕ) := by
    exact_mod_cast (Nat.div_add_mod mantissa 2).symm
  have last : halfOf (mantissa % 2 != 0) = (mantissa % 2 : ℕ) / 2 := by
    rcases Nat.mod_two_eq_zero_or_one mantissa with even | odd
    · simp [halfOf, even]
    · simp [halfOf, odd]
  have bounds : 0 ≤ halfOf roundBit ∧ halfOf roundBit ≤ 1 / 2 := by
    cases roundBit with
    | true => exact ⟨by rw [halfOf_true]; norm_num, halfOf_true.le⟩
    | false => exact ⟨halfOf_false.ge, by rw [halfOf_false]; norm_num⟩
  refine ⟨(halfOf roundBit + rest) / 2, by linarith, by linarith, ?_, ?_⟩
  · dsimp only [ExtendedMantissa.shiftRightOne]
    cases roundBit with
    | true => exact iff_of_true rfl (by rw [halfOf_true]; linarith)
    | false =>
        rw [Bool.false_or, halfOf_false, zero_add]
        exact sticky.trans ⟨half_pos, fun halved => by linarith⟩
  · dsimp only [ExtendedMantissa.shiftRightOne]
    rw [last, whole]
    ring

theorem shiftRight (describes : Describes extended ideal) (shift : ℕ) :
    Describes (extended >>> shift) (ideal / 2 ^ shift) := by
  induction shift with
  | zero =>
      rw [pow_zero, div_one]
      exact describes
  | succ shift ih =>
      rw [pow_succ, ← div_div]
      exact ih.shiftRightOne

end Describes

/-! ## Rounding to the format -/

/-- The multiple of a power of two is the nearest one to a number.  The power is the
least one, or the number is at least as large as the significands of full length. -/
structure RoundsTo (ideal : ℚ) (rounded : ℕ) (power : ℤ) : Prop where
  rounds : IsRounded (ideal / 2 ^ power) rounded
  short : rounded ≤ 2 ^ 53
  least : -1074 ≤ power
  long : -1074 < power -> (2 : ℚ) ^ 52 * 2 ^ power ≤ ideal

namespace Binary64

section Rounding

variable {significand : ℕ} {exponent : ℤ} {accuracy : Accuracy} {ideal : ℚ}

/-- The first rounding goes to the nearest multiple of the power of two that is
aimed at. -/
theorem isRounded_firstRounded (places : Places significand ideal accuracy)
    (below : exponent ≤ target significand exponent) :
    IsRounded (ideal * 2 ^ exponent / 2 ^ target significand exponent)
      (firstRounded significand exponent accuracy) := by
  have shifted := ((Describes.ofAccuracy places).shiftRight
    (target significand exponent - exponent).toNat).places.isRounded
  have power : (2 : ℚ) ^ target significand exponent =
      2 ^ exponent * 2 ^ (target significand exponent - exponent).toNat := by
    rw [← zpow_natCast, ← two_zpow_add]
    congr 1
    omega
  rw [power, mul_comm ideal, mul_div_mul_left _ _ (two_zpow_pos exponent).ne']
  exact shifted

/-- A rounded significand has its full length, unless it is at the least
exponent. -/
theorem firstRounded_full (below : exponent ≤ target significand exponent)
    (above : -1074 < target significand exponent) :
    2 ^ 52 ≤ firstRounded significand exponent accuracy := by
  have length : target significand exponent = significand.log2 + exponent - 52 := by
    unfold target at above ⊢
    omega
  have nonzero : significand ≠ 0 := by
    rintro rfl
    rw [Nat.log2_zero] at length
    omega
  refine Nat.le_trans ?_ (roundedMantissa_bounds _).1
  rw [shiftRight_mantissa, ofMantissaAndAccuracy_mantissa,
    Nat.le_div_iff_mul_le (Nat.two_pow_pos _), ← pow_add]
  exact Nat.le_trans (Nat.pow_le_pow_right (by decide) (by omega)) (Nat.log2_self_le nonzero)

/-- The second shift only halves a significand that has become one bit too long,
which is a power of two. -/
theorem rounded_cases (below : exponent ≤ target significand exponent) :
    (firstRounded significand exponent accuracy < 2 ^ 53 ∧
      roundedSignificand significand exponent accuracy =
        firstRounded significand exponent accuracy ∧
      roundedExponent significand exponent accuracy = target significand exponent) ∨
    (firstRounded significand exponent accuracy = 2 ^ 53 ∧
      roundedSignificand significand exponent accuracy = 2 ^ 52 ∧
      roundedExponent significand exponent accuracy = target significand exponent + 1) := by
  have least := (target_bounds significand exponent).2
  have bounded := @firstRounded_le significand exponent accuracy
  unfold roundedSignificand roundedExponent
  rw [max_eq_right below]
  generalize target significand exponent = aim at least
  generalize firstRounded significand exponent accuracy = rounded at bounded
  dsimp only
  rcases Nat.lt_or_eq_of_le bounded with short | rfl
  · have length : rounded.log2 ≤ 52 := log2_le_of_lt short
    have stays : target rounded aim ≤ aim := by
      unfold target
      omega
    have noShift : (target rounded aim - aim).toNat = 0 := by omega
    exact .inl ⟨short, by rw [noShift, pow_zero, Nat.div_one], max_eq_left stays⟩
  · have next : target (2 ^ 53) aim = aim + 1 := by
      unfold target
      rw [Nat.log2_two_pow]
      omega
    have oneStep : (aim + 1 - aim).toNat = 1 := by omega
    rw [next, oneStep]
    exact .inr ⟨rfl, by decide, max_eq_right (by omega)⟩

/-- The second shift loses nothing. -/
theorem rounded_value (below : exponent ≤ target significand exponent) :
    (roundedSignificand significand exponent accuracy : ℚ) *
        2 ^ roundedExponent significand exponent accuracy =
      firstRounded significand exponent accuracy * 2 ^ target significand exponent := by
  rcases @rounded_cases significand exponent accuracy below with
    ⟨_, same, stays⟩ | ⟨long, halved, next⟩
  · rw [same, stays]
  · rw [halved, next, long, two_zpow_add]
    norm_num
    ring

/-- What is rounded is in the format, unless its exponent is too large. -/
theorem rounded_fits (below : exponent ≤ target significand exponent)
    (positive : 0 < firstRounded significand exponent accuracy)
    (most : roundedExponent significand exponent accuracy ≤ 971) :
    Fits (roundedSignificand significand exponent accuracy)
      (roundedExponent significand exponent accuracy) := by
  have least := (target_bounds significand exponent).2
  have full := @firstRounded_full significand exponent accuracy below
  rcases @rounded_cases significand exponent accuracy below with
    ⟨short, same, stays⟩ | ⟨long, halved, next⟩
  · rw [stays] at most
    rw [same, stays]
    refine ⟨positive, short, least, most, ?_⟩
    rcases Int.lt_or_eq_of_le least with above | isLeast
    · exact .inl (full above)
    · exact .inr isLeast.symm
  · rw [next] at most
    rw [halved, next]
    exact ⟨by decide, by decide, by omega, most, .inl (Nat.le_refl _)⟩

/-- Unless the exponent is the least one, the exact number is as large as the
significands of full length. -/
theorem two_zpow_target_le (places : Places significand ideal accuracy)
    (below : exponent ≤ target significand exponent)
    (above : -1074 < target significand exponent) :
    (2 : ℚ) ^ 52 * 2 ^ target significand exponent ≤ ideal * 2 ^ exponent := by
  have length : target significand exponent = significand.log2 + exponent - 52 := by
    unfold target at above ⊢
    omega
  have nonzero : significand ≠ 0 := by
    rintro rfl
    rw [Nat.log2_zero] at length
    omega
  have power : (2 : ℚ) ^ 52 * 2 ^ target significand exponent =
      ((2 ^ significand.log2 : ℕ) : ℚ) * 2 ^ exponent := by
    push_cast
    rw [length, ← zpow_natCast, ← zpow_natCast, ← two_zpow_add, ← two_zpow_add]
    congr 1
    omega
  rw [power]
  refine mul_le_mul_of_nonneg_right (le_trans ?_ places.le) (two_zpow_pos exponent).le
  exact_mod_cast Nat.log2_self_le nonzero

theorem roundsTo (places : Places significand ideal accuracy)
    (below : exponent ≤ target significand exponent) :
    RoundsTo (ideal * 2 ^ exponent) (firstRounded significand exponent accuracy)
      (target significand exponent) where
  rounds := isRounded_firstRounded places below
  short := firstRounded_le accuracy
  least := (target_bounds significand exponent).2
  long := two_zpow_target_le places below

theorem roundedExponent_le (places : Places significand ideal accuracy)
    (below : exponent ≤ target significand exponent)
    (bounded : ideal * 2 ^ exponent ≤ ((2 ^ 53 - 1 : ℕ) : ℚ) * 2 ^ (971 : ℤ)) :
    roundedExponent significand exponent accuracy ≤ 971 := by
  have aim : target significand exponent ≤ 971 := by
    by_contra above
    have long := (two_zpow_target_le places below (by omega)).trans bounded
    have power : (2 : ℚ) ^ (972 : ℤ) ≤ 2 ^ target significand exponent :=
      zpow_le_zpow_right₀ (by norm_num) (by omega)
    have next : (2 : ℚ) ^ (972 : ℤ) = 2 ^ (971 : ℤ) * 2 := two_zpow_add 971 1
    have positive := two_zpow_pos 971
    rw [next] at power
    generalize (2 : ℚ) ^ (971 : ℤ) = last at long power positive
    norm_num at long
    linarith
  rcases @rounded_cases significand exponent accuracy below with ⟨_, _, stays⟩ | ⟨long, _, next⟩
  · exact stays.trans_le aim
  · rw [next]
    have smaller : target significand exponent ≠ 971 := by
      intro largest
      have rounds := isRounded_firstRounded places below
      rw [largest] at rounds
      have short := rounds.le_of_le ((div_le_iff₀ (two_zpow_pos 971)).mpr bounded)
      omega
    omega

/-- A number that is no larger than the largest float is rounded to a finite one. -/
theorem isFinite_of_bounded (sign : UnpackedFloat.Sign) (places : Places significand ideal accuracy)
    (below : exponent ≤ target significand exponent)
    (bounded : ideal * 2 ^ exponent ≤ ((2 ^ 53 - 1 : ℕ) : ℚ) * 2 ^ (971 : ℤ)) :
    (Float.ofModel (.pack (UnpackedFloat.roundWithAccuracy .binary64 sign significand exponent
      accuracy))).isFinite = true := by
  change (UnpackedFloat.unpack .binary64 (UnpackedFloat.pack .binary64 _)).isFinite = true
  rw [roundWithAccuracy_eq]
  by_cases positive : 0 < roundedSignificand significand exponent accuracy
  · exact (isFinite_unpack_pack_iff sign _ positive).mpr (roundedExponent_le places below bounded)
  · rw [ofParts, dif_neg positive]
    exact isFinite_unpack_pack_zero sign

/-- A rounded number that is finite is the first rounding. -/
theorem denotes_roundWithAccuracy (sign : UnpackedFloat.Sign)
    (below : exponent ≤ target significand exponent)
    (finite : (Float.ofModel (.pack (UnpackedFloat.roundWithAccuracy .binary64 sign
      significand exponent accuracy))).isFinite = true) :
    Denotes (.ofModel (.pack (UnpackedFloat.roundWithAccuracy .binary64 sign significand
        exponent accuracy)))
      ((sign.apply (firstRounded significand exponent accuracy) : ℤ) *
        2 ^ target significand exponent) := by
  rw [← sign_apply_congr sign (rounded_value below)]
  rw [roundWithAccuracy_eq] at finite ⊢
  rcases Nat.eq_zero_or_pos (roundedSignificand significand exponent accuracy) with zero | positive
  · have vanishes :
        ((sign.apply (roundedSignificand significand exponent accuracy) : ℤ) : ℚ) = 0 := by
      rw [zero]
      cases sign <;> rfl
    rw [vanishes, zero_mul, zero, ofParts, dif_neg (Nat.lt_irrefl 0)]
    exact denotes_pack_zero sign
  · have first : 0 < firstRounded significand exponent accuracy := by
      refine Nat.pos_of_ne_zero fun zero => Nat.ne_of_gt positive ?_
      rw [roundedSignificand, zero, Nat.zero_div]
    have most := (isFinite_unpack_pack_iff sign _ positive).mp finite
    exact denotes_pack_finite sign (rounded_fits below first most)

/-- Rounding starts from the number as it is written with some exponent that is not
above the one aimed at. -/
theorem round_eq_roundWithAccuracy (sign : UnpackedFloat.Sign) (positive : 0 < significand)
    (exponent : ℤ) :
    Exists fun written : ℕ => Exists fun lower : ℤ => lower ≤ target written lower ∧
      (written : ℚ) * 2 ^ lower = significand * 2 ^ exponent ∧
        UnpackedFloat.round .binary64 sign significand exponent =
          UnpackedFloat.roundWithAccuracy .binary64 sign written lower .exact := by
  have length := log2_mul_two_pow (Nat.ne_of_gt positive)
    (exponent - target significand exponent).toNat
  refine ⟨significand <<< (exponent - target significand exponent).toNat,
    exponent - (exponent - target significand exponent).toNat, ?_, ?_, ?_⟩
  · rw [Nat.shiftLeft_eq]
    unfold target at length ⊢
    rw [length]
    omega
  · have lower := @two_zpow_lower
      (exponent - (exponent - target significand exponent).toNat) exponent (by omega) significand
    rw [sub_sub_cancel, Int.toNat_natCast] at lower
    rw [lower, Nat.shiftLeft_eq, Nat.cast_mul]
  · unfold UnpackedFloat.round UnpackedFloat.decreaseExponent
    simp only [targetExponent_eq_target]

end Rounding

end Binary64

theorem nearestQuotient_zero {denominator : ℕ} (divides : 0 < denominator) :
    Denotes (nearestQuotient 0 denominator) 0 := by
  rw [nearestQuotient, wholeOperand, wholeOperand, dif_neg (Nat.lt_irrefl 0), dif_pos divides]
  exact denotes_pack_zero .positive

/-- The nearest float of a quotient is a multiple of a power of two, rounded to
the nearest such multiple. -/
theorem denotes_nearestQuotient (numerator : ℕ) {denominator : ℕ} (divides : 0 < denominator)
    (finite : (nearestQuotient numerator denominator).isFinite = true) :
    Exists fun rounded : ℕ => Exists fun power : ℤ =>
      Denotes (nearestQuotient numerator denominator) (rounded * 2 ^ power) ∧
        RoundsTo (numerator / denominator) rounded power := by
  rcases Nat.eq_zero_or_pos numerator with rfl | nonzero
  · refine ⟨0, -1074, ?_, ⟨by norm_num, by norm_num⟩, by norm_num, le_refl _,
      fun above => absurd above (lt_irrefl _)⟩
    rw [Nat.cast_zero, zero_mul]
    exact nearestQuotient_zero divides
  · rcases Binary64.div_eq_roundWithAccuracy nonzero divides with ⟨exponent, low, below, equal⟩
    have places := places_quotient (numerator * 2 ^ (-exponent).toNat) divides
    have quotient : ((numerator * 2 ^ (-exponent).toNat : ℕ) : ℚ) / denominator * 2 ^ exponent =
        numerator / denominator := by
      rw [Nat.cast_mul, ← two_zpow_toNat (by omega), div_mul_eq_mul_div, mul_assoc, ← two_zpow_add,
        neg_add_cancel, zpow_zero, mul_one]
    have roundsTo := Binary64.roundsTo places below
    rw [quotient] at roundsTo
    rw [nearestQuotient, equal] at finite ⊢
    exact ⟨_, _, Binary64.denotes_roundWithAccuracy .positive below finite, roundsTo⟩

namespace RoundsTo

variable {ideal number : ℚ} {rounded : ℕ} {power : ℤ} {value other : Float}

/-- A float is a multiple of the power of two, or it is below such a multiple that is
itself below the number. -/
theorem multiple_or_below (roundsTo : RoundsTo ideal rounded power)
    (denotes : Denotes other number) :
    (Exists fun multiple : ℤ => number = multiple * 2 ^ power) ∨
      number < 2 ^ 52 * 2 ^ power ∧ (2 : ℚ) ^ 52 * 2 ^ power ≤ ideal := by
  have standsFor := denotes.standsFor
  generalize other.toModel.unpack = shape at standsFor
  cases standsFor with
  | zero sign => exact .inl ⟨0, by rw [Int.cast_zero, zero_mul]⟩
  | @finite sign significand exponent positive fits =>
      rcases le_or_gt power exponent with above | below
      · exact .inl ⟨sign.apply (significand <<< (exponent - power).toNat : ℕ),
          (sign_apply_lower sign significand above).symm⟩
      · refine .inr ⟨?_, roundsTo.long (lt_of_le_of_lt fits.least below)⟩
        have bounded : (significand : ℚ) < 2 ^ 53 := by exact_mod_cast fits.bounded
        calc ((sign.apply significand : ℤ) : ℚ) * 2 ^ exponent
            ≤ significand * 2 ^ exponent :=
              (le_abs_self _).trans (abs_sign_apply sign significand exponent).le
          _ < 2 ^ 53 * 2 ^ exponent := mul_lt_mul_of_pos_right bounded (two_zpow_pos exponent)
          _ = 2 ^ 52 * 2 ^ (exponent + 1) := by rw [two_zpow_add]; norm_num; ring
          _ ≤ 2 ^ 52 * 2 ^ power :=
              mul_le_mul_of_nonneg_left (zpow_le_zpow_right₀ (by norm_num) (by omega))
                (by norm_num)

theorem abs_sub_eq (ideal factor : ℚ) (power : ℤ) :
    |factor * 2 ^ power - ideal| = |factor - ideal / 2 ^ power| * 2 ^ power := by
  have positive := two_zpow_pos power
  rw [← abs_of_pos positive, ← abs_mul, abs_of_pos positive, sub_mul,
    div_mul_cancel₀ _ positive.ne']

theorem le_multiple (roundsTo : RoundsTo ideal rounded power) (multiple : ℤ) :
    |(rounded : ℚ) * 2 ^ power - ideal| ≤ |(multiple : ℚ) * 2 ^ power - ideal| := by
  rw [abs_sub_eq, abs_sub_eq]
  exact mul_le_mul_of_nonneg_right (roundsTo.rounds.le_abs multiple) (two_zpow_pos power).le

/-- A float below a multiple that is below the number is farther away. -/
theorem lt_of_below (roundsTo : RoundsTo ideal rounded power) (below : number < 2 ^ 52 * 2 ^ power)
    (full : (2 : ℚ) ^ 52 * 2 ^ power ≤ ideal) :
    |(rounded : ℚ) * 2 ^ power - ideal| < |number - ideal| := by
  have nearest := roundsTo.le_multiple (2 ^ 52)
  push_cast at nearest
  refine lt_of_le_of_lt nearest ?_
  rw [abs_of_nonpos (by linarith), abs_of_nonpos (by linarith)]
  linarith

/-- No float is nearer to the number. -/
theorem nearest (roundsTo : RoundsTo ideal rounded power) (denotes : Denotes other number) :
    |(rounded : ℚ) * 2 ^ power - ideal| ≤ |number - ideal| := by
  rcases roundsTo.multiple_or_below denotes with ⟨multiple, rfl⟩ | ⟨below, full⟩
  · exact roundsTo.le_multiple multiple
  · exact (roundsTo.lt_of_below below full).le

/-- If another float is as near, the multiple is an even one. -/
theorem even_of_tie (roundsTo : RoundsTo ideal rounded power) (denotes : Denotes other number)
    (different : number ≠ rounded * 2 ^ power)
    (tie : |number - ideal| = |(rounded : ℚ) * 2 ^ power - ideal|) : rounded % 2 = 0 := by
  rcases roundsTo.multiple_or_below denotes with ⟨multiple, rfl⟩ | ⟨below, full⟩
  · refine roundsTo.rounds.even_of_tie (?_ : multiple ≠ rounded) ?_
    · rintro rfl
      exact different (by rw [Int.cast_natCast])
    · rw [abs_sub_eq, abs_sub_eq] at tie
      exact (mul_right_cancel₀ (two_zpow_pos power).ne' tie).le
  · exact absurd tie (roundsTo.lt_of_below below full).ne'

end RoundsTo

/-- No float is nearer to a quotient than the one that it is rounded to. -/
theorem nearestQuotient_nearest (numerator : ℕ) {denominator : ℕ} (divides : 0 < denominator)
    {nearest number : ℚ} {other : Float}
    (denotes : Denotes (nearestQuotient numerator denominator) nearest)
    (denotesOther : Denotes other number) :
    |nearest - numerator / denominator| ≤ |number - numerator / denominator| := by
  rcases denotes_nearestQuotient numerator divides denotes.isFinite with
    ⟨rounded, power, denotesRounded, roundsTo⟩
  rw [denotes.unique denotesRounded]
  exact roundsTo.nearest denotesOther

/-! ## The nearest float -/

/-- The last bit of the significand is zero. -/
def HasEvenSignificand (value : Float) : Prop :=
  Exists fun negative : Bool => Exists fun magnitude : Magnitude =>
    Exact.ofFloat value = .finite negative magnitude ∧ magnitude.significand % 2 = 0

/-- No float is nearer to the number, and if another one is as near, the float is the
one with the even significand. -/
def IsNearest (ideal : ℚ) (value : Float) : Prop :=
  Exists fun number : ℚ => Denotes value number ∧
    forall (other : Float) (second : ℚ), Denotes other second ->
      |number - ideal| ≤ |second - ideal| ∧
        (|second - ideal| = |number - ideal| -> second ≠ number -> HasEvenSignificand value)

section NearestFloat

variable {value other : Float} {ideal number second : ℚ} {rounded : ℕ} {power : ℤ}

/-- An even multiple has an even significand, however it is written. -/
theorem RoundsTo.hasEvenSignificand {negative : Bool} (roundsTo : RoundsTo ideal rounded power)
    (even : rounded % 2 = 0) (denotes : Denotes value (Exact.rational negative ⟨rounded, power⟩)) :
    HasEvenSignificand value := by
  rcases denotes with ⟨sign, magnitude, read, same⟩
  refine ⟨sign, magnitude, read, ?_⟩
  have size : (magnitude.significand : ℚ) * 2 ^ magnitude.exponent = rounded * 2 ^ power := by
    have sizes := congrArg abs same
    rwa [Exact.abs_rational, Exact.abs_rational] at sizes
  rcases (Exact.unpack_of_ofFloat read).2 with rfl | fits
  · rfl
  · rcases le_or_gt magnitude.exponent power with below | above
    · rw [Binary64.eq_mul_of_rational_eq below size, Nat.mul_mod, even, Nat.zero_mul]
    · have longer := Binary64.eq_mul_of_rational_eq above.le size.symm
      have least := roundsTo.least
      have short := roundsTo.short
      have full : 2 ^ 52 ≤ magnitude.significand := fits.full.resolve_right (by omega)
      have shift : (magnitude.exponent - power).toNat =
          (magnitude.exponent - power).toNat - 1 + 1 := by omega
      rw [shift, pow_succ, ← mul_assoc] at longer
      have bits := Nat.le_mul_of_pos_right magnitude.significand
        (Nat.two_pow_pos ((magnitude.exponent - power).toNat - 1))
      omega

theorem RoundsTo.isNearest {negative : Bool} {magnitude : Magnitude}
    (roundsTo : RoundsTo magnitude.rational rounded power)
    (denotes : Denotes value (Exact.rational negative ⟨rounded, power⟩)) :
    IsNearest (Exact.rational negative magnitude) value := by
  refine ⟨_, denotes, fun other second denotesOther => ?_⟩
  cases negative with
  | false =>
      refine ⟨roundsTo.nearest denotesOther, fun tie different => ?_⟩
      exact roundsTo.hasEvenSignificand (roundsTo.even_of_tie denotesOther different tie) denotes
  | true =>
      have mirrored (factor : ℚ) : |factor - Exact.rational true magnitude| =
          |(-factor) - magnitude.rational| := by
        rw [Exact.rational_true, sub_neg_eq_add, ← neg_add', abs_neg]
      rw [mirrored, mirrored, Exact.rational_true ⟨rounded, power⟩, neg_neg]
      refine ⟨roundsTo.nearest denotesOther.neg, fun tie different => ?_⟩
      refine roundsTo.hasEvenSignificand (roundsTo.even_of_tie denotesOther.neg ?_ tie) denotes
      exact fun same => different (neg_eq_iff_eq_neg.mp same)

/-- A number that is no larger than the largest float is rounded to a multiple of a power
of two. -/
theorem Exact.exists_rounded {magnitude : Magnitude}
    (bounded : magnitude.rational ≤ ((2 ^ 53 - 1 : ℕ) : ℚ) * 2 ^ (971 : ℤ)) (negative : Bool) :
    Exists fun rounded : ℕ => Exists fun power : ℤ =>
      RoundsTo magnitude.rational rounded power ∧
        Denotes (Exact.finite negative magnitude).toFloat
          (Exact.rational negative ⟨rounded, power⟩) := by
  rcases magnitude with ⟨significand, exponent⟩
  rcases Nat.eq_zero_or_pos significand with rfl | positive
  · refine ⟨0, -1074, ⟨?_, by norm_num, le_refl _, fun above => absurd above (lt_irrefl _)⟩, ?_⟩
    · rw [Magnitude.rational_zero, zero_div]
      exact IsRounded.self 0
    · rw [Exact.toFloat, Binary64.round_zero, Exact.rational_zero]
      exact denotes_pack_zero _
  · rcases Binary64.round_eq_roundWithAccuracy (signOf negative) positive exponent with
      ⟨written, lower, below, same, rounded⟩
    have places : Places written written .exact := rfl
    rw [Magnitude.rational, ← same] at bounded ⊢
    rw [Exact.toFloat, rounded]
    refine ⟨_, _, Binary64.roundsTo places below, ?_⟩
    rw [Exact.rational_eq_signOf]
    exact Binary64.denotes_roundWithAccuracy _ below
      (Binary64.isFinite_of_bounded _ places below bounded)

/-- A number that is no larger than the largest float is rounded to the nearest float. -/
theorem Exact.isNearest_toFloat {magnitude : Magnitude}
    (bounded : magnitude.rational ≤ ((2 ^ 53 - 1 : ℕ) : ℚ) * 2 ^ (971 : ℤ)) (negative : Bool) :
    IsNearest (Exact.rational negative magnitude) (Exact.finite negative magnitude).toFloat := by
  rcases Exact.exists_rounded bounded negative with ⟨rounded, power, roundsTo, denotes⟩
  exact roundsTo.isNearest denotes

end NearestFloat

end DeskCalculator
