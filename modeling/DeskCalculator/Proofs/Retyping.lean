import DeskCalculator.Proofs.IntegerArithmetic
import DeskCalculator.Proofs.Nearest
import DeskCalculator.Proofs.Printing

namespace DeskCalculator

/-!
# Results can be typed back

The text of a finite result is a numeral, with a sign or without one, so it is
read as the nearest float of this numeral.  This float is the result itself
where the result is a whole number.  Otherwise it may be another one, but it is no
farther from the numeral than the result was, so it is rounded to the same
numeral again.

One case is left, in which the result is rounded to a whole number and the float
that is read is this number.  It is displayed in the way of whole numbers, by the
shortest numeral that reads back, and below `2 ^ 53` this is the number itself.
-/

/-! ## Numerals as numbers -/

/-- A search that succeeds at one of the first places finds something there. -/
theorem findSome?_range_early {Found : Type} {attempt : ℕ -> Option Found} {few many : ℕ}
    (le : few ≤ many)
    (succeeds : Exists fun index : ℕ => index < few ∧ (attempt index).isSome = true) :
    Exists fun index : ℕ => Exists fun found : Found => index < few ∧
      attempt index = some found ∧ (List.range many).findSome? attempt = some found := by
  rcases Nat.exists_eq_add_of_le le with ⟨more, rfl⟩
  rcases succeeds with ⟨index, early, hits⟩
  have finds : ((List.range few).findSome? attempt).isSome = true :=
    List.findSome?_isSome_iff.mpr ⟨index, List.mem_range.mpr early, hits⟩
  rcases Option.isSome_iff_exists.mp finds with ⟨found, first⟩
  rcases List.exists_of_findSome?_eq_some first with ⟨place, member, hit⟩
  refine ⟨place, found, List.mem_range.mp member, hit, ?_⟩
  rw [List.range_add, List.findSome?_append, first, Option.some_or]

namespace Numeral

/-- The number that the numeral is, without rounding. -/
def rational (numeral : Numeral) : ℚ :=
  numeral.digits / 10 ^ numeral.places

theorem rational_trim (numeral : Numeral) : numeral.trim.rational = numeral.rational := by
  rw [rational, rational, div_eq_div_iff (by positivity) (by positivity)]
  exact_mod_cast trimDigits_value numeral.digits numeral.places

/-- No float is nearer to a numeral than the one as which it is read. -/
theorem toFloat_nearest {numeral : Numeral} {nearest number : ℚ} {other : Float}
    (denotes : Denotes numeral.toFloat nearest) (denotesOther : Denotes other number) :
    |nearest - numeral.rational| ≤ |number - numeral.rational| := by
  have compared := nearestQuotient_nearest numeral.digits
    (Nat.pow_pos (by decide) : 0 < 10 ^ numeral.places) denotes denotesOther
  rw [Nat.cast_pow, Nat.cast_ofNat] at compared
  exact compared

/-- Zeros that are decimals are all dropped. -/
theorem trimDigits_whole (count places : ℕ) :
    trimDigits (count * 10 ^ places) places = ⟨count, 0⟩ := by
  induction places with
  | zero => rw [trimDigits, pow_zero, mul_one]
  | succ places ih =>
      rw [trimDigits, pow_succ, ← mul_assoc, if_pos (Nat.mul_mod_left _ _),
        Nat.mul_div_cancel _ (by decide), ih]

/-! ## Whole numbers -/

section Whole

variable {numeral : Numeral} {magnitude : Magnitude} {count : ℕ}

/-- A numeral without decimals that is read as a whole number within the bound is
this number. -/
theorem eq_of_denotes_whole (whole : numeral.places = 0) (small : count < largestExact)
    (denotes : Denotes numeral.toFloat count) : numeral = ⟨count, 0⟩ := by
  rcases numeral with ⟨digits, places⟩
  cases whole
  rcases le_or_gt digits largestExact with low | high
  · have itself : Denotes (toFloat ⟨digits, 0⟩) digits := denotes_whole low (mul_one digits).symm
    have same : digits = count := by exact_mod_cast itself.unique denotes
    rw [same]
  · have bound : Denotes (toFloat ⟨largestExact, 0⟩) largestExact :=
      denotes_whole le_rfl (mul_one largestExact).symm
    have nearer := toFloat_nearest denotes bound
    have below : (count : ℚ) < largestExact := by exact_mod_cast small
    have above : (largestExact : ℚ) < digits := by exact_mod_cast high
    rw [rational, pow_zero, div_one, abs_of_neg (by linarith), abs_of_neg (by linarith)] at nearer
    linarith

theorem places_of_mem_neighbours {place : ℤ} (nonneg : 0 ≤ place)
    (member : numeral ∈ neighbours magnitude place) : numeral.places = 0 := by
  have noShift : (-place).toNat = 0 := by omega
  have onGrid_places (number : ℕ) : (onGrid place number).places = 0 := by
    rw [onGrid, noShift]
    rfl
  unfold neighbours at member
  dsimp only at member
  split at member
  all_goals
    rcases List.mem_cons.mp member with rfl | second
    · exact onGrid_places _
    · rw [List.mem_singleton.mp second]
      exact onGrid_places _

theorem self_mem_neighbours (whole : magnitude.rational = count) :
    ⟨count, 0⟩ ∈ neighbours magnitude 0 := by
  have positive := magnitude.denominator_pos
  have quotient := (magnitude.rational_eq_natCast_iff count).mp whole
  have itself : onGrid 0 count = ⟨count, 0⟩ := by
    rw [onGrid, trim]
    exact congrArg (Numeral.mk · 0) (mul_one count)
  have powers : (-(0 : ℤ)).toNat = 0 ∧ (0 : ℤ).toNat = 0 := ⟨rfl, rfl⟩
  rw [neighbours]
  simp only [powers, pow_zero, mul_one, quotient, Nat.mul_div_cancel _ positive,
    Nat.mul_mod_left, mul_zero, if_pos positive, itself]
  exact List.mem_cons_self

/-- The place above a whole number is that of its first digit. -/
theorem placeAbove_whole (whole : magnitude.rational = count) (positive : 0 < count) :
    placeAbove magnitude = (Nat.toDigits 10 count).length := by
  have quotient : magnitude.numerator / magnitude.denominator = count := by
    rw [(magnitude.rational_eq_natCast_iff count).mp whole,
      Nat.mul_div_cancel _ magnitude.denominator_pos]
  rw [placeAbove, quotient]
  exact if_pos positive

theorem toFloat_whole (fits : Binary64.Fits magnitude.significand magnitude.exponent)
    (whole : magnitude.rational = count) :
    toFloat ⟨count, 0⟩ = (Exact.finite false magnitude).toFloat := by
  apply toFloat_of_isQuotient fits
  rw [Binary64.IsQuotient, pow_zero, mul_one]
  exact ((magnitude.rational_eq_natCast_iff count).mp whole).symm

/-- The exact expansion of a whole number has no decimals. -/
theorem exactly_whole (whole : magnitude.rational = count) : exactly magnitude = ⟨count, 0⟩ := by
  have digits : magnitude.numerator * 5 ^ (-magnitude.exponent).toNat =
      count * 10 ^ (-magnitude.exponent).toNat := by
    rw [(magnitude.rational_eq_natCast_iff count).mp whole, Magnitude.denominator, mul_assoc,
      ← mul_pow]
    rfl
  rw [exactly, trim, digits]
  exact trimDigits_whole count _

/-- The shortest numeral of a whole number has no decimals: the last of the grids
without decimals has the number itself. -/
theorem shortest_places (canonical : magnitude.IsCanonical) (whole : magnitude.rational = count) :
    (shortest magnitude).places = 0 := by
  rw [shortest]
  split
  · rfl
  · next nonzero =>
      have positive : 0 < count := by
        refine Nat.pos_of_ne_zero fun zero => nonzero (magnitude.rational_eq_zero_iff.mp ?_)
        rw [whole, zero, Nat.cast_zero]
      have long : 0 < (Nat.toDigits 10 count).length := Nat.length_toDigits_pos
      dsimp only
      rw [placeAbove_whole whole positive]
      generalize (Nat.toDigits 10 count).length = length at long
      have coarse {finer : ℕ} {found : Numeral} (few : finer < length)
          (hit : ((neighbours magnitude (length - 1 - finer)).find? fun numeral =>
            numeral.toFloat = (Exact.finite false magnitude).toFloat) = some found) :
          found.places = 0 :=
        places_of_mem_neighbours (by omega) (List.mem_of_find?_eq_some hit)
      rcases le_or_gt length mostDigits with short | longer
      · have succeeds : Exists fun finer : ℕ => finer < length ∧
            ((neighbours magnitude (length - 1 - finer)).find? fun numeral =>
              numeral.toFloat = (Exact.finite false magnitude).toFloat).isSome = true := by
          have last : (length : ℤ) - 1 - (length - 1 : ℕ) = 0 := by omega
          have fits := canonical.resolve_left fun zero => nonzero (by rw [zero])
          refine ⟨length - 1, by omega, ?_⟩
          rw [last, List.find?_isSome]
          exact ⟨_, self_mem_neighbours whole, decide_eq_true (toFloat_whole fits whole)⟩
        rcases findSome?_range_early short succeeds with ⟨finer, found, few, hit, first⟩
        rw [first, Option.getD_some]
        exact coarse few hit
      · cases first : (List.range mostDigits).findSome? fun finer : ℕ =>
            (neighbours magnitude (length - 1 - finer)).find? fun numeral =>
              numeral.toFloat = (Exact.finite false magnitude).toFloat with
        | none => rw [Option.getD_none, exactly_whole whole]
        | some found =>
            rcases List.exists_of_findSome?_eq_some first with ⟨finer, member, hit⟩
            exact coarse ((List.mem_range.mp member).trans longer) hit

/-- The shortest numeral of a whole number within the bound is this number. -/
theorem shortest_whole (canonical : magnitude.IsCanonical) (whole : magnitude.rational = count)
    (small : count < largestExact) : shortest magnitude = ⟨count, 0⟩ := by
  apply eq_of_denotes_whole (shortest_places canonical whole) small
  rw [toFloat_shortest canonical, ← whole]
  exact denotes_of_canonical canonical false

end Whole

/-! ## The numeral of a result -/

/-- Rounding to decimals rounds a multiple. -/
theorem isRounded_rounded (places : ℕ) (magnitude : Magnitude) :
    IsRounded (magnitude.rational * 10 ^ places) (rounded places magnitude).digits := by
  have rounds := isRounded_roundHalfEven (magnitude.numerator * 10 ^ places)
    magnitude.denominator_pos
  rw [Nat.cast_mul, Nat.cast_pow, Nat.cast_ofNat, ← div_mul_eq_mul_div,
    ← magnitude.rational_eq_div] at rounds
  exact rounds

/-- The float as which a rounded number is read is rounded to the same number. -/
theorem rounded_again {numeral : Numeral} {places : ℕ} {magnitude again : Magnitude}
    (canonical : magnitude.IsCanonical)
    (same : numeral.rational = (rounded places magnitude).rational)
    (reads : Exact.ofFloat numeral.toFloat = .finite false again) :
    rounded places again = rounded places magnitude := by
  have positive : (0 : ℚ) < 10 ^ places := by positivity
  have original := denotes_of_canonical canonical false
  have nearer := toFloat_nearest ⟨false, again, reads, rfl⟩ original
  rw [Exact.rational_false, Exact.rational_false, same] at nearer
  have scaled (number : ℚ) :
      |((rounded places magnitude).digits : ℚ) - number * 10 ^ places| =
        |number - (rounded places magnitude).rational| * 10 ^ places := by
    rw [abs_sub_comm, ← abs_of_pos positive, ← abs_mul, abs_of_pos positive, sub_mul, rational,
      rounded, div_mul_cancel₀ _ positive.ne']
  have rounds : IsRounded (again.rational * 10 ^ places) (rounded places magnitude).digits := by
    apply (isRounded_rounded places magnitude).of_nearer
    rw [scaled, scaled]
    exact mul_le_mul_of_nonneg_right nearer positive.le
  exact congrArg (Numeral.mk · places) ((isRounded_rounded places again).unique rounds)

end Numeral

namespace Magnitude

variable {magnitude : Magnitude}

theorem exists_count_of_isWhole (whole : magnitude.isWhole = true) :
    Exists fun count : ℕ => magnitude.rational = count := by
  refine ⟨magnitude.numerator / magnitude.denominator, ?_⟩
  rw [rational_eq_natCast_iff, Nat.div_mul_cancel (Nat.dvd_of_mod_eq_zero (beq_iff_eq.mp whole))]

/-- A float that is no whole number has a bit behind the point, so that at most
fifty-two bits are left in front of it. -/
theorem rational_le_of_fraction (canonical : magnitude.IsCanonical)
    (fraction : magnitude.isWhole = false) : magnitude.rational ≤ ((2 ^ 52 : ℕ) : ℚ) := by
  have low : magnitude.exponent ≤ -1 := by
    by_contra high
    have whole := magnitude.isWhole_of_exponent_nonneg (by omega)
    rw [whole] at fraction
    cases fraction
  have bounded : magnitude.significand ≤ 2 ^ 53 := by
    rcases canonical with rfl | fits
    · exact Nat.zero_le _
    · exact fits.bounded.le
  calc magnitude.rational ≤ ((2 ^ 53 : ℕ) : ℚ) * 2 ^ (-1 : ℤ) :=
        mul_le_mul (Nat.cast_le.mpr bounded) (zpow_le_zpow_right₀ (by norm_num) low)
          (two_zpow_pos _).le (Nat.cast_nonneg _)
    _ = ((2 ^ 52 : ℕ) : ℚ) := by norm_num

end Magnitude

theorem Numeral.isFinite_trim {numeral : Numeral} (finite : numeral.toFloat.isFinite = true) :
    numeral.trim.toFloat.isFinite = true :=
  isFinite_of_le (trimDigits_value numeral.digits numeral.places).le finite

/-- Up to a bound whole numbers are displayed as if they were rounded as well. -/
theorem displayNumeral_eq_trim {magnitude : Magnitude} (canonical : magnitude.IsCanonical)
    (small : magnitude.rational < largestExact) :
    displayNumeral magnitude = (Numeral.rounded displayPlaces magnitude).trim := by
  rw [displayNumeral]
  split
  · next isWhole =>
      rcases Magnitude.exists_count_of_isWhole isWhole with ⟨count, whole⟩
      have digits : (Numeral.rounded displayPlaces magnitude).digits =
          count * 10 ^ displayPlaces := by
        have rounds := Numeral.isRounded_rounded displayPlaces magnitude
        have itself := IsRounded.self (count * 10 ^ displayPlaces)
        rw [Nat.cast_mul, Nat.cast_pow, Nat.cast_ofNat, ← whole] at itself
        exact rounds.unique itself
      rw [whole, Nat.cast_lt] at small
      rw [Numeral.shortest_whole canonical whole small, Numeral.trim, digits]
      exact (Numeral.trimDigits_whole count displayPlaces).symm
  · rfl

/-- The float as which the numeral of a result is read has the same numeral, and
where the result is a whole number, it is the result. -/
theorem displayNumeral_again {magnitude : Magnitude} (canonical : magnitude.IsCanonical) :
    Exists fun again : Magnitude => again.IsCanonical ∧
      (displayNumeral magnitude).toFloat = (Exact.finite false again).toFloat ∧
        displayNumeral again = displayNumeral magnitude ∧
          (magnitude.isWhole = true -> again = magnitude) := by
  cases kind : magnitude.isWhole with
  | true =>
      refine ⟨magnitude, canonical, ?_, rfl, fun _ => rfl⟩
      rw [displayNumeral, if_pos kind]
      exact Numeral.toFloat_shortest canonical
  | false =>
      have low := Magnitude.rational_le_of_fraction canonical kind
      have few : (Numeral.rounded displayPlaces magnitude).digits ≤
          2 ^ 52 * 10 ^ displayPlaces := by
        apply (Numeral.isRounded_rounded displayPlaces magnitude).le_of_le
        rw [Nat.cast_mul, Nat.cast_pow 10, Nat.cast_ofNat]
        exact mul_le_mul_of_nonneg_right low (by positivity)
      have bound : (Numeral.toFloat ⟨2 ^ 52, 0⟩).isFinite = true :=
        (Numeral.denotes_whole (by decide) (mul_one (2 ^ 52)).symm).isFinite
      have finite : (Numeral.rounded displayPlaces magnitude).toFloat.isFinite = true := by
        refine Numeral.isFinite_of_le ?_ bound
        rw [pow_zero, mul_one]
        exact few
      rcases Numeral.ofFloat_toFloat (Numeral.isFinite_trim finite) with ⟨again, reads⟩
      have canonicalAgain := (Exact.unpack_of_ofFloat reads).2
      have repeated := Numeral.rounded_again canonical
        (Numeral.rounded displayPlaces magnitude).rational_trim reads
      have small : magnitude.rational < largestExact :=
        low.trans_lt (Nat.cast_lt.mpr (by decide))
      have smallAgain : again.rational < largestExact := by
        have near := (Numeral.isRounded_rounded displayPlaces again).near
        have fewer : ((Numeral.rounded displayPlaces again).digits : ℚ) ≤ 2 ^ 52 * 10 ^ 10 := by
          rw [repeated]
          exact_mod_cast few
        rw [abs_le] at near
        rw [displayPlaces] at near fewer
        rw [largestExact]
        push_cast
        linarith [near.1]
      rw [displayNumeral_eq_trim canonical small]
      refine ⟨again, canonicalAgain, (Exact.toFloat_of_ofFloat reads).symm, ?_, by simp⟩
      rw [displayNumeral_eq_trim canonicalAgain smallAgain, repeated]

/-! ## Typing a result back -/

theorem Exact.neg_toFloat {magnitude : Magnitude} (canonical : magnitude.IsCanonical) :
    -(Exact.finite false magnitude).toFloat = (Exact.finite true magnitude).toFloat := by
  have read := Exact.ofFloat_toFloat canonical true
  rw [← Exact.abs_eq_toFloat read]
  exact Exact.neg_abs read

/-- Where a numeral without digits other than zero is read back, the magnitude is
zero. -/
theorem rational_eq_zero_of_reads {numeral : Numeral} {magnitude : Magnitude}
    (canonical : magnitude.IsCanonical)
    (reads : numeral.toFloat = (Exact.finite false magnitude).toFloat)
    (zero : numeral.digits = 0) : magnitude.rational = 0 := by
  have denotes : Denotes numeral.toFloat (0 : ℕ) :=
    Numeral.denotes_whole (Nat.zero_le _) (by rw [zero, zero_mul])
  rw [reads, Nat.cast_zero] at denotes
  exact (denotes_of_canonical canonical false).unique denotes

namespace Calculator

/-- The text of a numeral is evaluated to its nearest float, and a sign in front of
it is applied; there are two levels then. -/
theorem evaluate_withSign {calculator : Calculator} {numeral : Numeral} (negative : Bool)
    (finite : numeral.toFloat.isFinite = true) (room : 2 ≤ calculator.maxDepth) :
    calculator.evaluate (withSign negative numeral.text) =
      .ok (if negative then -numeral.toFloat else numeral.toFloat) := by
  have printed := prints_numeral finite negative
  cases negative with
  | true =>
      have parsed := parse_of_prints printed (by omega) room
      rw [evaluate, parsed]
      exact congrArg (Except.mapError _) (Expr.evaluate_eq_outcome room)
  | false =>
      have low : (Expr.literal numeral.toFloat).height ≤ calculator.maxDepth :=
        Nat.le_trans (Nat.le_succ 1) room
      have parsed := parse_of_prints printed (by omega) low
      rw [evaluate, parsed]
      exact congrArg (Except.mapError _) (Expr.evaluate_eq_outcome low)

/-- A result can be typed back.  The text of a finite result is evaluated to a float
with the same text, and where the result is a whole number, to the result itself. -/
theorem displayText_evaluates_back (value : Float) (finite : value.isFinite = true) :
    Exists fun again : Float => standard.evaluate (displayText value) = .ok again ∧
      displayText again = displayText value ∧
        (isWhole value = true -> (again == value) = true) := by
  rcases Exact.isFinite_iff.mp finite with ⟨negative, magnitude, read⟩
  have canonical := (Exact.unpack_of_ofFloat read).2
  rcases displayNumeral_again canonical with ⟨again, canonicalAgain, reads, stable, same⟩
  have shown : displayText value = withSign (negative && (displayNumeral magnitude).digits != 0)
      (displayNumeral magnitude).text := by
    rw [displayText, read]
  have finiteNumeral : (displayNumeral magnitude).toFloat.isFinite = true := by
    rw [reads]
    exact (denotes_of_canonical canonicalAgain false).isFinite
  generalize signed : (negative && (displayNumeral magnitude).digits != 0) = sign at shown
  refine ⟨(Exact.finite sign again).toFloat, ?_, ?_, ?_⟩
  · rw [shown, evaluate_withSign sign finiteNumeral (by decide), reads,
      Exact.neg_toFloat canonicalAgain]
    cases sign <;> rfl
  · rw [shown, displayText, Exact.ofFloat_toFloat canonicalAgain, ← signed]
    dsimp only
    rw [stable, Bool.and_assoc, Bool.and_self]
  · intro whole
    have wholeMagnitude : magnitude.isWhole = true := by rwa [isWhole, read] at whole
    rw [same wholeMagnitude] at reads ⊢
    have denotes := denotes_of_canonical canonical sign
    refine (denotes.beq_iff ⟨negative, magnitude, read, rfl⟩).mpr ?_
    cases negative with
    | false => rw [← signed, Bool.false_and]
    | true =>
        rw [Bool.true_and] at signed
        cases sign with
        | true => rfl
        | false =>
            have zero : magnitude.rational = 0 :=
              rational_eq_zero_of_reads canonical reads (by simpa using signed)
            rw [Exact.rational_false, Exact.rational_true, zero, neg_zero]

/-- A result that is rounded to a whole number, and a whole one whose text has other
digits than the number itself. -/
theorem displayText_evaluates_back_negative :
    (-0.99999999999 : Float).isFinite = true ∧ displayText (-0.99999999999) = "-1" ∧
      (Exists fun again : Float => standard.evaluate "-1" = .ok again ∧
        displayText again = "-1") ∧
      (-1152921504606846976 : Float).isFinite = true ∧
      displayText (-1152921504606846976) = "-1152921504606847000" ∧
      Exists fun again : Float => standard.evaluate "-1152921504606847000" = .ok again ∧
        (again == -1152921504606846976) = true := by
  have finiteRounded : (-0.99999999999 : Float).isFinite = true := rfl
  have textRounded : displayText (-0.99999999999) = "-1" := rfl
  have finiteWhole : (-1152921504606846976 : Float).isFinite = true := rfl
  have textWhole : displayText (-1152921504606846976) = "-1152921504606847000" := by
    decide +kernel
  rcases displayText_evaluates_back (-0.99999999999) finiteRounded with
    ⟨rounded, evaluated, text, _⟩
  rcases displayText_evaluates_back (-1152921504606846976) finiteWhole with
    ⟨whole, evaluatedWhole, _, same⟩
  rw [textRounded] at evaluated text
  rw [textWhole] at evaluatedWhole
  exact ⟨finiteRounded, textRounded, ⟨rounded, evaluated, text⟩, finiteWhole, textWhole,
    whole, evaluatedWhole, same rfl⟩

end Calculator

end DeskCalculator
