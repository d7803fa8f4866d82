import DeskCalculator.Proofs.Retyping

namespace DeskCalculator

/-!
# What results are displayed as

The text of a finite result is a decimal number in its plain form: no zero stands
in front of other digits or at the end of the decimals, and zero has no sign.

Below `2 ^ 53` both ways of writing results come to the same: the number in the text
is the nearest multiple of the last decimal, a half going to the even one.  Two
results thus have one text exactly if they have one nearest multiple.  From there on
results are whole, and the text is one of the numbers that are read as the result.
Neither way of writing changes the order of two results, and nor do both together.
-/

/-- A decimal number in its plain form, with at most ten decimals. -/
structure PlainDecimal where
  negative : Bool
  whole : List Char
  fraction : List Char
  digits : forall digit, digit ∈ whole ++ fraction -> digit.isDigit = true
  notPadded : whole = ['0'] ∨
    Exists fun first : Char => whole.head? = some first ∧ first ≠ '0'
  short : fraction.length ≤ 10
  trimmed : fraction.getLast? ≠ some '0'
  noNegativeZero : negative = true -> whole = ['0'] -> fraction ≠ []

/-- The text of a plain decimal number; there is a point only before decimals. -/
def PlainDecimal.text (decimal : PlainDecimal) : String :=
  withSign decimal.negative (String.ofList (decimal.whole ++
    if decimal.fraction = [] then [] else '.' :: decimal.fraction))

/-- The number that some characters without a sign denote, where a point separates
the decimals. -/
def unsignedNumber (characters : List Char) : ℚ :=
  let whole := characters.takeWhile (· != '.')
  let fraction := (characters.dropWhile (· != '.')).tail
  Nat.ofDigitChars 10 (whole ++ fraction) 0 / 10 ^ fraction.length

/-- The number that a decimal text denotes. -/
def decimalNumber (text : String) : ℚ :=
  match text.toList with
  | '-' :: characters => -unsignedNumber characters
  | characters => unsignedNumber characters

/-- The whole number is the nearest one, and the even one where two are equally
near. -/
def IsNearestWhole (ideal : ℚ) (number : ℤ) : Prop :=
  forall other : ℤ, |(number : ℚ) - ideal| ≤ |(other : ℚ) - ideal| ∧
    (|(other : ℚ) - ideal| = |(number : ℚ) - ideal| -> other ≠ number -> number % 2 = 0)

/-- A plain decimal number is never a negative zero. -/
theorem PlainDecimal.text_ne_negativeZero (decimal : PlainDecimal) : decimal.text ≠ "-0" := by
  intro same
  have characters : decimal.text.toList = ['-', '0'] := congrArg String.toList same
  have notEmpty : decimal.whole ≠ [] := by
    intro empty
    rcases decimal.notPadded with zero | ⟨first, found, _⟩
    · rw [empty] at zero
      cases zero
    · rw [empty] at found
      cases found
  rcases List.exists_cons_of_ne_nil notEmpty with ⟨first, rest, starts⟩
  cases signed : decimal.negative with
  | false =>
      rw [text, signed, withSign, if_neg Bool.false_ne_true, String.toList_ofList, starts]
        at characters
      have digit := decimal.digits first (by rw [starts]; exact List.mem_cons_self ..)
      rw [(List.cons.inj characters).1] at digit
      cases digit
  | true =>
      have sign : "-".toList = ['-'] := rfl
      simp only [text, signed, withSign, if_true, String.toList_append, String.toList_ofList,
        starts, sign] at characters
      rcases List.cons.inj (List.cons.inj characters).2 with ⟨zero, empty⟩
      rcases List.append_eq_nil_iff.mp empty with ⟨single, noFraction⟩
      refine decimal.noNegativeZero signed (by rw [starts, zero, single]) ?_
      by_contra fractional
      rw [if_neg fractional] at noFraction
      cases noFraction

/-! ## Nearest whole numbers -/

/-- The larger of two numbers is nearer only from their middle on. -/
theorem le_of_nearer_above {low high ideal : ℚ} (lt : low < high)
    (nearer : |high - ideal| ≤ |low - ideal|) : low + high ≤ 2 * ideal := by
  by_contra below
  have less : |low - ideal| < high - ideal := by
    rw [abs_lt]
    constructor <;> linarith
  exact absurd (nearer.trans_lt less) (not_lt.mpr (le_abs_self _))

/-- The smaller of two numbers is nearer only up to their middle. -/
theorem le_of_nearer_below {low high ideal : ℚ} (lt : low < high)
    (nearer : |low - ideal| ≤ |high - ideal|) : 2 * ideal ≤ low + high := by
  have mirrored : |-low - -ideal| ≤ |-high - -ideal| := by
    rw [neg_sub_neg, neg_sub_neg, abs_sub_comm ideal, abs_sub_comm ideal]
    exact nearer
  linarith [le_of_nearer_above (neg_lt_neg lt) mirrored]

theorem IsRounded.isNearestWhole {ideal : ℚ} {rounded : ℕ} (isRounded : IsRounded ideal rounded) :
    IsNearestWhole ideal rounded := by
  intro other
  rw [Int.cast_natCast]
  refine ⟨isRounded.le_abs other, fun tie different => ?_⟩
  have even := isRounded.even_of_tie different tie.le
  omega

namespace IsNearestWhole

variable {ideal second : ℚ} {number other : ℤ}

theorem neg (nearest : IsNearestWhole ideal number) : IsNearestWhole (-ideal) (-number) := by
  intro other
  have mirrored (first : ℚ) : |first - -ideal| = |-first - ideal| := by
    rw [← abs_neg]
    congr 1
    ring
  have compared := nearest (-other)
  rw [mirrored, mirrored]
  push_cast at compared ⊢
  rw [neg_neg]
  exact ⟨compared.1, fun tie different => by
    have even := compared.2 tie (by omega)
    omega⟩

/-- The order of numbers is that of the nearest whole ones.  Numbers in the other order
would be one number, half way between two even ones. -/
theorem mono (nearest : IsNearestWhole ideal number) (nearestOther : IsNearestWhole second other)
    (le : ideal ≤ second) : number ≤ other := by
  by_contra above
  have lt : (other : ℚ) < number := Int.cast_lt.mpr (not_le.mp above)
  have high := le_of_nearer_above lt (nearest other).1
  have low := le_of_nearer_below lt (nearestOther number).1
  have same : ideal = second := by linarith
  have middle : (other : ℚ) + number = 2 * ideal := by linarith
  have tie : |(other : ℚ) - ideal| = |(number : ℚ) - ideal| := by
    rw [← abs_neg]
    congr 1
    linarith
  subst same
  have even := (nearest other).2 tie (by omega)
  have evenOther := (nearestOther number).2 tie.symm (by omega)
  have between := (nearest ((other + number) / 2)).1
  have middle : (((other + number) / 2 : ℤ) : ℚ) = ideal := by
    have twice : 2 * ((other + number) / 2) = other + number := by omega
    have cast : (2 : ℚ) * ((other + number) / 2 : ℤ) = other + number := by exact_mod_cast twice
    linarith
  rw [middle, sub_self, abs_zero, abs_nonpos_iff] at between
  linarith

theorem unique (nearest : IsNearestWhole ideal number) (again : IsNearestWhole ideal other) :
    number = other :=
  le_antisymm (nearest.mono again le_rfl) (again.mono nearest le_rfl)

end IsNearestWhole

/-! ## The characters of a numeral -/

/-- A written number does not begin with zero. -/
theorem head?_toDigits {number : ℕ} (positive : 0 < number) :
    Exists fun first : Char => (Nat.toDigits 10 number).head? = some first ∧ first ≠ '0' := by
  induction number using Nat.strongRecOn with
  | ind number ih =>
      rcases Nat.lt_or_ge number 10 with small | large
      · have digits : forall digit, digit < 10 -> 0 < digit -> Nat.digitChar digit ≠ '0' := by
          decide
        rw [Nat.toDigits_of_lt_base small]
        exact ⟨_, rfl, digits number small positive⟩
      · rw [Nat.toDigits_of_base_le (by decide) large, List.head?_append]
        rcases ih (number / 10) (by omega) (by omega) with ⟨first, found, nonzero⟩
        exact ⟨first, by rw [found]; rfl, nonzero⟩

namespace Numeral

variable (numeral : Numeral)

/-- The digits before the point are a single zero, or they do not begin with one. -/
theorem wholeChars_notPadded :
    numeral.wholeChars = ['0'] ∨
      Exists fun first : Char => numeral.wholeChars.head? = some first ∧ first ≠ '0' := by
  rw [wholeChars, digitChars, List.leftpad]
  rcases Nat.lt_or_ge numeral.places (Nat.toDigits 10 numeral.digits).length with few | many
  · have noPadding : numeral.places + 1 - (Nat.toDigits 10 numeral.digits).length = 0 := by omega
    rw [noPadding, List.replicate_zero, List.nil_append]
    rcases Nat.eq_zero_or_pos numeral.digits with zero | positive
    · rw [zero, Nat.toDigits_zero] at few ⊢
      have noPlaces : numeral.places = 0 := Nat.lt_one_iff.mp few
      rw [noPlaces]
      exact .inl rfl
    · rcases head?_toDigits positive with ⟨first, found, nonzero⟩
      refine .inr ⟨first, ?_, nonzero⟩
      rw [List.head?_take, if_neg (by omega), found]
  · have padding : numeral.places + 1 - (Nat.toDigits 10 numeral.digits).length =
        numeral.places - (Nat.toDigits 10 numeral.digits).length + 1 := by omega
    rw [padding, List.replicate_succ, List.cons_append, List.length_cons, List.length_append,
      List.length_replicate, Nat.sub_add_cancel many, Nat.add_sub_cancel_left]
    exact .inl rfl

/-- Decimals end in zero only if the digits do. -/
theorem fractionChars_trimmed (last : numeral.places ≠ 0 -> numeral.digits % 10 ≠ 0) :
    numeral.fractionChars.getLast? ≠ some '0' := by
  intro zero
  rcases List.getLast?_eq_some_iff.mp zero with ⟨earlier, same⟩
  have digits := numeral.ofDigitChars_wholeChars_fractionChars
  have places := numeral.length_fractionChars
  rw [same, List.length_append, List.length_singleton] at places
  rw [same, ofDigitChars, ← List.append_assoc, Nat.ofDigitChars_append] at digits
  have value := congrArg Numeral.digits digits
  dsimp only at value
  rw [Nat.ofDigitChars_cons, Nat.ofDigitChars_nil] at value
  apply last (by omega)
  rw [← value]
  simp

theorem fractionChars_eq_nil_iff : numeral.fractionChars = [] ↔ numeral.places = 0 := by
  rw [← List.length_eq_zero_iff, length_fractionChars]

theorem isDigit_of_mem_chars (digit : Char)
    (member : digit ∈ numeral.wholeChars ++ numeral.fractionChars) : digit.isDigit = true := by
  rw [wholeChars_append_fractionChars] at member
  exact isDigit_of_mem_digitChars member

theorem chars_eq : numeral.chars = numeral.wholeChars ++
    if numeral.fractionChars = [] then [] else '.' :: numeral.fractionChars := by
  rw [chars]
  by_cases whole : numeral.places = 0
  · rw [if_pos whole, if_pos (numeral.fractionChars_eq_nil_iff.mpr whole), List.append_nil]
  · rw [if_neg whole, if_neg (mt numeral.fractionChars_eq_nil_iff.mp whole)]

/-- A written numeral denotes itself. -/
theorem unsignedNumber_chars : unsignedNumber numeral.chars = numeral.rational := by
  have noPoint : forall digit, digit ∈ numeral.wholeChars -> (digit != '.') = true := by
    intro digit member
    have isDigit := numeral.isDigit_of_mem_chars digit (List.mem_append_left _ member)
    rw [bne_iff_ne]
    rintro rfl
    cases isDigit
  have halts : HaltsAt (· != '.')
      (if numeral.fractionChars = [] then [] else '.' :: numeral.fractionChars) := by
    intro next found
    split at found
    · cases found
    · cases found
      rfl
  rcases takeWhile_of_haltsAt noPoint halts with ⟨before, behind⟩
  have tail : (if numeral.fractionChars = [] then [] else '.' :: numeral.fractionChars).tail =
      numeral.fractionChars := by
    split
    · next noFraction => rw [noFraction, List.tail_nil]
    · rfl
  rw [unsignedNumber, chars_eq, before, behind, tail, wholeChars_append_fractionChars,
    ofDigitChars_digitChars, length_fractionChars, rational]

/-- A sign in front of a numeral is that of the number. -/
theorem decimalNumber_withSign (negative : Bool) :
    decimalNumber (withSign negative numeral.text) =
      if negative then -numeral.rational else numeral.rational := by
  cases negative with
  | true =>
      have text : (withSign true numeral.text).toList = '-' :: numeral.chars := by
        simp only [withSign, if_true, String.toList_append, Numeral.text, String.toList_ofList]
        rfl
      rw [decimalNumber, text, ← unsignedNumber_chars]
      rfl
  | false =>
      rcases numeral.exists_first_digit with ⟨first, rest, starts, digit⟩
      have noSign : first ≠ '-' := by
        rintro rfl
        cases digit
      have unsigned : (withSign false numeral.text).toList = numeral.chars := String.toList_ofList
      have text : numeral.chars = first :: rest := unsigned.symm.trans starts
      rw [decimalNumber, unsigned, ← unsignedNumber_chars, text]
      split
      · next same => exact absurd (List.cons.inj same).1 noSign
      · rfl

end Numeral

/-! ## The numeral of a result -/

section Shown

variable {magnitude other : Magnitude} {negative : Bool} {value : Float}

theorem trimDigits_places_le (digits places : ℕ) :
    (Numeral.trimDigits digits places).places ≤ places := by
  induction places generalizing digits with
  | zero => exact le_refl 0
  | succ places ih =>
      rw [Numeral.trimDigits]
      split
      · exact (ih _).trans (Nat.le_succ places)
      · exact le_refl _

/-- A displayed numeral has at most ten decimals, and the last of them is not zero. -/
theorem displayNumeral_trimmed (canonical : magnitude.IsCanonical) :
    (displayNumeral magnitude).places ≤ displayPlaces ∧
      ((displayNumeral magnitude).places ≠ 0 -> (displayNumeral magnitude).digits % 10 ≠ 0) := by
  rw [displayNumeral]
  split
  · next isWhole =>
      rcases Magnitude.exists_count_of_isWhole isWhole with ⟨count, whole⟩
      have noPlaces := Numeral.shortest_places canonical whole
      exact ⟨noPlaces ▸ Nat.zero_le _, fun places => absurd noPlaces places⟩
  · exact ⟨trimDigits_places_le _ _, Numeral.trimDigits_last _ _⟩

theorem displayText_of_read (read : Exact.ofFloat value = .finite negative magnitude) :
    displayText value = withSign (negative && (displayNumeral magnitude).digits != 0)
      (displayNumeral magnitude).text := by
  rw [displayText, read]

/-- The text of a finite result is a plain decimal number. -/
theorem exists_plainDecimal (read : Exact.ofFloat value = .finite negative magnitude) :
    Exists fun decimal : PlainDecimal => displayText value = decimal.text := by
  rcases displayNumeral_trimmed (Exact.unpack_of_ofFloat read).2 with ⟨short, last⟩
  rw [displayText_of_read read]
  generalize displayNumeral magnitude = numeral at short last
  refine ⟨⟨negative && numeral.digits != 0, numeral.wholeChars, numeral.fractionChars,
    numeral.isDigit_of_mem_chars, numeral.wholeChars_notPadded,
    numeral.length_fractionChars.trans_le short, numeral.fractionChars_trimmed last, ?_⟩, ?_⟩
  · intro signed zero noFraction
    have digits := congrArg Numeral.digits numeral.ofDigitChars_wholeChars_fractionChars
    rw [zero, noFraction] at digits
    have noDigits : numeral.digits = 0 := digits.symm
    rw [noDigits, bne_self_eq_false, Bool.and_false] at signed
    cases signed
  · rw [PlainDecimal.text, Numeral.text, Numeral.chars_eq]

/-- The number that is displayed has the sign of the result. -/
theorem decimalNumber_displayText (read : Exact.ofFloat value = .finite negative magnitude) :
    decimalNumber (displayText value) =
      if negative then -(displayNumeral magnitude).rational
      else (displayNumeral magnitude).rational := by
  rw [displayText_of_read read, Numeral.decimalNumber_withSign]
  by_cases zero : (displayNumeral magnitude).digits = 0
  · have zeroRational : (displayNumeral magnitude).rational = 0 := by
      rw [Numeral.rational, zero, Nat.cast_zero, zero_div]
    rw [zeroRational, neg_zero, ite_self, ite_self]
  · rw [bne_iff_ne.mpr zero, Bool.and_true]

/-! ## The nearest multiple -/

theorem trim_digits_eq_zero_iff (numeral : Numeral) :
    numeral.trim.digits = 0 ↔ numeral.digits = 0 := by
  have value := Numeral.trimDigits_value numeral.digits numeral.places
  have power (places : ℕ) : 10 ^ places ≠ 0 := (Nat.pow_pos (by decide)).ne'
  rw [Numeral.trim]
  constructor
  · intro zero
    rw [zero, Nat.zero_mul, eq_comm, Nat.mul_eq_zero] at value
    exact value.resolve_right (power _)
  · intro zero
    rw [zero, Nat.zero_mul, Nat.mul_eq_zero] at value
    rw [zero]
    exact value.resolve_right (power _)

/-- The text of a multiple of the last decimal. -/
def multipleText (multiple : ℤ) : String :=
  withSign (decide (multiple < 0)) (Numeral.trim ⟨multiple.natAbs, displayPlaces⟩).text

/-- What is displayed of a result is its nearest multiple of the last decimal. -/
theorem displayed_multiple (read : Exact.ofFloat value = .finite negative magnitude)
    (small : magnitude.rational < largestExact) :
    Exists fun multiple : ℤ =>
      IsNearestWhole (Exact.rational negative magnitude * 10 ^ displayPlaces) multiple ∧
        decimalNumber (displayText value) = multiple / 10 ^ displayPlaces ∧
        displayText value = multipleText multiple := by
  have canonical := (Exact.unpack_of_ofFloat read).2
  have nearest := (Numeral.isRounded_rounded displayPlaces magnitude).isNearestWhole
  have shown := decimalNumber_displayText read
  rw [displayNumeral_eq_trim canonical small, Numeral.rational_trim, Numeral.rational] at shown
  rw [shown, displayText_of_read read, displayNumeral_eq_trim canonical small]
  have places : (Numeral.rounded displayPlaces magnitude).places = displayPlaces := rfl
  have nonzero := trim_digits_eq_zero_iff (Numeral.rounded displayPlaces magnitude)
  have itself : Numeral.rounded displayPlaces magnitude =
      ⟨(Numeral.rounded displayPlaces magnitude).digits, displayPlaces⟩ := rfl
  rw [places]
  cases negative with
  | false =>
      refine ⟨_, nearest, by rw [Int.cast_natCast]; rfl, ?_⟩
      rw [multipleText, Int.natAbs_natCast, ← itself, Bool.false_and,
        decide_eq_false (not_lt.mpr (Int.natCast_nonneg _))]
  | true =>
      refine ⟨-((Numeral.rounded displayPlaces magnitude).digits : ℤ), ?_, ?_, ?_⟩
      · rw [Exact.rational_true, neg_mul]
        exact nearest.neg
      · rw [if_pos rfl, Int.cast_neg, Int.cast_natCast, neg_div]
      · rw [multipleText, Int.natAbs_neg, Int.natAbs_natCast, ← itself, Bool.true_and]
        congr 1
        rcases Nat.eq_zero_or_pos (Numeral.rounded displayPlaces magnitude).digits with
          zero | positive
        · rw [nonzero.mpr zero, zero]
          rfl
        · rw [bne_iff_ne.mpr (mt nonzero.mp positive.ne'),
            decide_eq_true (neg_lt_zero.mpr (Int.natCast_pos.mpr positive))]

/-- From the bound on a result is displayed as a whole number that is read as it. -/
theorem displayNumeral_large (canonical : magnitude.IsCanonical)
    (large : largestExact ≤ magnitude.rational) :
    Denotes (displayNumeral magnitude).toFloat magnitude.rational ∧
      largestExact ≤ (displayNumeral magnitude).rational := by
  have isWhole : magnitude.isWhole = true := by
    by_contra fraction
    have low := Magnitude.rational_le_of_fraction canonical (Bool.eq_false_iff.mpr fraction)
    have below : ((2 ^ 52 : ℕ) : ℚ) < largestExact := Nat.cast_lt.mpr (by decide)
    linarith
  rcases Magnitude.exists_count_of_isWhole isWhole with ⟨count, whole⟩
  have places := Numeral.shortest_places canonical whole
  have denotes : Denotes (Numeral.shortest magnitude).toFloat magnitude.rational := by
    rw [Numeral.toFloat_shortest canonical]
    exact denotes_of_canonical canonical false
  rw [displayNumeral, if_pos isWhole]
  refine ⟨denotes, ?_⟩
  generalize Numeral.shortest magnitude = numeral at places denotes
  rcases numeral with ⟨digits, decimals⟩
  cases places
  rw [Numeral.rational, pow_zero, div_one, Nat.cast_le]
  by_contra below
  have itself : Denotes (Numeral.toFloat ⟨digits, 0⟩) digits :=
    Numeral.denotes_whole (not_le.mp below).le (mul_one digits).symm
  rw [denotes.unique itself, Nat.cast_le] at large
  exact below large

/-- Below the bound a magnitude is displayed as it is rounded. -/
theorem displayNumeral_small (canonical : magnitude.IsCanonical)
    (small : magnitude.rational < largestExact) :
    (displayNumeral magnitude).rational =
      (Numeral.rounded displayPlaces magnitude).digits / 10 ^ displayPlaces := by
  rw [displayNumeral_eq_trim canonical small, Numeral.rational_trim]
  rfl

/-- A larger magnitude is displayed as a number that is no smaller, since each numeral is
at least as near to its own float as to the other. -/
theorem displayNumeral_mono (canonical : magnitude.IsCanonical) (canonicalOther : other.IsCanonical)
    (le : magnitude.rational ≤ other.rational) :
    (displayNumeral magnitude).rational ≤ (displayNumeral other).rational := by
  have unit : (0 : ℚ) < 10 ^ displayPlaces := by positivity
  have rounds := Numeral.isRounded_rounded displayPlaces magnitude
  rcases lt_or_ge magnitude.rational largestExact with small | large
  · rw [displayNumeral_small canonical small]
    rcases lt_or_ge other.rational largestExact with smallOther | largeOther
    · rw [displayNumeral_small canonicalOther smallOther, div_le_div_iff_of_pos_right unit]
      have roundsOther := Numeral.isRounded_rounded displayPlaces other
      exact_mod_cast rounds.isNearestWhole.mono roundsOther.isNearestWhole
        (mul_le_mul_of_nonneg_right le unit.le)
    · refine le_trans ?_ (displayNumeral_large canonicalOther largeOther).2
      have bound : (Numeral.rounded displayPlaces magnitude).digits ≤
          largestExact * 10 ^ displayPlaces := by
        apply rounds.le_of_le
        rw [Nat.cast_mul, Nat.cast_pow, Nat.cast_ofNat]
        exact mul_le_mul_of_nonneg_right small.le unit.le
      rw [div_le_iff₀ unit]
      exact_mod_cast bound
  · have largeOther := large.trans le
    have shown := displayNumeral_large canonical large
    have shownOther := displayNumeral_large canonicalOther largeOther
    rcases le.eq_or_lt with same | less
    · rw [canonical.unique canonicalOther same]
    · have low := le_of_nearer_below less (Numeral.toFloat_nearest shown.1 shownOther.1)
      have high := le_of_nearer_above less (Numeral.toFloat_nearest shownOther.1 shown.1)
      linarith

theorem displayNumeral_nonneg (magnitude : Magnitude) : 0 ≤ (displayNumeral magnitude).rational :=
  div_nonneg (Nat.cast_nonneg _) (by positivity)

theorem displayNumeral_zero : (displayNumeral ⟨0, 0⟩).rational = 0 := by
  have rounds := Numeral.isRounded_rounded displayPlaces ⟨0, 0⟩
  have itself := IsRounded.self 0
  rw [Magnitude.rational_zero, zero_mul] at rounds
  rw [Nat.cast_zero] at itself
  have small : (⟨0, 0⟩ : Magnitude).rational < largestExact := by
    rw [Magnitude.rational_zero]
    exact Nat.cast_pos.mpr (by decide)
  rw [displayNumeral_small (.inl rfl) small, rounds.unique itself, Nat.cast_zero, zero_div]

/-- A larger result is displayed as a number that is no smaller. -/
theorem decimalNumber_mono {smaller larger : Float} {number second : ℚ}
    (denotes : Denotes smaller number) (denotesOther : Denotes larger second)
    (le : number ≤ second) :
    decimalNumber (displayText smaller) ≤ decimalNumber (displayText larger) := by
  rcases denotes with ⟨negative, magnitude, read, rfl⟩
  rcases denotesOther with ⟨negativeOther, other, readOther, rfl⟩
  have canonical := (Exact.unpack_of_ofFloat read).2
  have canonicalOther := (Exact.unpack_of_ofFloat readOther).2
  have nonneg := displayNumeral_nonneg magnitude
  have nonnegOther := displayNumeral_nonneg other
  rw [decimalNumber_displayText read, decimalNumber_displayText readOther]
  cases negative with
  | false =>
      cases negativeOther with
      | false => exact displayNumeral_mono canonical canonicalOther le
      | true =>
          rw [Exact.rational_false, Exact.rational_true] at le
          have size := magnitude.rational_nonneg
          have sizeOther := other.rational_nonneg
          have zero := Magnitude.rational_zero 0
          rw [canonical.unique (.inl rfl) (by rw [zero]; linarith),
            canonicalOther.unique (.inl rfl) (by rw [zero]; linarith), displayNumeral_zero]
          norm_num
  | true =>
      cases negativeOther with
      | false =>
          simp only [if_true, Bool.false_eq_true, if_false]
          linarith
      | true =>
          rw [Exact.rational_true, Exact.rational_true] at le
          exact neg_le_neg (displayNumeral_mono canonicalOther canonical (neg_le_neg_iff.mp le))

end Shown

/-- The text of every finite result is a plain decimal number.  Below `2 ^ 53` it denotes
the multiple of the last decimal that is nearest to the result, the even one where two
are equally near, so two results have the same text exactly if they have the same
nearest multiple.  A larger result is never displayed as a smaller number. -/
theorem displayText_is_canonical :
    (forall value : Float, value.isFinite = true ->
      (Exists fun decimal : PlainDecimal => displayText value = decimal.text) ∧
        displayText value ≠ "-0") ∧
    (forall (value : Float) (number : ℚ), Denotes value number -> |number| < 2 ^ 53 ->
      Exists fun multiple : ℤ => IsNearestWhole (number * 10 ^ 10) multiple ∧
        decimalNumber (displayText value) = multiple / 10 ^ 10) ∧
    (forall (value other : Float) (number second : ℚ), Denotes value number ->
      Denotes other second -> |number| < 2 ^ 53 -> |second| < 2 ^ 53 ->
        (displayText value = displayText other ↔ Exists fun multiple : ℤ =>
          IsNearestWhole (number * 10 ^ 10) multiple ∧
            IsNearestWhole (second * 10 ^ 10) multiple)) ∧
    (forall value other : Float, value.isFinite = true -> other.isFinite = true ->
      value ≤ other -> decimalNumber (displayText value) ≤ decimalNumber (displayText other)) := by
  have shown (value : Float) (number : ℚ) (denotes : Denotes value number)
      (small : |number| < 2 ^ 53) : Exists fun multiple : ℤ =>
        IsNearestWhole (number * 10 ^ 10) multiple ∧
          decimalNumber (displayText value) = multiple / 10 ^ 10 ∧
          displayText value = multipleText multiple := by
    rcases denotes with ⟨negative, magnitude, read, rfl⟩
    rw [Exact.abs_rational] at small
    exact displayed_multiple read (by exact_mod_cast small)
  refine ⟨?_, ?_, ?_, ?_⟩
  · intro value finite
    rcases Exact.isFinite_iff.mp finite with ⟨negative, magnitude, read⟩
    rcases exists_plainDecimal read with ⟨decimal, text⟩
    exact ⟨⟨decimal, text⟩, text ▸ decimal.text_ne_negativeZero⟩
  · intro value number denotes small
    rcases shown value number denotes small with ⟨multiple, nearest, text, _⟩
    exact ⟨multiple, nearest, text⟩
  · intro value other number second denotes denotesOther small smallOther
    rcases shown value number denotes small with ⟨multiple, nearest, text, written⟩
    rcases shown other second denotesOther smallOther with
      ⟨multipleOther, nearestOther, textOther, writtenOther⟩
    constructor
    · intro same
      rw [same, textOther, div_left_inj' (by norm_num), Int.cast_inj] at text
      exact ⟨multiple, nearest, text ▸ nearestOther⟩
    · rintro ⟨common, nearestCommon, nearestCommonOther⟩
      rw [written, writtenOther, nearest.unique nearestCommon,
        nearestOther.unique nearestCommonOther]
  · intro value other finite finiteOther le
    rcases Exact.isFinite_iff.mp finite with ⟨negative, magnitude, read⟩
    rcases Exact.isFinite_iff.mp finiteOther with ⟨negativeOther, magnitudeOther, readOther⟩
    have denotes : Denotes value _ := ⟨negative, magnitude, read, rfl⟩
    have denotesOther : Denotes other _ := ⟨negativeOther, magnitudeOther, readOther, rfl⟩
    exact decimalNumber_mono denotes denotesOther ((denotes.le_iff denotesOther).mp le)

/-- A negative result that rounds to zero has the text of zero, and so has its positive
counterpart. -/
theorem displayText_is_canonical_tiny :
    let tiny : Bool -> Float := fun negative => (Exact.finite negative ⟨2 ^ 52, -90⟩).toFloat
    let number : Bool -> ℚ := fun negative => Exact.rational negative ⟨2 ^ 52, -90⟩
    displayText (tiny true) = "0" ∧ displayText (tiny false) = "0" ∧
      (Exists fun decimal : PlainDecimal => displayText (tiny true) = decimal.text) ∧
      (Exists fun multiple : ℤ => IsNearestWhole (number true * 10 ^ 10) multiple ∧
        decimalNumber (displayText (tiny true)) = multiple / 10 ^ 10) ∧
      (Exists fun multiple : ℤ => IsNearestWhole (number true * 10 ^ 10) multiple ∧
        IsNearestWhole (number false * 10 ^ 10) multiple) ∧
      decimalNumber (displayText (tiny true)) ≤ decimalNumber (displayText (tiny false)) := by
  have canonical : Magnitude.IsCanonical ⟨2 ^ 52, -90⟩ :=
    .inr ⟨by decide, by decide, by decide, by decide, .inl (by decide)⟩
  have text : forall negative : Bool,
      displayText (Exact.finite negative ⟨2 ^ 52, -90⟩).toFloat = "0" := by
    decide +kernel
  intro tiny number
  have denotes (negative : Bool) : Denotes (tiny negative) (number negative) :=
    denotes_of_canonical canonical negative
  have small (negative : Bool) : |number negative| < 2 ^ 53 := by
    rw [Exact.abs_rational, Magnitude.rational]
    norm_num
  rcases displayText_is_canonical with ⟨plain, nearest, same, order⟩
  have below : tiny true ≤ tiny false := by
    rw [(denotes true).le_iff (denotes false)]
    exact (neg_nonpos.mpr (Magnitude.rational_nonneg _)).trans (Magnitude.rational_nonneg _)
  refine ⟨text true, text false, (plain _ (denotes true).isFinite).1,
    nearest _ _ (denotes true) (small true), ?_,
    order _ _ (denotes true).isFinite (denotes false).isFinite below⟩
  exact (same _ _ _ _ (denotes true) (denotes false) (small true) (small false)).mp
    ((text true).trans (text false).symm)

end DeskCalculator
