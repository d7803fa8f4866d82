import DeskCalculator.Numeral

namespace DeskCalculator
namespace Numeral

/-!
# The shortest numeral that reads back

Of all numerals whose nearest float is a given one, `shortest` picks the one
with the fewest digits, and of those the one closest to the exact value; of
two equally close ones it takes the larger.  Only the two neighbours of the
value on each decimal grid need to be tried, coarsest grid first.  Every
candidate is tested by reading it, so what is chosen reads back by
construction; the exact expansion stands behind the last grid.
-/

/-- The power of ten just above a positive magnitude: the magnitude is below
`10 ^ place` and not below `10 ^ (place - 1)`. -/
def placeAbove (magnitude : Magnitude) : Int :=
  let whole := magnitude.numerator / magnitude.denominator
  if 0 < whole then
    (Nat.toDigits 10 whole).length
  else
    1 - (Nat.toDigits 10 ((magnitude.denominator - 1) / magnitude.numerator)).length

/-- The numeral for `count * 10 ^ place`, without needless zeros. -/
def onGrid (place : Int) (count : Nat) : Numeral :=
  trim ⟨count * 10 ^ place.toNat, (-place).toNat⟩

/-- The two neighbours of the magnitude among the multiples of `10 ^ place`,
the closer one first, and the larger one first where both are equally close. -/
def neighbours (magnitude : Magnitude) (place : Int) : List Numeral :=
  let numerator := magnitude.numerator * 10 ^ (-place).toNat
  let denominator := magnitude.denominator * 10 ^ place.toNat
  let below := numerator / denominator
  if 2 * (numerator % denominator) < denominator then
    [onGrid place below, onGrid place (below + 1)]
  else
    [onGrid place (below + 1), onGrid place below]

/-- The numeral that equals the magnitude, without needless zeros.  A power of
two in the denominator is that power of ten less the same power of five. -/
def exactly (magnitude : Magnitude) : Numeral :=
  trim ⟨magnitude.numerator * 5 ^ (-magnitude.exponent).toNat, (-magnitude.exponent).toNat⟩

/-- Seventeen significant digits tell any two floats of this format apart. -/
def mostDigits : Nat := 17

/-- The shortest numeral whose nearest float is the one of this magnitude. -/
def shortest (magnitude : Magnitude) : Numeral :=
  if magnitude.significand = 0 then
    ⟨0, 0⟩
  else
    let target := (Exact.finite false magnitude).toFloat
    let above := placeAbove magnitude
    let found := (List.range mostDigits).findSome? fun (finer : Nat) =>
      (neighbours magnitude (above - 1 - finer)).find? fun numeral => numeral.toFloat = target
    found.getD (exactly magnitude)

/-- What is chosen reads back, or it is the exact expansion. -/
theorem toFloat_shortest_or_eq_exactly (magnitude : Magnitude)
    (positive : magnitude.significand ≠ 0) :
    (shortest magnitude).toFloat = (Exact.finite false magnitude).toFloat ∨
      shortest magnitude = exactly magnitude := by
  simp only [shortest, if_neg positive]
  cases found : (List.range mostDigits).findSome? fun (finer : Nat) =>
      (neighbours magnitude (placeAbove magnitude - 1 - finer)).find? fun numeral =>
        numeral.toFloat = (Exact.finite false magnitude).toFloat with
  | none => exact Or.inr rfl
  | some numeral =>
      obtain ⟨finer, _, candidate⟩ := List.exists_of_findSome?_eq_some found
      have readsBack := List.find?_some candidate
      exact Or.inl (of_decide_eq_true readsBack)

end Numeral
end DeskCalculator
