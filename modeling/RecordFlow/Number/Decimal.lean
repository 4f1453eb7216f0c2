import RecordFlow.Number.Binary64

/-!
# Decimal forms of binary64 numbers

`Decimal.shortest` finds the fewest digits that read back as the given number and, among those, the
digits nearest to it. `Binary64.ofDecimal?` reads digits and an exponent with one rounding.
-/
namespace RecordFlow

/-- The number `digits * 10 ^ exponent`. -/
structure Decimal where
  digits : Nat
  exponent : Int
deriving DecidableEq, Repr

namespace Decimal

/-- The interval of quarter units that rounds to `units`. Its ends belong to it when the
significand is even. Below a power of two the spacing is half of that above. -/
structure Window where
  low : Nat
  middle : Nat
  high : Nat
  closed : Bool

def window (units : Nat) : Window :=
  let e := Binary64.gridExponent units
  let spacing := Nat.pow 2 e
  let below := if e ≠ 0 ∧ units = Nat.pow 2 (e + 52) then spacing else 2 * spacing
  { low := 4 * units - below
    middle := 4 * units
    high := 4 * units + 2 * spacing
    closed := units / spacing % 2 == 0 }

def Window.holds (w : Window) (scale n : Nat) : Bool :=
  if w.closed then w.low * scale ≤ n && n ≤ w.high * scale
  else w.low * scale < n && n < w.high * scale

/-- The multiple of `10 ^ exponent` nearest to the middle of the window, if one of its two
neighbours lies inside. Of two equally near ones the even is taken. -/
def onGrid? (w : Window) (exponent : Int) : Option Decimal :=
  let scale := Nat.pow 10 (-exponent).toNat
  let step := 4 * oneUnits * Nat.pow 10 exponent.toNat
  let nearest := halfEven (w.middle * scale) step
  let floor := w.middle * scale / step
  let other := if nearest == floor then floor + 1 else floor
  if w.holds scale (nearest * step) then some ⟨nearest, exponent⟩
  else if w.holds scale (other * step) then some ⟨other, exponent⟩
  else none

/-- No power of ten above `10 ^ topExponent` is needed: it exceeds every point of the window. -/
def topExponent (units : Nat) : Int := ((units.log2 : Int) - oneExponent) * 30103 / 100000 + 2

/-- The coarsest decimal grid with a point that reads back. Twenty-two grids reach past seventeen
digits, where one always has. -/
def shortest (units : Nat) : Decimal :=
  let top := topExponent units
  let w := window units
  ((List.range 22).findSome? fun k : Nat => onGrid? w (top - k)).getD ⟨units, -oneExponent⟩

end Decimal

/-- Digits scaled by a power of ten, rounded once. Exponents far outside the range are settled
without computing the power. -/
def Binary64.ofDecimal? (negative : Bool) (digits : Nat) (exponent : Int) : Option Binary64 :=
  let size : Int := (Nat.toDigits 10 digits).length
  if digits = 0 ∨ exponent + size < -400 then some (.zero negative)
  else if 400 < exponent + size then none
  else ofFraction? negative (digits * Nat.pow 10 exponent.toNat) (Nat.pow 10 (-exponent).toNat)

end RecordFlow
