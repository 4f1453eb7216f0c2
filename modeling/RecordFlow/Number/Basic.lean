import RecordFlow.Number.Binary64

/-!
# Numbers

A number is a whole number of the signed or unsigned 64-bit range, or a finite binary64 number.
Whole numbers compare exactly; where a binary64 number takes part, both sides are first rounded to
that format.
-/
namespace RecordFlow

/-- The whole numbers held exactly: from `-2 ^ 63` up to, but not including, `2 ^ 64`. -/
abbrev Whole := { i : Int // -9223372036854775808 ≤ i ∧ i < 18446744073709551616 }

inductive Number where
  | whole (i : Whole)
  | float (x : Binary64)
deriving DecidableEq

namespace Whole

def ofInt? (i : Int) : Option Whole :=
  if h : -9223372036854775808 ≤ i ∧ i < 18446744073709551616 then some ⟨i, h⟩ else none

def ofWord (n : UInt64) : Whole :=
  ⟨n.toNat, by have := n.toNat_lt; omega⟩

def toBinary64 (i : Whole) : Binary64 :=
  .ofSmall (i.val < 0) i.val.natAbs (by have := i.property; unfold UInt64.size; omega)

end Whole

namespace Number

def toBinary64 : Number → Binary64
  | .whole i => i.toBinary64
  | .float x => x

/-- The position that the number names, if it is a whole number that is not negative. -/
def toWord? : Number → Option UInt64
  | .whole i => if 0 ≤ i.val then some (.ofNat i.val.toNat) else none
  | .float _ => none

def compare : Number → Number → Ordering
  | .whole i, .whole j => Ord.compare i.val j.val
  | a, b => a.toBinary64.compare b.toBinary64

/-- Equality of kind and value: `1` and `1.0` differ, `0.0` and `-0.0` do not. -/
def identical : Number → Number → Bool
  | .whole i, .whole j => i.val == j.val
  | .float x, .float y => x.toInt == y.toInt
  | _, _ => false

def ofWord (n : UInt64) : Number := .whole (.ofWord n)

end Number
end RecordFlow
