/-!
# Finite binary64 numbers

A finite number of the binary64 format is a sign and a magnitude counted in units of `2 ^ -1074`,
the smallest positive one. On that grid every operation is exact integer arithmetic followed by one
rounding to 53 significant bits, half to even. `Representable` says which magnitudes the format
has; `representable_roundQuotient` says that rounding ends in one. Powers are written `Nat.pow`,
which means the same whatever algebra is in scope.
-/
namespace RecordFlow

theorem powTwo_pos (k : Nat) : 0 < Nat.pow 2 k := Nat.two_pow_pos k

theorem powTwo_add (j k : Nat) : Nat.pow 2 (j + k) = Nat.pow 2 j * Nat.pow 2 k := Nat.pow_add 2 j k

/-- One is `2 ^ 1074` units. -/
def oneExponent : Nat := 1074

/-- The first magnitude that is too large is `2 ^ 1024`, hence `2 ^ 2098` units. -/
def overflowExponent : Nat := 2098

@[irreducible] def oneUnits : Nat := Nat.pow 2 oneExponent

@[irreducible] def overflowUnits : Nat := Nat.pow 2 overflowExponent

theorem powTwo_lt_overflowUnits {k : Nat} (h : k < overflowExponent) :
    Nat.pow 2 k < overflowUnits := by
  unfold overflowUnits
  rw [Nat.pow_eq, Nat.pow_eq]
  exact Nat.pow_lt_pow_right (Nat.le_refl 2) h

theorem oneUnits_pos : 0 < oneUnits := by
  unfold oneUnits
  exact powTwo_pos _

theorem mul_oneUnits_lt {n k : Nat} (h : n < Nat.pow 2 k) :
    n * oneUnits < Nat.pow 2 (k + oneExponent) := by
  unfold oneUnits
  rw [powTwo_add]
  exact Nat.mul_lt_mul_of_pos_right h (powTwo_pos _)

/-- At most 53 significant bits. -/
def Representable (units : Nat) : Prop :=
  ∃ m e : Nat, m ≤ Nat.pow 2 53 ∧ units = m * Nat.pow 2 e

structure Binary64 where
  negative : Bool
  units : Nat
  finite : units < overflowUnits
  representable : Representable units
deriving DecidableEq

/-- The nearest natural number to `a / b`, half to even. -/
def halfEven (a b : Nat) : Nat :=
  let q := a / b
  let r := a % b
  if 2 * r < b then q else if b < 2 * r then q + 1 else q + q % 2

theorem halfEven_le (a b : Nat) : halfEven a b ≤ a / b + 1 := by
  simp only [halfEven]
  split
  · omega
  · split <;> omega

theorem div_le_halfEven (a b : Nat) : a / b ≤ halfEven a b := by
  simp only [halfEven]
  split
  · omega
  · split <;> omega

namespace Binary64

/-- The spacing around a magnitude of `n` whole units is `2 ^ gridExponent n`. -/
def gridExponent (n : Nat) : Nat := n.log2 + 1 - 53

theorem div_grid_lt (n : Nat) : n / Nat.pow 2 (gridExponent n) < Nat.pow 2 53 := by
  rw [Nat.div_lt_iff_lt_mul (powTwo_pos _), ← powTwo_add]
  exact Nat.lt_of_lt_of_le Nat.lt_log2_self
    (Nat.pow_le_pow_right (by decide) (by unfold gridExponent; omega))

/-- `num / den` units, rounded to 53 significant bits. -/
def roundQuotient (num den : Nat) : Nat :=
  let e := gridExponent (num / den)
  halfEven num (den * Nat.pow 2 e) * Nat.pow 2 e

theorem representable_roundQuotient (num den : Nat) : Representable (roundQuotient num den) := by
  refine ⟨_, _, ?_, rfl⟩
  refine Nat.le_trans (halfEven_le _ _) ?_
  rw [← Nat.div_div_eq_div_mul]
  exact div_grid_lt _

/-- The number nearest to `num / den` units, unless it is too large. -/
def ofUnits? (negative : Bool) (num den : Nat) : Option Binary64 :=
  if h : roundQuotient num den < overflowUnits then
    some ⟨negative, roundQuotient num den, h, representable_roundQuotient num den⟩
  else none

def ofFraction? (negative : Bool) (num den : Nat) : Option Binary64 :=
  ofUnits? negative (num * oneUnits) den

def zero (negative : Bool) : Binary64 :=
  ⟨negative, 0, Nat.lt_trans (powTwo_pos 0) (powTwo_lt_overflowUnits (by decide)), 0, 0,
    Nat.zero_le _, (Nat.zero_mul _).symm⟩

/-- The signed count of units; both zeros have none. -/
def toInt (x : Binary64) : Int := if x.negative then -(x.units : Int) else x.units

def mul? (x y : Binary64) : Option Binary64 :=
  ofUnits? (x.negative ^^ y.negative) (x.units * y.units) oneUnits

/-- The rounded quotient; `y` must not be zero. -/
def div? (x y : Binary64) : Option Binary64 :=
  ofUnits? (x.negative ^^ y.negative) (x.units * oneUnits) y.units

theorem roundQuotient_le {n k : Nat} (h : n < Nat.pow 2 k) (hk : 53 ≤ k) :
    roundQuotient n 1 ≤ Nat.pow 2 k := by
  have he : gridExponent n + 53 ≤ k := by
    by_cases hn : n = 0
    · subst hn; simp [gridExponent]; omega
    · have := (Nat.log2_lt hn).2 h
      unfold gridExponent
      omega
  have hq : halfEven n (1 * Nat.pow 2 (gridExponent (n / 1))) ≤ Nat.pow 2 53 := by
    refine Nat.le_trans (halfEven_le _ _) ?_
    rw [Nat.div_one, Nat.one_mul]
    exact div_grid_lt _
  calc roundQuotient n 1 ≤ Nat.pow 2 53 * Nat.pow 2 (gridExponent (n / 1)) :=
      Nat.mul_le_mul_right _ hq
    _ = Nat.pow 2 (53 + gridExponent n) := by
      rw [Nat.div_one, powTwo_add]
    _ ≤ Nat.pow 2 k := Nat.pow_le_pow_right (by decide) (by omega)

/-- A number below `2 ^ 64` is never too large. -/
def ofSmall (negative : Bool) (n : Nat) (h : n < UInt64.size) : Binary64 where
  negative := negative
  units := roundQuotient (n * oneUnits) 1
  finite := Nat.lt_of_le_of_lt
    (roundQuotient_le (k := 64 + oneExponent) (mul_oneUnits_lt h) (by decide))
    (powTwo_lt_overflowUnits (by decide))
  representable := representable_roundQuotient _ _

def compare (x y : Binary64) : Ordering := Ord.compare x.toInt y.toInt

end Binary64
end RecordFlow
