import RecordFlow.Number.Basic

/-!
# The order of numbers

Rounding to binary64 keeps the order of magnitudes and leaves the numbers of the format as they
are. So the order of numbers never contradicts their values. It is transitive even across the two
kinds of numbers, although numbers that are equal only because one of them is rounded may differ
from each other. Equality and order may each be read off the forms that two numbers have in common,
and still agree.
-/
namespace RecordFlow

/-! ## Rounding -/

theorem halfEven_mono {a b : Nat} (h : a ≤ b) (d : Nat) : halfEven a d ≤ halfEven b d := by
  have quotients : a / d ≤ b / d := Nat.div_le_div_right h
  have upper := halfEven_le a d
  have lower := div_le_halfEven b d
  by_cases same : a / d = b / d
  · have rests : a % d ≤ b % d := by
      have whole := Nat.div_add_mod a d
      have whole' := Nat.div_add_mod b d
      rw [same] at whole
      omega
    by_cases low : 2 * (a % d) < d
    · have down : halfEven a d = a / d := if_pos low
      omega
    · by_cases high : d < 2 * (b % d)
      · have up : halfEven b d = b / d + 1 := (if_neg (by omega)).trans (if_pos high)
        omega
      · -- both lie halfway between the same two numbers
        have tie : halfEven a d = a / d + a / d % 2 := (if_neg low).trans (if_neg (by omega))
        have tie' : halfEven b d = b / d + b / d % 2 := (if_neg (by omega)).trans (if_neg high)
        exact Nat.le_of_eq (by rw [tie, tie', same])
  · omega

theorem halfEven_mul (k : Nat) {d : Nat} (h : 0 < d) : halfEven (k * d) d = k := by
  have none_left : 2 * (k * d % d) < d := by
    rw [Nat.mul_mod_left]
    exact h
  rw [halfEven]
  simp only [if_pos none_left]
  exact Nat.mul_div_cancel k h

namespace Binary64

theorem gridExponent_mono {m n : Nat} (h : m ≤ n) : gridExponent m ≤ gridExponent n := by
  have logs : m.log2 ≤ n.log2 := by
    by_cases zero : m = 0
    · rw [zero, Nat.log2_zero]
      exact Nat.zero_le _
    · have small : n.log2 < n.log2 + 1 := Nat.lt_succ_self _
      have powers := (Nat.log2_lt (by omega)).mp small
      exact Nat.lt_succ_iff.mp ((Nat.log2_lt zero).mpr (Nat.lt_of_le_of_lt h powers))
  unfold gridExponent
  omega

/-- The upper end of the magnitudes with one spacing. -/
theorem roundQuotient_le_end (num den : Nat) :
    roundQuotient num den ≤ Nat.pow 2 (53 + gridExponent (num / den)) := by
  have significand :
      halfEven num (den * Nat.pow 2 (gridExponent (num / den))) ≤ Nat.pow 2 53 := by
    refine Nat.le_trans (halfEven_le _ _) ?_
    rw [← Nat.div_div_eq_div_mul]
    exact div_grid_lt _
  rw [powTwo_add]
  exact Nat.mul_le_mul_right _ significand

/-- Their lower end, unless they reach down to zero. -/
theorem start_le_roundQuotient {num den : Nat} (h : 0 < gridExponent (num / den)) :
    Nat.pow 2 (52 + gridExponent (num / den)) ≤ roundQuotient num den := by
  have nonzero : num / den ≠ 0 := by
    intro zero
    rw [zero] at h
    exact absurd h (by decide)
  have start : 52 + gridExponent (num / den) = (num / den).log2 := by
    unfold gridExponent at h ⊢
    omega
  have reached : Nat.pow 2 (52 + gridExponent (num / den)) ≤ num / den := by
    rw [start]
    exact Nat.log2_self_le nonzero
  have significand :
      Nat.pow 2 52 ≤ halfEven num (den * Nat.pow 2 (gridExponent (num / den))) := by
    refine Nat.le_trans ?_ (div_le_halfEven _ _)
    rw [← Nat.div_div_eq_div_mul, Nat.le_div_iff_mul_le (powTwo_pos _), ← powTwo_add]
    exact reached
  rw [powTwo_add]
  exact Nat.mul_le_mul_right _ significand

/-- Rounding keeps the order of magnitudes, also where the spacing changes. -/
theorem roundQuotient_mono {m n : Nat} (h : m ≤ n) (den : Nat) :
    roundQuotient m den ≤ roundQuotient n den := by
  have grids : gridExponent (m / den) ≤ gridExponent (n / den) :=
    gridExponent_mono (Nat.div_le_div_right h)
  rcases Nat.lt_or_eq_of_le grids with finer | same
  · calc roundQuotient m den
      _ ≤ Nat.pow 2 (53 + gridExponent (m / den)) := roundQuotient_le_end m den
      _ ≤ Nat.pow 2 (52 + gridExponent (n / den)) := Nat.pow_le_pow_right (by decide) (by omega)
      _ ≤ roundQuotient n den := start_le_roundQuotient (by omega)
  · rw [roundQuotient, roundQuotient, same]
    exact Nat.mul_le_mul_right _ (halfEven_mono h _)

/-- A magnitude of the format is its own rounding. -/
theorem roundQuotient_of_representable {n : Nat} (h : Representable n) : roundQuotient n 1 = n := by
  obtain ⟨k, multiple⟩ : ∃ k, n = k * Nat.pow 2 (gridExponent n) := by
    obtain ⟨m, e, small, rfl⟩ := h
    by_cases fine : gridExponent (m * Nat.pow 2 e) ≤ e
    · refine ⟨m * Nat.pow 2 (e - gridExponent (m * Nat.pow 2 e)), ?_⟩
      rw [Nat.mul_assoc, ← powTwo_add, Nat.sub_add_cancel fine]
    · -- only the significand `2 ^ 53` itself has the next coarser spacing
      have nonzero : m * Nat.pow 2 e ≠ 0 := by
        intro zero
        rw [zero] at fine
        exact fine (Nat.zero_le _)
      have large : Nat.pow 2 (53 + e) ≤ m * Nat.pow 2 e := by
        refine Nat.le_trans (Nat.pow_le_pow_right (by decide) ?_) (Nat.log2_self_le nonzero)
        unfold gridExponent at fine
        omega
      rw [powTwo_add] at large
      have top : m = Nat.pow 2 53 :=
        Nat.le_antisymm small (Nat.le_of_mul_le_mul_right large (powTwo_pos e))
      rw [top, ← powTwo_add]
      refine ⟨Nat.pow 2 52, ?_⟩
      have exponent : gridExponent (Nat.pow 2 (53 + e)) = 1 + e := by
        unfold gridExponent
        rw [show (Nat.pow 2 (53 + e)).log2 = 53 + e from Nat.log2_two_pow]
        omega
      rw [exponent, ← powTwo_add]
      congr 1
      omega
  rw [roundQuotient, Nat.div_one, Nat.one_mul]
  generalize gridExponent n = e at multiple ⊢
  rw [multiple, halfEven_mul k (powTwo_pos e)]

theorem representable_oneUnits : Representable oneUnits := by
  refine ⟨1, oneExponent, powTwo_pos 53, ?_⟩
  unfold oneUnits
  exact (Nat.one_mul _).symm

/-- The count of units nearest to the given one among those of the format. -/
def nearest (units : Int) : Int :=
  if units < 0 then -(roundQuotient units.natAbs 1 : Int) else roundQuotient units.natAbs 1

theorem nearest_mono {u v : Int} (h : u ≤ v) : nearest u ≤ nearest v := by
  unfold nearest
  split
  · split
    · have := roundQuotient_mono (m := v.natAbs) (n := u.natAbs) (by omega) 1
      omega
    · omega
  · rw [if_neg (by omega)]
    have := roundQuotient_mono (m := u.natAbs) (n := v.natAbs) (by omega) 1
    omega

theorem nearest_of_representable {u : Int} (h : Representable u.natAbs) : nearest u = u := by
  rw [nearest, roundQuotient_of_representable h]
  split <;> omega

theorem nearest_toInt (x : Binary64) : nearest x.toInt = x.toInt := by
  apply nearest_of_representable
  have magnitude : x.toInt.natAbs = x.units := by
    unfold toInt
    split <;> omega
  rw [magnitude]
  exact x.representable

/-- Rounding keeps the sign of a number that is at least one unit of the whole numbers away from
zero. -/
theorem nearest_neg_of_le {u : Int} (h : u ≤ -(oneUnits : Int)) : nearest u < 0 := by
  have one : Representable (-(oneUnits : Int)).natAbs := by
    rw [Int.natAbs_neg, Int.natAbs_natCast]
    exact representable_oneUnits
  have bound := nearest_mono h
  rw [nearest_of_representable one] at bound
  have := oneUnits_pos
  omega

theorem nearest_nonneg {u : Int} (h : 0 ≤ u) : 0 ≤ nearest u := by
  rw [nearest, if_neg (by omega)]
  exact Int.natCast_nonneg _

end Binary64

namespace Number

/-! ## Values -/

/-- The value, counted in units of `2 ^ -1074`. -/
def units : Number → Int
  | .whole i => i.val * oneUnits
  | .float x => x.toInt

theorem units_whole_le {i j : Whole} : (whole i).units ≤ (whole j).units ↔ i.val ≤ j.val :=
  Int.mul_le_mul_iff_of_pos_right (Int.natCast_pos.mpr oneUnits_pos)

theorem toInt_toBinary64 (n : Number) : n.toBinary64.toInt = Binary64.nearest n.units := by
  cases n with
  | float x => exact (Binary64.nearest_toInt x).symm
  | whole i =>
    have size : (i.val * oneUnits).natAbs = i.val.natAbs * oneUnits := by
      rw [Int.natAbs_mul, Int.natAbs_natCast]
    have sign : i.val * (oneUnits : Int) < 0 ↔ i.val < 0 := by
      rw [← Int.not_le, ← Int.not_le, Int.mul_nonneg_iff_of_pos_right]
      exact Int.natCast_pos.mpr oneUnits_pos
    simp only [toBinary64, Whole.toBinary64, Binary64.ofSmall, Binary64.toInt, decide_eq_true_eq,
      units, Binary64.nearest, size, sign]

theorem toInt_toBinary64_mono {m n : Number} (h : m.units ≤ n.units) :
    m.toBinary64.toInt ≤ n.toBinary64.toInt := by
  rw [toInt_toBinary64, toInt_toBinary64]
  exact Binary64.nearest_mono h

/-! ## The order -/

theorem compare_swap (m n : Number) : (m.compare n).swap = n.compare m := by
  cases m <;> cases n <;> exact Int.compare_swap _ _

theorem compare_whole_lt {i j : Whole} : (whole i).compare (whole j) = .lt ↔ i.val < j.val :=
  Int.compare_eq_lt

theorem compare_float_lt {n : Number} {y : Binary64} :
    n.compare (float y) = .lt ↔ n.toBinary64.toInt < y.toInt := by
  cases n <;> exact Int.compare_eq_lt

theorem float_compare_lt {x : Binary64} {n : Number} :
    (float x).compare n = .lt ↔ x.toInt < n.toBinary64.toInt := by
  cases n <;> exact Int.compare_eq_lt

/-- Numbers in order are still so after rounding, if perhaps no longer apart. -/
theorem rounded_le_of_lt {m n : Number} (h : m.compare n = .lt) :
    m.toBinary64.toInt ≤ n.toBinary64.toInt := by
  cases n with
  | float y => exact Int.le_of_lt (compare_float_lt.mp h)
  | whole j =>
    cases m with
    | float x => exact Int.le_of_lt (float_compare_lt.mp h)
    | whole i =>
      have values := units_whole_le.mpr (Int.le_of_lt (compare_whole_lt.mp h))
      exact toInt_toBinary64_mono values

/-- Numbers that are in order after rounding were so before. -/
theorem lt_of_rounded_lt {m n : Number} (h : m.toBinary64.toInt < n.toBinary64.toInt) :
    m.compare n = .lt := by
  cases n with
  | float y => exact compare_float_lt.mpr h
  | whole j =>
    cases m with
    | float x => exact float_compare_lt.mpr h
    | whole i =>
      apply compare_whole_lt.mpr
      apply Int.lt_of_not_ge
      intro turned
      have rounded := toInt_toBinary64_mono (units_whole_le.mpr turned)
      omega

/-- The order never contradicts the values. -/
theorem units_lt_of_lt {m n : Number} (h : m.compare n = .lt) : m.units < n.units := by
  have of_rounded (strict : m.toBinary64.toInt < n.toBinary64.toInt) : m.units < n.units := by
    apply Int.lt_of_not_ge
    intro turned
    have rounded := toInt_toBinary64_mono turned
    omega
  cases n with
  | float y => exact of_rounded (compare_float_lt.mp h)
  | whole j =>
    cases m with
    | float x => exact of_rounded (float_compare_lt.mp h)
    | whole i =>
      rw [← Int.not_le, units_whole_le, Int.not_le]
      exact compare_whole_lt.mp h

/-- The order is transitive. Where one of two steps is between rounded numbers it is strict, and the
other one does not lead back. -/
theorem compare_trans {l m n : Number} (first : l.compare m = .lt) (second : m.compare n = .lt) :
    l.compare n = .lt := by
  have below := rounded_le_of_lt first
  have above := rounded_le_of_lt second
  cases m with
  | float y =>
    have strict := compare_float_lt.mp first
    exact lt_of_rounded_lt (Int.lt_of_lt_of_le strict above)
  | whole j =>
    cases l with
    | float x =>
      have strict := float_compare_lt.mp first
      exact lt_of_rounded_lt (Int.lt_of_lt_of_le strict above)
    | whole i =>
      cases n with
      | float z =>
        have strict := compare_float_lt.mp second
        exact lt_of_rounded_lt (Int.lt_of_le_of_lt below strict)
      | whole k =>
        have whole_first := compare_whole_lt.mp first
        have whole_second := compare_whole_lt.mp second
        exact compare_whole_lt.mpr (Int.lt_trans whole_first whole_second)

/-! ## Equality and order read off the forms of a number -/

/-- The number as a signed one of 64 bits. -/
def signed? : Number → Option Int
  | .whole i => if i.val < 9223372036854775808 then some i.val else none
  | .float _ => none

/-- What two numbers give in the first form that both have: as signed numbers, or as words. -/
def inForm {α : Type} (signed : Int → Int → α) (words : UInt64 → UInt64 → α) (neither : α)
    (m n : Number) : α :=
  match m.signed?, n.signed?, m.toWord?, n.toWord? with
  | some i, some j, _, _ => signed i j
  | _, _, some u, some v => words u v
  | _, _, _, _ => neither

/-- Equality, after rounding where no form is common. -/
def equalInForm (m n : Number) : Bool :=
  inForm (· == ·) (· == ·) (m.toBinary64.toInt == n.toBinary64.toInt) m n

/-- The order where no form is common: whole numbers are then of two signs, others are rounded. -/
def orderApart : Number → Number → Ordering
  | .whole i, .whole _ => if (whole i).toWord?.isSome then .gt else .lt
  | m, n => m.toBinary64.compare n.toBinary64

def orderInForm (m n : Number) : Ordering :=
  inForm (compareOfLessAndEq · ·) (compareOfLessAndEq · ·) (m.orderApart n) m n

section

variable {α : Type} {signed : Int → Int → α} {words : UInt64 → UInt64 → α} {neither : α}

theorem inForm_float_left (x : Binary64) (n : Number) :
    inForm signed words neither (.float x) n = neither := by
  unfold inForm
  cases n.signed? <;> cases n.toWord? <;> rfl

theorem inForm_float_right (m : Number) (y : Binary64) :
    inForm signed words neither m (.float y) = neither := by
  unfold inForm
  cases m.signed? <;> cases m.toWord? <;> rfl

theorem inForm_whole (i j : Whole) :
    inForm signed words neither (.whole i) (.whole j) =
      if i.val < 9223372036854775808 ∧ j.val < 9223372036854775808 then signed i.val j.val
      else if 0 ≤ i.val ∧ 0 ≤ j.val then words (.ofNat i.val.toNat) (.ofNat j.val.toNat)
      else neither := by
  by_cases hi : i.val < 9223372036854775808 <;> by_cases hj : j.val < 9223372036854775808 <;>
    by_cases ui : 0 ≤ i.val <;> by_cases uj : 0 ≤ j.val <;>
    simp [inForm, signed?, toWord?, hi, hj, ui, uj]

end

/-- A number below zero and one that is not are still apart after rounding. -/
theorem rounded_lt_of_signs {i j : Whole} (below : i.val < 0) (above : 0 ≤ j.val) :
    i.toBinary64.toInt < j.toBinary64.toInt := by
  have left : (whole i).units ≤ -(oneUnits : Int) := by
    rw [← Int.neg_one_mul, units]
    exact Int.mul_le_mul_of_nonneg_right (by omega) (Int.natCast_nonneg _)
  have right : 0 ≤ (whole j).units := Int.mul_nonneg above (Int.natCast_nonneg _)
  have first := Binary64.nearest_neg_of_le left
  have second := Binary64.nearest_nonneg right
  rw [← toInt_toBinary64] at first second
  exact Int.lt_of_lt_of_le first second

/-- Whole numbers that are not negative stand in order as their words do. -/
theorem words_order {i j : Whole} (hi : 0 ≤ i.val) (hj : 0 ≤ j.val) :
    (UInt64.ofNat i.val.toNat = .ofNat j.val.toNat ↔ i.val = j.val) ∧
      (UInt64.ofNat i.val.toNat < .ofNat j.val.toNat ↔ i.val < j.val) := by
  have hi' : i.val.toNat < UInt64.size := by have := i.property; unfold UInt64.size; omega
  have hj' : j.val.toNat < UInt64.size := by have := j.property; unfold UInt64.size; omega
  rw [← UInt64.toNat_inj, UInt64.toNat_ofNat_of_lt' hi', UInt64.toNat_ofNat_of_lt' hj',
    UInt64.ofNat_lt_iff_lt hi' hj']
  omega

/-- Whole numbers without a form in common are of two signs, so that rounding keeps them apart. -/
theorem equalInForm_eq (m n : Number) : m.equalInForm n = (m.compare n == .eq) := by
  have rounded (x y : Binary64) : (x.toInt == y.toInt) = (x.compare y == .eq) := by
    rw [Bool.eq_iff_iff, beq_iff_eq, beq_iff_eq]
    exact Int.compare_eq_eq.symm
  cases m with
  | float x =>
    rw [equalInForm, inForm_float_left]
    cases n <;> exact rounded _ _
  | whole i =>
    cases n with
    | float y =>
      rw [equalInForm, inForm_float_right]
      exact rounded _ _
    | whole j =>
      rw [equalInForm, inForm_whole, compare, Bool.eq_iff_iff, beq_iff_eq, Int.compare_eq_eq]
      split
      · exact beq_iff_eq
      · next large =>
        split
        · next positive => exact beq_iff_eq.trans (words_order positive.1 positive.2).1
        · next negative =>
          rw [beq_iff_eq]
          refine iff_of_false ?_ (by omega)
          by_cases below : i.val < 0
          · exact Int.ne_of_lt (rounded_lt_of_signs below (by omega))
          · exact Int.ne_of_gt (rounded_lt_of_signs (by omega) (by omega))

theorem orderInForm_eq (m n : Number) : m.orderInForm n = m.compare n := by
  cases m with
  | float x =>
    rw [orderInForm, inForm_float_left]
    cases n <;> rfl
  | whole i =>
    cases n with
    | float y =>
      rw [orderInForm, inForm_float_right]
      rfl
    | whole j =>
      rw [orderInForm, inForm_whole, compare]
      by_cases small : i.val < 9223372036854775808 ∧ j.val < 9223372036854775808
      · rw [if_pos small]
        rfl
      · rw [if_neg small]
        by_cases positive : 0 ≤ i.val ∧ 0 ≤ j.val
        · obtain ⟨same, less⟩ := words_order positive.1 positive.2
          rw [if_pos positive]
          refine ite_congr (propext less) (fun _ => rfl) fun _ => ?_
          exact ite_congr (propext same) (fun _ => rfl) fun _ => rfl
        · rw [if_neg positive, orderApart]
          by_cases above : 0 ≤ i.val
          · have word : (whole i).toWord?.isSome = true := by rw [toWord?, if_pos above]; rfl
            rw [if_pos word]
            exact (Int.compare_eq_gt.mpr (by omega)).symm
          · have wordless : ¬ (whole i).toWord?.isSome = true := by
              rw [toWord?, if_neg above]
              exact Bool.false_ne_true
            rw [if_neg wordless]
            exact (Int.compare_eq_lt.mpr (by omega)).symm

end Number
end RecordFlow
