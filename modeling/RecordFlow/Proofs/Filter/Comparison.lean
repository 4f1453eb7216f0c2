import Mathlib.Logic.ExistsUnique
import RecordFlow.Filter.Basic
import RecordFlow.Proofs.Number.Order

/-!
# Comparisons agree with each other

On two numbers and on two texts the order is total and equality is its middle. Any other pair has no
order. The order is transitive throughout.
-/
namespace RecordFlow

namespace Relation

/-- The pairs that have an order: two numbers or two texts. -/
inductive Comparable : Option Value → Option Value → Prop
  | numbers (m n : Number) : Comparable (some (.number m)) (some (.number n))
  | texts (s t : String) : Comparable (some (.string s)) (some (.string t))

/-! ## Texts -/

theorem compareTexts_lt {s t : String} : compareOfLessAndEq s t = .lt ↔ s < t :=
  compareOfLessAndEq_eq_lt

theorem compareTexts_eq {s t : String} : compareOfLessAndEq s t = .eq ↔ s = t :=
  compareOfLessAndEq_eq_eq String.le_refl String.not_le

theorem compareTexts_swap (s t : String) :
    (compareOfLessAndEq s t).swap = compareOfLessAndEq t s :=
  (compareOfLessAndEq_eq_swap String.le_antisymm String.le_total String.not_le).symm

/-! ## The order -/

variable {a b c : Option Value}

theorem order_of_not_comparable (h : ¬ Comparable a b) : order a b = none := by
  cases a with
  | none => rfl
  | some v =>
    cases b with
    | none => cases v <;> rfl
    | some w =>
      cases v with
      | number m =>
        cases w with
        | number n => exact absurd (.numbers m n) h
        | _ => rfl
      | string s =>
        cases w with
        | string t => exact absurd (.texts s t) h
        | _ => rfl
      | _ => rfl

theorem comparable_of_order {o : Ordering} (h : order a b = some o) : Comparable a b := by
  by_cases comparable : Comparable a b
  · exact comparable
  · rw [order_of_not_comparable comparable] at h
    cases h

theorem Comparable.exists_order (h : Comparable a b) : ∃ o, order a b = some o := by
  cases h with
  | numbers m n => exact ⟨_, rfl⟩
  | texts s t => exact ⟨_, rfl⟩

theorem Comparable.symm (h : Comparable a b) : Comparable b a := by
  cases h with
  | numbers m n => exact .numbers n m
  | texts s t => exact .texts t s

theorem order_swap (a b : Option Value) : (order a b).map Ordering.swap = order b a := by
  by_cases h : Comparable a b
  · cases h with
    | numbers m n => exact congrArg some (Number.compare_swap m n)
    | texts s t => exact congrArg some (compareTexts_swap s t)
  · rw [order_of_not_comparable h, order_of_not_comparable fun turned => h turned.symm]
    rfl

theorem order_trans (first : order a b = some .lt) (second : order b c = some .lt) :
    order a c = some .lt := by
  cases comparable_of_order first with
  | numbers m n =>
    cases comparable_of_order second with
    | numbers n k =>
      have here := Option.some.inj first
      have there := Option.some.inj second
      exact congrArg some (Number.compare_trans here there)
  | texts s t =>
    cases comparable_of_order second with
    | texts t u =>
      have here := compareTexts_lt.mp (Option.some.inj first)
      have there := compareTexts_lt.mp (Option.some.inj second)
      exact congrArg some (compareTexts_lt.mpr (String.lt_trans here there))

/-- Equality is the middle of the order. -/
theorem Comparable.equal_eq (h : Comparable a b) : equal a b = (order a b == some .eq) := by
  cases h with
  | numbers m n => rfl
  | texts s t =>
    rw [Bool.eq_iff_iff, beq_iff_eq, order, Option.some_inj, compareTexts_eq]
    exact beq_iff_eq

/-! ## The relations -/

theorem test_lt_swap (a b : Option Value) : test lt a b = test gt b a := by
  rw [test, test, ← order_swap a b]
  cases order a b with
  | none => rfl
  | some o => cases o <;> rfl

theorem test_trans (first : test lt a b = true) (second : test lt b c = true) :
    test lt a c = true :=
  beq_iff_eq.mpr (order_trans (beq_iff_eq.mp first) (beq_iff_eq.mp second))

theorem test_of_not_comparable (h : ¬ Comparable a b) (r : Relation)
    (ordering : r ∈ [lt, lte, gt, gte]) : test r a b = false := by
  simp only [List.mem_cons, List.not_mem_nil, or_false] at ordering
  rcases ordering with rfl | rfl | rfl | rfl <;> rw [test, order_of_not_comparable h] <;> rfl

/-- The relation of two operands that stand in the given order. -/
def ofOrdering : Ordering → Relation
  | .lt => lt
  | .eq => eq
  | .gt => gt

theorem Comparable.test_ofOrdering (h : Comparable a b) (o : Ordering) :
    test (ofOrdering o) a b = true ↔ order a b = some o := by
  cases o with
  | lt => exact beq_iff_eq
  | eq => rw [ofOrdering, test, h.equal_eq, beq_iff_eq]
  | gt => exact beq_iff_eq

theorem Comparable.exists_one (h : Comparable a b) :
    ∃! r, r ∈ [lt, eq, gt] ∧ test r a b = true := by
  obtain ⟨o, place⟩ := h.exists_order
  refine ⟨ofOrdering o, ⟨by cases o <;> decide, (h.test_ofOrdering o).mpr place⟩, ?_⟩
  rintro r ⟨member, holds⟩
  obtain ⟨other, rfl⟩ : ∃ other, r = ofOrdering other := by
    simp only [List.mem_cons, List.not_mem_nil, or_false] at member
    rcases member with rfl | rfl | rfl
    · exact ⟨.lt, rfl⟩
    · exact ⟨.eq, rfl⟩
    · exact ⟨.gt, rfl⟩
  have place' := (h.test_ofOrdering other).mp holds
  cases place.symm.trans place'
  rfl

theorem Comparable.test_gte (h : Comparable a b) :
    test gte a b = (test gt a b || test eq a b) := by
  rw [test, test, test, h.equal_eq]

theorem Comparable.test_lte (h : Comparable a b) :
    test lte a b = (test lt a b || test eq a b) := by
  rw [test, test, test, h.equal_eq]

end Relation

namespace Filter

/-- Two numbers or two texts are in exactly one of the three relations less, equal and greater, and
the other two comparisons follow from these. Turned round, less is greater. No other pair is
ordered. Less is transitive, for numbers of either kind and for texts. Numbers stand as they do in
the first form that both have, and the lesser one has the lesser value. -/
theorem comparisons_cohere (record : Record) (a b : Operand) :
    (Relation.Comparable (a.resolve record) (b.resolve record) →
      (∃! r, r ∈ [Relation.lt, .eq, .gt] ∧ evaluate record (relation r a b) = true) ∧
      evaluate record (relation .gte a b) =
        (evaluate record (relation .gt a b) || evaluate record (relation .eq a b)) ∧
      evaluate record (relation .lte a b) =
        (evaluate record (relation .lt a b) || evaluate record (relation .eq a b))) ∧
    evaluate record (relation .lt a b) = evaluate record (relation .gt b a) ∧
    (¬ Relation.Comparable (a.resolve record) (b.resolve record) →
      ∀ r ∈ [Relation.lt, .lte, .gt, .gte], evaluate record (relation r a b) = false) ∧
    (∀ c, evaluate record (relation .lt a b) = true → evaluate record (relation .lt b c) = true →
      evaluate record (relation .lt a c) = true) ∧
    (∀ m n, a.resolve record = some (.number m) → b.resolve record = some (.number n) →
      evaluate record (relation .eq a b) = m.equalInForm n ∧
      evaluate record (relation .lt a b) = (m.orderInForm n == .lt) ∧
      (evaluate record (relation .lt a b) = true → m.units < n.units)) := by
  have meaning (r : Relation) (x y : Operand) :
      evaluate record (relation r x y) = r.test (x.resolve record) (y.resolve record) := by
    rw [evaluate]
  simp only [meaning]
  refine ⟨fun comparable => ⟨comparable.exists_one, comparable.test_gte, comparable.test_lte⟩,
    Relation.test_lt_swap _ _, Relation.test_of_not_comparable,
    fun c first second => Relation.test_trans first second, ?_⟩
  intro m n left right
  rw [left, right, Number.equalInForm_eq, Number.orderInForm_eq]
  refine ⟨rfl, rfl, fun less => ?_⟩
  exact Number.units_lt_of_lt (Option.some.inj (beq_iff_eq.mp less))

/-- Two neighbours above `2 ^ 53`, which are rounded to the same number, and a binary64 number above
both; a text has no order with any of them. -/
theorem comparisons_cohere_neighbours :
    let low : Number := .whole ⟨9007199254740992, by decide⟩
    let next : Number := .whole ⟨9007199254740993, by decide⟩
    let high : Number := .float (Whole.toBinary64 ⟨9007199254740994, by decide⟩)
    let record : Record := .object [("x", .number low), ("y", .number next), ("z", .number high)]
    let x : Operand := .path ⟨[.field "x"]⟩
    let y : Operand := .path ⟨[.field "y"]⟩
    let z : Operand := .path ⟨[.field "z"]⟩
    let text : Operand := .literal (.string "1")
    (Relation.Comparable (x.resolve record) (y.resolve record) ∧
      ∃! r, r ∈ [Relation.lt, .eq, .gt] ∧ evaluate record (relation r x y) = true) ∧
    (evaluate record (relation .lt x y) = true ∧ evaluate record (relation .lt y z) = true ∧
      evaluate record (relation .lt x z) = true) ∧
    (x.resolve record = some (.number low) ∧ y.resolve record = some (.number next) ∧
      low.units < next.units) ∧
    ¬ Relation.Comparable (x.resolve record) (text.resolve record) ∧
      evaluate record (relation .lte x text) = false := by
  intro low next high record x y z text
  have comparable : Relation.Comparable (x.resolve record) (y.resolve record) := .numbers _ _
  have apart : ¬ Relation.Comparable (x.resolve record) (text.resolve record) := nofun
  have first : evaluate record (relation .lt x y) = true := by decide +kernel
  have second : evaluate record (relation .lt y z) = true := by decide +kernel
  obtain ⟨ordered, -, -, chained, numbers⟩ := comparisons_cohere record x y
  obtain ⟨-, -, unordered, -⟩ := comparisons_cohere record x text
  exact ⟨⟨comparable, (ordered comparable).1⟩, ⟨first, second, chained z first second⟩,
    ⟨rfl, rfl, (numbers low next rfl rfl).2.2 first⟩, apart, unordered apart .lte (by decide)⟩

end Filter
end RecordFlow
