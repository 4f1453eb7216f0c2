import RecordFlow.Proofs.Filter.Spelling

/-!
# Filters in their declarative form

Every filter can be written down: its tagged array is read back as the same filter. A path operand
survives as the list of its segments, whatever its keys are, and a literal under the key `value`,
whatever it looks like itself.
-/
namespace RecordFlow

namespace Operand

theorem spelling_toValue (a : Operand) : Spelling a.toValue a := by
  cases a with
  | literal v => exact .wrapped v
  | path p => exact .path (.list _) (.list p.segments)

end Operand

namespace Filter

theorem spelling_toValue (f : Filter) : Spelling f.toValue f := by
  induction f using Filter.rec
    (motive_2 := fun parts => List.Forall₂ Spelling (toValues parts) parts) with
  | constant b =>
    cases b with
    | true => exact .yes
    | false => exact .no
  | relation r left right => exact .relation r left.spelling_toValue right.spelling_toValue
  | present operand => exact .present operand.spelling_toValue
  | negation inner ih => exact .negation ih
  | all parts ih => exact .all ih
  | any parts ih => exact .any ih
  | nil => exact .nil
  | cons f rest ih later => exact .cons ih later

theorem ofValue_toValue (f : Filter) : ofValue f.toValue = .ok f :=
  ofValue_of_spelling f.spelling_toValue

/-- Every filter is written as an array that begins with its tag, and reading that array gives
exactly this filter. -/
theorem tagged_round_trip (f : Filter) :
    (∃ operands, f.toValue = .array (.string f.tag :: operands)) ∧ ofValue f.toValue = .ok f := by
  refine ⟨?_, ofValue_toValue f⟩
  cases f with
  | constant b => exact ⟨[], rfl⟩
  | relation r left right => exact ⟨[left.toValue, right.toValue], rfl⟩
  | present operand => exact ⟨[operand.toValue], rfl⟩
  | negation inner => exact ⟨[inner.toValue], rfl⟩
  | all parts => exact ⟨toValues parts, rfl⟩
  | any parts => exact ⟨toValues parts, rfl⟩

/-- A literal that looks like a declared path is wrapped and stays a literal. -/
example : (relation .eq (.path .root) (.literal (.object [("path", .string "a.b")]))).toValue =
    .array [.string "eq", .array [], .object [("value", .object [("path", .string "a.b")])]] := rfl

end Filter
end RecordFlow
