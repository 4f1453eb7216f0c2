import RecordFlow.Filter.Basic
import RecordFlow.Proofs.Value.Reordered

/-!
# Filters do not see the order of entries

Every relation gives the same answer on reorderings of its operands, and so does every filter on
reorderings of a record, also when its literals are reordered.
-/
namespace RecordFlow

open Value (Reordered)

namespace Operand

/-- The same operand but for the order of entries in a literal. -/
inductive Reordered : Operand → Operand → Prop
  | path (p : Path) : Reordered (path p) (path p)
  | literal {v w : Value} (same : v.Reordered w) : Reordered (literal v) (literal w)

theorem Reordered.resolve {a b : Operand} (h : a.Reordered b) {r s : Record}
    (records : r.Reordered s) : Option.Rel Value.Reordered (a.resolve r) (b.resolve s) := by
  cases h with
  | path p => exact records.resolve p.segments
  | literal same => exact .some same

end Operand

namespace Relation

variable {a b x y : Option Value}

theorem equal_reordered (left : Option.Rel Reordered a b) (right : Option.Rel Reordered x y) :
    equal a x = equal b y := by
  cases left with
  | none => cases right <;> rfl
  | some v =>
    cases right with
    | none => rfl
    | some w => exact Value.agree_reordered _ v w

theorem order_reordered (left : Option.Rel Reordered a b) (right : Option.Rel Reordered x y) :
    order a x = order b y := by
  cases left with
  | none => rfl
  | some v =>
    cases right with
    | none => cases v <;> rfl
    | some w => cases v <;> cases w <;> rfl

theorem any_equals_reordered {items others : List Value} {v w : Value}
    (same : Value.ReorderedItems items others) (part : v.Reordered w) :
    (items.any fun item => item.equals v) = others.any fun item => item.equals w := by
  induction items generalizing others with
  | nil => cases same with | noItems => rfl
  | cons item items ih =>
    cases same with
    | item first rest =>
      have here : item.equals v = Value.equals _ w := Value.agree_reordered _ first part
      rw [List.any_cons, List.any_cons, here, ih rest]

theorem contains_reordered {fields others : Fields}
    (h : (Value.object fields).Reordered (.object others)) (key : String) :
    fields.contains key = others.contains key := by
  have found := h.get? key
  rw [Fields.contains, Fields.contains]
  generalize fields.get? key = v at found ⊢
  generalize others.get? key = w at found ⊢
  cases found <;> rfl

theorem holds_reordered (left : Option.Rel Reordered a b) (right : Option.Rel Reordered x y) :
    holds a x = holds b y := by
  cases left with
  | none => rfl
  | some v =>
    cases right with
    | none => cases v <;> rfl
    | some w =>
      cases v with
      | array same => exact any_equals_reordered same w
      | object distinct moves same =>
        have mappings := Value.Reordered.object distinct moves same
        cases w with
        | string key => exact contains_reordered mappings key
        | _ => rfl
      | _ => cases w <;> rfl

theorem test_reordered (relation : Relation) (left : Option.Rel Reordered a b)
    (right : Option.Rel Reordered x y) : relation.test a x = relation.test b y := by
  cases relation with
  | eq => exact equal_reordered left right
  | neq => exact congrArg not (equal_reordered left right)
  | contains => exact holds_reordered left right
  | _ => rw [test, test, order_reordered left right]

end Relation

namespace Filter

mutual

/-- The same filter but for the order of entries in its literals. -/
inductive Reordered : Filter → Filter → Prop
  | constant (b : Bool) : Reordered (constant b) (constant b)
  | relation (r : Relation) {a b c d : Operand} (left : a.Reordered c) (right : b.Reordered d) :
      Reordered (relation r a b) (relation r c d)
  | present {a b : Operand} (operand : a.Reordered b) : Reordered (present a) (present b)
  | negation {f g : Filter} (inner : Reordered f g) : Reordered (negation f) (negation g)
  | all {fs gs : List Filter} (parts : ReorderedParts fs gs) : Reordered (all fs) (all gs)
  | any {fs gs : List Filter} (parts : ReorderedParts fs gs) : Reordered (any fs) (any gs)

inductive ReorderedParts : List Filter → List Filter → Prop
  | noParts : ReorderedParts [] []
  | part {f g : Filter} {fs gs : List Filter} (first : Reordered f g)
      (rest : ReorderedParts fs gs) : ReorderedParts (f :: fs) (g :: gs)

end

/-- A filter gives the same answer for two records that differ in nothing but the order of the
entries of their mappings, even if its literals are reordered as well. -/
theorem evaluate_reordered {f g : Filter} (filters : f.Reordered g) {r s : Record}
    (records : r.Reordered s) : f.evaluate r = g.evaluate s := by
  induction filters using Reordered.rec
    (motive_2 := fun fs gs _ => evaluateAll r fs = evaluateAll s gs ∧
      evaluateAny r fs = evaluateAny s gs) with
  | constant b => rfl
  | relation relation left right =>
    rw [evaluate, evaluate]
    exact relation.test_reordered (left.resolve records) (right.resolve records)
  | present operand =>
    have found := operand.resolve records
    rw [evaluate, evaluate]
    generalize Operand.resolve r _ = v at found ⊢
    generalize Operand.resolve s _ = w at found ⊢
    cases found with
    | none => rfl
    | some same => cases same <;> rfl
  | negation inner ih => rw [evaluate, evaluate, ih]
  | all parts ih => rw [evaluate, evaluate, ih.1]
  | any parts ih => rw [evaluate, evaluate, ih.2]
  | noParts => exact ⟨rfl, rfl⟩
  | part first rest ih later =>
    constructor
    · rw [evaluateAll, evaluateAll, ih, later.1]
    · rw [evaluateAny, evaluateAny, ih, later.2]

/-- A mapping inside a sequence of the record and one in the literal, both with their entries the
other way round. -/
theorem evaluate_reordered_inside :
    let part : Value := .object [("p", .null), ("q", .bool true)]
    let turned : Value := .object [("q", .bool true), ("p", .null)]
    let kept : Value := .array [.object [("p", .string "a")], .bool false]
    let r : Record := .object [("k", kept), ("a", .array [.null, part])]
    let s : Record := .object [("a", .array [.null, turned]), ("k", kept)]
    let f := all [relation .contains (.path ⟨[.field "a"]⟩) (.literal turned),
      negation (relation .eq (.path ⟨[.field "a", .index 1]⟩) (.path ⟨[.field "a"]⟩))]
    let g := all [relation .contains (.path ⟨[.field "a"]⟩) (.literal part),
      negation (relation .eq (.path ⟨[.field "a", .index 1]⟩) (.path ⟨[.field "a"]⟩))]
    f.Reordered g ∧ r.Reordered s ∧ f.evaluate r = g.evaluate s := by
  intro part turned kept r s f g
  have partTurned : part.Reordered turned :=
    .object (by decide) (.swap _ _ _) (.entry _ (.bool true) (.entry _ .null .noEntries))
  have turnedPart : turned.Reordered part :=
    .object (by decide) (.swap _ _ _) (.entry _ .null (.entry _ (.bool true) .noEntries))
  have filters : f.Reordered g :=
    .all (.part (.relation _ (.path _) (.literal turnedPart))
      (.part (.negation (.relation _ (.path _) (.path _))) .noParts))
  have records : r.Reordered s :=
    .object (by decide) (.swap _ _ _)
      (.entry _ (.array (.item .null (.item partTurned .noItems)))
        (.entry _ (.refl kept (by decide)) .noEntries))
  exact ⟨filters, records, evaluate_reordered filters records⟩

end Filter
end RecordFlow
