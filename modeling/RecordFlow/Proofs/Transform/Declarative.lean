import RecordFlow.Proofs.Transform.Spelling
import RecordFlow.Proofs.Transform.Writes

/-!
# Transforms in their declarative form

A transform that names at least one source wherever sources are listed, and only functions of the
registry, can be written down and is read back from what was written. Each parallel inside it that
has children may be written with its tag or as the bare list of its children, whatever was chosen
for the others.
-/
namespace RecordFlow

namespace Transform

mutual

/-- Every join and combine has a source, and every custom function is the registry's function of
its name. -/
def Declarable (registry : Registry) : Transform → Prop
  | join _ _ sources => sources ≠ []
  | combine _ sources => sources ≠ []
  | custom _ function => registry.find? function.name = some function
  | parallel children => AllDeclarable registry children
  | sequence children => AllDeclarable registry children
  | _ => True

def AllDeclarable (registry : Registry) : List Transform → Prop
  | [] => True
  | t :: rest => Declarable registry t ∧ AllDeclarable registry rest

end

mutual

/-- The ways to write a transform down. The tag of a parallel may be left out if a child is
there. -/
inductive Form : Transform → Value → Prop
  | leaf {t : Transform} : t.isLeaf = true → Form t t.toValue
  | tagged {children : List Transform} {parts : List Value} : Forms children parts →
      Form (parallel children) (.array (.string "parallel" :: parts))
  | bare {children : List Transform} {parts : List Value} : Forms children parts →
      children ≠ [] → Form (parallel children) (.array parts)
  | inOrder {children : List Transform} {parts : List Value} : Forms children parts →
      Form (sequence children) (.array (.string "sequence" :: parts))

inductive Forms : List Transform → List Value → Prop
  | nil : Forms [] []
  | cons {t : Transform} {v : Value} {rest : List Transform} {parts : List Value} : Form t v →
      Forms rest parts → Forms (t :: rest) (v :: parts)

end

theorem form_toValue (t : Transform) : Form t t.toValue := by
  induction t using Transform.rec (motive_2 := fun ts => Forms ts (toValues ts)) with
  | parallel children ih => exact .tagged ih
  | sequence children ih => exact .inOrder ih
  | nil => exact .nil
  | cons t rest ih later => exact .cons ih later
  | _ => exact .leaf rfl

theorem forms_toValues (ts : List Transform) : Forms ts (toValues ts) := by
  induction ts with
  | nil => exact .nil
  | cons t rest ih => exact .cons t.form_toValue ih

theorem toValue_eq_tagged (t : Transform) :
    ∃ operands, t.toValue = .array (.string t.tag :: operands) := by
  cases t <;> exact ⟨_, rfl⟩

theorem Form.isArray {t : Transform} {v : Value} (h : Form t v) : ∃ items, v = .array items := by
  cases h with
  | leaf _ =>
    obtain ⟨operands, text⟩ := t.toValue_eq_tagged
    exact ⟨_, text⟩
  | tagged _ | bare _ _ | inOrder _ => exact ⟨_, rfl⟩

/-! ## Reading a form -/

variable {registry : Registry}

theorem spelling_toValues (ps : List Path) :
    List.Forall₂ Path.Spelling (ps.map Path.toValue) ps := by
  induction ps with
  | nil => exact .nil
  | cons p ps ih => exact .cons (.list p.segments) ih

theorem spelling_leaf {t : Transform} (leaf : t.isLeaf = true) (h : t.Declarable registry) :
    Spelling registry t.toValue t := by
  cases t with
  | copy target source => exact .copy (.list _) (.list _)
  | constant target v => exact .constant v (.list _)
  | fill target v => exact .fill v (.list _)
  | join target joiner sources => exact .join joiner (.list _) (spelling_toValues sources) h
  | split target splitter source => exact .split splitter (.list _) (.list _)
  | combine target sources => exact .combine (.list _) (spelling_toValues sources) h
  | custom target function => exact .custom (.list _) (Registry.find?_eq_some_iff.mp h).2
  | parallel _ => cases leaf
  | sequence _ => cases leaf

/-- A bare list of forms is never taken for a tagged array, since no form is a text. -/
theorem Form.spelling {t : Transform} {v : Value} (form : Form t v) :
    t.Declarable registry → Spelling registry v t := by
  induction form using Form.rec
    (motive_2 := fun ts vs _ => AllDeclarable registry ts →
      List.Forall₂ (Spelling registry) vs ts) with
  | leaf isLeaf => exact spelling_leaf isLeaf
  | tagged _ ih =>
    intro declarable
    exact .parallel (ih declarable)
  | bare forms some_child ih =>
    intro declarable
    cases forms with
    | nil => exact absurd rfl some_child
    | cons first _ =>
      obtain ⟨items, rfl⟩ := first.isArray
      exact .bare (ih declarable)
  | inOrder _ ih =>
    intro declarable
    exact .sequence (ih declarable)
  | nil => exact .nil
  | cons _ _ ih later declarable => exact .cons (ih declarable.1) (later declarable.2)

theorem ofValue_form {t : Transform} {v : Value} (form : Form t v) (h : t.Declarable registry) :
    ofValue registry v = .ok t :=
  ofValue_of_spelling (form.spelling h)

/-- A transform is written as an array that begins with its tag. It is read back from this array,
and as well from any other form of it: wherever a parallel has children, the bare list of them does
in place of the tagged array. -/
theorem forms_round_trip (registry : Registry) (t : Transform) (h : t.Declarable registry) :
    (∃ operands, t.toValue = .array (.string t.tag :: operands)) ∧
    ofValue registry t.toValue = .ok t ∧
    (∀ children, t = parallel children → children ≠ [] →
      ofValue registry (.array (toValues children)) = .ok t) ∧
    ∀ v, Form t v → ofValue registry v = .ok t := by
  refine ⟨t.toValue_eq_tagged, ofValue_form t.form_toValue h, ?_, ?_⟩
  · rintro children rfl some_child
    exact ofValue_form (.bare (forms_toValues children) some_child) h
  · intro v form
    exact ofValue_form form h

/-- A bare list whose first child is a bare list itself, beside a sequence that holds one; a joiner
that is a tag, and a key that no dotted text can name. -/
theorem forms_round_trip_nested :
    let size : Function := ⟨"size", fun _ => .ok .null⟩
    let registry := (Registry.empty.register "other" fun _ => .ok (.bool true)).register
      size.name size.run
    let inner := parallel [custom ⟨[.field "n"]⟩ size]
    let joined := join ⟨[.field "a.b", .index 0]⟩ "parallel" [.root]
    let t := parallel [inner, sequence [joined, parallel []]]
    t.Declarable registry ∧ ofValue registry (.array [
      .array [.array [.string "custom", .array [.string "n"], .string "size"]],
      .array [.string "sequence", joined.toValue, .array [.string "parallel"]]]) = .ok t := by
  intro size registry inner joined t
  have known : registry.find? size.name = some size := rfl
  have declarable : t.Declarable registry :=
    ⟨⟨known, trivial⟩, ⟨List.cons_ne_nil _ _, trivial, trivial⟩, trivial⟩
  have innerForm : Form inner (.array [(custom ⟨[.field "n"]⟩ size).toValue]) :=
    .bare (.cons (.leaf rfl) .nil) (List.cons_ne_nil _ _)
  have laterForm : Form (sequence [joined, parallel []]) (.array [.string "sequence",
      joined.toValue, .array [.string "parallel"]]) :=
    .inOrder (.cons (.leaf rfl) (.cons (.tagged .nil) .nil))
  have form : Form t _ :=
    .bare (.cons innerForm (.cons laterForm .nil)) (List.cons_ne_nil _ _)
  exact ⟨declarable, (forms_round_trip registry t declarable).2.2.2 _ form⟩

end Transform
end RecordFlow
