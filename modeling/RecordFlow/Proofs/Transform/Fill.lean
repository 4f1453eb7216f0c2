import RecordFlow.Proofs.Transform.Writes

/-!
# Filling twice

A fill writes where nothing or null stands, and its target then holds the value. So the same fill
after it finds its target taken, or writes null over null. In a branch beside it, it does not see
the first one; then the same value is written again, which changes nothing either.
-/
namespace RecordFlow

open Value

namespace Output

variable {out mid : Output} {p : Path} {v : Value} {es : List (Path × Value)}

theorem record_write (out : Output) (p : Path) (v : Value) :
    (out.write p v).map Output.record = p.write out.record v := by
  rw [write]
  cases p.write out.record v <;> rfl

theorem resolve_write (h : out.write p v = .ok mid) : p.resolve mid.record = some v :=
  resolve_put (write_eq_ok_iff.mp h).2.1

/-- Writing what the path holds already changes nothing but the log. -/
theorem write_again (h : out.write p v = .ok mid) :
    ∃ last, mid.write p v = .ok last ∧ last.record = mid.record := by
  obtain ⟨nonroot, written, -⟩ := write_eq_ok_iff.mp h
  have same : put v p.segments mid.record = some mid.record := put_of_resolve (resolve_put written)
  exact ⟨⟨mid.record, mid.written ++ [p]⟩, write_eq_ok_iff.mpr ⟨nonroot, same, rfl⟩, rfl⟩

/-- A list of at most one write can be done again, and that changes nothing but the log. -/
theorem writeAll_again (few : es = [] ∨ es = [(p, v)]) (h : out.writeAll es = .ok mid) :
    ∃ last, mid.writeAll es = .ok last ∧ last.record = mid.record := by
  rcases few with rfl | rfl
  · exact ⟨mid, rfl, rfl⟩
  · rw [writeAll_one] at h ⊢
    exact write_again h

end Output

namespace Transform

variable {target : Path} {v : Value} {source snapshot : Record} {out mid branch : Output}

/-- Nothing or null stands at the target. -/
def isVacant (target : Path) (record : Record) : Bool := (target.resolve record).all (·.isNull)

theorem apply_fill (target : Path) (v : Value) (source : Record) (out : Output) :
    (fill target v).apply source out =
      if isVacant target out.record then out.write target v else .ok out := by
  rw [apply, isVacant]
  cases target.resolve out.record with
  | none => rfl
  | some there => cases there <;> rfl

theorem fill_again (h : (fill target v).apply source out = .ok mid) :
    ∃ last, (fill target v).apply source mid = .ok last ∧ last.record = mid.record := by
  rw [apply_fill] at h ⊢
  split at h
  · split
    · exact Output.write_again h
    · exact ⟨mid, rfl, rfl⟩
  · next taken =>
    cases h
    exact ⟨out, if_neg taken, rfl⟩

/-- What a branch that fills has to repeat. -/
theorem results_fill (h : (fill target v).apply source (.start snapshot) = .ok branch) :
    branch.results = [] ∨ branch.results = [(target, v)] := by
  rw [apply_fill] at h
  split at h
  · obtain ⟨-, -, log⟩ := Output.write_eq_ok_iff.mp h
    right
    simp [Output.results, log, Output.start, Output.resolve_write h]
  · cases h
    exact .inl rfl

theorem record_inOrder_fill (target : Path) (v : Value) (source : Record) (out : Output) :
    (applyInOrder source [fill target v, fill target v] out).map Output.record =
      (applyInOrder source [fill target v] out).map Output.record := by
  simp only [applyInOrder]
  cases first : (fill target v).apply source out with
  | error e => rfl
  | ok mid =>
    obtain ⟨last, second, same⟩ := fill_again first
    simp only [second, Except.map, same]

theorem record_branches_fill (target : Path) (v : Value) (source snapshot : Record) (out : Output) :
    (applyBranches source snapshot [fill target v, fill target v] out).map Output.record =
      (applyBranches source snapshot [fill target v] out).map Output.record := by
  simp only [applyBranches]
  cases ran : (fill target v).apply source (.start snapshot) with
  | error e => rfl
  | ok branch =>
    dsimp only
    cases first : out.writeAll branch.results with
    | error e => rfl
    | ok mid =>
      obtain ⟨last, second, same⟩ := Output.writeAll_again (results_fill ran) first
      simp only [second, Except.map, same]

theorem evaluate_eq_map (t : Transform) (source : Record) :
    t.evaluate source = (t.apply source (.start .empty)).map Output.record := by
  rw [evaluate]
  cases t.apply source (.start .empty) <;> rfl

theorem evaluate_sequence_cons (t : Transform) (rest : List Transform) (source : Record) :
    (sequence (t :: rest)).evaluate source =
      (t.apply source (.start .empty)).bind fun out =>
        (applyInOrder source rest out).map Output.record := by
  rw [evaluate_eq_map, apply, applyInOrder]
  cases t.apply source (.start .empty) <;> rfl

theorem applyInOrder_one (t : Transform) (source : Record) (out : Output) :
    applyInOrder source [t] out = t.apply source out := by
  rw [applyInOrder]
  cases t.apply source out <;> rfl

theorem evaluate_fill_after (t : Transform) (target : Path) (v : Value) (source : Record) :
    (sequence [t, fill target v]).evaluate source =
      (t.evaluate source).bind fun record =>
        if isVacant target record then target.write record v else .ok record := by
  rw [evaluate_sequence_cons, evaluate_eq_map]
  cases t.apply source (.start .empty) with
  | error e => rfl
  | ok out =>
    change (applyInOrder source [fill target v] out).map Output.record =
      if isVacant target out.record then target.write out.record v else .ok out.record
    rw [applyInOrder_one, apply_fill]
    split
    · exact Output.record_write out target v
    · rfl

/-- A fill after a transform writes the value at a target where nothing or null stands, and does
nothing otherwise. Done twice it has the outcome of the fill done once: one after the other as well
as in two branches. -/
theorem fill_twice (t : Transform) (target : Path) (v : Value) (source : Record) :
    ((sequence [t, fill target v]).evaluate source =
      (t.evaluate source).bind fun record =>
        if isVacant target record then target.write record v else .ok record) ∧
    (sequence [t, fill target v, fill target v]).evaluate source =
      (sequence [t, fill target v]).evaluate source ∧
    (sequence [t, parallel [fill target v, fill target v]]).evaluate source =
      (sequence [t, parallel [fill target v]]).evaluate source := by
  refine ⟨evaluate_fill_after t target v source, ?_, ?_⟩
  · simp only [evaluate_sequence_cons, record_inOrder_fill]
  · simp only [evaluate_sequence_cons, applyInOrder_one, apply, record_branches_fill]

end Transform
end RecordFlow
