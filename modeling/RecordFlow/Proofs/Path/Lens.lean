import RecordFlow.Proofs.Path.Write

/-!
# Reading and writing as a lens

What is written at a path is read there, the last write at a path decides, and writing back what was
read changes nothing. Beside the path a write touches nothing that it does not have to remove: where
the written path has a key and another path a position, or the other way round, that other path is
gone. The mappings on the way keep their keys in order.
-/
namespace RecordFlow

namespace Value

variable {front rest : List Segment} {s : Segment} {v w new : Value} {fields : Fields}

/-- Only a key is written in a mapping, and it is put where it stands or at the end. -/
theorem put_object (h : put new (s :: rest) (.object fields) = some w) :
    ∃ key inner, s = .field key ∧ w = .object (fields.insert key inner) := by
  obtain ⟨x, inner, found, -, rfl⟩ := put_cons_eq_some h
  cases s with
  | field key => exact ⟨key, inner, rfl, rfl⟩
  | index i => cases found

/-- A mapping above the written place stays a mapping, with the next key of the path put in it. -/
theorem resolve_put_object (h : put new (front ++ s :: rest) v = some w)
    (there : v.resolve front = some (.object fields)) :
    ∃ key inner, s = .field key ∧ w.resolve front = some (.object (fields.insert key inner)) := by
  obtain ⟨y, written, after⟩ := resolve_put_of_prefix h there
  obtain ⟨key, inner, same, rfl⟩ := put_object written
  exact ⟨key, inner, same, after⟩

end Value

namespace Path

variable {p : Path} {v w new : Value}

theorem resolve_write (h : p.write v new = .ok w) : p.resolve w = some new :=
  Value.resolve_put (write_eq_ok_iff.mp h).2

/-- A path that was written once can be written again, with the outcome of writing it only then. -/
theorem write_write (h : p.write v new = .ok w) (other : Value) :
    ∃ z, p.write w other = .ok z ∧ p.write v other = .ok z := by
  obtain ⟨nonroot, written⟩ := write_eq_ok_iff.mp h
  have there : (Value.put other p.segments v).isSome :=
    (Value.isSome_put_iff other).mpr (Value.hasPositions_of_put written)
  obtain ⟨z, again⟩ := Option.isSome_iff_exists.mp there
  refine ⟨z, ?_, write_eq_ok_iff.mpr ⟨nonroot, again⟩⟩
  apply write_eq_ok_iff.mpr
  constructor
  · exact nonroot
  · rw [Value.put_put written, again]

theorem write_resolve (nonroot : p ≠ root) (h : p.resolve v = some new) :
    p.write v new = .ok v := by
  apply write_eq_ok_iff.mpr
  constructor
  · intro empty
    exact nonroot (congrArg Path.mk empty)
  · exact Value.put_of_resolve h

/-- After a write the path holds what was written, and a second write there has the outcome it would
have had without the first. Writing what the path already holds gives the same value, the order of
its keys included. -/
theorem write_lens (p : Path) (v : Value) :
    (∀ new w, p.write v new = .ok w → p.resolve w = some new ∧
      ∀ other, ∃ z, p.write w other = .ok z ∧ p.write v other = .ok z) ∧
    (p ≠ root → ∀ there, p.resolve v = some there → p.write v there = .ok v) := by
  constructor
  · intro new w written
    exact ⟨resolve_write written, write_write written⟩
  · intro nonroot there found
    exact write_resolve nonroot found

/-- A position inside a sequence, and below it a key that is made on the way. -/
theorem write_lens_new_key :
    let p : Path := ⟨[.field "a", .index 1, .field "b", .field "c"]⟩
    let v : Value := .object [("x", .null), ("a", .array [.bool true, .object []]), ("y", .null)]
    let w : Value := .object [("x", .null), ("a", .array [.bool true,
      .object [("b", .object [("c", .bool false)])]]), ("y", .null)]
    p ≠ root ∧ p.write v (.bool false) = .ok w ∧ p.resolve w = some (.bool false) ∧
      (∃ z, p.write w .null = .ok z ∧ p.write v .null = .ok z) ∧
      p.write w (.bool false) = .ok w := by
  intro p v w
  have nonroot : p ≠ root := by decide
  have written : p.write v (.bool false) = .ok w := rfl
  obtain ⟨read, again⟩ := (write_lens p v).1 (.bool false) w written
  exact ⟨nonroot, written, read, again .null, (write_lens p w).2 nonroot (.bool false) read⟩

/-- What a write does beside its path. A path that differs from it first in a key or first in a
position reads as before; one that has a position where the other has a key is gone. Every mapping
on the way down keeps its keys in order, with at most the next key of the path added at the end. -/
theorem write_frame (h : p.write v new = .ok w) :
    (∀ q : Path, ¬ p.segments <+: q.segments → ¬ q.segments <+: p.segments →
      (Segments.Apart p.segments q.segments → q.resolve w = q.resolve v) ∧
      (¬ Segments.Apart p.segments q.segments → q.resolve w = none)) ∧
    ∀ (front : Path) (s : Segment) (rest : List Segment) (fields : Fields),
      p.segments = front.segments ++ s :: rest → front.resolve v = some (.object fields) →
      ∃ key fields', s = .field key ∧ front.resolve w = some (.object fields') ∧
        (Fields.keys fields' = fields.keys ∨
          key ∉ fields.keys ∧ Fields.keys fields' = fields.keys ++ [key]) := by
  obtain ⟨-, written⟩ := write_eq_ok_iff.mp h
  constructor
  · intro q notBelow notAbove
    refine ⟨Value.resolve_put_of_apart written, fun notApart => ?_⟩
    rcases Segments.prefix_or_apart_or_clash p.segments q.segments with
      below | above | apart | clash
    · exact absurd below notBelow
    · exact absurd above notAbove
    · exact absurd apart notApart
    · exact Value.resolve_put_of_clash written clash
  · intro front s rest fields split there
    obtain ⟨key, inner, same, after⟩ := Value.resolve_put_object (split ▸ written) there
    refine ⟨key, fields.insert key inner, same, after, ?_⟩
    rw [Fields.keys_insert]
    by_cases known : key ∈ fields.keys
    · exact .inl (if_pos known)
    · exact .inr ⟨known, if_neg known⟩

/-- A key written over a sequence: the sequence and what was in it are gone, the keys beside it stay
in order, and the new key comes last in the mapping that is made. -/
theorem write_frame_over_sequence :
    let p : Path := ⟨[.field "a", .field "b"]⟩
    let v : Value := .object [("x", .null), ("a", .array [.bool true]), ("y", .bool false)]
    let w : Value := .object [("x", .null), ("a", .object [("b", .string "new")]),
      ("y", .bool false)]
    let beside : Path := ⟨[.field "y"]⟩
    let inside : Path := ⟨[.field "a", .index 0]⟩
    p.write v (.string "new") = .ok w ∧
      beside.resolve w = beside.resolve v ∧
      inside.resolve v = some (.bool true) ∧ inside.resolve w = none ∧
      ∃ key fields', Segment.field "a" = .field key ∧ root.resolve w = some (.object fields') ∧
        (Fields.keys fields' = ["x", "a", "y"] ∨
          key ∉ ["x", "a", "y"] ∧ Fields.keys fields' = ["x", "a", "y"] ++ [key]) := by
  intro p v w beside inside
  have written : p.write v (.string "new") = .ok w := rfl
  obtain ⟨others, mappings⟩ := write_frame written
  have apart : Segments.Apart p.segments beside.segments := .here _ _ (by decide) rfl
  have clash : Segments.Clash p.segments inside.segments := .there _ (.here _ _ (by decide))
  refine ⟨written, ?_, rfl, ?_, ?_⟩
  · exact (others beside (by decide) (by decide)).1 apart
  · exact (others inside (by decide) (by decide)).2 fun apart => apart.not_clash clash
  · exact mappings root (.field "a") [.field "b"] _ rfl rfl

end Path
end RecordFlow
