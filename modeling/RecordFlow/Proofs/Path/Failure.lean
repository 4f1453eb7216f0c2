import RecordFlow.Proofs.Path.Write

/-!
# Writes that fail

A write walks down a value that it changes on the way, and yet the value before the write tells
whether it fails: it does where the path names a position that the value does not have, and at the
root. Up to the first such position everything is done as in a write that succeeds, so what is left
is the value itself, or the value with an empty mapping where that position was looked for.
-/
namespace RecordFlow

namespace Value

variable {front p q : List Segment} {v x new : Value} {i : UInt64}

/-- A sequence stands at the path, and it has the position. -/
def Reaches (v : Value) (front : List Segment) (i : UInt64) : Prop :=
  ∃ items, v.resolve front = some (.array items) ∧ i.toNat < items.length

/-- Behind `front` the path names a position that the value does not have; it has every position
that the path names before. -/
structure StopsAfter (v : Value) (front p : List Segment) : Prop where
  followed : ∀ before i behind, front = before ++ .index i :: behind → v.Reaches before i
  missing : ∃ i behind, p = front ++ .index i :: behind ∧ ¬ v.Reaches front i

theorem hasPositions_iff_reaches :
    v.HasPositions p ↔
      ∀ before i behind, p = before ++ .index i :: behind → v.Reaches before i := by
  constructor
  · intro there before i behind split
    exact (resolve_concat_index v before i).mp (there before i behind split)
  · intro there before i behind split
    exact (resolve_concat_index v before i).mpr (there before i behind split)

theorem not_hasPositions_iff :
    ¬ v.HasPositions p ↔
      ∃ front i behind, p = front ++ .index i :: behind ∧ ¬ v.Reaches front i := by
  rw [hasPositions_iff_reaches]
  simp only [Classical.not_forall, exists_prop]

theorem reaches_cons {s : Segment} (found : inside s v = some x) :
    v.Reaches (s :: front) i ↔ x.Reaches front i := by
  have below : front ++ [.index i] ≠ [] := List.concat_ne_nil _ front
  rw [Reaches, Reaches, ← resolve_concat_index, ← resolve_concat_index, List.cons_append,
    resolve_inside found below]

theorem inside_index_eq_none_iff : inside (.index i) v = none ↔ ¬ v.Reaches [] i := by
  rw [Reaches, ← resolve_concat_index, List.nil_append, resolve]
  change v.step? (.index i) = none ↔ _
  cases v.step? (.index i) with
  | none => simp
  | some x => simp [resolve]

/-- A path that cannot be followed stops somewhere for the first time. -/
theorem exists_stopsAfter (h : ¬ v.HasPositions p) : ∃ front, v.StopsAfter front p := by
  induction p generalizing v with
  | nil => exact absurd (hasPositions_nil v) h
  | cons s p ih =>
    cases found : inside s v with
    | some x =>
      obtain ⟨front, followed, i, behind, split, missing⟩ := ih (mt (hasPositions_cons found).mpr h)
      refine ⟨s :: front, ?_, i, behind, ?_, ?_⟩
      · rw [← hasPositions_iff_reaches, hasPositions_cons found, hasPositions_iff_reaches]
        exact followed
      · rw [split, List.cons_append]
      · rw [reaches_cons found]
        exact missing
    | none =>
      cases s with
      | field key => cases found
      | index i =>
        refine ⟨[], ?_, i, p, rfl, inside_index_eq_none_iff.mp found⟩
        exact hasPositions_iff_reaches.mp (hasPositions_nil v)

/-- A longer write goes on from what it finds at the shorter path, and puts back what is left
there, whether the rest succeeds or not. -/
theorem write_append (new : Value) (p : List Segment) (h : opened q v = some x) :
    ∃ left, put (write new p x).1 q v = some left ∧
      write new (q ++ p) v = (left, (write new p x).2) := by
  induction q generalizing v with
  | nil =>
    cases h
    exact ⟨_, rfl, rfl⟩
  | cons s q ih =>
    obtain ⟨y, found, below⟩ := Option.bind_eq_some_iff.mp h
    obtain ⟨left, inner, written⟩ := ih below
    refine ⟨placed s left v, ?_, ?_⟩
    · rw [put_cons, found, Option.bind_some, inner, Option.map_some]
    · rw [List.cons_append, write_cons new (q ++ p) found, written]

/-- Where it stops, a write leaves what stood there, and an empty mapping if nothing did. -/
theorem write_stopsAfter (new : Value) (stops : v.StopsAfter front p) :
    ∃ left fault, write new p v = (left, some fault) ∧
      put ((v.resolve front).getD emptyObject) front v = some left := by
  obtain ⟨followed, i, behind, rfl, missing⟩ := stops
  have here := (hasPositions_iff_reaches.mpr followed).opened
  have short : inside (.index i) ((v.resolve front).getD emptyObject) = none := by
    rw [inside_index_eq_none_iff]
    rintro ⟨items, found, long⟩
    apply missing
    refine ⟨items, ?_, long⟩
    cases there : v.resolve front with
    | none => rw [there] at found; cases found
    | some y => rw [there] at found; exact found
  obtain ⟨fault, failed⟩ := write_missing new behind short
  obtain ⟨left, put_back, written⟩ := write_append new (.index i :: behind) here
  rw [failed] at put_back written
  exact ⟨left, fault, written, put_back⟩

end Value

namespace Path

variable {p : Path} {v new left : Value} {e : Error}

theorem eq_root_iff : p = root ↔ p.segments = [] := by
  constructor
  · rintro rfl
    rfl
  · exact congrArg Path.mk

/-- A write fails at the root, and where the path names a position and no sequence stands before it
in the value that has that position. It fails nowhere else, and every failure is a path error. -/
theorem write_fails_iff (p : Path) (v new : Value) :
    ((∃ e, p.write v new = .error e) ↔
      p = root ∨ ∃ front i behind, p.segments = front ++ .index i :: behind ∧
        ¬ ∃ items, v.resolve front = some (.array items) ∧ i.toNat < items.length) ∧
    ∀ e, p.write v new = .error e → ∃ m, e = .path m := by
  constructor
  · have failed : (∃ e, p.write v new = .error e) ↔ ¬ ∃ w, p.write v new = .ok w := by
      cases p.write v new <;> simp
    have succeeded : (∃ w, p.write v new = .ok w) ↔ p ≠ root ∧ v.HasPositions p.segments := by
      rw [ne_eq, eq_root_iff, ← Value.isSome_put_iff new, Option.isSome_iff_exists]
      simp only [write_eq_ok_iff, exists_and_left, ne_eq]
    rw [failed, succeeded, Classical.not_and_iff_not_or_not, Classical.not_not,
      Value.not_hasPositions_iff]
    rfl
  · intro e
    exact write_error

theorem write_of_writeInto (nonroot : p ≠ root) (failed : p.writeInto v new = (left, .error e)) :
    ∃ fault, Value.write new p.segments v = (left, some fault) := by
  have inside : ¬ p.isRoot = true := by
    intro empty
    exact nonroot (eq_root_iff.mpr (List.isEmpty_iff.mp empty))
  rw [writeInto, if_neg inside] at failed
  split at failed
  · cases failed
  · next left' fault written =>
    cases failed
    exact ⟨fault, written⟩

/-- What a failed write in place leaves. The path stops after `front`, before the first position
that cannot be followed. If the value has something there, nothing has changed; otherwise the value
is as after a write of an empty mapping at `front`. -/
theorem writeInto_failed (nonroot : p ≠ root) (failed : p.writeInto v new = (left, .error e)) :
    (∃ front : Path, v.StopsAfter front.segments p.segments) ∧
    ∀ front : Path, v.StopsAfter front.segments p.segments →
      ((front.resolve v).isSome → left = v) ∧
      (front.resolve v = none → front.write v .emptyObject = .ok left) := by
  obtain ⟨fault, written⟩ := write_of_writeInto nonroot failed
  constructor
  · have unfollowed : ¬ v.HasPositions p.segments := by
      intro followed
      have succeeds := (Value.isSome_put_iff new).mpr followed
      rw [Value.put, written] at succeeds
      cases succeeds
    obtain ⟨front, stops⟩ := Value.exists_stopsAfter unfollowed
    exact ⟨⟨front⟩, stops⟩
  · intro front stops
    obtain ⟨left', fault', written', put_back⟩ := Value.write_stopsAfter new stops
    obtain ⟨rfl, -⟩ := Prod.mk.inj (written.symm.trans written')
    constructor
    · intro there
      obtain ⟨x, found⟩ := Option.isSome_iff_exists.mp there
      rw [show v.resolve front.segments = some x from found, Option.getD_some,
        Value.put_of_resolve found] at put_back
      exact (Option.some.inj put_back).symm
    · intro gone
      apply write_eq_ok_iff.mpr
      constructor
      · intro empty
        rw [resolve, empty] at gone
        cases gone
      · rw [show v.resolve front.segments = none from gone] at put_back
        exact put_back

/-- The position in the first sequence is there. The text in it has given way to a mapping, with one
more inside, when the second position is missed. -/
theorem writeInto_failed_below_text :
    let p : Path := ⟨[.field "x", .index 1, .field "a", .field "b", .index 0, .field "c"]⟩
    let front : Path := ⟨[.field "x", .index 1, .field "a", .field "b"]⟩
    let v : Value := .object [("x", .array [.bool true, .string "text"]), ("y", .null)]
    let left : Value := .object [("x", .array [.bool true,
      .object [("a", .object [("b", .object [])])]]), ("y", .null)]
    (∃ e, p.writeInto v .null = (left, .error e)) ∧ p ≠ root ∧
      v.StopsAfter front.segments p.segments ∧ front.resolve v = none ∧
      front.write v .emptyObject = .ok left := by
  intro p front v left
  have nonroot : p ≠ root := by decide
  have failed : p.writeInto v .null = (left, .error (.path
    "index 0 applied to a non-sequence while writing 'x[1].a.b[0].c'")) := rfl
  have stops : v.StopsAfter front.segments p.segments := by
    refine ⟨?_, 0, [.field "c"], rfl, ?_⟩
    · rw [← Value.hasPositions_iff_reaches]
      exact (Value.isSome_put_iff .null).mp rfl
    · rintro ⟨items, found, -⟩
      cases found
  refine ⟨⟨_, failed⟩, nonroot, stops, rfl, ?_⟩
  exact ((writeInto_failed nonroot failed).2 front stops).2 rfl

end Path
end RecordFlow
