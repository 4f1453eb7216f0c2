import Mathlib.Data.List.Induction
import RecordFlow.Proofs.Path.Lens
import RecordFlow.Proofs.Transform.Outcome

/-!
# The order of the keys of an output

A write in a mapping leaves its keys where they are and puts a new key at the end. So the keys of an
output stand in the order in which they were first written. The repetition of a branch writes the
paths of the branch in their order, so this is the order of the leaves, from left to right.
-/
namespace RecordFlow

namespace Path

def firstKey? (p : Path) : Option String :=
  match p.segments with
  | .field key :: _ => some key
  | _ => none

end Path

theorem eraseDups_concat (keys : List String) (key : String) :
    (keys ++ [key]).eraseDups =
      if key ∈ keys.eraseDups then keys.eraseDups else keys.eraseDups ++ [key] := by
  rw [List.eraseDups_append]
  split
  · next known => simp [List.removeAll, List.mem_eraseDups.mp known]
  · next fresh => simp [List.removeAll, mt List.mem_eraseDups.mpr fresh, List.eraseDups_cons]

namespace Output

open Value

variable {out out' : Output} {p : Path} {v : Value} {fields : Fields} {es : List (Path × Value)}

theorem write_object (h : out.write p v = .ok out') (mapping : out.record = .object fields) :
    ∃ key inner, p.firstKey? = some key ∧ out'.record = .object (fields.insert key inner) := by
  obtain ⟨nonroot, written, -⟩ := write_eq_ok_iff.mp h
  rcases p with ⟨_ | ⟨s, rest⟩⟩
  · exact absurd rfl nonroot
  · rw [mapping] at written
    obtain ⟨key, inner, rfl, record⟩ := put_object written
    exact ⟨key, inner, rfl, record⟩

/-- Writes to an empty mapping leave the keys that the written paths begin with, in the order in
which they were first written. -/
theorem keys_writeAll (h : (start .empty).writeAll es = .ok out) :
    ∃ fields, out.record = .object fields ∧
      Fields.keys fields = (out.written.filterMap Path.firstKey?).eraseDups := by
  induction es using List.reverseRecOn generalizing out with
  | nil =>
    cases h
    exact ⟨[], rfl, rfl⟩
  | append_singleton es e ih =>
    rw [writeAll_append] at h
    cases before : (start .empty).writeAll es with
    | error fault => cases before ▸ h
    | ok mid =>
      rw [before] at h
      have last : mid.write e.1 e.2 = .ok out := (writeAll_one mid e.1 e.2).symm.trans h
      obtain ⟨fields, mapping, keys⟩ := ih before
      obtain ⟨key, inner, first, record⟩ := write_object last mapping
      refine ⟨Fields.insert key inner fields, record, ?_⟩
      rw [Fields.keys_insert, keys, (write_eq_ok_iff.mp last).2.2, List.filterMap_append,
        List.filterMap_cons_some first, List.filterMap_nil, eraseDups_concat]

end Output

namespace Transform

open Output

variable {t : Transform} {source snapshot : Record} {out out' : Output} {children : List Transform}
  {es : List (Path × Value)}

mutual

/-- The paths that the leaves write, from left to right. A leaf in a branch sees the snapshot and
the writes of that branch only. -/
def performed (source : Record) : Transform → Output → List Path
  | parallel children, out => performedInBranches source out.record children
  | sequence children, out => performedInOrder source children out
  | t, out =>
    match t.leafWrites source out.record with
    | .ok es => es.map Prod.fst
    | .error _ => []

def performedInOrder (source : Record) : List Transform → Output → List Path
  | [], _ => []
  | t :: rest, out =>
    performed source t out ++
      match apply source t out with
      | .ok next => performedInOrder source rest next
      | .error _ => []

def performedInBranches (source snapshot : Record) : List Transform → List Path
  | [] => []
  | t :: rest => performed source t (.start snapshot) ++ performedInBranches source snapshot rest

end

theorem performed_leaf (leaf : t.isLeaf = true)
    (written : t.leafWrites source out.record = .ok es) :
    performed source t out = es.map Prod.fst := by
  cases t with
  | parallel _ => cases leaf
  | sequence _ => cases leaf
  | _ => simp only [performed, written]

/-- A transform logs what its leaves perform. -/
def LogsPerformed (source : Record) (t : Transform) : Prop :=
  ∀ out out', t.apply source out = .ok out' →
    out'.written = out.written ++ performed source t out

theorem applyInOrder_logs (each : ∀ c ∈ children, LogsPerformed source c)
    (h : applyInOrder source children out = .ok out') :
    out'.written = out.written ++ performedInOrder source children out := by
  induction children generalizing out with
  | nil =>
    rw [applyInOrder] at h
    cases h
    exact (List.append_nil _).symm
  | cons c rest ih =>
    obtain ⟨here, there⟩ := List.forall_mem_cons.mp each
    obtain ⟨mid, first, later⟩ := applyInOrder_cons_eq_ok.mp h
    rw [ih there later, here out mid first, performedInOrder, first, List.append_assoc]

theorem applyBranches_logs (each : ∀ c ∈ children, LogsPerformed source c)
    (h : applyBranches source snapshot children out = .ok out') :
    out'.written = out.written ++ performedInBranches source snapshot children := by
  induction children generalizing out with
  | nil =>
    rw [applyBranches] at h
    cases h
    exact (List.append_nil _).symm
  | cons c rest ih =>
    obtain ⟨here, there⟩ := List.forall_mem_cons.mp each
    obtain ⟨branch, mid, ran, repeated, later⟩ := applyBranches_cons_eq_ok.mp h
    obtain ⟨-, -, log⟩ := writeAll_eq_ok_iff.mp repeated
    have own : branch.written = performed source c (.start snapshot) := here _ branch ran
    have again : branch.results.map Prod.fst = branch.written := by
      rw [results, List.map_map]
      exact List.map_id _
    rw [ih there later, log, again, own, performedInBranches, List.append_assoc]

theorem logsPerformed (source : Record) (t : Transform) : LogsPerformed source t := by
  induction t using induct with
  | leaf t leaf =>
    intro out out' h
    rw [apply_leaf leaf] at h
    cases found : t.leafWrites source out.record with
    | error e => cases found ▸ h
    | ok es =>
      rw [found] at h
      rw [performed_leaf leaf found]
      exact (writeAll_eq_ok_iff.mp h).2.2
  | parallel children each =>
    intro out out' h
    rw [apply] at h
    rw [performed]
    exact applyBranches_logs each h
  | sequence children each =>
    intro out out' h
    rw [apply] at h
    rw [performed]
    exact applyInOrder_logs each h

/-- The keys of an output are the keys that the paths written by the leaves begin with. They stand
in the order in which the leaves, from left to right, first wrote them. -/
theorem keys_evaluate {record : Record} (h : t.evaluate source = .ok record) :
    ∃ fields, record = .object fields ∧ Fields.keys fields =
      ((performed source t (.start .empty)).filterMap Path.firstKey?).eraseDups := by
  obtain ⟨out, ran, rfl⟩ := evaluate_eq_ok_iff.mp h
  obtain ⟨es, written, -⟩ := writesTargets source t _ out ran
  have log : out.written = performed source t (.start .empty) := logsPerformed source t _ out ran
  rw [← log]
  exact keys_writeAll written

/-- A branch overwrites its own first key and one from before the branches, and a fill does
nothing. -/
theorem keys_evaluate_branches :
    let t := sequence [constant ⟨[.field "a"]⟩ (.bool true),
      parallel [sequence [constant ⟨[.field "b", .field "c"]⟩ .null, copy ⟨[.field "a"]⟩ ⟨[]⟩,
        constant ⟨[.field "b"]⟩ .null], fill ⟨[.field "a"]⟩ .null,
        split ⟨[.field "n{}"]⟩ "" ⟨[.field "words"]⟩]]
    let source : Record := .object [("words", .string "one two")]
    let record : Record := .object [("a", source), ("b", .null), ("n1", .string "one"),
      ("n2", .string "two")]
    t.evaluate source = .ok record ∧
      performed source t (.start .empty) = [⟨[.field "a"]⟩, ⟨[.field "b", .field "c"]⟩,
        ⟨[.field "a"]⟩, ⟨[.field "b"]⟩, ⟨[.field "n1"]⟩, ⟨[.field "n2"]⟩] ∧
      ∃ fields, record = .object fields ∧ Fields.keys fields = ["a", "b", "n1", "n2"] := by
  intro t source record
  have evaluated : t.evaluate source = .ok record := rfl
  have written : performed source t (.start .empty) = [⟨[.field "a"]⟩, ⟨[.field "b", .field "c"]⟩,
      ⟨[.field "a"]⟩, ⟨[.field "b"]⟩, ⟨[.field "n1"]⟩, ⟨[.field "n2"]⟩] := rfl
  obtain ⟨fields, mapping, keys⟩ := keys_evaluate evaluated
  refine ⟨evaluated, written, fields, mapping, ?_⟩
  rw [keys, written]
  rfl

end Transform
end RecordFlow
