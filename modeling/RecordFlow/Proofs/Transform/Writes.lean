import RecordFlow.Proofs.Path.Replay
import RecordFlow.Transform.Basic

/-!
# What a transform writes

Applying a transform comes down to a list of writes at its targets. The writes of a branch are
repeated on the output as a replay of them.
-/
namespace RecordFlow

namespace Output

open Value

variable {out out' branch : Output} {es : List (Path × Value)}

def edits (es : List (Path × Value)) : List Edit := es.map fun e => (e.1.segments, e.2)

theorem write_eq_ok_iff {p : Path} {v : Value} :
    out.write p v = .ok out' ↔ p.segments ≠ [] ∧ put v p.segments out.record = some out'.record ∧
      out'.written = out.written ++ [p] := by
  unfold write
  cases done : p.write out.record v with
  | error e =>
    refine ⟨nofun, fun ⟨nonroot, written, _⟩ => ?_⟩
    cases done ▸ Path.write_eq_ok_iff.mpr ⟨nonroot, written⟩
  | ok record =>
    obtain ⟨nonroot, written⟩ := Path.write_eq_ok_iff.mp done
    rw [written]
    constructor
    · rintro ⟨⟩
      exact ⟨nonroot, rfl, rfl⟩
    · rcases out' with ⟨record', log⟩
      rintro ⟨_, ⟨⟩, rfl⟩
      rfl

theorem writeAll_cons_eq_ok {e : Path × Value} :
    out.writeAll (e :: es) = .ok out' ↔
      ∃ mid, out.write e.1 e.2 = .ok mid ∧ mid.writeAll es = .ok out' := by
  rw [writeAll]
  cases out.write e.1 e.2 with
  | ok mid => simp
  | error fault => simp

theorem writeAll_eq_ok_iff :
    out.writeAll es = .ok out' ↔ (∀ e ∈ es, e.1.segments ≠ []) ∧
      edited (edits es) out.record = some out'.record ∧
      out'.written = out.written ++ es.map Prod.fst := by
  induction es generalizing out with
  | nil =>
    rcases out with ⟨record, log⟩
    rcases out' with ⟨record', log'⟩
    simp [writeAll, edits, edited, eq_comm]
  | cons e es ih =>
    rw [writeAll_cons_eq_ok, List.forall_mem_cons]
    constructor
    · rintro ⟨mid, first, rest⟩
      obtain ⟨nonroot, written, log⟩ := write_eq_ok_iff.mp first
      obtain ⟨nonroot', edited', log'⟩ := ih.mp rest
      refine ⟨⟨nonroot, nonroot'⟩, ?_, by rw [log', log, List.append_assoc]; rfl⟩
      simp only [edits, List.map_cons, edited, written, Option.bind_some]
      exact edited'
    · rintro ⟨⟨nonroot, nonroot'⟩, done, log⟩
      obtain ⟨record, written, edited'⟩ := edited_cons_eq_some done
      refine ⟨⟨record, out.written ++ [e.1]⟩, write_eq_ok_iff.mpr ⟨nonroot, written, rfl⟩, ?_⟩
      exact ih.mpr ⟨nonroot', edited', by rw [log, List.append_assoc]; rfl⟩

theorem writeAll_one (out : Output) (p : Path) (v : Value) :
    out.writeAll [(p, v)] = out.write p v := by
  unfold writeAll
  cases out.write p v <;> rfl

theorem writeAll_append (out : Output) (xs ys : List (Path × Value)) :
    out.writeAll (xs ++ ys) = (out.writeAll xs).bind (·.writeAll ys) := by
  induction xs generalizing out with
  | nil => rfl
  | cons e xs ih =>
    rw [List.cons_append, writeAll, writeAll]
    cases out.write e.1 e.2 with
    | ok mid => exact ih mid
    | error fault => rfl

theorem writeAll_error {e : Error} (h : out.writeAll es = .error e) : ∃ m, e = .path m := by
  induction es generalizing out with
  | nil => cases h
  | cons w es ih =>
    rw [writeAll] at h
    cases first : out.write w.1 w.2 with
    | ok mid => exact ih (first ▸ h)
    | error fault =>
      rw [first] at h
      cases h
      unfold write at first
      split at first
      · cases first
      · cases first
        exact Path.write_error ‹_›

theorem resolve_writeAll_of_apart {p : Path} (h : out.writeAll es = .ok out')
    (apart : ∀ e ∈ es, Segments.Apart e.1.segments p.segments) :
    p.resolve out'.record = p.resolve out.record := by
  obtain ⟨_, done, _⟩ := writeAll_eq_ok_iff.mp h
  exact resolve_edited_of_apart done (List.forall_mem_map.mpr apart)

theorem mem_results {e : Path × Value} (h : e ∈ branch.results) : e.1 ∈ branch.written := by
  obtain ⟨p, logged, rfl⟩ := List.mem_map.mp h
  exact logged

theorem results_within {P : Path → Prop} {record : Record} (within : ∀ e ∈ es, P e.1)
    (h : (start record).writeAll es = .ok branch) : ∀ e ∈ branch.results, P e.1 := by
  obtain ⟨_, _, log⟩ := writeAll_eq_ok_iff.mp h
  intro e member
  have logged := mem_results member
  rw [log] at logged
  obtain ⟨e', member', path⟩ := List.mem_map.mp logged
  exact path ▸ within e' member'

/-- What is repeated of a branch is the replay of its writes. -/
theorem edits_results {record : Record} (h : (start record).writeAll es = .ok branch) :
    edits branch.results = replay branch.record (edits es) := by
  obtain ⟨_, _, log⟩ := writeAll_eq_ok_iff.mp h
  rw [results, log]
  simp only [edits, replay, start, List.nil_append, List.map_map]
  rfl

end Output

namespace Transform

def isLeaf : Transform → Bool
  | parallel _ | sequence _ => false
  | _ => true

inductive Target : Transform → Path → Prop
  | copy (target source : Path) : Target (copy target source) target
  | constant (target : Path) (v : Value) : Target (constant target v) target
  | fill (target : Path) (v : Value) : Target (fill target v) target
  | join (target : Path) (joiner : String) (sources : List Path) :
      Target (join target joiner sources) target
  | split (target : Path) (splitter : String) (source : Path) (n : Nat) :
      Target (split target splitter source) (target.withPlaceholder (n + 1))
  | combine (target : Path) (sources : List Path) : Target (combine target sources) target
  | custom (target : Path) (function : Function) : Target (custom target function) target
  | parallel {children : List Transform} {c : Transform} {p : Path} : c ∈ children →
      Target c p → Target (parallel children) p
  | sequence {children : List Transform} {c : Transform} {p : Path} : c ∈ children →
      Target c p → Target (sequence children) p

/-- The writes of a transform that writes itself. -/
def leafWrites (source record : Record) : Transform → Except Error (List (Path × Value))
  | copy target path => .ok [(target, valueAt source path)]
  | constant target v => .ok [(target, v)]
  | fill target v =>
    match target.resolve record with
    | none | some .null => .ok [(target, v)]
    | some _ => .ok []
  | join target joiner sources =>
    .ok [(target, .string (Text.joinStrings joiner (joinParts source sources)))]
  | split target splitter path =>
    .ok (numbered target (splitParts splitter (path.resolve source)))
  | combine target sources => .ok [(target, .array (sources.map (valueAt source)))]
  | custom target function => (function.run source).map fun v => [(target, v)]
  | parallel _ | sequence _ => .ok []

variable {t : Transform} {source snapshot : Record} {out out' : Output} {es : List (Path × Value)}
  {children : List Transform}

theorem induct {motive : Transform → Prop} (leaf : ∀ t, t.isLeaf = true → motive t)
    (parallel : ∀ children, (∀ c ∈ children, motive c) → motive (.parallel children))
    (sequence : ∀ children, (∀ c ∈ children, motive c) → motive (.sequence children)) :
    ∀ t, motive t
  | .parallel children => parallel children fun c _ => induct leaf parallel sequence c
  | .sequence children => sequence children fun c _ => induct leaf parallel sequence c
  | .copy .. | .constant .. | .fill .. | .join .. | .split .. | .combine .. | .custom .. =>
    leaf _ rfl

theorem apply_leaf (leaf : t.isLeaf = true) (source : Record) (out : Output) :
    t.apply source out = (t.leafWrites source out.record).bind out.writeAll := by
  cases t with
  | parallel _ => cases leaf
  | sequence _ => cases leaf
  | split target splitter path => rw [apply]; rfl
  | fill target v =>
    rw [apply, leafWrites]
    cases target.resolve out.record with
    | none => exact (Output.writeAll_one ..).symm
    | some x => cases x <;> first | exact (Output.writeAll_one ..).symm | rfl
  | custom target function =>
    rw [apply, leafWrites]
    cases function.run source with
    | ok v => exact (Output.writeAll_one ..).symm
    | error e => rfl
  | _ => rw [apply]; exact (Output.writeAll_one ..).symm

theorem leafWrites_target {record : Record} (h : t.leafWrites source record = .ok es) :
    ∀ e ∈ es, t.Target e.1 := by
  cases t with
  | split target splitter path =>
    cases h
    intro e member
    obtain ⟨⟨v, i⟩, _, rfl⟩ := List.mem_map.mp member
    exact .split target splitter path i
  | fill target v =>
    rw [leafWrites] at h
    split at h <;> cases h
    · simp [Target.fill]
    · simp [Target.fill]
    · exact nofun
  | custom target function =>
    rw [leafWrites] at h
    cases done : function.run source with
    | error e => cases done ▸ h
    | ok v =>
      cases done ▸ h
      simp [Target.custom]
  | parallel _ => cases h; exact nofun
  | sequence _ => cases h; exact nofun
  | _ => cases h; simp [Target.copy, Target.constant, Target.join, Target.combine]

theorem applyInOrder_cons_eq_ok :
    applyInOrder source (t :: children) out = .ok out' ↔
      ∃ mid, t.apply source out = .ok mid ∧ applyInOrder source children mid = .ok out' := by
  rw [applyInOrder]
  cases t.apply source out with
  | ok mid => simp
  | error e => simp

theorem applyBranches_cons_eq_ok :
    applyBranches source snapshot (t :: children) out = .ok out' ↔
      ∃ branch mid, t.apply source (.start snapshot) = .ok branch ∧
        out.writeAll branch.results = .ok mid ∧
        applyBranches source snapshot children mid = .ok out' := by
  rw [applyBranches]
  cases t.apply source (.start snapshot) with
  | error e => simp
  | ok branch =>
    cases written : out.writeAll branch.results with
    | error e => simp [written]
    | ok mid => simp [written]

/-- Whatever the transform does to an output is a list of writes at its targets. -/
def WritesTargets (source : Record) (t : Transform) : Prop :=
  ∀ out out', t.apply source out = .ok out' →
    ∃ es, out.writeAll es = .ok out' ∧ ∀ e ∈ es, t.Target e.1

theorem writes_append {mid : Output} {xs ys : List (Path × Value)} {rest : List Transform}
    (first : out.writeAll xs = .ok mid) (later : mid.writeAll ys = .ok out')
    (here : ∀ e ∈ xs, t.Target e.1) (there : ∀ e ∈ ys, ∃ c ∈ rest, c.Target e.1) :
    ∃ es, out.writeAll es = .ok out' ∧ ∀ e ∈ es, ∃ c ∈ t :: rest, c.Target e.1 := by
  refine ⟨xs ++ ys, by rw [Output.writeAll_append, first]; exact later, fun e member => ?_⟩
  rcases List.mem_append.mp member with before | after
  · exact ⟨t, List.mem_cons_self, here e before⟩
  · obtain ⟨c, child, target⟩ := there e after
    exact ⟨c, List.mem_cons_of_mem t child, target⟩

theorem applyInOrder_writes (each : ∀ c ∈ children, WritesTargets source c)
    (h : applyInOrder source children out = .ok out') :
    ∃ es, out.writeAll es = .ok out' ∧ ∀ e ∈ es, ∃ c ∈ children, c.Target e.1 := by
  induction children generalizing out with
  | nil => exact ⟨[], by rw [applyInOrder] at h; exact h, nofun⟩
  | cons t rest ih =>
    obtain ⟨here, there⟩ := List.forall_mem_cons.mp each
    obtain ⟨mid, first, later⟩ := applyInOrder_cons_eq_ok.mp h
    obtain ⟨xs, written, targets⟩ := here out mid first
    obtain ⟨ys, written', targets'⟩ := ih there later
    exact writes_append written written' targets targets'

theorem applyBranches_writes (each : ∀ c ∈ children, WritesTargets source c)
    (h : applyBranches source snapshot children out = .ok out') :
    ∃ es, out.writeAll es = .ok out' ∧ ∀ e ∈ es, ∃ c ∈ children, c.Target e.1 := by
  induction children generalizing out with
  | nil => exact ⟨[], by rw [applyBranches] at h; exact h, nofun⟩
  | cons t rest ih =>
    obtain ⟨here, there⟩ := List.forall_mem_cons.mp each
    obtain ⟨branch, mid, first, repeated, later⟩ := applyBranches_cons_eq_ok.mp h
    obtain ⟨xs, written, targets⟩ := here _ branch first
    obtain ⟨ys, written', targets'⟩ := ih there later
    exact writes_append repeated written' (Output.results_within targets written) targets'

theorem writesTargets (source : Record) (t : Transform) : WritesTargets source t := by
  induction t using induct with
  | leaf t leaf =>
    intro out out' h
    rw [apply_leaf leaf] at h
    cases written : t.leafWrites source out.record with
    | error e => cases written ▸ h
    | ok es => exact ⟨es, by rw [written] at h; exact h, leafWrites_target written⟩
  | parallel children each =>
    intro out out' h
    rw [apply] at h
    obtain ⟨es, written, targets⟩ := applyBranches_writes each h
    exact ⟨es, written, fun e member => (targets e member).elim fun _ t => .parallel t.1 t.2⟩
  | sequence children each =>
    intro out out' h
    rw [apply] at h
    obtain ⟨es, written, targets⟩ := applyInOrder_writes each h
    exact ⟨es, written, fun e member => (targets e member).elim fun _ t => .sequence t.1 t.2⟩

end Transform
end RecordFlow
