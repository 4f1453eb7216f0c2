import RecordFlow.Proofs.Transform.Independence
import RecordFlow.Proofs.Transform.Parallel

/-!
# The outcome of a transform

A transform that succeeds has logged all it did: whatever lies apart from the logged paths reads as
before. A transform whose targets are made of keys can always write, in branches and in their
repetition too. So it fails exactly when a custom function does, with the error of the first one.
-/
namespace RecordFlow

open Value

namespace Value

variable {es : List Edit} {v w : Value}

theorem exists_fields (mapping : v.isObject = true) : ∃ fields, v = .object fields := by
  cases v with
  | object fields => exact ⟨fields, rfl⟩
  | _ => cases mapping

/-- Edits below a mapping leave a mapping. -/
theorem isObject_edited (rootless : Rootless es) (mapping : v.isObject = true)
    (h : edited es v = some w) : w.isObject = true := by
  obtain ⟨fields, rfl⟩ := exists_fields mapping
  have keys : ThroughKeys es := throughKeys_of_object rootless h
  obtain ⟨fields', rfl⟩ := edited_mapping keys h
  rfl

end Value

namespace Output

variable {out out' : Output} {es : List (Path × Value)}

theorem isObject_writeAll (mapping : out.record.isObject = true) (h : out.writeAll es = .ok out') :
    out'.record.isObject = true := by
  obtain ⟨nonroot, done, -⟩ := writeAll_eq_ok_iff.mp h
  apply isObject_edited ?_ mapping done
  exact List.forall_mem_map.mpr nonroot

end Output

namespace Transform

open Output

variable {t : Transform} {source : Record} {out out' : Output} {children : List Transform}

theorem evaluate_eq_ok_iff {record : Record} :
    t.evaluate source = .ok record ↔
      ∃ out, t.apply source (.start .empty) = .ok out ∧ out.record = record := by
  rw [evaluate]
  cases t.apply source (.start .empty) with
  | ok out => simp
  | error e => simp

/-! ## The log -/

/-- A transform applied to a mapping leaves a mapping. What it has logged are targets of its leaves,
and every path that overlaps none of them reads as before. -/
theorem log_complete (mapping : out.record.isObject = true) (h : t.apply source out = .ok out') :
    out'.record.isObject = true ∧ ∃ log, out'.written = out.written ++ log ∧
      (∀ p ∈ log, t.Target p) ∧
      ∀ q : Path, (∀ p ∈ log, ¬ p.Overlaps q) →
        q.resolve out'.record = q.resolve out.record := by
  obtain ⟨es, written, targets⟩ := writesTargets source t out out' h
  obtain ⟨-, -, logged⟩ := writeAll_eq_ok_iff.mp written
  constructor
  · exact isObject_writeAll mapping written
  · refine ⟨es.map Prod.fst, logged, ?_, ?_⟩
    · exact List.forall_mem_map.mpr targets
    · intro q alone
      apply resolve_writeAll_of_apart written
      intro e member
      exact Classical.not_not.mp (alone e.1 (List.mem_map_of_mem member))

/-- The branch loses the key that it wrote first and logs it all the same. Beside the log the output
reads as before. -/
theorem log_complete_lost_key :
    let t := parallel [sequence [constant ⟨[.field "a", .field "b"]⟩ (.bool true),
      constant ⟨[.field "a"]⟩ (.string "x")], split ⟨[.field "n{}"]⟩ "" ⟨[.field "words"]⟩]
    let source : Record := .object [("words", .string "one two")]
    let out := Output.start (.object [("k", .array [.null]), ("a", .object [("c", .null)])])
    let record : Record := .object [("k", .array [.null]), ("a", .string "x"),
      ("n1", .string "one"), ("n2", .string "two")]
    out.record.isObject = true ∧ t.apply source out = .ok ⟨record,
        [⟨[.field "a", .field "b"]⟩, ⟨[.field "a"]⟩, ⟨[.field "n1"]⟩, ⟨[.field "n2"]⟩]⟩ ∧
      record.isObject = true ∧
      Path.resolve ⟨[.field "k", .index 0]⟩ record =
        Path.resolve ⟨[.field "k", .index 0]⟩ out.record := by
  intro t source out record
  have mapping : out.record.isObject = true := rfl
  have applied : t.apply source out = .ok ⟨record,
      [⟨[.field "a", .field "b"]⟩, ⟨[.field "a"]⟩, ⟨[.field "n1"]⟩, ⟨[.field "n2"]⟩]⟩ := rfl
  obtain ⟨mapping', log, logged, -, beside⟩ := log_complete mapping applied
  obtain rfl : [_, _, _, _] = log := logged
  refine ⟨mapping, applied, mapping', beside ⟨[.field "k", .index 0]⟩ ?_⟩
  intro p member
  simp only [List.mem_cons, List.not_mem_nil, or_false] at member
  rcases member with rfl | rfl | rfl | rfl <;> exact not_not_intro (.here _ _ (by decide) rfl)

/-! ## Failures -/

mutual

/-- The custom functions at the leaves, from left to right. -/
def functions : Transform → List Function
  | custom _ function => [function]
  | parallel children | sequence children => functionsOf children
  | _ => []

def functionsOf : List Transform → List Function
  | [] => []
  | t :: rest => functions t ++ functionsOf rest

end

def failure? {α : Type} : Except Error α → Option Error
  | .ok _ => none
  | .error e => some e

/-- The error of the first function that fails on the source. -/
def firstFailure? (source : Record) (functions : List Function) : Option Error :=
  functions.findSome? fun f => failure? (f.run source)

theorem failure?_eq_some_iff {α : Type} {x : Except Error α} {e : Error} :
    failure? x = some e ↔ x = .error e := by
  cases x <;> simp [failure?]

theorem failure?_eq_none_iff {α : Type} {x : Except Error α} :
    failure? x = none ↔ ∃ a, x = .ok a := by
  cases x <;> simp [failure?]

theorem firstFailure?_eq_some_iff {functions : List Function} {e : Error} :
    firstFailure? source functions = some e ↔
      ∃ before f after, functions = before ++ f :: after ∧
        (∀ g ∈ before, ∃ v, g.run source = .ok v) ∧ f.run source = .error e := by
  rw [firstFailure?, List.findSome?_eq_some_iff]
  simp only [failure?_eq_some_iff, failure?_eq_none_iff, and_comm]

theorem exists_firstFailure?_iff {functions : List Function} :
    (∃ e, firstFailure? source functions = some e) ↔
      ∃ f ∈ functions, ∃ e, f.run source = .error e := by
  rw [← Option.isSome_iff_exists, firstFailure?, List.findSome?_isSome_iff]
  simp only [Option.isSome_iff_exists, failure?_eq_some_iff]

theorem firstFailure?_functionsOf_cons (source : Record) (t : Transform) (rest : List Transform) :
    firstFailure? source (functionsOf (t :: rest)) =
      (firstFailure? source t.functions).or (firstFailure? source (functionsOf rest)) := by
  rw [functionsOf, firstFailure?, List.findSome?_append]
  rfl

/-- A leaf finds out what to write unless it is a custom function that fails. -/
theorem failure?_leafWrites (leaf : t.isLeaf = true) (source record : Record) :
    failure? (t.leafWrites source record) = firstFailure? source t.functions := by
  cases t with
  | parallel _ => cases leaf
  | sequence _ => cases leaf
  | fill target v =>
    rw [leafWrites]
    split <;> rfl
  | custom target function =>
    rw [leafWrites, functions, firstFailure?, List.findSome?_singleton]
    cases function.run source <;> rfl
  | _ => rfl

/-- On any output the transform fails with the error of its first failing function, and otherwise
it succeeds. -/
def FailsByFunction (source : Record) (t : Transform) : Prop :=
  ∀ out, failure? (t.apply source out) = firstFailure? source t.functions

theorem failsByFunction_leaf (leaf : t.isLeaf = true) (keyed : ∀ p, t.Target p → p.Keyed)
    (source : Record) : FailsByFunction source t := by
  intro out
  rw [apply_leaf leaf, ← failure?_leafWrites leaf source out.record]
  cases found : t.leafWrites source out.record with
  | error e => rfl
  | ok es =>
    have keys : ∀ e ∈ es, e.1.Keyed := by
      intro e member
      exact keyed e.1 (leafWrites_target found e member)
    exact failure?_eq_none_iff.mpr (exists_writeAll keys out)

theorem applyInOrder_failure (each : ∀ c ∈ children, FailsByFunction source c) (out : Output) :
    failure? (applyInOrder source children out) = firstFailure? source (functionsOf children) := by
  induction children generalizing out with
  | nil =>
    rw [applyInOrder]
    rfl
  | cons c rest ih =>
    obtain ⟨here, there⟩ := List.forall_mem_cons.mp each
    rw [applyInOrder, firstFailure?_functionsOf_cons, ← here out]
    cases c.apply source out with
    | error e => rfl
    | ok mid => exact ih there mid

/-- The repetition of a branch that wrote at keys succeeds on any output. -/
theorem exists_repeat {c : Transform} {snapshot : Record} {branch : Output}
    (keyed : ∀ p, c.Target p → p.Keyed) (ran : c.apply source (.start snapshot) = .ok branch)
    (out : Output) : ∃ mid, out.writeAll branch.results = .ok mid := by
  obtain ⟨es, written, targets⟩ := writesTargets source c _ branch ran
  have keys : ∀ e ∈ es, e.1.Keyed := by
    intro e member
    exact keyed e.1 (targets e member)
  exact exists_writeAll (results_within keys written) out

theorem applyBranches_failure {snapshot : Record}
    (keyed : ∀ c ∈ children, ∀ p, c.Target p → p.Keyed)
    (each : ∀ c ∈ children, FailsByFunction source c) (out : Output) :
    failure? (applyBranches source snapshot children out) =
      firstFailure? source (functionsOf children) := by
  induction children generalizing out with
  | nil =>
    rw [applyBranches]
    rfl
  | cons c rest ih =>
    obtain ⟨keys, keys'⟩ := List.forall_mem_cons.mp keyed
    obtain ⟨here, there⟩ := List.forall_mem_cons.mp each
    rw [applyBranches, firstFailure?_functionsOf_cons, ← here (.start snapshot)]
    cases ran : c.apply source (.start snapshot) with
    | error e => rfl
    | ok branch =>
      obtain ⟨mid, repeated⟩ := exists_repeat keys ran out
      dsimp only
      rw [repeated]
      exact ih keys' there mid

theorem failsByFunction (keyed : ∀ p, t.Target p → p.Keyed) (source : Record) :
    FailsByFunction source t := by
  induction t using induct with
  | leaf t leaf => exact failsByFunction_leaf leaf keyed source
  | parallel children each =>
    have keys : ∀ c ∈ children, ∀ p, c.Target p → p.Keyed := by
      intro c member p target
      exact keyed p (.parallel member target)
    intro out
    rw [apply, functions]
    apply applyBranches_failure keys
    intro c member
    exact each c member (keys c member)
  | sequence children each =>
    intro out
    rw [apply, functions]
    apply applyInOrder_failure
    intro c member
    apply each c member
    intro p target
    exact keyed p (.sequence member target)

theorem failure?_evaluate (keyed : ∀ p, t.Target p → p.Keyed) (source : Record) :
    failure? (t.evaluate source) = firstFailure? source t.functions := by
  rw [← failsByFunction keyed source (.start .empty), evaluate]
  cases t.apply source (.start .empty) <;> rfl

/-- A transform whose targets are made of keys fails if and only if one of its custom functions
fails on the source, and its error is the one of the first such function from left to right. -/
theorem evaluate_fails_iff (keyed : ∀ p, t.Target p → p.Keyed) (source : Record) :
    ((∃ e, t.evaluate source = .error e) ↔ ∃ f ∈ t.functions, ∃ e, f.run source = .error e) ∧
    ∀ e, t.evaluate source = .error e ↔
      ∃ before f after, t.functions = before ++ f :: after ∧
        (∀ g ∈ before, ∃ v, g.run source = .ok v) ∧ f.run source = .error e := by
  have first := failure?_evaluate keyed source
  constructor
  · rw [← exists_firstFailure?_iff, ← first]
    simp only [failure?_eq_some_iff]
  · intro e
    rw [← firstFailure?_eq_some_iff, ← first, failure?_eq_some_iff]

/-- The branch before succeeds although it loses the key that it wrote first. Of the two functions
that fail, the one to the left counts. -/
theorem evaluate_fails_iff_two_failures :
    let total : Function := ⟨"total", fun _ => .ok .null⟩
    let title : Function := ⟨"title", fun _ => .error (.function "title" "no title")⟩
    let date : Function := ⟨"date", fun _ => .error (.validation "no date")⟩
    let t := parallel [sequence [constant ⟨[.field "a", .field "b"]⟩ (.bool true),
      custom ⟨[.field "a"]⟩ total], custom ⟨[.field "c"]⟩ title, custom ⟨[.field "d"]⟩ date]
    (∀ p, t.Target p → p.Keyed) ∧ t.functions = [total] ++ title :: [date] ∧
      (∃ e, t.evaluate .empty = .error e) ∧
      t.evaluate .empty = .error (.function "title" "no title") := by
  intro total title date t
  have keyed : ∀ p, t.Target p → p.Keyed := by
    intro p target
    have keys : p ∈ ([⟨[.field "a", .field "b"]⟩, ⟨[.field "a"]⟩, ⟨[.field "c"]⟩,
        ⟨[.field "d"]⟩] : List Path) := by
      change (parallel _).Target p at target
      cases target with
      | parallel member target =>
        simp only [List.mem_cons, List.not_mem_nil, or_false] at member
        rcases member with rfl | rfl | rfl
        · cases target with
          | sequence member target =>
            simp only [List.mem_cons, List.not_mem_nil, or_false] at member
            rcases member with rfl | rfl <;> cases target <;> simp
        · cases target; simp
        · cases target; simp
    simp only [List.mem_cons, List.not_mem_nil, or_false] at keys
    rcases keys with rfl | rfl | rfl | rfl <;> simp [Path.Keyed, OnlyKeys, Segment.isField]
  have functions : t.functions = [total] ++ title :: [date] := rfl
  obtain ⟨fails, first⟩ := evaluate_fails_iff keyed .empty
  refine ⟨keyed, functions, ?_, ?_⟩
  · exact fails.mpr ⟨title, by simp [functions], _, rfl⟩
  · refine (first _).mpr ⟨[total], title, [date], functions, ?_, rfl⟩
    intro g member
    rw [List.mem_singleton.mp member]
    exact ⟨.null, rfl⟩

end Transform
end RecordFlow
