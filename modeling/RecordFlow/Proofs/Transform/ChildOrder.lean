import RecordFlow.Proofs.Transform.Distinct
import RecordFlow.Proofs.Transform.KeyOrder

/-!
# Branches in another order

A parallel whose children write at keys that lie apart reads, at every path that a child wrote, as
the branch of that child. Above these paths it has made mappings, and it has made nothing else. So
the order of the children decides the order of the entries and nothing else, and not whether the
parallel succeeds.
-/
namespace RecordFlow

open Value Segments

namespace Transform

open Output

variable {t c : Transform} {source snapshot : Record} {out out' branch : Output}
  {children moved : List Transform} {p : Path}

theorem target_of_written (ran : c.apply source (.start snapshot) = .ok branch)
    (logged : p ∈ branch.written) : c.Target p := by
  obtain ⟨es, written, targets⟩ := writesTargets source c _ branch ran
  obtain ⟨-, -, log⟩ := writeAll_eq_ok_iff.mp written
  rw [log] at logged
  obtain ⟨e, member, rfl⟩ := List.mem_map.mp logged
  exact targets e member

/-- No target of one child lies at, above or below a target of the other. -/
def LieApart (c d : Transform) : Prop :=
  ∀ p q, c.Target p → d.Target q → ¬ p.segments <+: q.segments ∧ ¬ q.segments <+: p.segments

theorem LieApart.symm {c d : Transform} (h : LieApart c d) : LieApart d c :=
  fun p q target target' => (h q p target' target).symm

/-- The parallel reads what a child wrote as the branch of that child does. -/
theorem resolve_branch (keyed : ∀ c ∈ children, ∀ p, c.Target p → p.Keyed)
    (apart : children.Pairwise LieApart)
    (h : applyBranches source snapshot children out = .ok out') (member : c ∈ children)
    (ran : c.apply source (.start snapshot) = .ok branch) (logged : p ∈ branch.written) :
    p.resolve out'.record = p.resolve branch.record := by
  induction children generalizing out with
  | nil => cases member
  | cons d rest ih =>
    obtain ⟨keys, keys'⟩ := List.forall_mem_cons.mp keyed
    obtain ⟨apart, apart'⟩ := List.pairwise_cons.mp apart
    obtain ⟨own, mid, started, repeated, later⟩ := applyBranches_cons_eq_ok.mp h
    rcases List.mem_cons.mp member with rfl | there
    · obtain rfl : own = branch := Except.ok.inj (started.symm.trans ran)
      obtain ⟨es, written, -⟩ := writesTargets source c _ own ran
      rw [← repeat_resolve written repeated p logged]
      refine resolve_applyBranches later fun d member other ran' q logged' => ?_
      have target := target_of_written ran logged
      have target' := target_of_written ran' logged'
      obtain ⟨notBelow, notAbove⟩ := apart d member p q target target'
      exact (keys' d member q target').apart (keys p target) notAbove notBelow
    · exact ih keys' apart' later there

theorem mem_performedInBranches :
    p ∈ performedInBranches source snapshot children ↔
      ∃ c ∈ children, p ∈ performed source c (.start snapshot) := by
  induction children with
  | nil => simp [performedInBranches]
  | cons c rest ih => simp [performedInBranches, ih]

theorem mem_functionsOf {f : Function} :
    f ∈ functionsOf children ↔ ∃ c ∈ children, f ∈ c.functions := by
  induction children with
  | nil => simp [functionsOf]
  | cons c rest ih => simp [functionsOf, ih]

theorem branch_of_applyBranches (h : applyBranches source snapshot children out = .ok out')
    (member : c ∈ children) : ∃ branch, c.apply source (.start snapshot) = .ok branch := by
  induction children generalizing out with
  | nil => cases member
  | cons d rest ih =>
    obtain ⟨branch, mid, ran, -, later⟩ := applyBranches_cons_eq_ok.mp h
    rcases List.mem_cons.mp member with rfl | there
    · exact ⟨branch, ran⟩
    · exact ih later there

/-- What a transform makes of an empty mapping, above the paths it has written. -/
theorem laidOut (keyed : ∀ p, t.Target p → p.Keyed)
    (h : t.apply source (.start .empty) = .ok out) :
    LaidOut (out.written.map Path.segments) out.record := by
  obtain ⟨es, written, targets⟩ := writesTargets source t _ out h
  obtain ⟨-, done, log⟩ := writeAll_eq_ok_iff.mp written
  have keys : ∀ e ∈ edits es, OnlyKeys e.1 := by
    refine List.forall_mem_map.mpr fun e member => ?_
    exact (keyed e.1 (targets e member)).2
  have laid := LaidOut.empty.edited keys done
  have paths : (edits es).map Prod.fst = (es.map Prod.fst).map Path.segments := by
    rw [edits, List.map_map, List.map_map]
    rfl
  rw [List.nil_append, paths] at laid
  rwa [log, show (start .empty).written = [] from rfl, List.nil_append]

/-! ## Two orders of the children -/

section

variable (order : children.Perm moved) (keyed : ∀ c ∈ children, ∀ p, c.Target p → p.Keyed)

include order keyed in
theorem keyed_moved : ∀ c ∈ moved, ∀ p, c.Target p → p.Keyed :=
  fun c member => keyed c (order.mem_iff.mpr member)

include keyed in
theorem keyed_parallel : ∀ p, (parallel children).Target p → p.Keyed := by
  intro p target
  cases target with
  | parallel member target => exact keyed _ member p target

include keyed in
theorem parallel_fails_iff :
    (∃ e, (parallel children).evaluate source = .error e) ↔
      ∃ f, (∃ c ∈ children, f ∈ c.functions) ∧ ∃ e, f.run source = .error e := by
  have first := failure?_evaluate (keyed_parallel keyed) source
  have fails : (∃ e, (parallel children).evaluate source = .error e) ↔
      ∃ e, firstFailure? source (functionsOf children) = some e := by
    simp only [← failure?_eq_some_iff, first, functions]
  rw [fails, exists_firstFailure?_iff]
  simp only [mem_functionsOf]

include order keyed in
theorem parallel_fails_perm :
    (∃ e, (parallel children).evaluate source = .error e) ↔
      ∃ e, (parallel moved).evaluate source = .error e := by
  rw [parallel_fails_iff keyed, parallel_fails_iff (keyed_moved order keyed)]
  simp only [order.mem_iff]

theorem supplied_parallel
    (supplied : ∀ c ∈ children, ∀ v, c.Supplies source v → v.DistinctKeys) :
    ∀ v, (parallel children).Supplies source v → v.DistinctKeys := by
  intro v supply
  cases supply with
  | parallel member supply => exact supplied _ member v supply

include order keyed in
theorem applied_reordered (apart : children.Pairwise LieApart)
    (h : (parallel children).apply source (.start .empty) = .ok out)
    (h' : (parallel moved).apply source (.start .empty) = .ok out')
    (distinct : out.record.DistinctKeys) (unique : out'.record.DistinctKeys) :
    out.record.Reordered out'.record := by
  have left := laidOut (keyed_parallel keyed) h
  have right := laidOut (keyed_parallel (keyed_moved order keyed)) h'
  have log := logsPerformed source _ _ out h
  have log' := logsPerformed source _ _ out' h'
  rw [apply] at h h'
  have paths : ∀ p, p ∈ out.written ↔ p ∈ out'.written := by
    intro p
    simp only [log, log', performed, start, List.nil_append, mem_performedInBranches, order.mem_iff]
  have reads : ∀ p ∈ out.written, p.resolve out.record = p.resolve out'.record := by
    intro p logged
    rw [log] at logged
    obtain ⟨c, member, own⟩ := mem_performedInBranches.mp logged
    obtain ⟨branch, ran⟩ := branch_of_applyBranches h member
    have inBranch : p ∈ branch.written := by
      rw [logsPerformed source c _ branch ran]
      exact own
    have member' := order.mem_iff.mp member
    have apart' : moved.Pairwise LieApart := order.pairwise apart LieApart.symm
    rw [resolve_branch keyed apart h member ran inBranch]
    rw [resolve_branch (keyed_moved order keyed) apart' h' member' ran inBranch]
  refine left.reordered right ?_ (List.forall_mem_map.mpr reads) distinct unique
  intro p
  simp only [List.mem_map, paths]

end

/-- A parallel of children that write at keys which lie apart fails in every order of the children
or in none. If it succeeds, the order of the children decides the order of the entries only. -/
theorem parallel_reordered (children moved : List Transform) (source : Record)
    (order : children.Perm moved) (keyed : ∀ c ∈ children, ∀ p, c.Target p → p.Keyed)
    (apart : children.Pairwise LieApart) (distinct : source.DistinctKeys)
    (supplied : ∀ c ∈ children, ∀ v, c.Supplies source v → v.DistinctKeys) :
    (∃ e e', (parallel children).evaluate source = .error e ∧
      (parallel moved).evaluate source = .error e') ∨
    ∃ record record', (parallel children).evaluate source = .ok record ∧
      (parallel moved).evaluate source = .ok record' ∧ record.Reordered record' := by
  have fails : (∃ e, (parallel children).evaluate source = .error e) ↔ _ :=
    parallel_fails_perm order keyed
  cases first : (parallel children).evaluate source with
  | error e =>
    obtain ⟨e', second⟩ := fails.mp ⟨e, first⟩
    exact .inl ⟨e, e', rfl, second⟩
  | ok record =>
    cases second : (parallel moved).evaluate source with
    | error e' =>
      obtain ⟨e, failed⟩ := fails.mpr ⟨e', second⟩
      cases first.symm.trans failed
    | ok record' =>
      have supplied' : ∀ c ∈ moved, ∀ v, c.Supplies source v → v.DistinctKeys :=
        fun c member => supplied c (order.mem_iff.mpr member)
      have nodup := distinctKeys_evaluate distinct (supplied_parallel supplied) first
      have nodup' := distinctKeys_evaluate distinct (supplied_parallel supplied') second
      obtain ⟨out, ran, rfl⟩ := evaluate_eq_ok_iff.mp first
      obtain ⟨out', ran', rfl⟩ := evaluate_eq_ok_iff.mp second
      have same := applied_reordered order keyed apart ran ran' nodup nodup'
      exact .inr ⟨out.record, out'.record, rfl, rfl, same⟩

/-- Two children write in one mapping. One of them loses the path that it wrote first. -/
theorem parallel_reordered_shared_mapping :
    let flag := sequence [constant ⟨[.field "a", .field "b", .field "x"]⟩ .null,
      constant ⟨[.field "a", .field "b"]⟩ (.bool true)]
    let whole := copy ⟨[.field "c"]⟩ ⟨[]⟩
    let rest := constant ⟨[.field "a", .field "d"]⟩ (.array [])
    let source : Record := .object [("k", .null)]
    let record : Record := .object [("a", .object [("b", .bool true), ("d", .array [])]),
      ("c", source)]
    let record' : Record := .object [("a", .object [("d", .array []), ("b", .bool true)]),
      ("c", source)]
    (parallel [flag, whole, rest]).evaluate source = .ok record ∧
      (parallel [rest, whole, flag]).evaluate source = .ok record' ∧ record.Reordered record' := by
  intro flag whole rest source record record'
  have evaluated : (parallel [flag, whole, rest]).evaluate source = .ok record := rfl
  have evaluated' : (parallel [rest, whole, flag]).evaluate source = .ok record' := rfl
  have flags : ∀ p, flag.Target p →
      p = ⟨[.field "a", .field "b", .field "x"]⟩ ∨ p = ⟨[.field "a", .field "b"]⟩ := by
    intro p target
    change (sequence _).Target p at target
    cases target with
    | sequence member target =>
      simp only [List.mem_cons, List.not_mem_nil, or_false] at member
      rcases member with rfl | rfl <;> cases target
      · exact .inl rfl
      · exact .inr rfl
  have wholes : ∀ p, whole.Target p → p = ⟨[.field "c"]⟩ := by
    intro p target
    change (copy _ _).Target p at target
    cases target
    rfl
  have rests : ∀ p, rest.Target p → p = ⟨[.field "a", .field "d"]⟩ := by
    intro p target
    change (constant _ _).Target p at target
    cases target
    rfl
  have keyed : ∀ c ∈ [flag, whole, rest], ∀ p, c.Target p → p.Keyed := by
    intro c member p target
    simp only [List.mem_cons, List.not_mem_nil, or_false] at member
    rcases member with rfl | rfl | rfl
    · rcases flags p target with rfl | rfl <;> simp [Path.Keyed, OnlyKeys, Segment.isField]
    · simp [wholes p target, Path.Keyed, OnlyKeys, Segment.isField]
    · simp [rests p target, Path.Keyed, OnlyKeys, Segment.isField]
  have apart : [flag, whole, rest].Pairwise LieApart := by
    refine List.pairwise_cons.mpr ⟨?_, List.pairwise_pair.mpr ?_⟩
    · intro d member p q target target'
      simp only [List.mem_cons, List.not_mem_nil, or_false] at member
      rcases member with rfl | rfl
      · rw [wholes q target']
        rcases flags p target with rfl | rfl <;> decide
      · rw [rests q target']
        rcases flags p target with rfl | rfl <;> decide
    · intro p q target target'
      rw [wholes p target, rests q target']
      decide
  have supplied : ∀ c ∈ [flag, whole, rest], ∀ v, c.Supplies source v → v.DistinctKeys := by
    intro c member v supply
    simp only [List.mem_cons, List.not_mem_nil, or_false] at member
    rcases member with rfl | rfl | rfl
    · change (sequence _).Supplies source v at supply
      cases supply with
      | sequence member supply =>
        simp only [List.mem_cons, List.not_mem_nil, or_false] at member
        rcases member with rfl | rfl <;> cases supply <;> decide
    · change (copy _ _).Supplies source v at supply
      cases supply
    · change (constant _ _).Supplies source v at supply
      cases supply
      decide
  have order : [flag, whole, rest].Perm [rest, whole, flag] := (List.reverse_perm _).symm
  rcases parallel_reordered _ _ source order keyed apart (by decide) supplied with
    ⟨e, e', failed, -⟩ | ⟨r, r', done, done', same⟩
  · cases evaluated.symm.trans failed
  · cases evaluated.symm.trans done
    cases evaluated'.symm.trans done'
    exact ⟨evaluated, evaluated', same⟩

end Transform
end RecordFlow
