import RecordFlow.Proofs.Transform.Writes

/-!
# Branches and their repetition

A branch of a parallel is repeated on the output from its log of written paths. A path that the
branch itself has lost is written as null, and such a write fails if the path names a position that
is gone. When the repetition succeeds it leaves every written path as the branch left it.
-/
namespace RecordFlow

open Value

/-- Two paths overlap unless their first difference is between two keys or two positions. -/
def Path.Overlaps (p q : Path) : Prop := ¬ Segments.Apart p.segments q.segments

namespace Output

variable {out out' branch : Output} {es : List (Path × Value)} {record : Record}

/-- The repetition of a branch on the output it started from. -/
theorem repeat_record (h : (start record).writeAll es = .ok branch)
    (h' : out.writeAll branch.results = .ok out') (same : out.record = record) :
    out'.record = branch.record := by
  obtain ⟨_, done, _⟩ := writeAll_eq_ok_iff.mp h
  obtain ⟨_, again, _⟩ := writeAll_eq_ok_iff.mp h'
  rw [edits_results h, same] at again
  exact settled _ _ _ done record _ (.inl rfl) again

theorem repeat_resolve (h : (start record).writeAll es = .ok branch)
    (h' : out.writeAll branch.results = .ok out') :
    ∀ p ∈ branch.written, p.resolve out'.record = p.resolve branch.record := by
  obtain ⟨_, done, log⟩ := writeAll_eq_ok_iff.mp h
  obtain ⟨_, again, _⟩ := writeAll_eq_ok_iff.mp h'
  rw [edits_results h] at again
  intro p logged
  rw [log] at logged
  obtain ⟨e, member, rfl⟩ := List.mem_map.mp logged
  exact settled_at done again _ (List.mem_map.mpr ⟨e, member, rfl⟩)

theorem isOk_repeat_iff (h : (start .empty).writeAll es = .ok branch) :
    (∃ out, (start .empty).writeAll branch.results = .ok out) ↔
      ∀ p ∈ branch.written, branch.record.HasPositions p.segments := by
  obtain ⟨nonroot, done, log⟩ := writeAll_eq_ok_iff.mp h
  have counted := isSome_edited_replay (samePositions_empty branch.record) done
  have logged : (∀ p ∈ branch.written, branch.record.HasPositions p.segments) ↔
      ∀ e ∈ edits es, branch.record.HasPositions e.1 := by
    simp only [log, start, edits, List.nil_append, List.forall_mem_map]
  rw [logged, ← counted, ← edits_results h]
  constructor
  · rintro ⟨out, repeated⟩
    obtain ⟨_, again, _⟩ := writeAll_eq_ok_iff.mp repeated
    exact Option.isSome_iff_exists.mpr ⟨_, again⟩
  · intro again
    obtain ⟨record, again⟩ := Option.isSome_iff_exists.mp again
    have nonroot' := results_within (P := fun p => p.segments ≠ []) nonroot h
    exact ⟨⟨record, branch.results.map Prod.fst⟩, writeAll_eq_ok_iff.mpr ⟨nonroot', again, rfl⟩⟩

end Output

namespace Transform

variable {t : Transform} {source : Record} {out out' branch : Output}

theorem evaluate_parallel_one (t : Transform) (source : Record) :
    (parallel [t]).evaluate source =
      match t.apply source (.start .empty) with
      | .ok branch => ((Output.start .empty).writeAll branch.results).map Output.record
      | .error e => .error e := by
  have snapshot : (Output.start .empty).record = .empty := rfl
  rw [evaluate, apply, applyBranches, snapshot]
  cases t.apply source (.start .empty) with
  | error e => rfl
  | ok branch =>
    dsimp only
    cases (Output.start .empty).writeAll branch.results with
    | error e => rfl
    | ok out => rfl

/-- A parallel of one child is that child unless the child writes a path at a position that is gone
at the end. Then the child succeeds and the parallel fails. -/
theorem parallel_one_eq_iff (t : Transform) (source : Record) :
    ((parallel [t]).evaluate source = t.evaluate source ↔
      ∀ out, t.apply source (.start .empty) = .ok out →
        ∀ p ∈ out.written, out.record.HasPositions p.segments) ∧
    ((parallel [t]).evaluate source ≠ t.evaluate source →
      ∃ record m, t.evaluate source = .ok record ∧
        (parallel [t]).evaluate source = .error (.path m)) := by
  rw [evaluate_parallel_one, evaluate]
  cases h : t.apply source (.start .empty) with
  | error e => exact ⟨⟨nofun, fun _ => rfl⟩, fun differ => absurd rfl differ⟩
  | ok branch =>
    obtain ⟨es, written, _⟩ := writesTargets source t _ _ h
    have succeeds := Output.isOk_repeat_iff written
    simp only [Except.ok.injEq, forall_eq', ← succeeds]
    cases repeated : (Output.start .empty).writeAll branch.results with
    | ok out =>
      have same := Output.repeat_record written repeated rfl
      refine ⟨⟨fun _ => ⟨out, rfl⟩, fun _ => ?_⟩, fun differ => absurd ?_ differ⟩
      · rw [Except.map, same]
      · rw [Except.map, same]
    | error e =>
      obtain ⟨m, rfl⟩ := Output.writeAll_error repeated
      exact ⟨⟨nofun, nofun⟩, fun _ => ⟨branch.record, m, rfl, rfl⟩⟩

/-- The text overwrites the sequence whose first item was written before. -/
theorem parallel_one_position_gone :
    let t := sequence [constant ⟨[.field "a"]⟩ (.array [.null]),
      constant ⟨[.field "a", .index 0]⟩ (.bool true), constant ⟨[.field "a"]⟩ (.string "x")]
    t.evaluate .empty = .ok (.object [("a", .string "x")]) ∧
      (parallel [t]).evaluate .empty =
        .error (.path "index 0 applied to a non-sequence while writing 'a[0]'") := by
  constructor <;> rfl

/-! ## The last branch wins -/

theorem applyBranches_append (source snapshot : Record) (xs ys : List Transform) (out : Output) :
    applyBranches source snapshot (xs ++ ys) out =
      (applyBranches source snapshot xs out).bind (applyBranches source snapshot ys) := by
  induction xs generalizing out with
  | nil => rw [applyBranches]; rfl
  | cons t xs ih =>
    rw [List.cons_append, applyBranches, applyBranches]
    cases t.apply source (.start snapshot) with
    | error e => rfl
    | ok branch =>
      dsimp only
      cases out.writeAll branch.results with
      | error e => rfl
      | ok mid => exact ih mid

theorem resolve_applyBranches {snapshot : Record} {children : List Transform} {p : Path}
    (h : applyBranches source snapshot children out = .ok out')
    (apart : ∀ c ∈ children, ∀ branch, c.apply source (.start snapshot) = .ok branch →
      ∀ q ∈ branch.written, Segments.Apart q.segments p.segments) :
    p.resolve out'.record = p.resolve out.record := by
  induction children generalizing out with
  | nil =>
    rw [applyBranches] at h
    cases h
    rfl
  | cons c rest ih =>
    obtain ⟨here, there⟩ := List.forall_mem_cons.mp apart
    obtain ⟨branch, mid, ran, repeated, later⟩ := applyBranches_cons_eq_ok.mp h
    rw [ih later there]
    exact Output.resolve_writeAll_of_apart repeated fun e member =>
      here branch ran e.1 (Output.mem_results member)

/-- A parallel that succeeds resolves a path that a child wrote as the branch of that child does,
unless a later child wrote a path that overlaps it. -/
theorem parallel_last_wins (before after : List Transform) (c : Transform) (source : Record)
    (out out' : Output) (h : (parallel (before ++ c :: after)).apply source out = .ok out') :
    ∃ branch, c.apply source (.start out.record) = .ok branch ∧ ∀ p ∈ branch.written,
      (∀ d ∈ after, ∀ later, d.apply source (.start out.record) = .ok later →
        ∀ q ∈ later.written, ¬ q.Overlaps p) →
      p.resolve out'.record = p.resolve branch.record := by
  rw [apply, applyBranches_append] at h
  cases start : applyBranches source out.record before out with
  | error e => cases start ▸ h
  | ok first =>
    rw [start] at h
    obtain ⟨branch, mid, ran, repeated, rest⟩ := applyBranches_cons_eq_ok.mp h
    refine ⟨branch, ran, fun p logged alone => ?_⟩
    obtain ⟨es, written, _⟩ := writesTargets source c _ _ ran
    rw [← Output.repeat_resolve written repeated p logged]
    refine resolve_applyBranches rest fun d member later ran' q logged' => ?_
    exact Classical.not_not.mp (alone d member later ran' q logged')

/-- The second child replaces a mapping of the first one; the third one writes beside it. -/
theorem parallel_last_wins_over_mapping :
    let first := constant ⟨[.field "a", .field "b"]⟩ .null
    let second := constant ⟨[.field "a"]⟩ (.bool true)
    let third := constant ⟨[.field "b"]⟩ .null
    ∃ out', (parallel ([first] ++ second :: [third])).apply .empty (.start .empty) = .ok out' ∧
      Path.resolve ⟨[.field "a"]⟩ out'.record = some (.bool true) := by
  intro first second third
  refine ⟨_, rfl, ?_⟩
  obtain ⟨branch, ran, wins⟩ :=
    parallel_last_wins [first] [third] second .empty (.start .empty) _ rfl
  cases ran
  refine wins _ List.mem_cons_self fun d member later ran q logged => ?_
  cases List.mem_singleton.mp member
  cases ran
  cases List.mem_singleton.mp logged
  exact not_not_intro (.here _ _ (by decide) rfl)

end Transform
end RecordFlow
