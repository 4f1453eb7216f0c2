import RecordFlow.Proofs.Transform.Writes

/-!
# Independent children

A transform reads the output only at its own targets. So on outputs that read the same there it
makes the same writes, or fails in the same way. Children whose targets lie apart can therefore run
in branches or one after another.
-/
namespace RecordFlow

open Value Segments

namespace Path

def Keyed (p : Path) : Prop := p.segments ≠ [] ∧ OnlyKeys p.segments

variable {P : Path → Prop} {v v' w w' new : Value} {p q : Path}

theorem Keyed.apart (hp : p.Keyed) (hq : q.Keyed) (notBelow : ¬ p.segments <+: q.segments)
    (notAbove : ¬ q.segments <+: p.segments) : Apart p.segments q.segments := by
  rcases prefix_or_apart_or_clash p.segments q.segments with below | above | apart | clash
  · exact absurd below notBelow
  · exact absurd above notAbove
  · exact apart
  · exact absurd clash (hp.2.not_clash hq.2)

def Alike (P : Path → Prop) (v w : Value) : Prop := ∀ p, P p → p.resolve v = p.resolve w

theorem Alike.put (keyed : ∀ p, P p → p.Keyed) (alike : Alike P v w) (h : P p)
    (hv : put new p.segments v = some v') (hw : Value.put new p.segments w = some w') :
    Alike P v' w' := by
  intro q hq
  change v'.resolve q.segments = w'.resolve q.segments
  rcases prefix_or_apart_or_clash p.segments q.segments with ⟨z, path⟩ | ⟨z, path⟩ | apart | clash
  · rw [← path, resolve_put_append hv, resolve_put_append hw]
  · rw [← path, put_append] at hv hw
    rw [(keyed q hq).2.opened, Option.bind_some] at hv hw
    rw [show w.resolve q.segments = v.resolve q.segments from (alike q hq).symm] at hw
    obtain ⟨x, inner, outer⟩ := Option.bind_eq_some_iff.mp hv
    rw [inner, Option.bind_some] at hw
    rw [resolve_put outer, resolve_put hw]
  · rw [resolve_put_of_apart hv apart, resolve_put_of_apart hw apart]
    exact alike q hq
  · exact absurd clash ((keyed p h).2.not_clash (keyed q hq).2)

end Path

namespace Output

variable {P : Path → Prop} {a b a' b' : Output} {es : List (Path × Value)}

theorem exists_write {p : Path} (keyed : p.Keyed) (v : Value) (a : Output) :
    ∃ a', a.write p v = .ok a' := by
  have there : (put v p.segments a.record).isSome :=
    (isSome_put_iff v).mpr (keyed.2.hasPositions _)
  obtain ⟨record, written⟩ := Option.isSome_iff_exists.mp there
  exact ⟨⟨record, a.written ++ [p]⟩, write_eq_ok_iff.mpr ⟨keyed.1, written, rfl⟩⟩

theorem exists_writeAll (keyed : ∀ e ∈ es, e.1.Keyed) (a : Output) :
    ∃ a', a.writeAll es = .ok a' := by
  induction es generalizing a with
  | nil => exact ⟨a, rfl⟩
  | cons e es ih =>
    obtain ⟨here, later⟩ := List.forall_mem_cons.mp keyed
    obtain ⟨mid, first⟩ := exists_write here e.2 a
    obtain ⟨a', rest⟩ := ih later mid
    exact ⟨a', writeAll_cons_eq_ok.mpr ⟨mid, first, rest⟩⟩

theorem alike_writeAll (keyed : ∀ p, P p → p.Keyed) (alike : Path.Alike P a.record b.record)
    (within : ∀ e ∈ es, P e.1) (ha : a.writeAll es = .ok a') (hb : b.writeAll es = .ok b') :
    Path.Alike P a'.record b'.record := by
  induction es generalizing a b with
  | nil =>
    cases ha
    cases hb
    exact alike
  | cons e es ih =>
    obtain ⟨here, later⟩ := List.forall_mem_cons.mp within
    obtain ⟨mid, first, rest⟩ := writeAll_cons_eq_ok.mp ha
    obtain ⟨mid', first', rest'⟩ := writeAll_cons_eq_ok.mp hb
    obtain ⟨_, written, _⟩ := write_eq_ok_iff.mp first
    obtain ⟨_, written', _⟩ := write_eq_ok_iff.mp first'
    exact ih (alike.put keyed here written written') later rest rest'

/-- The same writes on two outputs, or the same failure. -/
inductive SameWrites (P : Path → Prop) (a b : Output) :
    Except Error Output → Except Error Output → Prop
  | failed (e : Error) : SameWrites P a b (.error e) (.error e)
  | wrote {a' b' : Output} (es : List (Path × Value)) : (∀ e ∈ es, P e.1) →
      a.writeAll es = .ok a' → b.writeAll es = .ok b' → SameWrites P a b (.ok a') (.ok b')

theorem SameWrites.after {x y : Except Error Output} (within : ∀ e ∈ es, P e.1)
    (ha : a.writeAll es = .ok a') (hb : b.writeAll es = .ok b') (h : SameWrites P a' b' x y) :
    SameWrites P a b x y := by
  cases h with
  | failed e => exact .failed e
  | wrote es' within' ha' hb' =>
    refine .wrote (es ++ es') ?_ ?_ ?_
    · exact fun e member => (List.mem_append.mp member).elim (within e) (within' e)
    · rw [writeAll_append, ha]; exact ha'
    · rw [writeAll_append, hb]; exact hb'

theorem results_eq {x y : Record} (keyed : ∀ p, P p → p.Keyed) (alike : Path.Alike P x y)
    (within : ∀ e ∈ es, P e.1) (ha : (start x).writeAll es = .ok a)
    (hb : (start y).writeAll es = .ok b) : a.results = b.results := by
  obtain ⟨_, _, log⟩ := writeAll_eq_ok_iff.mp ha
  obtain ⟨_, _, log'⟩ := writeAll_eq_ok_iff.mp hb
  have same := alike_writeAll keyed alike within ha hb
  rw [results, results, log, log']
  refine List.map_congr_left fun p logged => ?_
  obtain ⟨e, member, rfl⟩ := List.mem_map.mp logged
  rw [same _ (within e member)]

/-- The repetition of a branch does what its writes do on an output that reads the same. -/
theorem repeat_eq {record : Record} (keyed : ∀ p, P p → p.Keyed)
    (alike : Path.Alike P record b.record) (within : ∀ e ∈ es, P e.1)
    (ha : (start record).writeAll es = .ok a) (hb : b.writeAll es = .ok b') :
    b.writeAll a.results = .ok b' := by
  have same := alike_writeAll keyed alike within ha hb
  have replayed : edits a.results = replay b'.record (edits es) := by
    rw [edits_results ha]
    exact replay_congr (List.forall_mem_map.mpr fun e member => same _ (within e member))
  obtain ⟨out, repeated⟩ :=
    exists_writeAll (fun e member => keyed _ (results_within within ha e member)) b
  obtain ⟨_, again, log⟩ := writeAll_eq_ok_iff.mp repeated
  obtain ⟨_, done, log'⟩ := writeAll_eq_ok_iff.mp hb
  obtain ⟨_, _, branchLog⟩ := writeAll_eq_ok_iff.mp ha
  rw [replayed] at again
  have record : out.record = b'.record := settled _ _ _ done b.record _ (.inl rfl) again
  have written : out.written = b'.written := by
    rw [log, log', results, branchLog]
    simp [start]
  rw [repeated]
  rcases out with ⟨_, _⟩
  rcases b' with ⟨_, _⟩
  cases record
  cases written
  rfl

end Output

namespace Transform

open Output

variable {P : Path → Prop} {source x y : Record} {a b : Output} {children : List Transform}

theorem leafWrites_congr {t : Transform} (alike : Path.Alike t.Target x y) :
    t.leafWrites source x = t.leafWrites source y := by
  cases t with
  | fill target v => rw [leafWrites, leafWrites, alike target (.fill target v)]
  | _ => rfl

/-- On outputs that read the same at the paths of the set the transform makes the same writes. -/
def ReadsWithin (P : Path → Prop) (source : Record) (t : Transform) : Prop :=
  ∀ a b : Output, Path.Alike P a.record b.record →
    SameWrites P a b (t.apply source a) (t.apply source b)

theorem applyInOrder_readsWithin (keyed : ∀ p, P p → p.Keyed)
    (each : ∀ c ∈ children, ReadsWithin P source c) (alike : Path.Alike P a.record b.record) :
    SameWrites P a b (applyInOrder source children a) (applyInOrder source children b) := by
  induction children generalizing a b with
  | nil =>
    rw [applyInOrder, applyInOrder]
    exact .wrote [] (by simp) rfl rfl
  | cons c rest ih =>
    obtain ⟨here, there⟩ := List.forall_mem_cons.mp each
    have same := here a b alike
    rw [applyInOrder, applyInOrder]
    generalize c.apply source a = left, c.apply source b = right at same
    cases same with
    | failed e => exact .failed e
    | wrote es within ha hb =>
      exact (ih there (alike_writeAll keyed alike within ha hb)).after within ha hb

theorem applyBranches_readsWithin (keyed : ∀ p, P p → p.Keyed)
    (each : ∀ c ∈ children, ReadsWithin P source c) (alike : Path.Alike P x y) (a b : Output) :
    SameWrites P a b (applyBranches source x children a) (applyBranches source y children b) := by
  induction children generalizing a b with
  | nil =>
    rw [applyBranches, applyBranches]
    exact .wrote [] (by simp) rfl rfl
  | cons c rest ih =>
    obtain ⟨here, there⟩ := List.forall_mem_cons.mp each
    have same := here (.start x) (.start y) alike
    rw [applyBranches, applyBranches]
    generalize c.apply source (.start x) = left, c.apply source (.start y) = right at same
    cases same with
    | failed e => exact .failed e
    | @wrote branch branch' es within hx hy =>
      have repeated : ∀ e ∈ branch.results, P e.1 := results_within within hx
      have keys : ∀ e ∈ branch.results, e.1.Keyed := fun e member => keyed _ (repeated e member)
      obtain ⟨a', ha⟩ := exists_writeAll keys a
      obtain ⟨b', hb⟩ := exists_writeAll keys b
      dsimp only
      rw [← results_eq keyed alike within hx hy, ha, hb]
      exact (ih there a' b').after repeated ha hb

theorem readsWithin (keyed : ∀ p, P p → p.Keyed) (source : Record) (t : Transform)
    (targets : ∀ p, t.Target p → P p) : ReadsWithin P source t := by
  induction t using induct with
  | leaf t leaf =>
    intro a b alike
    have same : t.leafWrites source a.record = t.leafWrites source b.record :=
      leafWrites_congr fun p target => alike p (targets p target)
    rw [apply_leaf leaf, apply_leaf leaf, same]
    cases written : t.leafWrites source b.record with
    | error e => exact .failed e
    | ok es =>
      have within : ∀ e ∈ es, P e.1 := fun e member =>
        targets e.1 (leafWrites_target written e member)
      obtain ⟨a', ha⟩ := exists_writeAll (fun e member => keyed e.1 (within e member)) a
      obtain ⟨b', hb⟩ := exists_writeAll (fun e member => keyed e.1 (within e member)) b
      change SameWrites P a b (a.writeAll es) (b.writeAll es)
      rw [ha, hb]
      exact .wrote es within ha hb
  | parallel children each =>
    intro a b alike
    rw [apply, apply]
    exact applyBranches_readsWithin keyed
      (fun c member => each c member fun p target => targets p (.parallel member target)) alike a b
  | sequence children each =>
    intro a b alike
    rw [apply, apply]
    exact applyInOrder_readsWithin keyed
      (fun c member => each c member fun p target => targets p (.sequence member target)) alike

/-! ## Branches in order -/

theorem applyBranches_eq_applyInOrder {snapshot : Record}
    (keyed : ∀ c ∈ children, ∀ p, c.Target p → p.Keyed)
    (apart : children.Pairwise fun c d => ∀ p q, c.Target p → d.Target q →
      ¬ p.segments <+: q.segments ∧ ¬ q.segments <+: p.segments)
    (alike : ∀ c ∈ children, Path.Alike c.Target snapshot a.record) :
    applyBranches source snapshot children a = applyInOrder source children a := by
  -- The snapshot and the output so far read the same at the targets of the children to come.
  induction children generalizing a with
  | nil => rw [applyBranches, applyInOrder]
  | cons c rest ih =>
    obtain ⟨keys, keys'⟩ := List.forall_mem_cons.mp keyed
    obtain ⟨apart, apart'⟩ := List.pairwise_cons.mp apart
    obtain ⟨here, there⟩ := List.forall_mem_cons.mp alike
    have same := readsWithin keys source c (fun _ target => target) (.start snapshot) a here
    rw [applyBranches, applyInOrder]
    generalize c.apply source (.start snapshot) = left, c.apply source a = right at same
    cases same with
    | failed e => rfl
    | wrote es within ha hb =>
      dsimp only
      rw [repeat_eq keys here within ha hb]
      refine ih keys' apart' fun d member q target => ?_
      rw [there d member q target]
      refine (resolve_writeAll_of_apart hb fun e written => ?_).symm
      obtain ⟨notBelow, notAbove⟩ := apart d member e.1 q (within e written) target
      exact (keys _ (within e written)).apart (keys' d member q target) notBelow notAbove

/-- Children that write at keys, none of them at, above or below a target of another one, give the
same as branches and in order. -/
theorem parallel_eq_sequence (children : List Transform)
    (keyed : ∀ c ∈ children, ∀ p, c.Target p → p.Keyed)
    (apart : children.Pairwise fun c d => ∀ p q, c.Target p → d.Target q →
      ¬ p.segments <+: q.segments ∧ ¬ q.segments <+: p.segments) (source : Record) :
    (parallel children).evaluate source = (sequence children).evaluate source := by
  rw [evaluate, evaluate, apply, apply]
  rw [applyBranches_eq_applyInOrder keyed apart fun c _ p _ => rfl]

/-- The first child loses the key it has written; its branch writes null there for a moment. -/
theorem parallel_eq_sequence_lost_key :
    (parallel [sequence [constant ⟨[.field "a", .field "b"]⟩ (.bool true),
      constant ⟨[.field "a"]⟩ (.string "x")], copy ⟨[.field "c"]⟩ ⟨[.field "d"]⟩]).evaluate .empty =
      .ok (.object [("a", .string "x"), ("c", .null)]) := by
  have inFirst : ∀ p, (sequence [constant ⟨[.field "a", .field "b"]⟩ (.bool true),
      constant ⟨[.field "a"]⟩ (.string "x")]).Target p →
      p = ⟨[.field "a", .field "b"]⟩ ∨ p = ⟨[.field "a"]⟩ := by
    intro p target
    cases target with
    | sequence member target =>
      simp only [List.mem_cons, List.not_mem_nil, or_false] at member
      rcases member with rfl | rfl <;> cases target
      · exact .inl rfl
      · exact .inr rfl
  refine (parallel_eq_sequence _ ?_ ?_ .empty).trans rfl
  · intro c member p target
    simp only [List.mem_cons, List.not_mem_nil, or_false] at member
    rcases member with rfl | rfl
    · rcases inFirst p target with rfl | rfl <;> simp [Path.Keyed, OnlyKeys, Segment.isField]
    · cases target
      simp [Path.Keyed, OnlyKeys, Segment.isField]
  · refine List.pairwise_pair.mpr fun p q target target' => ?_
    cases target'
    rcases inFirst p target with rfl | rfl <;> decide

end Transform
end RecordFlow
