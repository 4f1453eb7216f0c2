import RecordFlow.Proofs.Path.Layout
import RecordFlow.Proofs.Transform.Outcome

/-!
# Outputs without repeated keys

A transform writes what it reads in its source, what its leaves supply and texts. So where neither
the source nor the supplies repeat a key the output repeats none.
-/
namespace RecordFlow

namespace Output

variable {out out' : Output} {es : List (Path × Value)}

theorem distinctKeys_writeAll (distinct : out.record.DistinctKeys)
    (supplied : ∀ e ∈ es, e.2.DistinctKeys) (h : out.writeAll es = .ok out') :
    out'.record.DistinctKeys := by
  induction es generalizing out with
  | nil =>
    cases h
    exact distinct
  | cons e es ih =>
    obtain ⟨here, there⟩ := List.forall_mem_cons.mp supplied
    obtain ⟨mid, first, later⟩ := writeAll_cons_eq_ok.mp h
    obtain ⟨-, written, -⟩ := write_eq_ok_iff.mp first
    exact ih (Value.distinctKeys_put distinct here written) there later

theorem distinctKeys_results (distinct : out.record.DistinctKeys) :
    ∀ e ∈ out.results, e.2.DistinctKeys := by
  intro e member
  obtain ⟨p, -, rfl⟩ := List.mem_map.mp member
  exact Value.distinctKeys_getD distinct p

end Output

namespace Transform

open Output

variable {t : Transform} {source snapshot record : Record} {out out' : Output}
  {children : List Transform} {es : List (Path × Value)}

/-- The values that the leaves do not take from the source: constants and what functions give. -/
inductive Supplies (source : Record) : Transform → Value → Prop
  | constant (target : Path) (v : Value) : Supplies source (constant target v) v
  | fill (target : Path) (v : Value) : Supplies source (fill target v) v
  | custom (target : Path) {function : Function} {v : Value} : function.run source = .ok v →
      Supplies source (custom target function) v
  | parallel {children : List Transform} {c : Transform} {v : Value} : c ∈ children →
      Supplies source c v → Supplies source (parallel children) v
  | sequence {children : List Transform} {c : Transform} {v : Value} : c ∈ children →
      Supplies source c v → Supplies source (sequence children) v

theorem distinctKeys_splitParts (distinct : source.DistinctKeys) (splitter : String) (p : Path) :
    ∀ v ∈ splitParts splitter (p.resolve source), v.DistinctKeys := by
  intro v member
  cases found : p.resolve source with
  | none => cases found ▸ member
  | some x =>
    rw [found] at member
    cases x with
    | array items =>
      exact Value.distinctKeys_array_iff.mp (Value.distinctKeys_resolve distinct found) v member
    | string text =>
      rw [splitParts] at member
      split at member
      · cases member
      · obtain ⟨part, -, rfl⟩ := List.mem_map.mp member
        exact trivial
    | _ => cases member

theorem distinctKeys_leafWrites (distinct : source.DistinctKeys)
    (supplied : ∀ v, t.Supplies source v → v.DistinctKeys)
    (h : t.leafWrites source record = .ok es) : ∀ e ∈ es, e.2.DistinctKeys := by
  cases t with
  | copy target path =>
    cases h
    exact List.forall_mem_singleton.mpr (Value.distinctKeys_getD distinct path)
  | constant target v =>
    cases h
    exact List.forall_mem_singleton.mpr (supplied v (.constant target v))
  | fill target v =>
    rw [leafWrites] at h
    split at h <;> cases h
    · exact List.forall_mem_singleton.mpr (supplied v (.fill target v))
    · exact List.forall_mem_singleton.mpr (supplied v (.fill target v))
    · exact List.forall_mem_nil _
  | join target joiner sources =>
    cases h
    exact List.forall_mem_singleton.mpr trivial
  | split target splitter path =>
    cases h
    intro e member
    obtain ⟨⟨v, i⟩, inside, rfl⟩ := List.mem_map.mp member
    exact distinctKeys_splitParts distinct splitter path v (List.fst_mem_of_mem_zipIdx inside)
  | combine target sources =>
    cases h
    refine List.forall_mem_singleton.mpr (Value.distinctKeys_array_iff.mpr ?_)
    exact List.forall_mem_map.mpr fun path _ => Value.distinctKeys_getD distinct path
  | custom target function =>
    rw [leafWrites] at h
    cases done : function.run source with
    | error e => cases done ▸ h
    | ok v =>
      cases done ▸ h
      exact List.forall_mem_singleton.mpr (supplied v (.custom target done))
  | parallel _ =>
    cases h
    exact List.forall_mem_nil _
  | sequence _ =>
    cases h
    exact List.forall_mem_nil _

/-- The transform repeats no key in an output that had none repeated. -/
def KeepsDistinct (source : Record) (t : Transform) : Prop :=
  ∀ out out', out.record.DistinctKeys → t.apply source out = .ok out' → out'.record.DistinctKeys

theorem applyInOrder_keepsDistinct (each : ∀ c ∈ children, KeepsDistinct source c)
    (distinct : out.record.DistinctKeys) (h : applyInOrder source children out = .ok out') :
    out'.record.DistinctKeys := by
  induction children generalizing out with
  | nil =>
    rw [applyInOrder] at h
    cases h
    exact distinct
  | cons c rest ih =>
    obtain ⟨here, there⟩ := List.forall_mem_cons.mp each
    obtain ⟨mid, first, later⟩ := applyInOrder_cons_eq_ok.mp h
    exact ih there (here out mid distinct first) later

theorem applyBranches_keepsDistinct (each : ∀ c ∈ children, KeepsDistinct source c)
    (before : snapshot.DistinctKeys) (distinct : out.record.DistinctKeys)
    (h : applyBranches source snapshot children out = .ok out') : out'.record.DistinctKeys := by
  induction children generalizing out with
  | nil =>
    rw [applyBranches] at h
    cases h
    exact distinct
  | cons c rest ih =>
    obtain ⟨here, there⟩ := List.forall_mem_cons.mp each
    obtain ⟨branch, mid, ran, repeated, later⟩ := applyBranches_cons_eq_ok.mp h
    have branch_distinct : branch.record.DistinctKeys := here _ branch before ran
    have again : mid.record.DistinctKeys :=
      distinctKeys_writeAll distinct (distinctKeys_results branch_distinct) repeated
    exact ih there again later

theorem keepsDistinct (distinct : source.DistinctKeys)
    (supplied : ∀ v, t.Supplies source v → v.DistinctKeys) : KeepsDistinct source t := by
  induction t using induct with
  | leaf t leaf =>
    intro out out' before h
    rw [apply_leaf leaf] at h
    cases found : t.leafWrites source out.record with
    | error e => cases found ▸ h
    | ok es =>
      rw [found] at h
      exact distinctKeys_writeAll before (distinctKeys_leafWrites distinct supplied found) h
  | parallel children each =>
    intro out out' before h
    rw [apply] at h
    refine applyBranches_keepsDistinct (fun c member => ?_) before before h
    exact each c member fun v supply => supplied v (.parallel member supply)
  | sequence children each =>
    intro out out' before h
    rw [apply] at h
    refine applyInOrder_keepsDistinct (fun c member => ?_) before h
    exact each c member fun v supply => supplied v (.sequence member supply)

/-- Where neither the source nor what the transform supplies repeats a key, the output repeats
none. -/
theorem distinctKeys_evaluate (distinct : source.DistinctKeys)
    (supplied : ∀ v, t.Supplies source v → v.DistinctKeys)
    (h : t.evaluate source = .ok record) : record.DistinctKeys := by
  obtain ⟨out, ran, rfl⟩ := evaluate_eq_ok_iff.mp h
  exact keepsDistinct distinct supplied _ out Value.distinctKeys_emptyObject ran

end Transform
end RecordFlow
