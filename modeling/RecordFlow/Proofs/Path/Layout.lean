import RecordFlow.Proofs.Path.Edits
import RecordFlow.Proofs.Value.Reordered

/-!
# The mappings that writes make

A write puts a key where it stands already or at the end. So a value without repeated keys stays one
when values of this kind are written in it. Writes at keys to an empty mapping make mappings on the
way to the written paths and nothing else. Their order decides the order of the entries only.
-/
namespace RecordFlow

namespace Fields

variable {key : String} {v : Value} {fields : Fields}

theorem nodup_insert (distinct : fields.keys.Nodup) (key : String) (v : Value) :
    (fields.insert key v).keys.Nodup := by
  rw [keys_insert]
  split
  · exact distinct
  · next fresh =>
    refine List.nodup_append.mpr ⟨distinct, List.pairwise_singleton _ key, ?_⟩
    intro other member last alone same
    rw [same, List.mem_singleton.mp alone] at member
    exact fresh member

theorem mem_insert {e : String × Value} (h : e ∈ fields.insert key v) :
    e = (key, v) ∨ e ∈ fields := by
  induction fields with
  | nil => exact .inl (List.mem_singleton.mp h)
  | cons first rest ih =>
    rw [insert] at h
    split at h
    · next same =>
      rw [same] at h
      exact (List.mem_cons.mp h).imp_right (List.mem_cons_of_mem first)
    · rcases List.mem_cons.mp h with rfl | later
      · exact .inr List.mem_cons_self
      · exact (ih later).imp_right (List.mem_cons_of_mem first)

end Fields

namespace Value

variable {s : Segment} {p : List Segment} {v w x new : Value}

theorem distinctKeys_emptyObject : emptyObject.DistinctKeys := ⟨List.nodup_nil, trivial⟩

theorem distinctKeys_step (distinct : v.DistinctKeys) (h : v.step? s = some x) :
    x.DistinctKeys := by
  cases v with
  | array items =>
    cases s with
    | field key => cases h
    | index i => exact distinctKeys_array_iff.mp distinct x (List.mem_of_getElem? h)
  | object fields =>
    cases s with
    | field key => exact (distinctKeys_object_iff.mp distinct).2 _ (Fields.mem_of_get? h)
    | index i => cases h
  | _ => cases h

theorem distinctKeys_resolve (distinct : v.DistinctKeys) (h : v.resolve p = some x) :
    x.DistinctKeys := by
  induction p generalizing v with
  | nil => exact Option.some.inj h ▸ distinct
  | cons s p ih =>
    obtain ⟨y, found, below⟩ := Option.bind_eq_some_iff.mp h
    exact ih (distinctKeys_step distinct found) below

theorem distinctKeys_getD (distinct : v.DistinctKeys) (path : Path) :
    ((path.resolve v).getD .null).DistinctKeys := by
  cases found : path.resolve v with
  | none => exact trivial
  | some x => exact distinctKeys_resolve distinct found

theorem distinctKeys_inside (distinct : v.DistinctKeys) (h : inside s v = some x) :
    x.DistinctKeys := by
  rw [inside_eq_getD h]
  cases found : v.step? s with
  | none => exact distinctKeys_emptyObject
  | some y => exact distinctKeys_step distinct found

theorem distinctKeys_placed (distinct : v.DistinctKeys) (supplied : new.DistinctKeys)
    (h : inside s v = some x) : (placed s new v).DistinctKeys := by
  cases s with
  | field key =>
    have before : v.fieldsOrEmpty.keys.Nodup ∧ ∀ e ∈ v.fieldsOrEmpty, e.2.DistinctKeys := by
      cases v with
      | object fields => exact distinctKeys_object_iff.mp distinct
      | _ => exact distinctKeys_object_iff.mp distinctKeys_emptyObject
    refine distinctKeys_object_iff.mpr ⟨Fields.nodup_insert before.1 key new, ?_⟩
    intro e member
    rcases Fields.mem_insert member with rfl | there
    · exact supplied
    · exact before.2 e there
  | index i =>
    obtain ⟨items, rfl, -⟩ := inside_index h
    apply distinctKeys_array_iff.mpr
    intro y member
    rcases List.mem_or_eq_of_mem_set member with there | rfl
    · exact distinctKeys_array_iff.mp distinct y there
    · exact supplied

theorem distinctKeys_put (distinct : v.DistinctKeys) (supplied : new.DistinctKeys)
    (h : put new p v = some w) : w.DistinctKeys := by
  induction p generalizing v w with
  | nil => exact Option.some.inj h ▸ supplied
  | cons s p ih =>
    obtain ⟨x, y, found, inner, rfl⟩ := put_cons_eq_some h
    exact distinctKeys_placed distinct (ih (distinctKeys_inside distinct found) inner) found

end Value

/-! ## Between the written paths -/

namespace Value

open Segments

variable {log log' : List (List Segment)} {es : List Edit} {p u : List Segment} {v w new : Value}

theorem OnlyKeys.concat (keys : OnlyKeys u) (key : String) : OnlyKeys (u ++ [.field key]) := by
  intro s member
  rcases List.mem_append.mp member with before | last
  · exact keys s before
  · rw [List.mem_singleton.mp last]
    rfl

theorem resolve_concat_field {fields : Fields} (there : v.resolve u = some (.object fields))
    (key : String) : v.resolve (u ++ [.field key]) = Fields.get? key fields := by
  rw [resolve_append, there]
  exact Option.bind_fun_some _

/-- A path that the written key does not lie above reads as before, unless it leads to that key.
Then a mapping stands there. -/
theorem resolve_put_beside (keys : OnlyKeys p) (keys' : OnlyKeys u) (free : ¬ p <+: u)
    (h : put new p v = some w) :
    (u <+: p ∧ ∃ fields, w.resolve u = some (.object fields)) ∨
      (¬ u <+: p ∧ w.resolve u = v.resolve u) := by
  rcases prefix_or_apart_or_clash p u with below | ⟨z, rfl⟩ | apart | clash
  · exact absurd below free
  · left
    rw [put_append] at h
    obtain ⟨x, -, h⟩ := Option.bind_eq_some_iff.mp h
    obtain ⟨y, inner, outer⟩ := Option.bind_eq_some_iff.mp h
    cases z with
    | nil => exact absurd (by simp) free
    | cons s z =>
      obtain ⟨_, _, -, -, rfl⟩ := put_cons_eq_some inner
      have key : s.isField = true := keys s (by simp)
      cases s with
      | field key => exact ⟨List.prefix_append u _, _, resolve_put outer⟩
      | index i => cases key
  · exact .inr ⟨apart.symm.not_below, resolve_put_of_apart h apart⟩
  · exact absurd clash (keys.not_clash keys')

/-- The value of writes at the logged paths to an empty mapping, told at the paths that lie below no
logged one: each of them leads to a mapping if a logged path lies further on, else nowhere. -/
structure LaidOut (log : List (List Segment)) (v : Value) : Prop where
  mapping : ∀ u x, OnlyKeys u → (∀ p ∈ log, ¬ p <+: u) → v.resolve u = some x →
    ∃ fields, x = .object fields
  present : ∀ u, OnlyKeys u → u ≠ [] → (∀ p ∈ log, ¬ p <+: u) →
    ((v.resolve u).isSome ↔ ∃ p ∈ log, u <+: p)

theorem LaidOut.empty : LaidOut [] emptyObject := by
  constructor
  · intro u x keys free there
    cases u with
    | nil => exact ⟨[], (Option.some.inj there).symm⟩
    | cons s u => cases (resolve_emptyObject (List.cons_ne_nil s u)).symm.trans there
  · intro u keys longer free
    simp [resolve_emptyObject longer]

theorem LaidOut.put (laid : LaidOut log v) (keys : OnlyKeys p) (h : put new p v = some w) :
    LaidOut (log ++ [p]) w := by
  have split : ∀ u, (∀ q ∈ log ++ [p], ¬ q <+: u) → (∀ q ∈ log, ¬ q <+: u) ∧ ¬ p <+: u := by
    intro u free
    obtain ⟨before, last⟩ := List.forall_mem_append.mp free
    exact ⟨before, last p (List.mem_singleton_self p)⟩
  constructor
  · intro u x keys' free there
    obtain ⟨before, last⟩ := split u free
    rcases resolve_put_beside keys keys' last h with ⟨-, fields, mapping⟩ | ⟨-, same⟩
    · exact ⟨fields, Option.some.inj (there.symm.trans mapping)⟩
    · exact laid.mapping u x keys' before (same ▸ there)
  · intro u keys' longer free
    obtain ⟨before, last⟩ := split u free
    rcases resolve_put_beside keys keys' last h with ⟨above, fields, mapping⟩ | ⟨beside, same⟩
    · simp [mapping, above]
    · simp [same, laid.present u keys' longer before, beside]

theorem LaidOut.edited (laid : LaidOut log v) (keys : ∀ e ∈ es, OnlyKeys e.1)
    (h : edited es v = some w) : LaidOut (log ++ es.map Prod.fst) w := by
  induction es generalizing log v with
  | nil =>
    cases h
    rwa [List.map_nil, List.append_nil]
  | cons e es ih =>
    obtain ⟨here, there⟩ := List.forall_mem_cons.mp keys
    obtain ⟨x, first, later⟩ := edited_cons_eq_some h
    have laid' := ih (laid.put here first) there later
    rwa [List.append_assoc, List.singleton_append] at laid'

/-! ## Two orders of writing -/

section

variable (left : LaidOut log v) (right : LaidOut log' w) (paths : ∀ p, p ∈ log ↔ p ∈ log')
  (same : ∀ p ∈ log, v.resolve p = w.resolve p)

include same in
theorem LaidOut.resolve_below (below : ∃ p ∈ log, p <+: u) : v.resolve u = w.resolve u := by
  obtain ⟨p, member, z, rfl⟩ := below
  rw [resolve_append, resolve_append, same p member]

include left right paths same in
theorem LaidOut.isSome_iff (keys : OnlyKeys u) : (v.resolve u).isSome ↔ (w.resolve u).isSome := by
  by_cases below : ∃ p ∈ log, p <+: u
  · rw [resolve_below same below]
  · by_cases longer : u = []
    · subst longer
      exact iff_of_true rfl rfl
    · have free : ∀ p ∈ log, ¬ p <+: u := fun p member above => below ⟨p, member, above⟩
      have free' : ∀ p ∈ log', ¬ p <+: u := fun p member => free p ((paths p).mpr member)
      rw [left.present u keys longer free, right.present u keys longer free']
      simp only [paths]

include left right paths same in
/-- At a logged path and below it both values read the same, and above it mappings stand in both. So
the induction is on the value that stands at a path of keys. -/
theorem LaidOut.reordered_at (distinct : v.DistinctKeys) (unique : w.DistinctKeys) (x : Value) :
    ∀ u y, OnlyKeys u → v.resolve u = some x → w.resolve u = some y → x.Reordered y := by
  have below : ∀ x u y, (∃ p ∈ log, p <+: u) → v.resolve u = some x → w.resolve u = some y →
      x.Reordered y := by
    intro x u y below there there'
    obtain rfl : x = y := by
      rw [resolve_below same below, there'] at there
      exact (Option.some.inj there).symm
    exact .refl x (distinctKeys_resolve distinct there)
  induction x using induct with
  | object fields ih =>
    intro u y keys there there'
    by_cases written : ∃ p ∈ log, p <+: u
    · exact below _ u y written there there'
    · have free' : ∀ p ∈ log', ¬ p <+: u := fun p member above =>
        written ⟨p, (paths p).mpr member, above⟩
      obtain ⟨others, rfl⟩ := right.mapping u y keys free' there'
      have nodup := (distinctKeys_object_iff.mp (distinctKeys_resolve distinct there)).1
      have nodup' := (distinctKeys_object_iff.mp (distinctKeys_resolve unique there')).1
      refine .of_get? nodup nodup' fun key => ?_
      have further : OnlyKeys (u ++ [.field key]) := keys.concat key
      rw [← resolve_concat_field there, ← resolve_concat_field there']
      have both := isSome_iff left right paths same further
      refine Reordered.rel_of_isSome_iff both fun x' y' found found' => ?_
      have entry : (key, x') ∈ fields :=
        Fields.mem_of_get? ((resolve_concat_field there key).symm.trans found)
      exact ih (key, x') entry _ y' further found found'
  | _ =>
    intro u y keys there there'
    refine below _ u y (Classical.byContradiction fun none => ?_) there there'
    have free : ∀ p ∈ log, ¬ p <+: u := fun p member above => none ⟨p, member, above⟩
    cases (left.mapping u _ keys free there).choose_spec

include left right paths same in
/-- Writes at the same keys make reorderings if every written path reads the same in the end. -/
theorem LaidOut.reordered (distinct : v.DistinctKeys) (unique : w.DistinctKeys) :
    v.Reordered w :=
  reordered_at left right paths same distinct unique v [] w nofun rfl rfl

end

end Value
end RecordFlow
