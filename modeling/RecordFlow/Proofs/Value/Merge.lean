import RecordFlow.Proofs.Path.Layout
import RecordFlow.Value.Merge

/-!
# Deep merge, path by path

What a merge leaves at a path of keys is told by what the two values have there. Only a path that
the incoming value lacks needs more: its old value survives if the incoming value holds a mapping
where the two part, since anything else replaces all that stood below.
-/
namespace RecordFlow

/-! ## One mapping into another -/

namespace Fields

variable {fields incoming : Fields}

/-- Each incoming entry is merged once, into what stood under its key before. -/
theorem get?_mergeFields (distinct : incoming.keys.Nodup) (key : String) :
    (Value.mergeFields fields incoming).get? key =
      match fields.get? key, incoming.get? key with
      | some x, some y => some (x.merge y)
      | some x, none => some x
      | none, y => y := by
  induction incoming generalizing fields with
  | nil =>
    rw [Value.mergeFields, get?]
    cases fields.get? key <;> rfl
  | cons e rest ih =>
    obtain ⟨fresh, others⟩ := List.nodup_cons.mp distinct
    rw [Value.mergeFields, ih others, get?]
    by_cases same : e.1 = key
    · subst same
      have absent : get? e.1 rest = none := by
        cases found : get? e.1 rest with
        | none => rfl
        | some w => exact absurd (List.mem_map_of_mem (mem_of_get? found)) fresh
      rw [get?_insert_self, absent, if_pos rfl]
      cases fields.get? e.1 <;> rfl
    · rw [get?_insert_of_ne _ _ same, if_neg same]

theorem keys_mergeFields (distinct : incoming.keys.Nodup) :
    (Value.mergeFields fields incoming).keys =
      fields.keys ++ incoming.keys.filter (· ∉ fields.keys) := by
  induction incoming generalizing fields with
  | nil => exact (List.append_nil _).symm
  | cons e rest ih =>
    have head : keys (e :: rest) = e.1 :: keys rest := rfl
    rw [head] at distinct ⊢
    obtain ⟨fresh, others⟩ := List.nodup_cons.mp distinct
    rw [Value.mergeFields, ih others, keys_insert]
    by_cases present : e.1 ∈ fields.keys
    · rw [if_pos present, List.filter_cons_of_neg (by simpa using present)]
    · have still : (keys rest).filter (· ∉ fields.keys ++ [e.1]) =
          (keys rest).filter (· ∉ fields.keys) := by
        refine List.filter_congr fun key member => ?_
        have other : key ≠ e.1 := fun same => fresh (same ▸ member)
        simp [other]
      rw [if_neg present, List.filter_cons_of_pos (by simpa using present), still,
        List.append_assoc, List.singleton_append]

end Fields

namespace Value

variable {a b x y : Value} {s : Segment} {p q : List Segment}

/-- The longest part of a path, from its start on, that leads somewhere in both values. -/
structure LongestShared (a b : Value) (p q : List Segment) : Prop where
  within : q <+: p
  inLeft : (a.resolve q).isSome
  inRight : (b.resolve q).isSome
  longest : ∀ r, r <+: p → (a.resolve r).isSome → (b.resolve r).isSome → r <+: q

theorem LongestShared.stop (h : a.step? s = none ∨ b.step? s = none) :
    LongestShared a b (s :: p) [] := by
  refine ⟨List.nil_prefix, rfl, rfl, fun r below left right => ?_⟩
  cases r with
  | nil => exact List.nil_prefix
  | cons t r =>
    obtain ⟨rfl, -⟩ := List.cons_prefix_cons.mp below
    rcases h with missing | missing
    · rw [resolve, missing] at left
      cases left
    · rw [resolve, missing] at right
      cases right

theorem LongestShared.step (left : a.step? s = some x) (right : b.step? s = some y)
    (h : LongestShared x y p q) : LongestShared a b (s :: p) (s :: q) := by
  have through (v w : Value) (found : v.step? s = some w) (r : List Segment) :
      v.resolve (s :: r) = w.resolve r := by rw [resolve, found, Option.bind_some]
  refine ⟨List.cons_prefix_cons.mpr ⟨rfl, h.within⟩, ?_, ?_, fun r below inLeft inRight => ?_⟩
  · rw [through a x left]
    exact h.inLeft
  · rw [through b y right]
    exact h.inRight
  · cases r with
    | nil => exact List.nil_prefix
    | cons t r =>
      obtain ⟨rfl, further⟩ := List.cons_prefix_cons.mp below
      rw [through a x left] at inLeft
      rw [through b y right] at inRight
      exact List.cons_prefix_cons.mpr ⟨rfl, h.longest r further inLeft inRight⟩

/-! ## One key down -/

theorem merge_object (fields incoming : Fields) :
    merge (object fields) (object incoming) = object (mergeFields fields incoming) := by
  rw [merge]

theorem merge_of_not_object (h : a.isObject = false) (incoming : Fields) :
    merge a (object incoming) = object incoming := by
  cases a with
  | object fields => cases h
  | _ => simp only [merge]

/-- The incoming value decides whether there is a mapping. -/
theorem isObject_merge (a b : Value) : (merge a b).isObject = b.isObject := by
  cases b with
  | object incoming =>
    cases a with
    | object fields => rw [merge_object]; rfl
    | _ => simp only [merge]
  | array others =>
    cases a with
    | array items => rw [merge]; rfl
    | _ => simp only [merge]
  | _ => simp only [merge]

theorem step?_field_of_not_object (h : b.isObject = false) (key : String) :
    b.step? (.field key) = none := by
  cases b with
  | object incoming => cases h
  | _ => rfl

theorem step?_merge (distinct : b.DistinctKeys) (key : String) :
    (merge a b).step? (.field key) =
      match a.step? (.field key), b.step? (.field key) with
      | some x, some y => some (merge x y)
      | some x, none => if b.isObject then some x else none
      | none, y => y := by
  cases mapping : b.isObject with
  | false =>
    have gone := step?_field_of_not_object ((isObject_merge a b).trans mapping) key
    rw [gone, step?_field_of_not_object mapping]
    cases a.step? (.field key) <;> rfl
  | true =>
    obtain ⟨incoming, rfl⟩ : ∃ incoming, b = object incoming := by
      cases b with
      | object incoming => exact ⟨incoming, rfl⟩
      | _ => cases mapping
    cases old : a.isObject with
    | false => rw [merge_of_not_object old, step?_field_of_not_object old]
    | true =>
      cases a with
      | object fields =>
        rw [merge_object]
        exact Fields.get?_mergeFields (distinctKeys_object_iff.mp distinct).1 key
      | _ => cases old

/-! ## Whole paths -/

theorem resolve_merge_keys (distinct : b.DistinctKeys) (keys : OnlyKeys p) :
    ∃ q, LongestShared a b p q ∧
      (merge a b).resolve p =
        match a.resolve p, b.resolve p with
        | some x, some y => some (merge x y)
        | none, some y => some y
        | some x, none => if (b.resolve q).any isObject then some x else none
        | none, none => none := by
  induction p generalizing a b with
  | nil => exact ⟨[], ⟨List.nil_prefix, rfl, rfl, fun r below _ _ => below⟩, rfl⟩
  | cons s p ih =>
    obtain ⟨here, there⟩ := List.forall_mem_cons.mp keys
    cases s with
    | index i => cases here
    | field key =>
      simp only [resolve, step?_merge distinct]
      cases left : a.step? (.field key) with
      | none =>
        refine ⟨[], .stop (.inl left), ?_⟩
        simp only [Option.bind_none]
        cases (b.step? (.field key)).bind (·.resolve p) <;> rfl
      | some x =>
        cases right : b.step? (.field key) with
        | none =>
          refine ⟨[], .stop (.inr right), ?_⟩
          simp only [Option.bind_some, Option.bind_none, resolve, Option.any_some]
          by_cases mapping : b.isObject = true
          · rw [if_pos mapping, Option.bind_some]
            cases x.resolve p with
            | none => rfl
            | some z => exact (if_pos mapping).symm
          · rw [if_neg mapping, Option.bind_none]
            cases x.resolve p with
            | none => rfl
            | some z => exact (if_neg mapping).symm
        | some y =>
          obtain ⟨q, shared, value⟩ := ih (a := x) (distinctKeys_step distinct right) there
          refine ⟨.field key :: q, shared.step left right, ?_⟩
          simp only [Option.bind_some, resolve, right]
          exact value

/-- Deep merge, path by path. What a path of keys leads to in both values is merged there, and what
it leads to in the incoming value only is taken over. What it leads to in the old value only stays
if the incoming value holds a mapping at the longest part of the path that leads somewhere in both,
and is gone otherwise. Where two mappings are merged, the new keys come after the old ones. -/
theorem resolve_merge (a : Value) {b : Value} (distinct : b.DistinctKeys) {p : Path}
    (keys : OnlyKeys p.segments) :
    ∃ q, LongestShared a b p.segments q ∧
      p.resolve (merge a b) =
        (match p.resolve a, p.resolve b with
        | some x, some y => some (merge x y)
        | none, some y => some y
        | some x, none => if (b.resolve q).any isObject then some x else none
        | none, none => none) ∧
      ∀ fields incoming : Fields, p.resolve a = some (object fields) →
        p.resolve b = some (object incoming) →
        ∃ merged : Fields, p.resolve (merge a b) = some (object merged) ∧
          merged.keys = fields.keys ++ incoming.keys.filter (· ∉ fields.keys) := by
  obtain ⟨q, shared, value⟩ := resolve_merge_keys (a := a) distinct keys
  refine ⟨q, shared, value, fun fields incoming left right => ?_⟩
  have merged : p.resolve (merge a b) = some (merge (object fields) (object incoming)) := by
    rw [Path.resolve, value, ← Path.resolve, ← Path.resolve, left, right]
  rw [merge_object] at merged
  have unique := (distinctKeys_object_iff.mp (distinctKeys_resolve distinct right)).1
  exact ⟨_, merged, Fields.keys_mergeFields unique⟩

/-- A text that takes the place of a mapping two keys down, beside an entry that stays. -/
theorem resolve_merge_replaced :
    let a : Value := .object [("m", .object [("k", .object [("z", .bool true)]), ("x", .null)])]
    let b : Value := .object [("m", .object [("w", .array []), ("k", .string "t")])]
    let p : Path := ⟨[.field "m", .field "k", .field "z"]⟩
    b.DistinctKeys ∧ OnlyKeys p.segments ∧
      (∃ q, LongestShared a b p.segments q ∧
        p.resolve (merge a b) = if (b.resolve q).any isObject then some (.bool true) else none) ∧
      p.resolve (merge a b) = none ∧
      (merge a b).resolve [.field "m", .field "x"] = some .null := by
  intro a b p
  have distinct : b.DistinctKeys := by decide
  have keys : OnlyKeys p.segments := by simp [p, OnlyKeys, Segment.isField]
  obtain ⟨q, shared, value, -⟩ := resolve_merge a distinct keys
  exact ⟨distinct, keys, ⟨q, shared, value⟩, by decide +kernel, by decide +kernel⟩

end Value
end RecordFlow
