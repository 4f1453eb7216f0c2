import RecordFlow.Proofs.Value.Equality
import RecordFlow.Proofs.Value.Reordered

/-!
# Equality of values without binary64 numbers

Whole numbers are never rounded when they are compared with each other. Values that hold no other
numbers are equal exactly if nothing but the order of entries tells them apart, although equality
looks up the entries of its left side only.
-/
namespace RecordFlow

namespace Value

variable {f : Number → Number → Bool}

theorem ReorderedItems.of_getElem? {items others : List Value}
    (size : items.length = others.length)
    (each : ∀ (i : Nat) (v w : Value), items[i]? = some v → others[i]? = some w → v.Reordered w) :
    ReorderedItems items others := by
  induction items generalizing others with
  | nil =>
    cases others with
    | nil => exact .noItems
    | cons w others => cases size
  | cons v items ih =>
    cases others with
    | nil => cases size
    | cons w others =>
      have rest := ih (Nat.succ.inj size) fun i => each (i + 1)
      exact .item (each 0 v w rfl rfl) rest

/-- Entries that are all matched on the right, in a mapping that is no larger, are reordered. The
right side has no entry of its own, since its keys are as many and all taken. -/
theorem Reordered.of_agreeIn {fields others : Fields} (distinct : fields.keys.Nodup)
    (unique : others.keys.Nodup) (size : fields.length = others.length)
    (matched : agreeIn f fields others = true)
    (inner : ∀ key v w, fields.get? key = some v → others.get? key = some w →
      agree f v w = true → v.Reordered w) :
    Reordered (Value.object fields) (Value.object others) := by
  refine .of_get? distinct unique fun key => ?_
  cases here : fields.get? key with
  | some v =>
    obtain ⟨w, there, same⟩ := agreeIn_iff.mp matched (key, v) (Fields.mem_of_get? here)
    rw [there]
    exact .some (inner key v w here there same)
  | none =>
    cases there : others.get? key with
    | none => exact .none
    | some w =>
      have taken : key ∈ others.keys := List.mem_map_of_mem (Fields.mem_of_get? there)
      obtain ⟨e, member, rfl⟩ :=
        List.mem_map.mp (mem_keys_of_agreeIn distinct size matched taken)
      rw [Fields.get?_of_mem distinct member] at here
      cases here

theorem equals_whole {i j : Whole} :
    equals (number (.whole i)) (number (.whole j)) = true ↔ i = j := by
  rw [equals, agree, beq_iff_eq, Number.compare, Int.compare_eq_eq, Subtype.ext_iff]

theorem reordered_of_equals {v w : Value} (wholes : v.WholeNumbers) (wholes' : w.WholeNumbers)
    (hv : v.DistinctKeys) (hw : w.DistinctKeys) (h : v.equals w = true) : v.Reordered w := by
  induction v using induct generalizing w with
  | null =>
    cases w with
    | null => exact .null
    | _ => cases h
  | bool b =>
    cases w with
    | bool c =>
      obtain rfl : b = c := beq_iff_eq.mp h
      exact .bool b
    | _ => cases h
  | number m =>
    cases w with
    | number n =>
      cases m with
      | float x => exact wholes.elim
      | whole i =>
        cases n with
        | float y => exact wholes'.elim
        | whole j =>
          obtain rfl := equals_whole.mp h
          exact .number _
    | _ => cases h
  | string s =>
    cases w with
    | string t =>
      obtain rfl : s = t := beq_iff_eq.mp h
      exact .string s
    | _ => cases h
  | array items ih =>
    cases w with
    | array others =>
      obtain ⟨size, each⟩ := agreeAll_iff.mp h
      refine .array (.of_getElem? size fun i v w left right => ?_)
      have here := List.mem_of_getElem? left
      have there := List.mem_of_getElem? right
      exact ih v here (wholeNumbers_of_mem_items wholes v here)
        (wholeNumbers_of_mem_items wholes' w there) (distinctKeys_array_iff.mp hv v here)
        (distinctKeys_array_iff.mp hw w there) (each i v w left right)
    | _ => cases h
  | object fields ih =>
    cases w with
    | object others =>
      rw [equals, agree, Bool.and_eq_true, beq_iff_eq] at h
      obtain ⟨distinct, inside⟩ := distinctKeys_object_iff.mp hv
      obtain ⟨unique, inside'⟩ := distinctKeys_object_iff.mp hw
      refine .of_agreeIn distinct unique h.1 h.2 fun key v w left right same => ?_
      have here := Fields.mem_of_get? left
      have there := Fields.mem_of_get? right
      exact ih (key, v) here (wholeNumbers_of_mem_fields wholes _ here)
        (wholeNumbers_of_mem_fields wholes' _ there) (inside _ here) (inside' _ there) same
    | _ => cases h

/-- Two values without binary64 numbers are equal exactly if they are the same but for the order of
entries, in the mappings at any depth. -/
theorem equals_iff_reordered {v w : Value} (wholes : v.WholeNumbers) (wholes' : w.WholeNumbers)
    (hv : v.DistinctKeys) (hw : w.DistinctKeys) : v.equals w = true ↔ v.Reordered w := by
  constructor
  · exact reordered_of_equals wholes wholes' hv hw
  · intro same
    have itself : v.equals v = true := agree_refl Number.compare_self v hv
    have moved : v.equals v = v.equals w := agree_reordered _ (.refl v hv) same
    exact moved ▸ itself

/-- A sequence of mappings whose entries stand the other way round, and numbers at both ends of the
range. -/
theorem equals_iff_reordered_nested :
    let low : Value := .number (.whole ⟨-9223372036854775808, by decide⟩)
    let high : Value := .number (.whole ⟨18446744073709551615, by decide⟩)
    let v : Value := .object [("a", .array [.object [("p", low), ("q", high)], .null]), ("b", high)]
    let w : Value := .object [("b", high), ("a", .array [.object [("q", high), ("p", low)], .null])]
    v.WholeNumbers ∧ w.WholeNumbers ∧ v.DistinctKeys ∧ w.DistinctKeys ∧ v.equals w = true ∧
      v.Reordered w := by
  intro low high v w
  have wholes : v.WholeNumbers := by decide
  have wholes' : w.WholeNumbers := by decide
  have hv : v.DistinctKeys := by decide
  have hw : w.DistinctKeys := by decide
  have same : v.equals w = true := by decide +kernel
  exact ⟨wholes, wholes', hv, hw, same, (equals_iff_reordered wholes wholes' hv hw).mp same⟩

end Value
end RecordFlow
