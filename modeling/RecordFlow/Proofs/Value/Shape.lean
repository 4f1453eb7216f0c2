import RecordFlow.Value.Basic

/-!
# The shape of values

Induction over a value with the items of a sequence and the entries of a mapping at once, the
nesting depth, and values without binary64 numbers. The conditions on values are decidable. Entries
with distinct keys make a mapping in their order.
-/
namespace RecordFlow

namespace Value

/-- Whatever holds of scalars and passes from the items to a sequence and from the entries to a
mapping holds of every value. -/
theorem induct {P : Value → Prop} (null : P null) (bool : ∀ b, P (bool b))
    (number : ∀ n, P (number n)) (string : ∀ s, P (string s))
    (array : ∀ items, (∀ v ∈ items, P v) → P (array items))
    (object : ∀ fields : Fields, (∀ e ∈ fields, P e.2) → P (object fields)) (v : Value) : P v :=
  Value.rec (motive_1 := P) (motive_2 := fun items => ∀ v ∈ items, P v)
    (motive_3 := fun fields => ∀ e ∈ fields, P e.2) (motive_4 := fun e => P e.2)
    null bool number string array object
    nofun (fun _ _ first rest => List.forall_mem_cons.mpr ⟨first, rest⟩)
    nofun (fun _ _ first rest => List.forall_mem_cons.mpr ⟨first, rest⟩)
    (fun _ _ inner => inner) v

mutual

/-- How many sequences and mappings stand around each other. -/
def depth : Value → Nat
  | .array items => depthOfItems items + 1
  | .object fields => depthOfFields fields + 1
  | _ => 0

def depthOfItems : List Value → Nat
  | [] => 0
  | v :: rest => max (depth v) (depthOfItems rest)

def depthOfFields : List (String × Value) → Nat
  | [] => 0
  | (_, v) :: rest => max (depth v) (depthOfFields rest)

end

mutual

/-- Every number in the value is a whole number of the signed or unsigned 64-bit range. -/
def WholeNumbers : Value → Prop
  | .number (.float _) => False
  | .array items => WholeNumbersInItems items
  | .object fields => WholeNumbersInFields fields
  | _ => True

def WholeNumbersInItems : List Value → Prop
  | [] => True
  | v :: rest => WholeNumbers v ∧ WholeNumbersInItems rest

def WholeNumbersInFields : List (String × Value) → Prop
  | [] => True
  | (_, v) :: rest => WholeNumbers v ∧ WholeNumbersInFields rest

end

mutual

def decWholeNumbers : (v : Value) → Decidable v.WholeNumbers
  | .number (.float _) => isFalse id
  | .number (.whole _) | .null | .bool _ | .string _ => isTrue trivial
  | .array items => decWholeNumbersInItems items
  | .object fields => decWholeNumbersInFields fields

def decWholeNumbersInItems : (items : List Value) → Decidable (WholeNumbersInItems items)
  | [] => isTrue trivial
  | v :: rest => @instDecidableAnd _ _ (decWholeNumbers v) (decWholeNumbersInItems rest)

def decWholeNumbersInFields :
    (fields : List (String × Value)) → Decidable (WholeNumbersInFields fields)
  | [] => isTrue trivial
  | (_, v) :: rest => @instDecidableAnd _ _ (decWholeNumbers v) (decWholeNumbersInFields rest)

end

mutual

def decDistinctKeys : (v : Value) → Decidable v.DistinctKeys
  | .number _ | .null | .bool _ | .string _ => isTrue trivial
  | .array items => decDistinctKeysAll items
  | .object fields => @instDecidableAnd _ _ inferInstance (decDistinctKeysIn fields)

def decDistinctKeysAll : (items : List Value) → Decidable (DistinctKeysAll items)
  | [] => isTrue trivial
  | v :: rest => @instDecidableAnd _ _ (decDistinctKeys v) (decDistinctKeysAll rest)

def decDistinctKeysIn : (fields : List (String × Value)) → Decidable (DistinctKeysIn fields)
  | [] => isTrue trivial
  | (_, v) :: rest => @instDecidableAnd _ _ (decDistinctKeys v) (decDistinctKeysIn rest)

end

instance : DecidablePred WholeNumbers := decWholeNumbers

instance : DecidablePred DistinctKeys := decDistinctKeys

theorem depth_le_of_mem_items {items : List Value} {v : Value} (h : v ∈ items) :
    v.depth ≤ depthOfItems items := by
  induction h with
  | head rest => exact Nat.le_max_left _ _
  | tail w _ ih => exact Nat.le_trans ih (Nat.le_max_right _ _)

theorem depth_le_of_mem_fields {fields : Fields} {e : String × Value} (h : e ∈ fields) :
    e.2.depth ≤ depthOfFields fields := by
  induction h with
  | head rest => exact Nat.le_max_left _ _
  | tail w _ ih => exact Nat.le_trans ih (Nat.le_max_right _ _)

theorem wholeNumbers_of_mem_items {items : List Value} (h : WholeNumbersInItems items) :
    ∀ v ∈ items, v.WholeNumbers := by
  induction items with
  | nil => exact nofun
  | cons v rest ih => exact List.forall_mem_cons.mpr ⟨h.1, ih h.2⟩

theorem wholeNumbers_of_mem_fields {fields : Fields} (h : WholeNumbersInFields fields) :
    ∀ e ∈ fields, e.2.WholeNumbers := by
  induction fields with
  | nil => exact nofun
  | cons e rest ih => exact List.forall_mem_cons.mpr ⟨h.1, ih h.2⟩

theorem distinctKeys_of_mem_items {items : List Value} (h : DistinctKeysAll items) :
    ∀ v ∈ items, v.DistinctKeys := by
  induction items with
  | nil => exact nofun
  | cons v rest ih => exact List.forall_mem_cons.mpr ⟨h.1, ih h.2⟩

theorem distinctKeys_of_mem_fields {fields : Fields} (h : DistinctKeysIn fields) :
    ∀ e ∈ fields, e.2.DistinctKeys := by
  induction fields with
  | nil => exact nofun
  | cons e rest ih => exact List.forall_mem_cons.mpr ⟨h.1, ih h.2⟩

theorem distinctKeys_array_iff {items : List Value} :
    (array items).DistinctKeys ↔ ∀ v ∈ items, v.DistinctKeys := by
  rw [DistinctKeys]
  constructor
  · exact distinctKeys_of_mem_items
  · intro each
    induction items with
    | nil => exact trivial
    | cons v rest ih =>
      obtain ⟨here, there⟩ := List.forall_mem_cons.mp each
      exact ⟨here, ih there⟩

theorem distinctKeysIn_iff {fields : Fields} :
    DistinctKeysIn fields ↔ ∀ e ∈ fields, e.2.DistinctKeys := by
  constructor
  · exact distinctKeys_of_mem_fields
  · intro each
    induction fields with
    | nil => exact trivial
    | cons e rest ih =>
      obtain ⟨here, there⟩ := List.forall_mem_cons.mp each
      exact ⟨here, ih there⟩

theorem distinctKeys_object_iff {fields : Fields} :
    (object fields).DistinctKeys ↔ fields.keys.Nodup ∧ ∀ e ∈ fields, e.2.DistinctKeys := by
  rw [DistinctKeys, distinctKeysIn_iff]

end Value

namespace Fields

theorem mem_of_get? {fields : Fields} {key : String} {v : Value}
    (h : fields.get? key = some v) : (key, v) ∈ fields := by
  induction fields with
  | nil => cases h
  | cons e rest ih =>
    rw [get?] at h
    split at h
    · next same =>
      cases h
      exact same ▸ List.mem_cons_self
    · exact List.mem_cons_of_mem _ (ih h)

theorem get?_of_mem {fields : Fields} (distinct : fields.keys.Nodup) {e : String × Value}
    (h : e ∈ fields) : fields.get? e.1 = some e.2 := by
  induction fields with
  | nil => cases h
  | cons first rest ih =>
    obtain ⟨fresh, others⟩ := List.nodup_cons.mp distinct
    rw [get?]
    rcases List.mem_cons.mp h with rfl | later
    · exact if_pos rfl
    · rw [if_neg, ih others later]
      intro same
      exact fresh (same ▸ List.mem_map_of_mem later)

theorem insert_of_notMem {key : String} {fields : Fields} (h : key ∉ fields.keys)
    (value : Value) : fields.insert key value = fields ++ [(key, value)] := by
  induction fields with
  | nil => rfl
  | cons e rest ih =>
    simp only [keys, List.map_cons, List.mem_cons, not_or] at h
    rw [insert, if_neg (Ne.symm h.1), ih h.2, List.cons_append]

theorem foldl_insert {entries fields : Fields} (h : (fields ++ entries).keys.Nodup) :
    entries.foldl (fun fields e => fields.insert e.1 e.2) fields = fields ++ entries := by
  induction entries generalizing fields with
  | nil => exact (List.append_nil _).symm
  | cons e rest ih =>
    have fresh : e.1 ∉ fields.keys := by
      intro member
      rw [keys, List.map_append, List.map_cons] at h
      exact (List.nodup_append.mp h).2.2 _ member _ List.mem_cons_self rfl
    rw [List.foldl_cons, insert_of_notMem fresh, ih, List.append_assoc, List.singleton_append]
    rwa [List.append_assoc, List.singleton_append]

theorem ofEntries_of_nodup {entries : Fields} (h : entries.keys.Nodup) :
    ofEntries entries = entries := foldl_insert h

end Fields
end RecordFlow
