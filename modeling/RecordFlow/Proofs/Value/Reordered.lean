import Mathlib.Data.List.Nodup
import RecordFlow.Path.Access
import RecordFlow.Proofs.Value.Shape
import RecordFlow.Value.Equality

/-!
# Values with their entries in another order

Two values are reorderings of each other when nothing but the order of the entries of their mappings
tells them apart. A look-up in reorderings gives reorderings, mappings whose look-ups are
reorderings are reorderings themselves, and no comparison of values sees the order.
-/
namespace RecordFlow
namespace Value

mutual

/-- The same value but for the order of entries, in the mappings at any depth. A mapping has no key
twice. -/
inductive Reordered : Value → Value → Prop
  | null : Reordered null null
  | bool (b : Bool) : Reordered (bool b) (bool b)
  | number (n : Number) : Reordered (number n) (number n)
  | string (s : String) : Reordered (string s) (string s)
  | array {items others : List Value} (same : ReorderedItems items others) :
      Reordered (array items) (array others)
  | object {fields moved others : Fields} (distinct : fields.keys.Nodup)
      (moves : fields.Perm moved) (same : ReorderedEntries moved others) :
      Reordered (object fields) (object others)

/-- Reorderings in the same places of two sequences. -/
inductive ReorderedItems : List Value → List Value → Prop
  | noItems : ReorderedItems [] []
  | item {v w : Value} {items others : List Value} (first : Reordered v w)
      (rest : ReorderedItems items others) : ReorderedItems (v :: items) (w :: others)

/-- Reorderings under the same keys, which stand in the same order. -/
inductive ReorderedEntries : Fields → Fields → Prop
  | noEntries : ReorderedEntries [] []
  | entry (key : String) {v w : Value} {fields others : Fields} (first : Reordered v w)
      (rest : ReorderedEntries fields others) :
      ReorderedEntries ((key, v) :: fields) ((key, w) :: others)

end

/-- A value without repeated keys is a reordering of itself. -/
theorem Reordered.refl (v : Value) (distinct : v.DistinctKeys) : v.Reordered v := by
  induction v using induct with
  | null => exact .null
  | bool b => exact .bool b
  | number n => exact .number n
  | string s => exact .string s
  | array items ih =>
    refine .array ?_
    rw [DistinctKeys] at distinct
    induction items with
    | nil => exact .noItems
    | cons v items later =>
      obtain ⟨here, there⟩ := List.forall_mem_cons.mp ih
      exact .item (here distinct.1) (later there distinct.2)
  | object fields ih =>
    rw [DistinctKeys] at distinct
    refine .object distinct.1 (.refl fields) ?_
    have inside := distinct.2
    clear distinct
    induction fields with
    | nil => exact .noEntries
    | cons e fields later =>
      obtain ⟨here, there⟩ := List.forall_mem_cons.mp ih
      exact .entry e.1 (here inside.1) (later there inside.2)

end Value

/-! ## Looking up -/

namespace Fields

/-- Where no key is repeated, the order of the entries does not matter to a look-up. -/
theorem get?_perm {fields moved : Fields} (moves : fields.Perm moved)
    (distinct : fields.keys.Nodup) (key : String) : fields.get? key = moved.get? key := by
  induction moves with
  | nil => rfl
  | cons e moves ih =>
    simp only [keys, List.map_cons, List.nodup_cons] at distinct
    simp only [get?, ih distinct.2]
  | swap e f rest =>
    have apart : e.1 ≠ f.1 := by
      intro same
      simp [keys, same] at distinct
    by_cases first : e.1 = key
    · have second : f.1 ≠ key := fun same => apart (first.trans same.symm)
      simp only [get?, if_pos first, if_neg second]
    · simp only [get?, if_neg first]
  | trans moves _ first second =>
    have still := (moves.map Prod.fst).nodup distinct
    exact (first distinct).trans (second still)

/-- Mappings without repeated keys that give the same to every look-up differ in the order only. -/
theorem perm_of_get? {fields others : Fields} (distinct : fields.keys.Nodup)
    (unique : others.keys.Nodup) (same : ∀ key, fields.get? key = others.get? key) :
    fields.Perm others := by
  refine (List.perm_ext_iff_of_nodup (.of_map _ distinct) (.of_map _ unique)).mpr fun e => ?_
  constructor
  · intro member
    apply mem_of_get?
    rw [← same, get?_of_mem distinct member]
  · intro member
    apply mem_of_get?
    rw [same, get?_of_mem unique member]

theorem get?_map_keys (pick : String → Value) (fields : Fields) (key : String) :
    get? key (fields.map fun e => (e.1, pick e.1)) = (fields.get? key).map fun _ => pick key := by
  induction fields with
  | nil => rfl
  | cons e rest ih =>
    simp only [List.map_cons, get?]
    split
    · next same => rw [same, Option.map_some]
    · exact ih

end Fields

namespace Value

theorem ReorderedEntries.get? {fields others : Fields} (h : ReorderedEntries fields others)
    (key : String) : Option.Rel Reordered (fields.get? key) (others.get? key) := by
  induction fields generalizing others with
  | nil => cases h with | noEntries => exact .none
  | cons e fields ih =>
    cases h with
    | entry k first rest =>
      simp only [Fields.get?]
      split
      · exact .some first
      · exact ih rest

theorem ReorderedEntries.length_eq {fields others : Fields} (h : ReorderedEntries fields others) :
    fields.length = others.length := by
  induction fields generalizing others with
  | nil => cases h with | noEntries => rfl
  | cons e fields ih => cases h with | entry k first rest => exact congrArg (· + 1) (ih rest)

theorem ReorderedItems.getElem? {items others : List Value} (h : ReorderedItems items others)
    (i : Nat) : Option.Rel Reordered items[i]? others[i]? := by
  induction items generalizing others i with
  | nil => cases h with | noItems => exact .none
  | cons v items ih =>
    cases h with
    | item first rest =>
      cases i with
      | zero => exact .some first
      | succ i => exact ih rest i

theorem Reordered.rel_of_isSome_iff {a b : Option Value} (both : a.isSome ↔ b.isSome)
    (inner : ∀ x y, a = some x → b = some y → x.Reordered y) : Option.Rel Reordered a b := by
  cases a with
  | none =>
    cases b with
    | none => exact .none
    | some y => cases both.mpr rfl
  | some x =>
    cases b with
    | none => cases both.mp rfl
    | some y => exact .some (inner x y rfl rfl)

/-- Mappings that are reorderings have reorderings under every key. -/
theorem Reordered.get? {fields others : Fields}
    (h : Reordered (Value.object fields) (Value.object others)) (key : String) :
    Option.Rel Reordered (fields.get? key) (others.get? key) := by
  cases h with
  | object distinct moves same =>
    rw [Fields.get?_perm moves distinct]
    exact same.get? key

theorem ReorderedEntries.of_keys {others : Fields} {pick : String → Value}
    (each : ∀ e ∈ others, (pick e.1).Reordered e.2) :
    ReorderedEntries (others.map fun e => (e.1, pick e.1)) others := by
  induction others with
  | nil => exact .noEntries
  | cons e others ih =>
    obtain ⟨here, there⟩ := List.forall_mem_cons.mp each
    exact .entry e.1 here (ih there)

/-- Mappings are reorderings when they have reorderings under every key. The entries of the first
are brought to the order of the second. -/
theorem Reordered.of_get? {fields others : Fields} (distinct : fields.keys.Nodup)
    (unique : others.keys.Nodup)
    (same : ∀ key, Option.Rel Reordered (fields.get? key) (others.get? key)) :
    Reordered (Value.object fields) (Value.object others) := by
  let pick (key : String) : Value := (fields.get? key).getD .null
  let aligned : Fields := others.map fun e => (e.1, pick e.1)
  have keys : aligned.keys = others.keys := List.map_map
  have reads : ∀ key, fields.get? key = (others.get? key).map fun _ => pick key := by
    intro key
    have both := same key
    simp only [pick]
    generalize fields.get? key = a, others.get? key = b at both ⊢
    cases both <;> rfl
  have moves : fields.Perm aligned := by
    refine Fields.perm_of_get? distinct (keys ▸ unique) fun key => ?_
    rw [reads, Fields.get?_map_keys]
  have inner : ∀ e ∈ others, (pick e.1).Reordered e.2 := by
    intro e member
    have both := same e.1
    rw [reads, Fields.get?_of_mem unique member] at both
    cases both with
    | some inner => exact inner
  exact .object distinct moves (.of_keys inner)

theorem Reordered.step? {v w : Value} (h : v.Reordered w) (s : Segment) :
    Option.Rel Reordered (v.step? s) (w.step? s) := by
  cases s with
  | field key =>
    cases h with
    | object distinct moves same =>
      have mappings := Reordered.object distinct moves same
      exact mappings.get? key
    | _ => exact .none
  | index i =>
    cases h with
    | array same => exact same.getElem? i.toNat
    | _ => exact .none

theorem Reordered.resolve {v w : Value} (h : v.Reordered w) (segments : List Segment) :
    Option.Rel Reordered (v.resolve segments) (w.resolve segments) := by
  induction segments generalizing v w with
  | nil => exact .some h
  | cons s rest ih =>
    have found := h.step? s
    rw [Value.resolve, Value.resolve]
    generalize v.step? s = a at found ⊢
    generalize w.step? s = b at found ⊢
    cases found with
    | none => exact .none
    | some inner => exact ih inner

/-! ## Comparing -/

theorem agreeIn_perm (numbers : Number → Number → Bool) {fields moved : Fields}
    (moves : fields.Perm moved) (against : Fields) :
    agreeIn numbers fields against = agreeIn numbers moved against := by
  induction moves with
  | nil => rfl
  | cons e moves ih => rw [agreeIn, agreeIn, ih]
  | swap e f rest => simp only [agreeIn, Bool.and_left_comm]
  | trans _ _ first second => exact first.trans second

/-- No comparison of values sees the order of entries, on either side. -/
theorem agree_reordered (numbers : Number → Number → Bool) {v w : Value} (left : v.Reordered w) :
    ∀ ⦃x y : Value⦄, x.Reordered y → agree numbers v x = agree numbers w y := by
  -- entries are looked up on the right, so there only the result of every look-up counts
  induction left using Reordered.rec
    (motive_2 := fun items others _ => ∀ ⦃xs ys : List Value⦄, ReorderedItems xs ys →
      agreeAll numbers items xs = agreeAll numbers others ys)
    (motive_3 := fun fields others _ => ∀ ⦃xs ys : Fields⦄,
      (∀ key, Option.Rel Reordered (xs.get? key) (ys.get? key)) →
      agreeIn numbers fields xs = agreeIn numbers others ys) with
  | null =>
    intro x y right
    cases right <;> rfl
  | bool b =>
    intro x y right
    cases right <;> rfl
  | number n =>
    intro x y right
    cases right <;> rfl
  | string s =>
    intro x y right
    cases right <;> rfl
  | array same ih =>
    intro x y right
    cases right with
    | array others => exact ih others
    | _ => rfl
  | object distinct moves same ih =>
    intro x y right
    cases right with
    | object unique shuffled others =>
      have mappings := Reordered.object unique shuffled others
      rw [agree, agree, moves.length_eq, same.length_eq, shuffled.length_eq, others.length_eq,
        agreeIn_perm numbers moves, ih mappings.get?]
    | _ => rfl
  | noItems =>
    rename_i xs ys right
    cases right <;> rfl
  | item first rest ih later =>
    rename_i xs ys right
    cases right with
    | noItems => rfl
    | item here there => rw [agreeAll, agreeAll, ih here, later there]
  | noEntries =>
    rfl
  | entry key first rest ih later =>
    rename_i xs ys right
    have found := right key
    rw [agreeIn, agreeIn, later right]
    generalize xs.get? key = a at found ⊢
    generalize ys.get? key = b at found ⊢
    cases found with
    | none => rfl
    | some inner => simp only [ih inner]

end Value
end RecordFlow
