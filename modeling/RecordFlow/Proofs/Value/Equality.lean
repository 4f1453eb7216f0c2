import Mathlib.Data.List.Perm.Subperm
import RecordFlow.Proofs.Value.Shape
import RecordFlow.Value.Equality

/-!
# Where equality of values is an equivalence

Every comparison of values inherits reflexivity, symmetry and transitivity from its comparison of
numbers. Equality by value is reflexive and symmetric. It is not transitive, because a whole number
beside a binary64 number is rounded first: two whole numbers may both equal the number between them
and still differ from each other. Nothing else stands in the way.
-/
namespace RecordFlow

namespace Value

variable {f g : Number → Number → Bool}

theorem agreeAll_iff {items others : List Value} :
    agreeAll f items others = true ↔ items.length = others.length ∧
      ∀ (i : Nat) (v w : Value), items[i]? = some v → others[i]? = some w →
        agree f v w = true := by
  induction items generalizing others with
  | nil => cases others <;> simp [agreeAll]
  | cons v items ih =>
    cases others with
    | nil => simp [agreeAll]
    | cons w others =>
      rw [agreeAll, Bool.and_eq_true, ih, List.length_cons, List.length_cons, Nat.succ_inj]
      constructor
      · rintro ⟨here, size, there⟩
        refine ⟨size, fun i x y left right => ?_⟩
        cases i with
        | zero => cases left; cases right; exact here
        | succ i => exact there i x y left right
      · rintro ⟨size, each⟩
        exact ⟨each 0 v w rfl rfl, size, fun i => each (i + 1)⟩

theorem agreeIn_iff {fields others : Fields} :
    agreeIn f fields others = true ↔
      ∀ e ∈ fields, ∃ w, others.get? e.1 = some w ∧ agree f e.2 w = true := by
  induction fields with
  | nil => simp [agreeIn]
  | cons e fields ih =>
    rw [agreeIn, Bool.and_eq_true, ih, List.forall_mem_cons]
    refine and_congr_left fun _ => ?_
    cases others.get? e.1 with
    | none => simp
    | some w => simp

/-! ## The laws of any comparison -/

theorem agree_refl (same : ∀ n, f n n = true) (v : Value) (distinct : v.DistinctKeys) :
    agree f v v = true := by
  induction v using induct with
  | null => rfl
  | bool b => exact beq_self_eq_true b
  | number n => exact same n
  | string s => exact beq_self_eq_true s
  | array items ih =>
    rw [DistinctKeys] at distinct
    rw [agree, agreeAll_iff]
    refine ⟨rfl, fun i v w left right => ?_⟩
    cases left.symm.trans right
    have member := List.mem_of_getElem? left
    exact ih v member (distinctKeys_of_mem_items distinct v member)
  | object fields ih =>
    rw [DistinctKeys] at distinct
    rw [agree, Bool.and_eq_true, agreeIn_iff]
    refine ⟨beq_self_eq_true _, fun e member => ⟨e.2, Fields.get?_of_mem distinct.1 member, ?_⟩⟩
    exact ih e member (distinctKeys_of_mem_fields distinct.2 e member)

/-- Two mappings of one size have the same keys if the one has those of the other. -/
theorem mem_keys_of_agreeIn {fields others : Fields} (distinct : fields.keys.Nodup)
    (size : fields.length = others.length) (h : agreeIn f fields others = true) {key : String}
    (member : key ∈ others.keys) : key ∈ fields.keys := by
  have inside : fields.keys ⊆ others.keys := by
    intro key member
    obtain ⟨e, entry, rfl⟩ := List.mem_map.mp member
    obtain ⟨w, found, _⟩ := agreeIn_iff.mp h e entry
    exact List.mem_map.mpr ⟨(e.1, w), Fields.mem_of_get? found, rfl⟩
  have short : others.keys.length ≤ fields.keys.length :=
    Nat.le_of_eq (by simp [Fields.keys, size])
  exact ((List.subperm_of_subset distinct inside).perm_of_length_le short).mem_iff.mpr member

theorem agree_symm (flip : ∀ m n, f m n = true → f n m = true) {v w : Value}
    (hv : v.DistinctKeys) (hw : w.DistinctKeys) (h : agree f v w = true) :
    agree f w v = true := by
  induction v using induct generalizing w with
  | null => cases w <;> first | rfl | cases h
  | bool b =>
    cases w with
    | bool c => rw [agree, beq_iff_eq] at h ⊢; exact h.symm
    | _ => cases h
  | number m =>
    cases w with
    | number n => exact flip m n h
    | _ => cases h
  | string s =>
    cases w with
    | string t => rw [agree, beq_iff_eq] at h ⊢; exact h.symm
    | _ => cases h
  | array items ih =>
    cases w with
    | array others =>
      rw [DistinctKeys] at hv hw
      rw [agree, agreeAll_iff] at h ⊢
      refine ⟨h.1.symm, fun i w v right left => ?_⟩
      have here := List.mem_of_getElem? left
      have there := List.mem_of_getElem? right
      exact ih v here (distinctKeys_of_mem_items hv v here) (distinctKeys_of_mem_items hw w there)
        (h.2 i v w left right)
    | _ => cases h
  | object fields ih =>
    cases w with
    | object others =>
      rw [DistinctKeys] at hv hw
      rw [agree, Bool.and_eq_true, beq_iff_eq] at h ⊢
      refine ⟨h.1.symm, agreeIn_iff.mpr fun e there => ?_⟩
      have key := mem_keys_of_agreeIn hv.1 h.1 h.2 (List.mem_map_of_mem there)
      obtain ⟨e', here, same⟩ := List.mem_map.mp key
      obtain ⟨w, found, inner⟩ := agreeIn_iff.mp h.2 e' here
      rw [same, Fields.get?_of_mem hw.1 there] at found
      cases found
      refine ⟨e'.2, by rw [← same, Fields.get?_of_mem hv.1 here], ?_⟩
      exact ih e' here (distinctKeys_of_mem_fields hv.2 e' here)
        (distinctKeys_of_mem_fields hw.2 e there) inner
    | _ => cases h

theorem agree_trans (trans : ∀ l m n, f l m = true → f m n = true → f l n = true)
    {u v w : Value} (huv : agree f u v = true) (hvw : agree f v w = true) :
    agree f u w = true := by
  induction u using induct generalizing v w with
  | null => cases v <;> first | exact hvw | cases huv
  | bool b =>
    cases v with
    | bool c => rw [agree, beq_iff_eq] at huv; exact huv ▸ hvw
    | _ => cases huv
  | number l =>
    cases v with
    | number m =>
      cases w with
      | number n => exact trans l m n huv hvw
      | _ => cases hvw
    | _ => cases huv
  | string s =>
    cases v with
    | string t => rw [agree, beq_iff_eq] at huv; exact huv ▸ hvw
    | _ => cases huv
  | array items ih =>
    cases v with
    | array middle =>
      cases w with
      | array others =>
        rw [agree, agreeAll_iff] at huv hvw ⊢
        refine ⟨huv.1.trans hvw.1, fun i u w left right => ?_⟩
        obtain ⟨short, _⟩ := List.getElem?_eq_some_iff.mp left
        have between := List.getElem?_eq_getElem (huv.1 ▸ short)
        exact ih u (List.mem_of_getElem? left) (huv.2 i u _ left between)
          (hvw.2 i _ w between right)
      | _ => cases hvw
    | _ => cases huv
  | object fields ih =>
    cases v with
    | object middle =>
      cases w with
      | object others =>
        rw [agree, Bool.and_eq_true, beq_iff_eq] at huv hvw ⊢
        refine ⟨huv.1.trans hvw.1, agreeIn_iff.mpr fun e here => ?_⟩
        obtain ⟨v, between, first⟩ := agreeIn_iff.mp huv.2 e here
        obtain ⟨w, found, second⟩ := agreeIn_iff.mp hvw.2 _ (Fields.mem_of_get? between)
        exact ⟨w, found, ih e here first second⟩
      | _ => cases hvw
    | _ => cases huv

/-- Values agree under two comparisons of numbers at once if they agree under each. -/
theorem agree_and {v w : Value} :
    agree (fun m n => f m n && g m n) v w = true ↔ agree f v w = true ∧ agree g v w = true := by
  induction v using induct generalizing w with
  | null => cases w <;> simp [agree]
  | bool b => cases w <;> simp [agree]
  | number m => cases w <;> simp [agree]
  | string s => cases w <;> simp [agree]
  | array items ih =>
    cases w with
    | array others =>
      simp only [agree, agreeAll_iff]
      constructor
      · rintro ⟨size, each⟩
        have both (i : Nat) (v w : Value) (left : items[i]? = some v)
            (right : others[i]? = some w) : agree f v w = true ∧ agree g v w = true :=
          (ih v (List.mem_of_getElem? left)).mp (each i v w left right)
        exact ⟨⟨size, fun i v w left right => (both i v w left right).1⟩,
          size, fun i v w left right => (both i v w left right).2⟩
      · rintro ⟨⟨size, first⟩, -, second⟩
        exact ⟨size, fun i v w left right =>
          (ih v (List.mem_of_getElem? left)).mpr ⟨first i v w left right, second i v w left right⟩⟩
    | _ => simp [agree]
  | object fields ih =>
    cases w with
    | object others =>
      simp only [agree, Bool.and_eq_true, agreeIn_iff]
      constructor
      · rintro ⟨size, each⟩
        have both : ∀ e ∈ fields, ∃ w, Fields.get? e.1 others = some w ∧
            agree f e.2 w = true ∧ agree g e.2 w = true := by
          intro e here
          obtain ⟨w, found, inner⟩ := each e here
          exact ⟨w, found, (ih e here).mp inner⟩
        exact ⟨⟨size, fun e here => (both e here).imp fun w h => ⟨h.1, h.2.1⟩⟩,
          size, fun e here => (both e here).imp fun w h => ⟨h.1, h.2.2⟩⟩
      · rintro ⟨⟨size, first⟩, -, second⟩
        refine ⟨size, fun e here => ?_⟩
        obtain ⟨w, found, inner⟩ := first e here
        obtain ⟨w', found', inner'⟩ := second e here
        cases found.symm.trans found'
        exact ⟨w, found, (ih e here).mpr ⟨inner, inner'⟩⟩
    | _ => simp [agree]

end Value

/-! ## Numbers by value -/

namespace Number

/-- The numbers are the same once they are rounded to binary64. -/
def sameRounded (m n : Number) : Bool := m.toBinary64.toInt == n.toBinary64.toInt

/-- The numbers are not two different whole numbers. -/
def sameWhole : Number → Number → Bool
  | .whole i, .whole j => i.val == j.val
  | _, _ => true

theorem compare_eq (m n : Number) : (m.compare n == .eq) = (sameRounded m n && sameWhole m n) := by
  have order (i j : Int) : (Ord.compare i j == .eq) = (i == j) := by
    rw [Bool.eq_iff_iff, beq_iff_eq, beq_iff_eq, Int.compare_eq_eq]
  cases m with
  | float x => cases n <;> simp [compare, Binary64.compare, sameRounded, sameWhole, order]
  | whole i =>
    cases n with
    | float y => simp [compare, Binary64.compare, sameRounded, sameWhole, order]
    | whole j =>
      simp only [compare, order, sameWhole]
      cases same : i.val == j.val with
      | false => rw [Bool.and_false]
      | true =>
        rw [Bool.and_true, Subtype.ext (beq_iff_eq.mp same)]
        exact (beq_self_eq_true _).symm

theorem sameRounded_trans (l m n : Number) (hlm : sameRounded l m = true)
    (hmn : sameRounded m n = true) : sameRounded l n = true := by
  rw [sameRounded, beq_iff_eq] at *
  exact hlm.trans hmn

theorem compare_self (n : Number) : (n.compare n == .eq) = true := by
  rw [compare_eq, sameRounded, beq_self_eq_true, Bool.true_and]
  cases n with
  | whole i => exact beq_self_eq_true i.val
  | float x => rfl

theorem compare_flip (m n : Number) (h : (m.compare n == .eq) = true) :
    (n.compare m == .eq) = true := by
  rw [compare_eq, Bool.and_eq_true] at h ⊢
  refine ⟨BEq.symm h.1, ?_⟩
  cases m with
  | float x => cases n <;> rfl
  | whole i =>
    cases n with
    | float y => rfl
    | whole j => exact BEq.symm h.2

end Number

namespace Value

/-- The whole numbers that stand at the same place in both values are the same. -/
def SameWholes (v w : Value) : Prop := agree Number.sameWhole v w = true

instance : DecidableRel SameWholes := fun v w => inferInstanceAs (Decidable (agree _ v w = true))

theorem equals_iff {v w : Value} :
    v.equals w = true ↔ agree Number.sameRounded v w = true ∧ v.SameWholes w := by
  rw [equals, SameWholes, ← agree_and]
  simp only [Number.compare_eq]

/-- Equality by value is reflexive and symmetric. Of two values that both equal a third one, it
holds exactly if no two different whole numbers stand at the same place in them. -/
theorem equals_equivalence_iff {u v : Value} (hu : u.DistinctKeys) (hv : v.DistinctKeys)
    (w : Value) :
    u.equals u = true ∧ u.equals v = v.equals u ∧
      (u.equals v = true → v.equals w = true → (u.equals w = true ↔ u.SameWholes w)) := by
  refine ⟨agree_refl Number.compare_self u hu, ?_, fun huv hvw => ?_⟩
  · rw [Bool.eq_iff_iff]
    exact ⟨agree_symm Number.compare_flip hu hv, agree_symm Number.compare_flip hv hu⟩
  · have rounded := agree_trans Number.sameRounded_trans (equals_iff.mp huv).1 (equals_iff.mp hvw).1
    rw [equals_iff]
    exact ⟨And.right, And.intro rounded⟩

/-- The number `2 ^ 53 + 1` at one place, between them the binary64 number that it is rounded to;
the entries of the mappings are turned round. -/
theorem equals_equivalence_large :
    let whole : Value := .number (.whole ⟨9007199254740993, by decide⟩)
    let float : Value := .number (.float (Whole.toBinary64 ⟨9007199254740992, by decide⟩))
    let u : Value := .object [("a", .array [whole, .null]), ("b", float)]
    let v : Value := .object [("b", whole), ("a", .array [float, .null])]
    let w : Value := .object [("b", float), ("a", .array [whole, .null])]
    u.equals u = true ∧ u.equals v = true ∧ v.equals u = true ∧ v.equals w = true ∧
      u.SameWholes w ∧ u.equals w = true := by
  intro whole float u v w
  have hu : u.DistinctKeys := by decide
  have hv : v.DistinctKeys := by decide
  have huv : u.equals v = true := by decide +kernel
  have hvw : v.equals w = true := by decide +kernel
  have wholes : u.SameWholes w := by decide +kernel
  obtain ⟨itself, turned, chained⟩ := equals_equivalence_iff hu hv w
  exact ⟨itself, huv, turned ▸ huv, hvw, wholes, (chained huv hvw).mpr wholes⟩

/-- Two neighbours above `2 ^ 53` both equal the binary64 number that they are rounded to. -/
theorem equals_not_transitive :
    let u : Value := .number (.whole ⟨9007199254740992, by decide⟩)
    let v : Value := .number (.float (Whole.toBinary64 ⟨9007199254740992, by decide⟩))
    let w : Value := .number (.whole ⟨9007199254740993, by decide⟩)
    u.equals v = true ∧ v.equals w = true ∧ u.equals w = false := by
  decide +kernel

end Value
end RecordFlow
