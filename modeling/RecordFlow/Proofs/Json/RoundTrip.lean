import RecordFlow.Proofs.Json.Compact
import RecordFlow.Proofs.Value.Shape

/-!
# Reading back compact JSON

The compact text of a value is read as that value if its mappings repeat no key, its numbers are
whole and it is not nested too deep.
-/
namespace RecordFlow.Json

open Utf8 (encode encode_cons encode_append)

/-! ## What stands between values -/

/-- Neither blank nor the end of a sequence. -/
def OpensValue (b : UInt8) : Prop := isBlank b = false ∧ b ≠ 0x5D

theorem nextItem_first {b : UInt8} (opens : OpensValue b) (s : Bytes) :
    nextItem true (b :: s) = .ok (.more (b :: s)) := by
  have text : skipBlank (b :: s) = b :: s := List.dropWhile_cons_of_neg (by simp [opens.1])
  rw [nextItem, text]
  split
  · next h => cases h
  · next h => cases h; exact absurd rfl opens.2
  · next h => cases h; rfl
  · rfl

theorem nextItem_later {b : UInt8} (opens : OpensValue b) (s : Bytes) :
    nextItem false (0x2C :: b :: s) = .ok (.more (b :: s)) := by
  have text : skipBlank (b :: s) = b :: s := List.dropWhile_cons_of_neg (by simp [opens.1])
  have comma : skipBlank (0x2C :: b :: s) = 0x2C :: b :: s := rfl
  rw [nextItem, comma]
  split
  · next h => cases h
  · next h => exact absurd (List.cons.inj h).1 (by decide)
  · next h =>
    cases h
    rw [if_neg (by decide), text]
    split
    · next h => cases h
    · next h => cases h; exact absurd rfl opens.2
    · rfl
  · next other => exact absurd rfl (other _)

theorem nextKey_first (s : Bytes) : nextKey true (0x22 :: s) = .ok (.more s) := rfl

theorem nextKey_later (s : Bytes) : nextKey false (0x2C :: 0x22 :: s) = .ok (.more s) := rfl

theorem colon_colon (s : Bytes) : colon (0x3A :: s) = .ok s := rfl

/-! ## Sequences and mappings

`item` reads back the values that are written; the readers of the parts differ in their depth only.
-/

/-- The reader gives the value back from its text, whatever follows that ends a number. -/
def ReadsBack (item : Bytes → Step Value) (v : Value) : Prop :=
  ∀ rest, EndsNumber rest → item (encode (compactText v) ++ rest) = .ok (v, rest)

theorem encode_compactText {v : Value} (whole : v.WholeNumbers) :
    ∃ b s, encode (compactText v) = b :: s ∧ OpensValue b := by
  obtain ⟨c, cs, text, ⟨least, greatest⟩, open'⟩ := compactText_first whole
  have code : (UInt8.ofNat c.toNat).toNat = c.toNat := Utf8.toNat_byte (by omega)
  have differs {k : UInt8} (h : k.toNat ≤ 0x20) : UInt8.ofNat c.toNat ≠ k := by
    rintro rfl
    omega
  refine ⟨UInt8.ofNat c.toNat, encode cs, ?_, ?_, ?_⟩
  · rw [text, encode_cons, Utf8.encodeChar_ascii (by omega)]
    rfl
  · simp [isBlank, differs (k := 0x20) (by decide), differs (k := 0x0A) (by decide),
      differs (k := 0x09) (by decide), differs (k := 0x0D) (by decide)]
  · intro bracket
    have same := congrArg UInt8.toNat bracket
    rw [code] at same
    exact open' (Char.toNat_inj.mp same)

theorem endsNumber_laterItems (vs : List Value) (rest : Bytes) :
    EndsNumber (encode (laterItems vs) ++ 0x5D :: rest) := by
  cases vs with
  | nil => exact ⟨by decide, by decide, by decide, by decide⟩
  | cons v vs => exact ⟨by decide, by decide, by decide, by decide⟩

theorem endsNumber_laterEntries (es : Fields) (rest : Bytes) :
    EndsNumber (encode (laterEntries es) ++ 0x7D :: rest) := by
  cases es with
  | nil => exact ⟨by decide, by decide, by decide, by decide⟩
  | cons e es => exact ⟨by decide, by decide, by decide, by decide⟩

variable {item : Bytes → Step Value}

/-- One more item: what stands before it, the item itself, and the items after it. -/
theorem items_more {first : Bool} {budget : Nat} {s opened after rest : Bytes} {v : Value}
    {vs : List Value} (next : nextItem first s = .ok (.more opened))
    (read : item opened = .ok (v, after))
    (others : items item budget false after = .ok (vs, rest)) :
    items item (budget + 1) first s = .ok (v :: vs, rest) := by
  rw [items]
  simp only [next, bind, Except.bind, read, others]
  rfl

theorem items_later {vs : List Value} (reads : ∀ v ∈ vs, ReadsBack item v)
    (whole : ∀ v ∈ vs, v.WholeNumbers) {budget : Nat} (enough : vs.length < budget)
    (rest : Bytes) :
    items item budget false (encode (laterItems vs) ++ 0x5D :: rest) = .ok (vs, rest) := by
  induction vs generalizing budget with
  | nil =>
    cases budget with
    | zero => cases enough
    | succ budget => rfl
  | cons v vs ih =>
    cases budget with
    | zero => cases enough
    | succ budget =>
      obtain ⟨reads_v, reads⟩ := List.forall_mem_cons.mp reads
      obtain ⟨whole_v, whole⟩ := List.forall_mem_cons.mp whole
      obtain ⟨b, s, text, opens⟩ := encode_compactText whole_v
      have read := reads_v _ (endsNumber_laterItems vs rest)
      have bytes : encode (laterItems (v :: vs)) ++ 0x5D :: rest =
          0x2C :: (encode (compactText v) ++ (encode (laterItems vs) ++ 0x5D :: rest)) := by
        rw [laterItems, List.flatMap_cons, encode_append, encode_cons]
        simp only [List.append_assoc]
        rfl
      rw [text, List.cons_append] at read bytes
      rw [bytes]
      exact items_more (nextItem_later opens _) read
        (ih reads whole (Nat.lt_of_succ_lt_succ enough))

theorem items_compact {vs : List Value} (reads : ∀ v ∈ vs, ReadsBack item v)
    (whole : ∀ v ∈ vs, v.WholeNumbers) {budget : Nat} (enough : vs.length < budget)
    (rest : Bytes) :
    items item budget true (encode (compactItems vs) ++ 0x5D :: rest) = .ok (vs, rest) := by
  cases budget with
  | zero => cases enough
  | succ budget =>
    cases vs with
    | nil => rfl
    | cons v vs =>
      obtain ⟨reads_v, reads⟩ := List.forall_mem_cons.mp reads
      obtain ⟨whole_v, whole⟩ := List.forall_mem_cons.mp whole
      obtain ⟨b, s, text, opens⟩ := encode_compactText whole_v
      have read := reads_v _ (endsNumber_laterItems vs rest)
      rw [text, List.cons_append] at read
      rw [compactItems_cons, encode_append, List.append_assoc, text, List.cons_append]
      exact items_more (nextItem_first opens _) read
        (items_later reads whole (Nat.lt_of_succ_lt_succ enough) rest)

theorem encode_entryText (e : String × Value) (rest : Bytes) :
    encode (entryText e) ++ rest =
      0x22 :: (encode (e.1.toList.flatMap escape) ++
        0x22 :: 0x3A :: (encode (compactText e.2) ++ rest)) := by
  rw [entryText, encode_append, List.append_assoc, encode_quoted]
  rfl

/-- One more entry: its key was opened, and its text is followed by the entries after it. -/
theorem entries_more {first : Bool} {budget : Nat} {s after rest : Bytes} {e : String × Value}
    {es : Fields}
    (next : nextKey first s = .ok (.more (encode (e.1.toList.flatMap escape) ++
      0x22 :: 0x3A :: (encode (compactText e.2) ++ after))))
    (read : item (encode (compactText e.2) ++ after) = .ok (e.2, after))
    (others : entries item budget false after = .ok (es, rest)) :
    entries item (budget + 1) first s = .ok (e :: es, rest) := by
  rw [entries]
  simp only [next, bind, Except.bind, stringBody_escaped, colon_colon, read, others]
  rfl

theorem entries_later {es : Fields} (reads : ∀ e ∈ es, ReadsBack item e.2) {budget : Nat}
    (enough : es.length < budget) (rest : Bytes) :
    entries item budget false (encode (laterEntries es) ++ 0x7D :: rest) = .ok (es, rest) := by
  induction es generalizing budget with
  | nil =>
    cases budget with
    | zero => cases enough
    | succ budget => rfl
  | cons e es ih =>
    cases budget with
    | zero => cases enough
    | succ budget =>
      obtain ⟨reads_e, reads⟩ := List.forall_mem_cons.mp reads
      have bytes : encode (laterEntries (e :: es)) ++ 0x7D :: rest =
          0x2C :: (encode (entryText e) ++ (encode (laterEntries es) ++ 0x7D :: rest)) := by
        rw [laterEntries, List.flatMap_cons, encode_append, encode_cons]
        simp only [List.append_assoc]
        rfl
      rw [bytes, encode_entryText]
      exact entries_more (nextKey_later _) (reads_e _ (endsNumber_laterEntries es rest))
        (ih reads (Nat.lt_of_succ_lt_succ enough))

theorem entries_compact {es : Fields} (reads : ∀ e ∈ es, ReadsBack item e.2) {budget : Nat}
    (enough : es.length < budget) (rest : Bytes) :
    entries item budget true (encode (compactFields es) ++ 0x7D :: rest) = .ok (es, rest) := by
  cases budget with
  | zero => cases enough
  | succ budget =>
    cases es with
    | nil => rfl
    | cons e es =>
      obtain ⟨reads_e, reads⟩ := List.forall_mem_cons.mp reads
      rw [compactFields_cons, encode_append, List.append_assoc, encode_entryText]
      exact entries_more (nextKey_first _) (reads_e _ (endsNumber_laterEntries es rest))
        (entries_later reads (Nat.lt_of_succ_lt_succ enough) rest)

/-! ## The budget -/

theorem length_le_encode_commas {α : Type} (text : α → List Char) (as : List α) :
    as.length ≤ (encode (as.flatMap fun a => ',' :: text a)).length := by
  induction as with
  | nil => exact Nat.le_refl _
  | cons a as ih =>
    rw [List.flatMap_cons, encode_append, List.length_append, encode_cons,
      Utf8.encodeChar_ascii (by decide)]
    simp only [List.length_append, List.length_cons]
    omega

theorem length_le_compactItems (vs : List Value) (whole : ∀ v ∈ vs, v.WholeNumbers) :
    vs.length ≤ (encode (compactItems vs)).length := by
  cases vs with
  | nil => exact Nat.le_refl _
  | cons v vs =>
    obtain ⟨b, s, text, -⟩ := encode_compactText (whole v List.mem_cons_self)
    have later := length_le_encode_commas compactText vs
    rw [compactItems_cons, encode_append, text, laterItems]
    simp only [List.length_append, List.length_cons]
    omega

theorem length_le_compactFields (es : Fields) :
    es.length ≤ (encode (compactFields es)).length := by
  cases es with
  | nil => exact Nat.le_refl _
  | cons e es =>
    have later := length_le_encode_commas entryText es
    rw [compactFields_cons, encode_append, encode_entryText, laterEntries]
    simp only [List.length_append, List.length_cons]
    omega

/-! ## Values -/

theorem value_string (depth : Nat) (s : Bytes) :
    value depth (0x22 :: s) = (stringBody s).map fun (text, rest) => (.string text, rest) := by
  cases depth <;> rfl

theorem value_array (depth : Nat) (s : Bytes) :
    value (depth + 1) (0x5B :: s) =
      (items (value depth) (s.length + 1) true s).map fun (vs, rest) => (.array vs, rest) := rfl

theorem value_object (depth : Nat) (s : Bytes) :
    value (depth + 1) (0x7B :: s) =
      (entries (value depth) (s.length + 1) true s).map fun (es, rest) =>
        (.object (Fields.ofEntries es), rest) := rfl

theorem value_number {b : UInt8} (depth : Nat) (s : Bytes) (starts : b = 0x2D ∨ isDigit b = true) :
    value depth (b :: s) = (number (b :: s)).map fun (n, rest) => (.number n, rest) := by
  have not_other (k : UInt8) (h : (k = 0x2D || isDigit k) = false) : b ≠ k := by
    rintro rfl
    simp only [Bool.or_eq_false_iff, decide_eq_false_iff_not] at h
    rcases starts with minus | digit
    · exact h.1 minus
    · exact absurd digit (by simp [h.2])
  have visible : isBlank b = false := by
    simp [isBlank, not_other 0x20 (by decide), not_other 0x0A (by decide),
      not_other 0x09 (by decide), not_other 0x0D (by decide)]
  have text : skipBlank (b :: s) = b :: s := List.dropWhile_cons_of_neg (by simp [visible])
  rw [value.eq_def, text]
  split
  · next h => cases h
  -- the six bytes that open a value of another kind
  iterate 6
    · next h => cases h; exact absurd rfl (not_other _ (by decide))
  · next h =>
    cases h
    rw [if_pos (by simpa using starts)]

theorem encode_wholeText (i : Whole) :
    ∃ b s, encode (wholeText i.val) = b :: s ∧ (b = 0x2D ∨ isDigit b = true) := by
  rw [wholeText]
  split
  · exact ⟨_, _, rfl, .inl rfl⟩
  · obtain ⟨c, cs, text, -⟩ := naturalText_eq_cons i.val.natAbs
    have digit : c.isDigit = true :=
      isDigit_of_mem_naturalText (n := i.val.natAbs) (by rw [text]; exact List.mem_cons_self)
    obtain ⟨bytes, isDigit, -⟩ := encodeChar_digit digit
    rw [text, encode_cons, bytes]
    exact ⟨_, _, rfl, .inr isDigit⟩

theorem readsBack_whole (depth : Nat) (i : Whole) :
    ReadsBack (value depth) (.number (.whole i)) := by
  intro rest ends
  have read := number_wholeText i ends
  obtain ⟨b, s, text, starts⟩ := encode_wholeText i
  rw [compactText, numberText]
  rw [text, List.cons_append] at read ⊢
  rw [value_number depth _ starts, read]
  rfl

theorem readsBack_string (depth : Nat) (s : String) : ReadsBack (value depth) (.string s) := by
  intro rest _
  rw [compactText, encode_quoted, value_string, stringBody_escaped]
  rfl

theorem readsBack_array {depth : Nat} {vs : List Value}
    (reads : ∀ v ∈ vs, ReadsBack (value depth) v) (whole : ∀ v ∈ vs, v.WholeNumbers) :
    ReadsBack (value (depth + 1)) (.array vs) := by
  intro rest _
  have enough : vs.length < (encode (compactItems vs) ++ 0x5D :: rest).length + 1 := by
    have := length_le_compactItems vs whole
    rw [List.length_append]
    omega
  have bytes : encode (compactText (.array vs)) ++ rest =
      0x5B :: (encode (compactItems vs) ++ 0x5D :: rest) := by
    rw [compactText, encode_cons, encode_append, List.append_assoc, List.append_assoc]
    rfl
  rw [bytes, value_array, items_compact reads whole enough]
  rfl

theorem readsBack_object {depth : Nat} {es : Fields} (distinct : es.keys.Nodup)
    (reads : ∀ e ∈ es, ReadsBack (value depth) e.2) :
    ReadsBack (value (depth + 1)) (.object es) := by
  intro rest _
  have enough : es.length < (encode (compactFields es) ++ 0x7D :: rest).length + 1 := by
    have := length_le_compactFields es
    rw [List.length_append]
    omega
  have bytes : encode (compactText (.object es)) ++ rest =
      0x7B :: (encode (compactFields es) ++ 0x7D :: rest) := by
    rw [compactText, encode_cons, encode_append, List.append_assoc, List.append_assoc]
    rfl
  rw [bytes, value_object, entries_compact reads enough]
  simp only [Except.map, Fields.ofEntries_of_nodup distinct]

theorem readsBack_compact (v : Value) (distinct : v.DistinctKeys) (whole : v.WholeNumbers)
    {depth : Nat} (shallow : v.depth ≤ depth) : ReadsBack (value depth) v := by
  induction v using Value.induct generalizing depth with
  | null => intro rest _; cases depth <;> rfl
  | bool b => intro rest _; cases b <;> cases depth <;> rfl
  | number n =>
    cases n with
    | float x => exact whole.elim
    | whole i => exact readsBack_whole depth i
  | string s => exact readsBack_string depth s
  | array vs ih =>
    cases depth with
    | zero => cases shallow
    | succ depth =>
      have distinct := Value.distinctKeys_of_mem_items distinct
      have whole := Value.wholeNumbers_of_mem_items whole
      apply readsBack_array _ whole
      intro v member
      exact ih v member (distinct v member) (whole v member)
        (Nat.le_trans (Value.depth_le_of_mem_items member) (Nat.le_of_succ_le_succ shallow))
  | object es ih =>
    cases depth with
    | zero => cases shallow
    | succ depth =>
      have inner := Value.distinctKeys_of_mem_fields distinct.2
      have whole := Value.wholeNumbers_of_mem_fields whole
      apply readsBack_object distinct.1
      intro e member
      exact ih e member (inner e member) (whole e member)
        (Nat.le_trans (Value.depth_le_of_mem_fields member) (Nat.le_of_succ_le_succ shallow))

end RecordFlow.Json

namespace RecordFlow

/-- What JSON text gives back: no mapping repeats a key, numbers are whole, and at most 127
containers stand around each other. -/
structure Value.Portable (v : Value) : Prop where
  distinct : v.DistinctKeys
  whole : v.WholeNumbers
  shallow : v.depth ≤ 127

instance (v : Value) : Decidable v.Portable :=
  decidable_of_iff (v.DistinctKeys ∧ v.WholeNumbers ∧ v.depth ≤ 127)
    ⟨fun ⟨distinct, whole, shallow⟩ => ⟨distinct, whole, shallow⟩,
      fun h => ⟨h.distinct, h.whole, h.shallow⟩⟩

namespace Json

/-- Blanks may follow a document. -/
theorem document_followed {v : Value} (h : v.Portable) {rest : Bytes} (ends : EndsNumber rest)
    (blank : skipBlank rest = []) :
    document (Utf8.encode (compactText v) ++ rest) = .ok v := by
  have read := readsBack_compact v h.distinct h.whole h.shallow rest ends
  have limit : depthLimit = 127 := rfl
  have ended : finish v rest = .ok v := by
    unfold finish
    rw [blank]
  rw [document, limit, read]
  exact ended

theorem document_compact {v : Value} (h : v.Portable) :
    document (Utf8.encode (compactText v)) = .ok v := by
  have alone : document (Utf8.encode (compactText v) ++ []) = .ok v :=
    document_followed h trivial rfl
  rwa [List.append_nil] at alone

theorem parse_compact {v : Value} (h : v.Portable) : parse (compact v) = .ok v := by
  rw [parse, compact, Utf8.ofString_ofList, document_compact h]
  rfl

end Json
end RecordFlow
