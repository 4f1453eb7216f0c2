import RecordFlow.Proofs.Json.Tokens
import RecordFlow.Proofs.Value.Shape

/-!
# The characters of compact JSON

The compact text of a value without binary64 numbers begins and ends with a visible character and
holds no control character.
-/
namespace RecordFlow.Json

def laterItems (vs : List Value) : List Char := vs.flatMap fun v => ',' :: compactText v

def entryText (e : String × Value) : List Char := quoted e.1 ++ ':' :: compactText e.2

def laterEntries (es : Fields) : List Char := es.flatMap fun e => ',' :: entryText e

theorem compactItems_cons (v : Value) (vs : List Value) :
    compactItems (v :: vs) = compactText v ++ laterItems vs := by
  induction vs generalizing v with
  | nil => rw [compactItems, laterItems, List.flatMap_nil, List.append_nil]
  | cons w vs ih => rw [compactItems, ih, laterItems, laterItems, List.flatMap_cons]; rfl

theorem compactFields_cons (e : String × Value) (es : Fields) :
    compactFields (e :: es) = entryText e ++ laterEntries es := by
  induction es generalizing e with
  | nil => rw [compactFields, laterEntries, List.flatMap_nil, List.append_nil]; rfl
  | cons f es ih =>
    rw [compactFields, ih, laterEntries, laterEntries, List.flatMap_cons]
    simp [entryText]

/-- An ASCII character that leaves a mark. -/
def IsVisible (c : Char) : Prop := 0x20 < c.toNat ∧ c.toNat < 0x7F

instance (c : Char) : Decidable (IsVisible c) := inferInstanceAs (Decidable (_ ∧ _))

theorem isVisible_of_isDigit {c : Char} (h : c.isDigit = true) : IsVisible c := by
  have := toNat_of_isDigit h
  unfold IsVisible
  omega

theorem compactText_first {v : Value} (whole : v.WholeNumbers) :
    ∃ c cs, compactText v = c :: cs ∧ IsVisible c ∧ c ≠ ']' := by
  cases v with
  | null => exact ⟨_, _, rfl, by decide, by decide⟩
  | bool b => cases b <;> exact ⟨_, _, rfl, by decide, by decide⟩
  | string s => exact ⟨_, _, rfl, by decide, by decide⟩
  | array items => exact ⟨_, _, rfl, by decide, by decide⟩
  | object fields => exact ⟨_, _, rfl, by decide, by decide⟩
  | number n =>
    cases n with
    | float x => exact whole.elim
    | whole i =>
      rw [compactText, numberText, wholeText]
      split
      · exact ⟨_, _, rfl, by decide, by decide⟩
      · obtain ⟨c, cs, text, -⟩ := naturalText_eq_cons i.val.natAbs
        have digit : c.isDigit = true :=
          isDigit_of_mem_naturalText (n := i.val.natAbs) (by rw [text]; exact List.mem_cons_self)
        refine ⟨c, cs, text, isVisible_of_isDigit digit, ?_⟩
        rintro rfl
        exact absurd digit (by decide)

theorem naturalText_last (n : Nat) :
    ∃ cs c, naturalText n = cs ++ [c] ∧ IsVisible c := by
  rcases List.eq_nil_or_concat (naturalText n) with none | ⟨cs, c, text⟩
  · exact absurd none (naturalText_ne_nil n)
  · rw [List.concat_eq_append] at text
    refine ⟨cs, c, text, isVisible_of_isDigit (isDigit_of_mem_naturalText (n := n) ?_)⟩
    rw [text]
    simp

theorem compactText_last {v : Value} (whole : v.WholeNumbers) :
    ∃ cs c, compactText v = cs ++ [c] ∧ IsVisible c := by
  cases v with
  | null => exact ⟨['n', 'u', 'l'], 'l', rfl, by decide⟩
  | bool b =>
    cases b with
    | true => exact ⟨['t', 'r', 'u'], 'e', rfl, by decide⟩
    | false => exact ⟨['f', 'a', 'l', 's'], 'e', rfl, by decide⟩
  | string s => exact ⟨'"' :: s.toList.flatMap escape, '"', rfl, by decide⟩
  | array items => exact ⟨'[' :: compactItems items, ']', rfl, by decide⟩
  | object fields => exact ⟨'\x7b' :: compactFields fields, '\x7d', rfl, by decide⟩
  | number n =>
    cases n with
    | float x => exact whole.elim
    | whole i =>
      obtain ⟨cs, c, text, visible⟩ := naturalText_last i.val.natAbs
      rw [compactText, numberText, wholeText, text]
      split
      · exact ⟨'-' :: cs, c, rfl, visible⟩
      · exact ⟨cs, c, rfl, visible⟩

theorem escape_printable (c : Char) : ∀ d ∈ escape c, 0x20 ≤ d.toNat := by
  rcases escape_cases c with ⟨e, least, -, text, -⟩ | ⟨control, text⟩ | ⟨printable, -, -, text⟩
  · simpa [text] using least
  · have hex : ∀ n < 16, 0x20 ≤ (hexDigit n).toNat := by decide
    have high := hex (c.toNat / 16) (by omega)
    have low := hex (c.toNat % 16) (by omega)
    simp [text, high, low]
  · simpa [text] using printable

theorem quoted_printable (s : String) : ∀ c ∈ quoted s, 0x20 ≤ c.toNat := by
  intro c member
  simp only [quoted, List.mem_cons, List.mem_append, List.mem_flatMap, List.not_mem_nil,
    or_false] at member
  rcases member with rfl | ⟨d, -, inside⟩ | rfl
  · decide
  · exact escape_printable d c inside
  · decide

theorem wholeText_printable (i : Int) : ∀ c ∈ wholeText i, 0x20 ≤ c.toNat := by
  have digits : ∀ c ∈ naturalText i.natAbs, 0x20 ≤ c.toNat := fun c member =>
    Nat.le_of_lt (isVisible_of_isDigit (isDigit_of_mem_naturalText member)).1
  rw [wholeText]
  split
  · exact List.forall_mem_cons.mpr ⟨by decide, digits⟩
  · exact digits

/-- What holds of the separators and of each part holds of the characters of the whole. -/
theorem forall_mem_compactItems {P : Char → Prop} (comma : P ',') {vs : List Value}
    (h : ∀ v ∈ vs, ∀ c ∈ compactText v, P c) : ∀ c ∈ compactItems vs, P c := by
  cases vs with
  | nil => exact nofun
  | cons v vs =>
    rw [compactItems_cons]
    intro c member
    simp only [List.mem_append, laterItems, List.mem_flatMap, List.mem_cons] at member
    rcases member with inside | ⟨w, later, rfl | inside⟩
    · exact h v List.mem_cons_self c inside
    · exact comma
    · exact h w (List.mem_cons_of_mem _ later) c inside

theorem forall_mem_compactFields {P : Char → Prop} (comma : P ',') (colon : P ':') {es : Fields}
    (keys : ∀ e ∈ es, ∀ c ∈ quoted e.1, P c) (values : ∀ e ∈ es, ∀ c ∈ compactText e.2, P c) :
    ∀ c ∈ compactFields es, P c := by
  have entries : ∀ e ∈ es, ∀ c ∈ entryText e, P c := by
    intro e member c inside
    simp only [entryText, List.mem_append, List.mem_cons] at inside
    rcases inside with inside | rfl | inside
    · exact keys e member c inside
    · exact colon
    · exact values e member c inside
  cases es with
  | nil => exact nofun
  | cons e es =>
    rw [compactFields_cons]
    intro c member
    simp only [List.mem_append, laterEntries, List.mem_flatMap, List.mem_cons] at member
    rcases member with inside | ⟨f, later, rfl | inside⟩
    · exact entries e List.mem_cons_self c inside
    · exact comma
    · exact entries f (List.mem_cons_of_mem _ later) c inside

theorem compactText_printable (v : Value) :
    v.WholeNumbers → ∀ c ∈ compactText v, 0x20 ≤ c.toNat := by
  induction v using Value.induct with
  | null => simp [compactText, nullText]
  | bool b => cases b <;> simp [compactText, boolText]
  | number n =>
    cases n with
    | float x => exact False.elim
    | whole i => exact fun _ => wholeText_printable i.val
  | string s => exact fun _ => quoted_printable s
  | array items ih =>
    intro whole c member
    have inside := forall_mem_compactItems (P := fun c => 0x20 ≤ c.toNat) (by decide)
      fun v mem => ih v mem (Value.wholeNumbers_of_mem_items whole v mem)
    simp only [compactText, List.mem_cons, List.mem_append, List.not_mem_nil, or_false] at member
    rcases member with rfl | member | rfl
    · decide
    · exact inside c member
    · decide
  | object fields ih =>
    intro whole c member
    have inside := forall_mem_compactFields (P := fun c => 0x20 ≤ c.toNat) (by decide) (by decide)
      (fun e _ => quoted_printable e.1)
      fun e mem => ih e mem (Value.wholeNumbers_of_mem_fields whole e mem)
    simp only [compactText, List.mem_cons, List.mem_append, List.not_mem_nil, or_false] at member
    rcases member with rfl | member | rfl
    · decide
    · exact inside c member
    · decide

end RecordFlow.Json
