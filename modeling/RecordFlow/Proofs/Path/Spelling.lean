import RecordFlow.Proofs.Path.Grammar

/-!
# Values that spell a path

A path is spelled by dotted text that is made of parts, or by the list of its keys and positions. A
value is read as exactly the path that it spells. Where paths stand inside other expressions, what
is read gives a result or an expression error, and never an error of another kind.
-/
namespace RecordFlow

/-- A reading that gave a result with the property, or refused with an expression error. -/
inductive Reads {α : Type} (P : α → Prop) : Except Error α → Prop
  | read {x : α} : P x → Reads P (.ok x)
  | refused (m : String) : Reads P (.error (.expression m))

namespace Reads

variable {α β : Type} {P : α → Prop} {Q : β → Prop} {result : Except Error α}

theorem map {f : α → β} (h : Reads P result) (kept : ∀ x, P x → Q (f x)) :
    Reads Q (result.map f) := by
  cases h with
  | read holds => exact .read (kept _ holds)
  | refused m => exact .refused m

/-- A second reading that works with the result of the first. -/
theorem andThen {next : α → Except Error β} (h : Reads P result)
    (later : ∀ x, P x → Reads Q (next x)) : Reads Q (result >>= next) := by
  cases h with
  | read holds => exact later _ holds
  | refused m => exact .refused m

/-- A reader of lists that reads one value after another reads a list of what each of them gives. -/
theorem all {R : α → β → Prop} (one : α → Except Error β) (many : List α → Except Error (List β))
    (nil : many [] = .ok [])
    (cons : ∀ v vs, many (v :: vs) = one v >>= fun x => many vs >>= fun xs => .ok (x :: xs))
    {vs : List α} (each : ∀ v ∈ vs, Reads (R v) (one v)) :
    Reads (List.Forall₂ R vs) (many vs) := by
  induction vs with
  | nil =>
    rw [nil]
    exact .read .nil
  | cons v vs ih =>
    obtain ⟨here, there⟩ := List.forall_mem_cons.mp each
    rw [cons]
    apply here.andThen
    intro x related
    apply (ih there).andThen
    intro xs rest
    exact .read (.cons related rest)

/-- If all that has the property is read, then exactly this is read and all else is refused. -/
theorem exact_of_complete (h : Reads P result) (complete : ∀ x, P x → result = .ok x) :
    (∀ x, result = .ok x ↔ P x) ∧ ((∃ m, result = .error (.expression m)) ↔ ∀ x, ¬ P x) := by
  refine ⟨fun x => ⟨?_, complete x⟩, ?_, ?_⟩
  · rintro rfl
    cases h with
    | read holds => exact holds
  · rintro ⟨m, refusal⟩ x holds
    cases (complete x holds).symm.trans refusal
  · intro none
    cases h with
    | read holds => exact absurd holds (none _)
    | refused m => exact ⟨m, rfl⟩

end Reads

namespace Path

/-- The ways to write a path as a value. The segments of the list form are texts for keys, whatever
they hold, and whole numbers of the unsigned 64-bit range for positions. -/
inductive Spelling : Value → Path → Prop
  | dotted {text : String} {ts : List Part} : ts ≠ [] → ts.map Part.text = pieces text →
      Spelling (.string text) ⟨ts.flatMap Part.segments⟩
  | list (segments : List Segment) : Spelling (.array (segments.map Segment.toValue)) ⟨segments⟩

theorem eq_ofWord_of_toWord? {n : Number} {i : UInt64} (h : n.toWord? = some i) :
    n = .ofWord i := by
  cases n with
  | float x => cases h
  | whole w =>
    obtain ⟨w, low, high⟩ := w
    rw [Number.toWord?] at h
    split at h
    · next nonneg =>
      cases h
      have small : w.toNat < UInt64.size := (Int.toNat_lt nonneg).mpr high
      have same : ((UInt64.ofNat w.toNat).toNat : Int) = w := by
        rw [UInt64.toNat_ofNat_of_lt' small, Int.toNat_of_nonneg nonneg]
      rw [Number.ofWord, Whole.ofWord, Number.whole.injEq, Subtype.mk.injEq]
      exact same.symm
    · cases h

theorem segmentOfValue_eq_ok {v : Value} {s : Segment} (h : segmentOfValue v = .ok s) :
    v = s.toValue := by
  cases v with
  | string key =>
    cases h
    rfl
  | number n =>
    rw [segmentOfValue] at h
    split at h
    · next i word =>
      cases h
      rw [eq_ofWord_of_toWord? word]
      rfl
    · cases h
  | _ => cases h

theorem segmentsOfValues_eq_ok {items : List Value} {segments : List Segment}
    (h : segmentsOfValues items = .ok segments) : items = segments.map Segment.toValue := by
  induction items generalizing segments with
  | nil =>
    cases h
    rfl
  | cons v items ih =>
    rw [segmentsOfValues] at h
    cases first : segmentOfValue v with
    | error e => cases first ▸ h
    | ok s =>
      rw [first] at h
      cases rest : segmentsOfValues items with
      | error e => cases rest ▸ h
      | ok others =>
        rw [rest] at h
        cases h
        rw [List.map_cons, ← segmentOfValue_eq_ok first, ← ih rest]

theorem ofValue_eq_ok_iff {v : Value} {p : Path} : ofValue v = .ok p ↔ Spelling v p := by
  constructor
  · intro h
    cases v with
    | string text =>
      obtain ⟨ts, some_part, written, same⟩ := parse_eq_ok_iff.mp h
      obtain ⟨segments⟩ := p
      obtain rfl := same
      exact .dotted some_part written
    | array items =>
      cases read : segmentsOfValues items with
      | error e =>
        rw [ofValue, read] at h
        cases h
      | ok segments =>
        rw [ofValue, read] at h
        cases h
        rw [segmentsOfValues_eq_ok read]
        exact .list segments
    | _ => cases h
  · intro h
    cases h with
    | dotted some_part written => exact parse_eq_ok_iff.mpr ⟨_, some_part, written, rfl⟩
    | list segments => exact ofValue_toValue ⟨segments⟩

/-! ## Texts without a dot -/

/-- The text ends in a position: some ASCII digits in brackets. -/
def EndsIndexed (cs : List Char) : Prop :=
  ∃ before digits, digits ≠ [] ∧ (∀ c ∈ digits, c.isDigit = true) ∧
    cs = before ++ inBrackets digits

theorem EndsIndexed.last_two {cs : List Char} (h : EndsIndexed cs) :
    ∃ before c, c.isDigit = true ∧ cs = before ++ [c, ']'] := by
  obtain ⟨before, digits, some_digit, ascii, rfl⟩ := h
  rcases List.eq_nil_or_concat digits with none | ⟨init, c, rfl⟩
  · exact absurd none some_digit
  · refine ⟨before ++ '[' :: init, c, ascii c (by simp), ?_⟩
    simp [inBrackets]

theorem Part.unbracketed_or_endsIndexed (t : Part) :
    (∀ c ∈ t.text, isBracket c = false) ∨ EndsIndexed t.text := by
  rcases List.eq_nil_or_concat t.positions with none | ⟨init, d, last⟩
  · left
    intro c member
    rw [text, none, List.map_nil, List.flatMap_nil, List.append_nil] at member
    exact t.unbracketed c member
  · right
    refine ⟨t.name ++ (init.map Digits.chars).flatMap inBrackets, d.chars, d.some_digit, d.ascii,
      ?_⟩
    rw [text, last, List.concat_eq_append, List.map_append, List.flatMap_append, List.append_assoc]
    simp

/-- A text without a dot is one part, so that a path with a bracket in it ends in a position. -/
theorem endsIndexed_of_parse {text : String} {p : Path} (undotted : '.' ∉ text.toList)
    (bracket : '[' ∈ text.toList) (h : parse text = .ok p) : EndsIndexed text.toList := by
  obtain ⟨ts, -, written, -⟩ := parse_eq_ok_iff.mp h
  have filled : text.toList.isEmpty = false := by
    cases chars : text.toList with
    | nil => cases chars ▸ bracket
    | cons c cs => rfl
  have whole : pieces text = [text.toList] := by
    rw [pieces, ← Text.splitOn_eq, Text.splitOn_of_notMem undotted, List.filter_cons_of_pos]
    · rfl
    · rw [filled]
      rfl
  rw [whole, List.map_eq_singleton_iff] at written
  obtain ⟨t, -, same⟩ := written
  rw [← same] at bracket ⊢
  rcases t.unbracketed_or_endsIndexed with free | indexed
  · exact absurd (free _ bracket) (by decide)
  · exact indexed

end Path
end RecordFlow
