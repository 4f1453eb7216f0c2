import RecordFlow.Path.Basic
import RecordFlow.Proofs.Text.Decimal
import RecordFlow.Proofs.Text.Split

/-!
# The dotted text and the list form

Reading the dotted text of a path gives the path back exactly if the path is plain: it has a
segment, and its keys are not empty and hold no dot and no bracket. All paths that are read from
dotted text are plain.
-/
namespace RecordFlow

namespace Segment

/-- A key that dotted text can hold, or any position. -/
def IsPlain : Segment → Prop
  | field key => key ≠ "" ∧ '.' ∉ key.toList ∧ '[' ∉ key.toList ∧ ']' ∉ key.toList
  | index _ => True

end Segment

namespace Path

/-- A path whose dotted text stands for it. -/
def IsPlain (p : Path) : Prop := p.segments ≠ [] ∧ ∀ s ∈ p.segments, s.IsPlain

theorem isBracket_eq_false_iff {c : Char} : isBracket c = false ↔ c ≠ '[' ∧ c ≠ ']' := by
  simp [isBracket]

theorem no_bracket_iff {cs : List Char} :
    (∀ c ∈ cs, isBracket c = false) ↔ '[' ∉ cs ∧ ']' ∉ cs := by
  simp only [isBracket_eq_false_iff]
  constructor
  · exact fun free => ⟨fun member => (free _ member).1 rfl, fun member => (free _ member).2 rfl⟩
  · rintro ⟨opening, closing⟩ c member
    exact ⟨fun same => opening (same ▸ member), fun same => closing (same ▸ member)⟩

/-! ## One part -/

/-- A name before positions, which may be missing. -/
def named (name : List Char) : List Segment :=
  if name.isEmpty then [] else [.field (String.ofList name)]

theorem named_toList {key : String} (h : key ≠ "") : named key.toList = [.field key] := by
  rw [named, if_neg (by simpa using h), String.ofList_toList]

def indexChars (is : List UInt64) : List Char := is.flatMap fun i => (Segment.index i).chars

theorem groups?_digits {ds : List Char} (digits : ∀ c ∈ ds, c.isDigit = true)
    (opened rest : List Char) (some_digit : opened.reverse ++ ds ≠ []) :
    groups? (some opened) (ds ++ ']' :: rest) =
      (groups? none rest).map ((opened.reverse ++ ds) :: ·) := by
  induction ds generalizing opened with
  | nil =>
    rw [List.append_nil] at some_digit
    have : opened.isEmpty = false := by simpa using some_digit
    simp [groups?, this]
  | cons c ds ih =>
    have digit := digits c List.mem_cons_self
    have inside : c ≠ ']' := by
      rintro rfl
      exact absurd digit (by decide)
    rw [List.cons_append, groups?, if_neg inside, if_pos (Text.isDecimalDigit_of_isDigit digit),
      ih (fun c member => digits c (List.mem_cons_of_mem _ member)) _ (by simp)]
    simp

def inBrackets (ds : List Char) : List Char := '[' :: (ds ++ [']'])

theorem groups?_inBrackets {groups : List (List Char)} (some_digit : ∀ ds ∈ groups, ds ≠ [])
    (digits : ∀ ds ∈ groups, ∀ c ∈ ds, c.isDigit = true) :
    groups? none (groups.flatMap inBrackets) = some groups := by
  induction groups with
  | nil => rfl
  | cons ds groups ih =>
    obtain ⟨here, there⟩ := List.forall_mem_cons.mp some_digit
    obtain ⟨digits_here, digits_there⟩ := List.forall_mem_cons.mp digits
    rw [List.flatMap_cons, inBrackets, List.cons_append, List.append_assoc, groups?, if_pos rfl,
      List.singleton_append, groups?_digits digits_here [] _ here, ih there digits_there]
    rfl

theorem groups?_indexChars (is : List UInt64) :
    groups? none (indexChars is) = some (is.map fun i => Json.naturalText i.toNat) := by
  have bracketed :
      indexChars is = (is.map fun i => Json.naturalText i.toNat).flatMap inBrackets := by
    rw [List.flatMap_map]
    rfl
  rw [bracketed]
  apply groups?_inBrackets
  · exact List.forall_mem_map.mpr fun i _ => Json.naturalText_ne_nil i.toNat
  · exact List.forall_mem_map.mpr fun i _ _ => Json.isDigit_of_mem_naturalText

theorem position_ofDigitChars {ds : List Char} (digits : ∀ c ∈ ds, c.isDigit = true)
    (value : UInt64) (fits : Nat.ofDigitChars 10 ds value.toNat < UInt64.size) :
    position value ds = .ok (.ofNat (Nat.ofDigitChars 10 ds value.toNat)) := by
  induction ds generalizing value with
  | nil => rw [position, Nat.ofDigitChars_nil, UInt64.ofNat_toNat]
  | cons c ds ih =>
    rw [Nat.ofDigitChars_cons, Nat.mul_comm, ← Text.digitValue] at fits ⊢
    have small := Nat.lt_of_le_of_lt (Json.le_ofDigitChars ds _) fits
    have next : (UInt64.ofNat (value.toNat * 10 + Text.digitValue c)).toNat =
        value.toNat * 10 + Text.digitValue c := UInt64.toNat_ofNat_of_lt' small
    have later := ih (fun c member => digits c (List.mem_cons_of_mem _ member)) _ (by rwa [next])
    rw [position, if_pos (digits c List.mem_cons_self)]
    rw [next] at later
    exact (if_pos small).trans later

theorem position_naturalText (i : UInt64) : position 0 (Json.naturalText i.toNat) = .ok i := by
  have read := Json.ofDigitChars_naturalText i.toNat
  rw [position_ofDigitChars fun _ => Json.isDigit_of_mem_naturalText]
  · rw [UInt64.toNat_zero, read, UInt64.ofNat_toNat]
  · rw [UInt64.toNat_zero, read]
    exact i.toNat_lt_size

/-- Groups that are each read are read together. -/
theorem positions_map {α : Type} (path : String) {chars : α → List Char} {value : α → UInt64}
    (each : ∀ a, position 0 (chars a) = .ok (value a)) (as : List α) :
    positions path (as.map chars) = .ok (as.map fun a => .index (value a)) := by
  induction as with
  | nil => rfl
  | cons a as ih =>
    rw [List.map_cons, positions, each]
    dsimp only
    rw [ih]
    rfl

/-- The name of a part ends where its first bracket stands. -/
theorem name_before {name tail : List Char} (free : ∀ c ∈ name, isBracket c = false)
    (stop : tail = [] ∨ ∃ rest, tail = '[' :: rest) :
    (name ++ tail).takeWhile (!isBracket ·) = name ∧
      (name ++ tail).dropWhile (!isBracket ·) = tail := by
  have inName : ∀ c ∈ name, (!isBracket c) = true := fun c member => by rw [free c member]; rfl
  rw [List.takeWhile_append_of_pos inName, List.dropWhile_append_of_pos inName]
  rcases stop with rfl | ⟨rest, rfl⟩
  · exact ⟨List.append_nil _, rfl⟩
  · exact ⟨List.append_nil _, rfl⟩

theorem part_append (path : String) {name tail : List Char}
    (free : ∀ c ∈ name, isBracket c = false) (stop : tail = [] ∨ ∃ rest, tail = '[' :: rest)
    {groups : List (List Char)} (bracketed : groups? none tail = some groups)
    {indices : List Segment} (read : positions path groups = .ok indices) :
    part path (name ++ tail) = .ok (named name ++ indices) := by
  obtain ⟨taken, left⟩ := name_before free stop
  rw [part]
  simp only [taken, left, bracketed, read, Except.map]
  rw [named]
  split <;> rfl

theorem part_chars (path : String) {name : List Char} (free : ∀ c ∈ name, isBracket c = false)
    (is : List UInt64) :
    part path (name ++ indexChars is) = .ok (named name ++ is.map .index) := by
  have stop : indexChars is = [] ∨ ∃ rest, indexChars is = '[' :: rest := by
    cases is with
    | nil => exact .inl rfl
    | cons i is => exact .inr ⟨_, rfl⟩
  exact part_append path free stop (groups?_indexChars is)
    (positions_map path position_naturalText is)

/-! ## Whole texts -/

theorem dot_notMem_indexChars (is : List UInt64) : '.' ∉ indexChars is := by
  intro member
  obtain ⟨i, -, inside⟩ := List.mem_flatMap.mp member
  simp only [Segment.chars, List.mem_cons, List.mem_append, List.not_mem_nil, or_false] at inside
  rcases inside with bracket | digit | bracket
  · exact absurd bracket (by decide)
  · exact absurd (Json.isDigit_of_mem_naturalText digit) (by decide)
  · exact absurd bracket (by decide)

theorem parts_piece (path : String) {name : List Char} (free : ∀ c ∈ name, isBracket c = false)
    (is : List UInt64) (pieces : List (List Char)) :
    parts path ((name ++ indexChars is) :: pieces) =
      (parts path pieces).map (named name ++ is.map .index ++ ·) := by
  rw [parts]
  split
  · next empty =>
    rw [List.isEmpty_iff, List.append_eq_nil_iff] at empty
    obtain ⟨rfl, none⟩ := empty
    have : is = [] := by
      cases is with
      | nil => rfl
      | cons i is => cases none
    subst this
    cases parts path pieces <;> rfl
  · rw [part_chars path free]

/-- The part being read has a name and positions; the segments after it are continued. -/
theorem parts_chars (path : String) (rest : List Segment) (plain : ∀ s ∈ rest, s.IsPlain)
    {name : List Char} (free : ∀ c ∈ name, isBracket c = false) (undotted : '.' ∉ name)
    (is : List UInt64) :
    parts path (Text.splitOn ['.'] (name ++ indexChars is ++ rest.flatMap Segment.continued)) =
      .ok (named name ++ is.map .index ++ rest) := by
  have whole : '.' ∉ name ++ indexChars is := by
    rw [List.mem_append, not_or]
    exact ⟨undotted, dot_notMem_indexChars is⟩
  induction rest generalizing name is with
  | nil =>
    rw [List.flatMap_nil, List.append_nil, Text.splitOn_of_notMem whole, parts_piece path free]
    rfl
  | cons s rest ih =>
    obtain ⟨plain_s, plain_rest⟩ := List.forall_mem_cons.mp plain
    cases s with
    | field key =>
      obtain ⟨nonempty, undotted', free'⟩ := plain_s
      have later := ih plain_rest (no_bracket_iff.mpr free') undotted' []
        (by simpa [indexChars] using undotted')
      have shape : key.toList ++ indexChars [] ++ rest.flatMap Segment.continued =
          key.toList ++ rest.flatMap Segment.continued := by
        rw [indexChars, List.flatMap_nil, List.append_nil]
      rw [shape, named_toList nonempty] at later
      rw [List.flatMap_cons, Segment.continued, List.cons_append, Text.splitOn_append whole,
        parts_piece path free, later]
      simp [Except.map]
    | index i =>
      have shape : name ++ indexChars is ++ (Segment.index i :: rest).flatMap Segment.continued =
          name ++ indexChars (is ++ [i]) ++ rest.flatMap Segment.continued := by
        simp [indexChars, Segment.continued]
      have whole' : '.' ∉ name ++ indexChars (is ++ [i]) := by
        rw [List.mem_append, not_or]
        exact ⟨undotted, dot_notMem_indexChars _⟩
      rw [shape, ih plain_rest free undotted (is ++ [i]) whole']
      simp

theorem parse_text {p : Path} (plain : p.IsPlain) : parse p.text = .ok p := by
  obtain ⟨segments⟩ := p
  cases segments with
  | nil => exact absurd rfl plain.1
  | cons s rest =>
    obtain ⟨plain_s, plain_rest⟩ := List.forall_mem_cons.mp plain.2
    suffices read : parts (text ⟨s :: rest⟩) (Text.splitOn ['.'] (text ⟨s :: rest⟩).toList) =
        .ok (s :: rest) by
      rw [parse, read]
    have chars_eq : (text ⟨s :: rest⟩).toList = s.chars ++ rest.flatMap Segment.continued :=
      String.toList_ofList
    rw [chars_eq]
    cases s with
    | field key =>
      obtain ⟨nonempty, undotted, free⟩ := plain_s
      have read := parts_chars (text ⟨.field key :: rest⟩) rest plain_rest
        (no_bracket_iff.mpr free) undotted []
      rw [named_toList nonempty] at read
      simpa [indexChars, Segment.chars] using read
    | index i =>
      have free : ∀ c ∈ ([] : List Char), isBracket c = false := nofun
      have read := parts_chars (text ⟨.index i :: rest⟩) rest plain_rest free List.not_mem_nil [i]
      simpa [indexChars, named] using read

/-! ## What is read is plain -/

theorem positions_plain {path : String} {groups : List (List Char)} {segments : List Segment}
    (h : positions path groups = .ok segments) : ∀ s ∈ segments, s.IsPlain := by
  induction groups generalizing segments with
  | nil =>
    cases h
    exact nofun
  | cons digits rest ih =>
    rw [positions] at h
    cases read : position 0 digits with
    | error fault => cases read ▸ h
    | ok i =>
      rw [read] at h
      cases later : positions path rest with
      | error e => cases later ▸ h
      | ok others =>
        rw [later] at h
        cases h
        exact List.forall_mem_cons.mpr ⟨trivial, ih later⟩

theorem part_plain {path : String} {cs : List Char} {segments : List Segment}
    (undotted : '.' ∉ cs) (h : part path cs = .ok segments) : ∀ s ∈ segments, s.IsPlain := by
  have inside : ∀ c ∈ cs.takeWhile (!isBracket ·), c ∈ cs ∧ isBracket c = false := by
    intro c member
    have kept := List.all_eq_true.mp List.all_takeWhile c member
    exact ⟨List.takeWhile_subset _ member, by simpa using kept⟩
  rw [part] at h
  cases bracketed : groups? none (cs.dropWhile (!isBracket ·)) with
  | none => cases bracketed ▸ h
  | some groups =>
    rw [bracketed] at h
    dsimp only at h
    cases read : positions path groups with
    | error e => cases read ▸ h
    | ok indices =>
      rw [read] at h
      cases h
      have plain := positions_plain read
      split
      · exact plain
      · next named =>
        refine List.forall_mem_cons.mpr ⟨?_, plain⟩
        rw [Segment.IsPlain, String.toList_ofList, ← no_bracket_iff]
        refine ⟨?_, fun dot => undotted (inside _ dot).1, fun c member => (inside c member).2⟩
        intro empty
        rw [← String.toList_inj, String.toList_ofList] at empty
        exact named (by rw [empty]; rfl)

theorem parts_plain {path : String} {pieces : List (List Char)} {segments : List Segment}
    (undotted : ∀ cs ∈ pieces, '.' ∉ cs) (h : parts path pieces = .ok segments) :
    ∀ s ∈ segments, s.IsPlain := by
  induction pieces generalizing segments with
  | nil =>
    cases h
    exact nofun
  | cons cs pieces ih =>
    obtain ⟨here, there⟩ := List.forall_mem_cons.mp undotted
    rw [parts] at h
    split at h
    · exact ih there h
    · cases read : part path cs with
      | error e => cases read ▸ h
      | ok first =>
        rw [read] at h
        cases later : parts path pieces with
        | error e => cases later ▸ h
        | ok others =>
          rw [later] at h
          cases h
          intro s member
          rcases List.mem_append.mp member with member | member
          · exact part_plain here read s member
          · exact ih there later s member

theorem isPlain_of_parse {dotted : String} {p : Path} (h : parse dotted = .ok p) : p.IsPlain := by
  rw [parse] at h
  cases read : parts dotted (Text.splitOn ['.'] dotted.toList) with
  | error e => cases read ▸ h
  | ok segments =>
    rw [read] at h
    have plain := parts_plain (fun _ => Text.notMem_of_mem_splitOn) read
    cases segments with
    | nil => cases h
    | cons s rest =>
      cases h
      exact ⟨List.cons_ne_nil _ _, plain⟩

/-! ## The list form -/

theorem toWord?_ofWord (i : UInt64) : (Number.ofWord i).toWord? = some i := by
  simp [Number.ofWord, Whole.ofWord, Number.toWord?]

theorem ofValue_toValue (p : Path) : ofValue p.toValue = .ok p := by
  have read (segments : List Segment) :
      segmentsOfValues (segments.map Segment.toValue) = .ok segments := by
    induction segments with
    | nil => rfl
    | cons s rest ih =>
      have one : segmentOfValue s.toValue = .ok s := by
        cases s with
        | field key => rfl
        | index i => simp only [Segment.toValue, segmentOfValue, toWord?_ofWord]
      rw [List.map_cons, segmentsOfValues, one]
      dsimp only
      rw [ih]
      rfl
  rw [toValue, ofValue, read]
  rfl

/-- The dotted text of a path is read as that path exactly if the path is plain, which the paths
read from any dotted text are. Then, and only then, the dotted text and the list form are read
alike. -/
theorem dotted_round_trip (p : Path) :
    (parse p.text = .ok p ↔ p.IsPlain) ∧
    ((∃ dotted, parse dotted = .ok p) ↔ parse p.text = .ok p) ∧
    ofValue p.toValue = .ok p ∧
    (ofValue (.string p.text) = ofValue p.toValue ↔ p.IsPlain) := by
  have plain_iff : parse p.text = .ok p ↔ p.IsPlain := ⟨isPlain_of_parse, parse_text⟩
  refine ⟨plain_iff, ⟨?_, fun read => ⟨_, read⟩⟩, ofValue_toValue p, ?_⟩
  · rintro ⟨dotted, read⟩
    exact parse_text (isPlain_of_parse read)
  · rw [ofValue_toValue]
    exact plain_iff

end Path
end RecordFlow
