import Mathlib.Data.Set.List
import RecordFlow.Proofs.Path.Dotted

/-!
# The grammar of dotted text

A path is written in parts between dots, of which the empty ones do not count. A part is a name
without brackets and positions in brackets after it. Exactly the texts of this form are read, and
each is read as the keys and positions that it is made of.
-/
namespace RecordFlow
namespace Path

/-- The digits of one position: some, all of them ASCII, and their number has 64 bits. -/
structure Digits where
  chars : List Char
  some_digit : chars ≠ []
  ascii : ∀ c ∈ chars, c.isDigit = true
  fits : Nat.ofDigitChars 10 chars 0 < UInt64.size

def Digits.value (d : Digits) : UInt64 := .ofNat (Nat.ofDigitChars 10 d.chars 0)

/-- A name and the positions after it. Either of them may be missing. -/
structure Part where
  name : List Char
  positions : List Digits
  unbracketed : ∀ c ∈ name, isBracket c = false

namespace Part

def text (t : Part) : List Char := t.name ++ (t.positions.map Digits.chars).flatMap inBrackets

def segments (t : Part) : List Segment := named t.name ++ t.positions.map fun d => .index d.value

end Part

/-! ## Positions -/

theorem position_digits {ds : List Char} {value i : UInt64} (h : position value ds = .ok i) :
    (∀ c ∈ ds, c.isDigit = true) ∧ Nat.ofDigitChars 10 ds value.toNat < UInt64.size := by
  induction ds generalizing value with
  | nil =>
    rw [Nat.ofDigitChars_nil]
    exact ⟨nofun, value.toNat_lt_size⟩
  | cons c ds ih =>
    rw [position] at h
    split at h
    · next digit =>
      dsimp only at h
      split at h
      · next small =>
        obtain ⟨digits, fits⟩ := ih h
        rw [UInt64.toNat_ofNat_of_lt' small, Text.digitValue, Nat.mul_comm,
          ← Nat.ofDigitChars_cons] at fits
        exact ⟨List.forall_mem_cons.mpr ⟨digit, digits⟩, fits⟩
      · cases h
    · cases h

theorem position_chars (d : Digits) : position 0 d.chars = .ok d.value :=
  position_ofDigitChars d.ascii 0 d.fits

theorem positions_written {path : String} {groups : List (List Char)} {indices : List Segment}
    (some_digit : ∀ ds ∈ groups, ds ≠ []) (h : positions path groups = .ok indices) :
    ∃ ds : List Digits, ds.map Digits.chars = groups := by
  induction groups generalizing indices with
  | nil => exact ⟨[], rfl⟩
  | cons digits groups ih =>
    obtain ⟨here, there⟩ := List.forall_mem_cons.mp some_digit
    rw [positions] at h
    cases first : position 0 digits with
    | error fault => rw [first] at h; cases h
    | ok i =>
      rw [first] at h
      cases rest : positions path groups with
      | error e => rw [rest] at h; cases h
      | ok others =>
        obtain ⟨ds, same⟩ := ih there rest
        obtain ⟨ascii, fits⟩ := position_digits first
        exact ⟨⟨digits, here, ascii, fits⟩ :: ds, by rw [List.map_cons, same]⟩

/-! ## Brackets -/

theorem groups?_chars (ds : List Digits) :
    groups? none ((ds.map Digits.chars).flatMap inBrackets) = some (ds.map Digits.chars) := by
  apply groups?_inBrackets
  · exact List.forall_mem_map.mpr fun d _ => d.some_digit
  · exact List.forall_mem_map.mpr fun d _ => d.ascii

/-- A group that has been opened runs up to its closing bracket. -/
theorem groups?_opened {opened cs : List Char} {groups : List (List Char)}
    (h : groups? (some opened) cs = some groups) :
    ∃ ds rest others, cs = ds ++ ']' :: rest ∧ opened.reverse ++ ds ≠ [] ∧
      groups? none rest = some others ∧ groups = (opened.reverse ++ ds) :: others := by
  induction cs generalizing opened with
  | nil => cases h
  | cons c cs ih =>
    rw [groups?] at h
    split at h
    · next closing =>
      split at h
      · cases h
      · next some_digit =>
        obtain ⟨others, later, rfl⟩ := Option.map_eq_some_iff.mp h
        refine ⟨[], cs, others, by rw [closing]; rfl, ?_, later, by rw [List.append_nil]⟩
        simpa using some_digit
    · split at h
      · obtain ⟨ds, rest, others, shape, some_digit, later, same⟩ := ih h
        rw [List.reverse_cons, List.append_assoc, List.singleton_append] at some_digit same
        exact ⟨c :: ds, rest, others, by rw [shape]; rfl, some_digit, later, same⟩
      · cases h

theorem groups?_eq_some {cs : List Char} {groups : List (List Char)}
    (h : groups? none cs = some groups) :
    (∀ ds ∈ groups, ds ≠ []) ∧ cs = groups.flatMap inBrackets := by
  induction groups generalizing cs with
  | nil =>
    refine ⟨nofun, ?_⟩
    cases cs with
    | nil => rfl
    | cons c cs =>
      rw [groups?] at h
      split at h
      · obtain ⟨ds, rest, others, -, -, -, same⟩ := groups?_opened h
        cases same
      · cases h
  | cons first groups ih =>
    cases cs with
    | nil => cases h
    | cons c cs =>
      rw [groups?] at h
      split at h
      · next opening =>
        obtain ⟨ds, rest, others, shape, some_digit, later, same⟩ := groups?_opened h
        cases same
        obtain ⟨each, text⟩ := ih later
        refine ⟨List.forall_mem_cons.mpr ⟨some_digit, each⟩, ?_⟩
        rw [opening, shape, text]
        simp [inBrackets]
      · cases h

/-! ## Parts -/

theorem Part.positions_first (t : Part) : (t.positions.map Digits.chars).flatMap inBrackets = [] ∨
    ∃ rest, (t.positions.map Digits.chars).flatMap inBrackets = '[' :: rest := by
  cases t.positions with
  | nil => exact .inl rfl
  | cons d ds => exact .inr ⟨_, rfl⟩

theorem part_text (path : String) (t : Part) : part path t.text = .ok t.segments :=
  part_append path t.unbracketed t.positions_first (groups?_chars t.positions)
    (positions_map path position_chars t.positions)

theorem part_written {path : String} {cs : List Char} {segments : List Segment}
    (h : part path cs = .ok segments) : ∃ t : Part, t.text = cs := by
  rw [part] at h
  cases bracketed : groups? none (cs.dropWhile (!isBracket ·)) with
  | none => cases bracketed ▸ h
  | some groups =>
    rw [bracketed] at h
    dsimp only at h
    cases read : positions path groups with
    | error e => cases read ▸ h
    | ok indices =>
      obtain ⟨some_digit, tail⟩ := groups?_eq_some bracketed
      obtain ⟨ds, rfl⟩ := positions_written some_digit read
      have free : ∀ c ∈ cs.takeWhile (!isBracket ·), isBracket c = false := by
        intro c member
        have kept := List.all_takeWhile (p := (!isBracket ·)) (l := cs)
        simpa using List.all_eq_true.mp kept c member
      refine ⟨⟨_, ds, free⟩, ?_⟩
      rw [Part.text, ← tail]
      exact List.takeWhile_append_dropWhile

theorem Part.segments_ne_nil {t : Part} (h : t.text ≠ []) : t.segments ≠ [] := by
  intro empty
  obtain ⟨name, positions⟩ := List.append_eq_nil_iff.mp empty
  rw [List.map_eq_nil_iff] at positions
  have nameless : t.name = [] := by
    cases chars : t.name with
    | nil => rfl
    | cons c cs => rw [named, chars] at name; cases name
  apply h
  rw [Part.text, nameless, positions]
  rfl

/-- After its first bracket a part has nothing but ASCII digits and brackets. -/
theorem Part.bracket_or_digit (t : Part) :
    ∀ c ∈ t.text.dropWhile (!isBracket ·), isBracket c = true ∨ c.isDigit = true := by
  rw [Part.text, (name_before t.unbracketed t.positions_first).2]
  intro c member
  obtain ⟨ds, group, inside⟩ := List.mem_flatMap.mp member
  obtain ⟨d, -, rfl⟩ := List.mem_map.mp group
  simp only [inBrackets, List.mem_cons, List.mem_append, List.not_mem_nil, or_false] at inside
  rcases inside with rfl | digit | rfl
  · exact .inl rfl
  · exact .inr (d.ascii c digit)
  · exact .inl rfl

theorem parts_text (path : String) (ts : List Part) {pieces : List (List Char)}
    (written : ts.map Part.text = pieces.filter (!·.isEmpty)) :
    parts path pieces = .ok (ts.flatMap Part.segments) := by
  induction pieces generalizing ts with
  | nil =>
    rw [List.filter_nil, List.map_eq_nil_iff] at written
    rw [written]
    rfl
  | cons cs pieces ih =>
    rw [parts]
    split
    · next empty =>
      rw [List.filter_cons_of_neg (by simp [empty])] at written
      exact ih ts written
    · next some_char =>
      rw [List.filter_cons_of_pos (by simpa using some_char), List.map_eq_cons_iff] at written
      obtain ⟨t, rest, rfl, rfl, later⟩ := written
      rw [part_text]
      dsimp only
      rw [ih rest later]
      rfl

theorem parts_written {path : String} {pieces : List (List Char)} {segments : List Segment}
    (h : parts path pieces = .ok segments) :
    ∃ ts : List Part, ts.map Part.text = pieces.filter (!·.isEmpty) := by
  induction pieces generalizing segments with
  | nil => exact ⟨[], rfl⟩
  | cons cs pieces ih =>
    rw [parts] at h
    split at h
    · next empty =>
      rw [List.filter_cons_of_neg (by simp [empty])]
      exact ih h
    · next some_char =>
      rw [List.filter_cons_of_pos (by simpa using some_char)]
      cases read : part path cs with
      | error e => cases read ▸ h
      | ok first =>
        rw [read] at h
        cases later : parts path pieces with
        | error e => cases later ▸ h
        | ok others =>
          obtain ⟨t, text⟩ := part_written read
          obtain ⟨ts, texts⟩ := ih later
          exact ⟨t :: ts, by rw [List.map_cons, text, texts]⟩

/-! ## Refusals -/

section

variable {path : String} {e : Error}

theorem positions_error {groups : List (List Char)} (h : positions path groups = .error e) :
    ∃ m, e = .path m := by
  induction groups with
  | nil => cases h
  | cons digits groups ih =>
    rw [positions] at h
    cases first : position 0 digits with
    | error fault =>
      rw [first] at h
      cases h
      exact ⟨_, rfl⟩
    | ok i =>
      rw [first] at h
      cases rest : positions path groups with
      | error e' =>
        rw [rest] at h
        cases h
        exact ih rest
      | ok others => cases rest ▸ h

theorem part_error {cs : List Char} (h : part path cs = .error e) : ∃ m, e = .path m := by
  rw [part] at h
  cases bracketed : groups? none (cs.dropWhile (!isBracket ·)) with
  | none =>
    rw [bracketed] at h
    cases h
    exact ⟨_, rfl⟩
  | some groups =>
    rw [bracketed] at h
    dsimp only at h
    cases read : positions path groups with
    | error e' =>
      rw [read] at h
      cases h
      exact positions_error read
    | ok indices => cases read ▸ h

theorem parts_error {pieces : List (List Char)} (h : parts path pieces = .error e) :
    ∃ m, e = .path m := by
  induction pieces with
  | nil => cases h
  | cons cs pieces ih =>
    rw [parts] at h
    split at h
    · exact ih h
    · cases read : part path cs with
      | error e' =>
        rw [read] at h
        cases h
        exact part_error read
      | ok first =>
        rw [read] at h
        cases later : parts path pieces with
        | error e' =>
          rw [later] at h
          cases h
          exact ih later
        | ok others => cases later ▸ h

end

/-! ## Whole texts -/

/-- The parts between dots that count. -/
def pieces (dotted : String) : List (List Char) :=
  (dotted.toList.splitOn '.').filter (!·.isEmpty)

theorem segments_ne_nil {dotted : String} {ts : List Part} (some_part : ts ≠ [])
    (written : ts.map Part.text = pieces dotted) : ts.flatMap Part.segments ≠ [] := by
  cases ts with
  | nil => exact absurd rfl some_part
  | cons t ts =>
    have piece : t.text ∈ pieces dotted := written ▸ List.mem_cons_self
    have some_char : t.text ≠ [] := by simpa using (List.mem_filter.mp piece).2
    intro none
    rw [List.flatMap_cons, List.append_eq_nil_iff] at none
    exact Part.segments_ne_nil some_char none.1

theorem parse_eq_ok_iff {dotted : String} {p : Path} :
    parse dotted = .ok p ↔ ∃ ts : List Part, ts ≠ [] ∧ ts.map Part.text = pieces dotted ∧
      p.segments = ts.flatMap Part.segments := by
  rw [parse, Text.splitOn_eq]
  constructor
  · intro h
    cases read : parts dotted (dotted.toList.splitOn '.') with
    | error e => cases read ▸ h
    | ok segments =>
      obtain ⟨ts, written⟩ := parts_written read
      rw [parts_text dotted ts written] at h
      cases shape : ts.flatMap Part.segments with
      | nil =>
        rw [shape] at h
        cases h
      | cons s rest =>
        rw [shape] at h
        cases h
        exact ⟨ts, (by rintro rfl; cases shape), written, shape.symm⟩
  · rintro ⟨ts, some_part, written, same⟩
    have some_segment := segments_ne_nil some_part written
    rw [parts_text dotted ts written]
    rw [← same] at some_segment ⊢
    obtain ⟨segments⟩ := p
    cases segments with
    | nil => exact absurd rfl some_segment
    | cons s rest => rfl

theorem parse_error {dotted : String} {e : Error} (h : parse dotted = .error e) :
    ∃ m, e = .path m := by
  rw [parse] at h
  cases read : parts dotted (Text.splitOn ['.'] dotted.toList) with
  | error e' =>
    rw [read] at h
    cases h
    exact parts_error read
  | ok segments =>
    rw [read] at h
    cases segments with
    | nil =>
      cases h
      exact ⟨_, rfl⟩
    | cons s rest => cases h

/-- Dotted text is read exactly if some of its parts is not empty and each of those is a name
without brackets and positions in brackets. The path is then what the parts are made of, in order;
all other text is refused with a path error. So a part has nothing but ASCII digits and brackets
from its first bracket on: no other digit, no sign and no further text. -/
theorem parse_grammar (dotted : String) :
    ((∃ p, parse dotted = .ok p) ↔
      pieces dotted ≠ [] ∧ ∀ cs ∈ pieces dotted, ∃ t : Part, t.text = cs) ∧
    (∀ p, parse dotted = .ok p ↔ ∃ ts : List Part, ts ≠ [] ∧ ts.map Part.text = pieces dotted ∧
      p.segments = ts.flatMap Part.segments) ∧
    (∀ e, parse dotted = .error e → ∃ m, e = .path m) ∧
    ∀ p, parse dotted = .ok p → ∀ cs ∈ pieces dotted,
      ∀ c ∈ cs.dropWhile (!isBracket ·), isBracket c = true ∨ c.isDigit = true := by
  refine ⟨?_, fun p => parse_eq_ok_iff, fun e => parse_error, ?_⟩
  · constructor
    · rintro ⟨p, read⟩
      obtain ⟨ts, some_part, written, -⟩ := parse_eq_ok_iff.mp read
      rw [← written]
      exact ⟨mt List.map_eq_nil_iff.mp some_part, fun cs piece => (List.mem_map.mp piece).imp
        fun t same => same.2⟩
    · rintro ⟨some_piece, each⟩
      have every : pieces dotted ∈ Set.range (List.map Part.text) := by
        rw [Set.range_list_map]
        exact each
      obtain ⟨ts, written⟩ := every
      have some_part : ts ≠ [] := fun none => some_piece (by rw [← written, none]; rfl)
      exact ⟨⟨ts.flatMap Part.segments⟩, parse_eq_ok_iff.mpr ⟨ts, some_part, written, rfl⟩⟩
  · intro p read cs piece
    obtain ⟨ts, -, written, -⟩ := parse_eq_ok_iff.mp read
    obtain ⟨t, -, rfl⟩ := List.mem_map.mp (written ▸ piece)
    exact t.bracket_or_digit

example : parse ".a[007][1].b\n." =
    .ok ⟨[.field "a", .index 7, .index 1, .field "b\n"]⟩ := by rfl

example : parse "a[0]b" = .error (.path "malformed segment 'a[0]b' in path 'a[0]b'") := by rfl

end Path
end RecordFlow
