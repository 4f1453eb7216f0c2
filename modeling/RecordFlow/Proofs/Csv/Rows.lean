import RecordFlow.Csv.Encoder
import RecordFlow.Csv.Scan

/-!
# The text of a row

A row is its fields between commas and a line feed. A field in quotes has its quotes doubled, and a
row whose only field is empty is a pair of quotes, since an empty line is no row. Scanning the text
gives the fields, and the bytes after it are left.
-/
namespace RecordFlow.Csv

def quoteMark (quoting : Bool) : Bytes := if quoting then [0x22] else []

def contentText (quoting : Bool) (field : Bytes) : Bytes :=
  field.flatMap fun b => if quoting && b = 0x22 then [b, b] else [b]

def fieldText (field : Bytes) : Bytes :=
  let quoting := Encoder.needsQuotes field
  quoteMark quoting ++ contentText quoting field ++ quoteMark quoting

/-- The fields after the first, each after its comma. -/
def laterText (fields : List Bytes) : Bytes := fields.flatMap fun field => 0x2C :: fieldText field

def rowText : List Bytes → Bytes
  | [] => [0x0A]
  | [[]] => [0x22, 0x22, 0x0A]
  | field :: later => fieldText field ++ laterText later ++ [0x0A]

@[simp] theorem contentText_nil (quoting : Bool) : contentText quoting [] = [] := rfl

theorem contentText_cons (quoting : Bool) (b : UInt8) (field : Bytes) :
    contentText quoting (b :: field) =
      (if quoting && b = 0x22 then [b, b] else [b]) ++ contentText quoting field :=
  List.flatMap_cons

theorem contentText_plain (field : Bytes) : contentText false field = field := by
  induction field with
  | nil => rfl
  | cons b field ih => rw [contentText_cons, ih]; rfl

theorem fieldText_plain {field : Bytes} (h : Encoder.needsQuotes field = false) :
    fieldText field = field := by
  simp only [fieldText, h, quoteMark, contentText_plain, Bool.false_eq_true, if_false,
    List.nil_append, List.append_nil]

theorem fieldText_quoted {field : Bytes} (h : Encoder.needsQuotes field = true) :
    fieldText field = 0x22 :: (contentText true field ++ [0x22]) := by
  simp only [fieldText, h, quoteMark, if_true]
  rfl

theorem laterText_cons (field : Bytes) (later : List Bytes) :
    laterText (field :: later) = 0x2C :: (fieldText field ++ laterText later) := List.flatMap_cons

theorem rowText_cons {field : Bytes} {later : List Bytes} (h : ¬ (field = [] ∧ later = [])) :
    rowText (field :: later) = fieldText field ++ laterText later ++ [0x0A] := by
  rw [rowText.eq_def]
  split
  · contradiction
  · next blank => exact absurd (List.cons.inj blank) h
  · next shape => obtain ⟨rfl, rfl⟩ := List.cons.inj shape; rfl

/-- A row opens with a quote, with the comma after an empty field, or with its first field. -/
theorem rowText_cases (field : Bytes) (later : List Bytes) :
    (∃ rest, rowText (field :: later) = 0x22 :: rest) ∨
    (∃ rest, rowText (field :: later) = 0x2C :: rest) ∨
    (field ≠ [] ∧ Encoder.needsQuotes field = false ∧
      ∃ rest, rowText (field :: later) = field ++ rest) := by
  by_cases blank : field = [] ∧ later = []
  · obtain ⟨rfl, rfl⟩ := blank
    exact .inl ⟨_, rfl⟩
  · rw [rowText_cons blank, List.append_assoc]
    cases quoting : Encoder.needsQuotes field with
    | true => exact .inl ⟨_, by rw [fieldText_quoted quoting, List.cons_append]⟩
    | false =>
      rw [fieldText_plain quoting]
      cases field with
      | cons b field => exact .inr (.inr ⟨List.cons_ne_nil b field, rfl, _, rfl⟩)
      | nil =>
        cases later with
        | nil => exact absurd ⟨rfl, rfl⟩ blank
        | cons next later => exact .inr (.inl ⟨_, by rw [laterText_cons]; rfl⟩)

/-! ## Scanning -/

theorem needsQuotes_cons (b : UInt8) (field : Bytes) :
    Encoder.needsQuotes (b :: field) = false ↔
      (b ≠ 0x2C ∧ b ≠ 0x22 ∧ isLineEnd b = false) ∧ Encoder.needsQuotes field = false := by
  simp only [Encoder.needsQuotes, List.any_cons, Bool.or_eq_false_iff, isLineEnd,
    decide_eq_false_iff_not, ne_eq, and_assoc]

theorem scan_char (fields : List Bytes) (field : Bytes) {mode : Mode} (unquoted : mode ≠ .quoted)
    {b : UInt8} (comma : b ≠ 0x2C) (quote : b ≠ 0x22) (lineEnd : isLineEnd b = false)
    (rest : Bytes) : scan fields field mode (b :: rest) = scan fields (b :: field) .plain rest := by
  cases mode <;> simp_all [scan]

theorem scan_plain {content : Bytes} (h : Encoder.needsQuotes content = false)
    (fields : List Bytes) (field rest : Bytes) :
    scan fields field .plain (content ++ rest) =
      scan fields (content.reverse ++ field) .plain rest := by
  induction content generalizing field with
  | nil => rfl
  | cons b content ih =>
    obtain ⟨⟨comma, quote, lineEnd⟩, later⟩ := (needsQuotes_cons b content).mp h
    rw [List.cons_append, scan_char fields field (by decide) comma quote lineEnd, ih later,
      List.reverse_cons, List.append_assoc]
    rfl

theorem scan_quoted (fields : List Bytes) (content field rest : Bytes) :
    scan fields field .quoted (contentText true content ++ 0x22 :: rest) =
      scan fields (content.reverse ++ field) .quoteSeen rest := by
  induction content generalizing field with
  | nil => simp [scan]
  | cons b content ih =>
    have after : scan fields field .quoted
        (contentText true (b :: content) ++ 0x22 :: rest) =
        scan fields (b :: field) .quoted (contentText true content ++ 0x22 :: rest) := by
      by_cases quote : b = 0x22 <;> simp [contentText_cons, quote, scan]
    rw [after, ih, List.reverse_cons, List.append_assoc]
    rfl

theorem scan_fieldText (field : Bytes) : ∃ mode, mode ≠ .quoted ∧ ∀ fields rest,
    scan fields [] .start (fieldText field ++ rest) = scan fields field.reverse mode rest := by
  cases quoting : Encoder.needsQuotes field with
  | true =>
    refine ⟨.quoteSeen, by decide, fun fields rest => ?_⟩
    have opened : scan fields [] .start (fieldText field ++ rest) =
        scan fields [] .quoted (contentText true field ++ 0x22 :: rest) := by
      simp [fieldText_quoted quoting, scan]
    rw [opened, scan_quoted, List.append_nil]
  | false =>
    rw [fieldText_plain quoting]
    cases field with
    -- an empty field is still at its start, where a comma or a line end means the same
    | nil => exact ⟨.start, by decide, fun _ _ => rfl⟩
    | cons b content =>
      refine ⟨.plain, by decide, fun fields rest => ?_⟩
      obtain ⟨⟨comma, quote, lineEnd⟩, later⟩ := (needsQuotes_cons b content).mp quoting
      rw [List.cons_append, scan_char fields [] (by decide) comma quote lineEnd, scan_plain later,
        List.reverse_cons]

theorem scan_comma (fields : List Bytes) (field rest : Bytes) {mode : Mode}
    (unquoted : mode ≠ .quoted) : scan fields field mode (0x2C :: rest) =
      scan (field.reverse :: fields) [] .start rest := by
  cases mode <;> simp_all [scan]

theorem scan_lineFeed (fields : List Bytes) (field rest : Bytes) {mode : Mode}
    (unquoted : mode ≠ .quoted) : scan fields field mode (0x0A :: rest) =
      ⟨(field.reverse :: fields).reverse, rest, true⟩ := by
  cases mode <;> simp_all [scan, isLineEnd]

/-- `before` holds the fields of the row so far, the last one first. -/
theorem scan_line (before : List Bytes) (field : Bytes) (later : List Bytes) (rest : Bytes) :
    scan before [] .start (fieldText field ++ (laterText later ++ 0x0A :: rest)) =
      ⟨before.reverse ++ field :: later, rest, true⟩ := by
  induction later generalizing before field with
  | nil =>
    obtain ⟨mode, unquoted, read⟩ := scan_fieldText field
    rw [read, laterText, List.flatMap_nil, List.nil_append, scan_lineFeed _ _ _ unquoted,
      List.reverse_reverse, List.reverse_cons]
  | cons next later ih =>
    obtain ⟨mode, unquoted, read⟩ := scan_fieldText field
    rw [read, laterText_cons, List.cons_append, List.append_assoc, scan_comma _ _ _ unquoted,
      List.reverse_reverse, ih, List.reverse_cons, List.append_assoc]
    rfl

theorem scan_rowText (field : Bytes) (later : List Bytes) (rest : Bytes) :
    scan [] [] .start (rowText (field :: later) ++ rest) = ⟨field :: later, rest, true⟩ := by
  by_cases blank : field = [] ∧ later = []
  · obtain ⟨rfl, rfl⟩ := blank
    simp [rowText, scan, isLineEnd]
  · rw [rowText_cons blank, List.append_assoc, List.append_assoc, List.singleton_append,
      scan_line]
    rfl

/-- No row begins with a line end, so none of it is dropped before scanning. -/
theorem rowText_first (field : Bytes) (later : List Bytes) :
    ∃ b rest, rowText (field :: later) = b :: rest ∧ isLineEnd b = false := by
  obtain ⟨rest, opened⟩ | ⟨rest, opened⟩ | ⟨nonempty, plain, rest, opened⟩ :=
    rowText_cases field later
  · exact ⟨_, rest, opened, by decide⟩
  · exact ⟨_, rest, opened, by decide⟩
  · cases field with
    | nil => contradiction
    | cons b field =>
      exact ⟨b, field ++ rest, opened, ((needsQuotes_cons b field).mp plain).1.2.2⟩

/-- The first record of a text that begins with a row is that row, and the text after it is left. -/
theorem scanRecord_rowText {fields : List Bytes} (h : fields ≠ []) (rest : Bytes) :
    scanRecord (rowText fields ++ rest) = some ⟨fields, rest, true⟩ := by
  cases fields with
  | nil => contradiction
  | cons field later =>
    obtain ⟨b, tail, opened, lineEnd⟩ := rowText_first field later
    have kept : (rowText (field :: later) ++ rest).dropWhile isLineEnd =
        rowText (field :: later) ++ rest := by
      rw [opened, List.cons_append, List.dropWhile_cons_of_neg (by simp [lineEnd])]
    have scanned := scan_rowText field later rest
    rw [scanRecord, kept]
    rw [opened, List.cons_append] at scanned ⊢
    dsimp only
    rw [scanned]

end RecordFlow.Csv
