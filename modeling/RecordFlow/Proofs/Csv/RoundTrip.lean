import RecordFlow.Csv.Reader
import RecordFlow.Csv.Writer
import RecordFlow.Proofs.Csv.Encoder
import RecordFlow.Proofs.Text.Utf8
import RecordFlow.Proofs.Value.Shape

/-!
# Reading back the rows that were written

A writer takes the mappings whose keys its layout allows, and writes the header and a row for each.
A table over what was written has the same columns and gives every record as the mapping from the
columns to its texts.
-/
namespace RecordFlow.Csv

/-- The row of some texts. -/
def textRow (texts : List String) : Bytes := rowText (texts.map Utf8.ofString)

/-- The text under a column in the row of a record. -/
def cell (layout : Layout) (r : Record) (column : String) : String :=
  match r.field? column with
  | some v => Record.render v
  | none => layout.defaultValue

/-- The record is a mapping, and where extras are an error it has no key without a column. -/
def Layout.Accepts (layout : Layout) (columns : List String) (r : Record) : Prop :=
  ∃ fields : Fields, r = .object fields ∧
    (layout.extras = .raise → ∀ key ∈ fields.keys, key ∈ columns)

/-! ## Writing -/

namespace Writer

theorem isEmpty_extras {columns : List String} {fields : Fields} :
    (fields.keys.filter fun key => !columns.contains key).isEmpty = true ↔
      ∀ key ∈ fields.keys, key ∈ columns := by
  simp

theorem row_of_accepts {layout : Layout} {columns : List String} {r : Record}
    (h : layout.Accepts columns r) :
    row layout columns r = .ok (columns.map (cell layout r)) := by
  obtain ⟨fields, rfl, known⟩ := h
  apply if_neg
  rintro ⟨raises, extras⟩
  exact extras (isEmpty_extras.mpr (known raises))

theorem accepts_of_row {layout : Layout} {columns texts : List String} {r : Record}
    (h : row layout columns r = .ok texts) : layout.Accepts columns r := by
  cases r with
  | object fields =>
    refine ⟨fields, rfl, ?_⟩
    intro raises
    by_cases known : ∀ key ∈ Fields.keys fields, key ∈ columns
    · exact known
    · have refused : row layout columns (.object fields) = .error _ :=
        if_pos ⟨raises, fun empty => known (isEmpty_extras.mp empty)⟩
      rw [refused] at h
      cases h
  | _ => cases h

/-- The header and the rows so far were written, and nothing else. -/
structure Settled (w : Writer) (layout : Layout) (columns : List String) (text : Bytes) :
    Prop where
  laidOut : w.layout = layout
  under : w.columns = some columns
  headed : w.headerWritten = true
  room : w.encoder.out.room = none
  seen : w.encoder.view = .between text (some columns.length)

theorem encode_texts {w : Writer} {text : Bytes} {width : Option Nat}
    (room : w.encoder.out.room = none) (seen : w.encoder.view = .between text width)
    {texts : List String} (nonempty : texts ≠ [])
    (fits : width.getD texts.length = texts.length) :
    ∃ encoder : Encoder, w.encode texts = (.ok (), { w with encoder }) ∧
      encoder.out.room = none ∧
      encoder.view = .between (text ++ textRow texts) (some texts.length) := by
  cases texts with
  | nil => contradiction
  | cons first later =>
    obtain ⟨last, ran, free, after⟩ := Encoder.leads_writeRecord text (Utf8.ofString first)
      (later.map Utf8.ofString) (by rw [List.length_map]; exact fits) w.encoder room seen
    refine ⟨last, ?_, free, ?_⟩
    · rw [encode, List.map_cons, ran]
    · rw [after, List.length_map]
      rfl

/-- Once the header is there, a record that is accepted adds its row. -/
theorem writeRecord_headed {w headed : Writer} {layout : Layout} {columns : List String}
    {text : Bytes} {headerLength : Nat} {r : Record} (nonempty : columns ≠ [])
    (laidOut : w.layout = layout) (under : w.columns.getD (keysOf r) = columns)
    (header : { w with columns := some columns }.writeHeader columns = (.ok headerLength, headed))
    (h : headed.Settled layout columns text) (accepted : layout.Accepts columns r) :
    ∃ outcome last, w.writeRecord r = (.ok outcome, last, []) ∧
      last.Settled layout columns (text ++ textRow (columns.map (cell layout r))) := by
  have cells : row w.layout columns r = .ok (columns.map (cell layout r)) := by
    rw [laidOut, row_of_accepts accepted]
  have some : columns.map (cell layout r) ≠ [] := by rwa [ne_eq, List.map_eq_nil_iff]
  obtain ⟨encoder, encoded, room, seen⟩ := encode_texts h.room h.seen some
    (by rw [List.length_map, Option.getD_some])
  refine ⟨.written (headerLength + lineLength (columns.map (cell layout r))) 0,
    { headed with encoder }, ?_, ⟨h.laidOut, h.under, h.headed, room, ?_⟩⟩
  · simp only [writeRecord, under, cells, header, encoded]
  · rw [seen, List.length_map]

theorem writeRecord_settled {w : Writer} {layout : Layout} {columns : List String} {text : Bytes}
    (h : w.Settled layout columns text) (nonempty : columns ≠ []) {r : Record}
    (accepted : layout.Accepts columns r) : ∃ outcome last, w.writeRecord r =
      (.ok outcome, last, []) ∧
      last.Settled layout columns (text ++ textRow (columns.map (cell layout r))) := by
  have same : { w with columns := some columns } = w := by rw [← h.under]
  have header : { w with columns := some columns }.writeHeader columns = (.ok 0, w) := by
    rw [same, writeHeader, if_pos h.headed]
  exact writeRecord_headed nonempty h.laidOut (by rw [h.under, Option.getD_some]) header h accepted

/-- The first record settles the columns, and the header stands before its row. -/
theorem writeRecord_first {layout : Layout} {columns : List String} {r : Record}
    (nonempty : columns ≠ []) (under : layout.columns.getD (keysOf r) = columns)
    (accepted : layout.Accepts columns r) :
    ∃ outcome last, (start layout (.start none)).writeRecord r = (.ok outcome, last, []) ∧
      last.Settled layout columns
        (textRow columns ++ textRow (columns.map (cell layout r))) := by
  let settled : Writer := { start layout (.start none) with columns := some columns }
  obtain ⟨encoder, encoded, room, seen⟩ :=
    encode_texts (w := settled) rfl (show _ = Encoder.View.between [] none from rfl) nonempty rfl
  have header : settled.writeHeader columns =
      (.ok (lineLength columns), { settled with encoder, headerWritten := true }) := by
    rw [writeHeader, encoded]
    rfl
  exact writeRecord_headed nonempty rfl under header ⟨rfl, rfl, rfl, room, seen⟩ accepted

theorem accepts_of_writeRecord {w last : Writer} {r : Record} {outcome : Outcome} {log : Log}
    (h : w.writeRecord r = (.ok outcome, last, log)) :
    w.layout.Accepts (w.columns.getD (keysOf r)) r := by
  cases found : row w.layout (w.columns.getD (keysOf r)) r with
  | error e => simp [writeRecord, found] at h
  | ok texts => exact accepts_of_row found

/-! A run over a settled writer succeeds if and only if it accepts every record. -/

theorem writeFrom_settled {layout : Layout} {columns : List String} (nonempty : columns ≠ [])
    {records : List Record} (accepted : ∀ r ∈ records, layout.Accepts columns r) {w : Writer}
    {text : Bytes} (h : w.Settled layout columns text) (stats : Stats) :
    let written := sink.writeFrom stats w (records.map .ok)
    (∃ total, written.result = .ok total) ∧ written.state.encoder.out.taken =
      text ++ records.flatMap fun r => textRow (columns.map (cell layout r)) := by
  induction records generalizing w text stats with
  | nil =>
    have flushed : sink.finish w = (.ok (), { w with
        encoder := { w.encoder with out := ⟨text, none⟩, buffer := #[] } }) := by
      rw [show sink.finish w = w.flush from rfl, flush, Encoder.flush_unlimited h.room, h.seen]
      rfl
    rw [List.map_nil, Sink.writeFrom, flushed, List.flatMap_nil, List.append_nil]
    exact ⟨⟨stats, rfl⟩, rfl⟩
  | cons r records ih =>
    obtain ⟨here, there⟩ := List.forall_mem_cons.mp accepted
    obtain ⟨outcome, last, wrote, settled⟩ := writeRecord_settled h nonempty here
    rw [List.map_cons, Sink.writeFrom_cons wrote, List.flatMap_cons, ← List.append_assoc]
    exact ih there settled (stats.count outcome)

theorem accepts_of_writeFrom {layout : Layout} {columns : List String} (nonempty : columns ≠ [])
    {records : List Record} {w : Writer} {text : Bytes} (h : w.Settled layout columns text)
    {stats total : Stats}
    (result : (sink.writeFrom stats w (records.map .ok)).result = .ok total) :
    ∀ r ∈ records, layout.Accepts columns r := by
  induction records generalizing w text stats with
  | nil => nofun
  | cons r records ih =>
    obtain ⟨outcome, next, log, wrote, rest⟩ := Sink.write_of_writeFrom_cons result
    have here : layout.Accepts columns r := by
      have accepted := accepts_of_writeRecord wrote
      rwa [h.laidOut, h.under] at accepted
    obtain ⟨_, last, rewrote, settled⟩ := writeRecord_settled h nonempty here
    obtain ⟨-, same⟩ := Prod.mk.inj (wrote.symm.trans rewrote)
    obtain ⟨rfl, -⟩ := Prod.mk.inj same
    exact List.forall_mem_cons.mpr ⟨here, ih settled rest⟩

theorem accepts_of_writeAll {layout : Layout} {columns : List String} {first : Record}
    {later : List Record} (under : layout.columns.getD (keysOf first) = columns)
    (nonempty : columns ≠ []) {stats : Stats}
    (result : (sink.writeAll (.start layout (.start none)) ((first :: later).map .ok)).result =
      .ok stats) : ∀ r ∈ first :: later, layout.Accepts columns r := by
  obtain ⟨outcome, next, log, wrote, rest⟩ := Sink.write_of_writeFrom_cons result
  have here : layout.Accepts columns first := under ▸ accepts_of_writeRecord wrote
  obtain ⟨_, last, rewrote, settled⟩ := writeRecord_first nonempty under here
  obtain ⟨-, same⟩ := Prod.mk.inj (wrote.symm.trans rewrote)
  obtain ⟨rfl, -⟩ := Prod.mk.inj same
  exact List.forall_mem_cons.mpr ⟨here, accepts_of_writeFrom nonempty settled rest⟩

theorem writeAll_accepted {layout : Layout} {columns : List String} {first : Record}
    {later : List Record} (under : layout.columns.getD (keysOf first) = columns)
    (nonempty : columns ≠ []) (accepted : ∀ r ∈ first :: later, layout.Accepts columns r) :
    let written := sink.writeAll (.start layout (.start none)) ((first :: later).map .ok)
    (∃ total, written.result = .ok total) ∧ written.state.encoder.out.taken = textRow columns ++
      (first :: later).flatMap fun r => textRow (columns.map (cell layout r)) := by
  obtain ⟨here, there⟩ := List.forall_mem_cons.mp accepted
  obtain ⟨outcome, last, wrote, settled⟩ := writeRecord_first nonempty under here
  rw [List.map_cons, Sink.writeAll, Sink.writeFrom_cons wrote, List.flatMap_cons,
    ← List.append_assoc]
  exact writeFrom_settled nonempty there settled (Stats.zero.count outcome)

end Writer

/-! ## Reading -/

theorem decodeFields_ofString (p : Position) (index : Nat) (texts : List String) :
    decodeFields p index (texts.map Utf8.ofString) = .ok texts := by
  induction texts generalizing index with
  | nil => rfl
  | cons text texts ih =>
    rw [List.map_cons, decodeFields, Utf8.toString?_ofString]
    dsimp only
    rw [ih]
    rfl

theorem Reader.next_textRow {r : Reader} {mark : Nat} {texts : List String} {rest : Bytes}
    (nonempty : texts ≠ []) (bytes : r.bytes.drop mark = textRow texts ++ rest)
    (fits : r.width.getD texts.length = texts.length) :
    r.next mark = (some (.ok texts), r.advance rest texts.length) := by
  have scanned : scanRecord (r.bytes.drop mark) = some ⟨texts.map Utf8.ofString, rest, true⟩ := by
    rw [bytes, textRow, scanRecord_rowText (by rwa [ne_eq, List.map_eq_nil_iff])]
  simp only [Reader.next, scanned, List.length_map, fits, if_true, decodeFields_ofString]

/-- The rows left in a table come out one by one, and then it ends. -/
theorem Table.takeWithin_rows {rows : List (List String)} {t : Table} (nonempty : t.columns ≠ [])
    (whole : ∀ texts ∈ rows, texts.length = t.columns.length)
    (bytes : t.rows.bytes = rows.flatMap textRow) (clean : t.rows.failure = none)
    (width : t.rows.width = some t.columns.length) (calls : Nat) :
    t.takeWithin calls = (rows.map fun texts => .ok (record t.columns texts)).take calls := by
  induction calls generalizing rows t with
  | zero => rfl
  | succ calls ih =>
    cases rows with
    | nil =>
      have ended : t.rows.next 0 = (none, t.rows.ended) := by
        simp only [Reader.next, bytes, clean]
        rfl
      rw [takeWithin, Table.next, ended]
      rfl
    | cons texts rows =>
      obtain ⟨here, there⟩ := List.forall_mem_cons.mp whole
      have filled : texts ≠ [] := by
        rw [← List.length_pos_iff, here, List.length_pos_iff]
        exact nonempty
      have read : t.rows.next 0 = _ := Reader.next_textRow filled
        (by rw [List.drop_zero, bytes, List.flatMap_cons]) (by rw [width, here, Option.getD_some])
      have later := ih (t := ⟨t.columns, t.rows.advance (rows.flatMap textRow) texts.length⟩)
        nonempty there rfl clean (by rw [← here]; rfl)
      rw [takeWithin, Table.next, read]
      dsimp only
      rw [later]
      rfl

theorem isPrefixOf_textRow {columns : List String} (nonempty : columns ≠ [])
    (unmarked : ∀ name ∈ columns.head?, name.toList.head? ≠ some '\uFEFF') (rest : Bytes) :
    Reader.byteOrderMark.isPrefixOf (textRow columns ++ rest) = false := by
  cases columns with
  | nil => contradiction
  | cons first later =>
    rw [textRow, List.map_cons]
    obtain ⟨tail, opened⟩ | ⟨tail, opened⟩ | ⟨filled, -, tail, opened⟩ :=
      rowText_cases (Utf8.ofString first) (later.map Utf8.ofString)
    · rw [opened]; rfl
    · rw [opened]; rfl
    · have fresh := unmarked first rfl
      rw [opened, Bool.eq_false_iff, ne_eq, List.isPrefixOf_iff_prefix]
      rintro ⟨after, same⟩
      rw [Utf8.ofString] at filled same
      cases chars : first.toList with
      | nil => rw [chars] at filled; exact filled rfl
      | cons c cs =>
        rw [chars] at same fresh
        rw [Utf8.encode_cons, List.append_assoc, List.append_assoc] at same
        have mark : Reader.byteOrderMark = String.utf8EncodeChar '\uFEFF' := by decide
        rw [mark] at same
        exact fresh (congrArg some (Utf8.eq_of_char_append same).symm)

theorem length_textRow_pos (texts : List String) : 0 < (textRow texts).length := by
  cases texts with
  | nil => exact Nat.one_pos
  | cons text texts =>
    obtain ⟨b, rest, opened, -⟩ := rowText_first (Utf8.ofString text) (texts.map Utf8.ofString)
    rw [textRow, List.map_cons, opened]
    exact Nat.succ_pos _

theorem length_le_flatMap_textRow (rows : List (List String)) :
    rows.length ≤ (rows.flatMap textRow).length := by
  induction rows with
  | nil => exact Nat.le_refl 0
  | cons texts rows ih =>
    rw [List.flatMap_cons, List.length_append, List.length_cons, Nat.add_comm]
    exact Nat.add_le_add (length_textRow_pos texts) ih

/-- The first row names the columns, and every row after it is a record. -/
theorem Table.start_rows {columns : List String} (nonempty : columns ≠ [])
    (unmarked : ∀ name ∈ columns.head?, name.toList.head? ≠ some '\uFEFF')
    {rows : List (List String)} (whole : ∀ texts ∈ rows, texts.length = columns.length)
    (firstLength : Nat) : ∃ t,
      Table.start firstLength (.ofBytes (textRow columns ++ rows.flatMap textRow)) = .ok t ∧
      t.columns = columns ∧ t.readAll = rows.map fun texts => .ok (record columns texts) := by
  let reader : Reader := ⟨textRow columns ++ rows.flatMap textRow, none, ⟨0, 1, 0⟩, none⟩
  have opened : Reader.start (.ofBytes (textRow columns ++ rows.flatMap textRow)) = reader := by
    rw [Reader.start, Input.readable_ofBytes, Input.failure?_ofBytes]
  have mark : Reader.markLength firstLength reader.bytes = 0 := by
    rw [Reader.markLength, isPrefixOf_textRow nonempty unmarked, Bool.false_and]
    rfl
  have header : reader.next 0 = _ := Reader.next_textRow nonempty List.drop_zero rfl
  let t : Table := ⟨columns, reader.advance (rows.flatMap textRow) columns.length⟩
  have rest := Table.takeWithin_rows (t := t) nonempty whole rfl rfl rfl
    ((rows.flatMap textRow).length + 2)
  refine ⟨t, ?_, rfl, ?_⟩
  · rw [Table.start, opened, mark]
    simp only [Nat.lt_irrefl, false_and, if_false, header]
    rfl
  · rw [Table.readAll]
    refine rest.trans (List.take_of_length_le ?_)
    rw [List.length_map]
    exact Nat.le_add_right_of_le (length_le_flatMap_textRow rows)

theorem Table.record_cells {columns : List String} (distinct : columns.Nodup)
    (text : String → String) : record columns (columns.map text) =
      .object (columns.map fun column => (column, .string (text column))) := by
  have entries : columns.zip ((columns.map text).map Value.string) =
      columns.map fun column => (column, Value.string (text column)) := by
    have paired : (columns.map id).zip (columns.map (Value.string ∘ text)) = _ := List.zip_map'
    rwa [List.map_id, ← List.map_map] at paired
  have keys : Fields.keys (columns.map fun column => (column, Value.string (text column))) =
      columns := by
    rw [Fields.keys, List.map_map]
    exact List.map_id columns
  rw [record, entries, Fields.ofEntries_of_nodup (by rwa [keys])]

/-- A writer accepts some records if and only if its layout accepts each. It then wrote what a table
reads back, however much of it arrives at first: the same columns, and for each record in order the
mapping from the columns to the texts of its values. -/
theorem table_of_writeAll (layout : Layout) (first : Record) (later : List Record)
    {columns : List String} (under : layout.columns.getD (Writer.keysOf first) = columns)
    (nonempty : columns ≠ []) (distinct : columns.Nodup)
    (unmarked : ∀ name ∈ columns.head?, name.toList.head? ≠ some '\uFEFF') :
    let w := sink.writeAll (.start layout (.start none)) ((first :: later).map .ok)
    ((∃ stats, w.result = .ok stats) ↔ ∀ r ∈ first :: later, layout.Accepts columns r) ∧
    ((∃ stats, w.result = .ok stats) → ∀ firstLength, ∃ t,
      Table.start firstLength (.ofBytes w.state.encoder.out.taken) = .ok t ∧
      t.columns = columns ∧
      t.readAll = (first :: later).map fun r =>
        .ok (.object (columns.map fun column => (column, .string (cell layout r column))))) := by
  intro w
  have accepts : (∃ stats, w.result = .ok stats) → ∀ r ∈ first :: later, layout.Accepts columns r :=
    fun ⟨_, result⟩ => Writer.accepts_of_writeAll under nonempty result
  refine ⟨⟨accepts, fun accepted => (Writer.writeAll_accepted under nonempty accepted).1⟩, ?_⟩
  intro result firstLength
  let rows := (first :: later).map fun r => columns.map (cell layout r)
  have written : w.state.encoder.out.taken = textRow columns ++ rows.flatMap textRow := by
    rw [(Writer.writeAll_accepted under nonempty (accepts result)).2, List.flatMap_map]
  have whole : ∀ texts ∈ rows, texts.length = columns.length := by
    intro texts member
    obtain ⟨r, -, rfl⟩ := List.mem_map.mp member
    exact List.length_map _
  obtain ⟨t, opened, same, read⟩ := Table.start_rows nonempty unmarked whole firstLength
  refine ⟨t, by rw [written, opened], same, ?_⟩
  rw [read, List.map_map]
  exact List.map_congr_left fun r _ => congrArg Except.ok (Table.record_cells distinct _)

/-- Columns taken from the first record, one of them without a name and one with a comma, a text
with quotes and a line end, and a record that lacks a column and has an extra one. -/
theorem table_of_writeAll_quotes :
    let first : Record := .object [("", .string "say \"hi\"\r\n"), ("a,b", .bool true)]
    let second : Record := .object [("more", .null), ("", .null)]
    let w := sink.writeAll (.start ⟨none, "-", .ignore⟩ (.start none)) ([first, second].map .ok)
    (∃ stats, w.result = .ok stats) ∧ ∃ t,
      Table.start 8192 (.ofBytes w.state.encoder.out.taken) = .ok t ∧ t.columns = ["", "a,b"] ∧
      t.readAll = [
        .ok (.object [("", .string "say \"hi\"\r\n"), ("a,b", .string "true")]),
        .ok (.object [("", .string ""), ("a,b", .string "-")])] := by
  intro first second
  have under : Layout.default.columns.getD (Writer.keysOf first) = ["", "a,b"] := rfl
  have h := table_of_writeAll ⟨none, "-", .ignore⟩ first [second] under (by decide) (by decide)
    (by decide)
  dsimp only at h ⊢
  have accepted := h.1.mpr <| by
    simp only [List.forall_mem_cons, List.not_mem_nil, false_imp_iff, implies_true, and_true]
    exact ⟨⟨_, rfl, nofun⟩, ⟨_, rfl, nofun⟩⟩
  obtain ⟨t, opened, same, read⟩ := h.2 accepted 8192
  exact ⟨accepted, t, opened, same, read⟩

end RecordFlow.Csv
