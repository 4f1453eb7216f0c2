import RecordFlow.Proofs.Csv.RoundTrip

/-!
# Records that a writer rejects

A rejected record leaves nothing behind but columns. A writer that has columns is the same after it;
one that has none yet takes the empty list for them, and from then on this shows.
-/
namespace RecordFlow.Csv

theorem Encoder.checkWidth_of_fits {e : Encoder}
    (fits : e.width.getD e.fieldsWritten = e.fieldsWritten) :
    checkWidth e = (.ok (), { e with width := some e.fieldsWritten }) := by
  rcases e with ⟨out, buffer, fieldsWritten, inField, quoting, isBlank, width⟩
  cases width with
  | none => rfl
  | some expected =>
    cases fits
    exact if_pos rfl

/-- A record of one plain byte is that byte and a line end, if the buffer has room. -/
theorem Encoder.writeRecord_byte {b : UInt8} (plain : needsQuotes [b] = false) (out : ByteSink)
    (buffer : Array UInt8) {width : Option Nat} (fits : width.getD 1 = 1)
    (room : buffer.size + 2 ≤ bufferSize) :
    writeRecord [[b]] ⟨out, buffer, 0, false, false, true, width⟩ =
      (.ok (), ⟨out, (buffer.push b).push 0x0A, 0, false, false, true, some 1⟩) := by
  have byte : buffer.size + 1 ≤ bufferSize := Nat.le_trans (Nat.le_succ _) room
  have line : buffer.size + 1 + 1 ≤ bufferSize := room
  simp [writeRecord, writeFields, writeField, Action.andThen, Action.done, openField, plain,
    emitContent, endRecord, checkWidth_of_fits, fits, closeQuotes, markBlank, emit, byte, line]

namespace Writer

/-! ## One record -/

/-- The writer with the columns that a record settles. -/
def settle (w : Writer) (r : Record) : Writer :=
  { w with columns := some (w.columns.getD (keysOf r)) }

/-- What the header adds to the bytes of a row. -/
def headerLength (w : Writer) (columns : List String) : Nat :=
  if w.headerWritten then 0 else lineLength columns

/-- The three ways in which a record ends: rejected before anything is written, failed by the
encoder, or written. In all of them the columns are settled. -/
inductive Offered (w : Writer) (r : Record) : Except Error Outcome → Writer → Prop
  | rejected {e : Error} (refused : row w.layout (w.columns.getD (keysOf r)) r = .error e) :
      Offered w r (.error e) (w.settle r)
  | failed {m : String} {last : Writer} (settled : last.columns = (w.settle r).columns) :
      Offered w r (.error (.serialization m)) last
  | written {fields : List String} {last : Writer}
      (accepted : row w.layout (w.columns.getD (keysOf r)) r = .ok fields)
      (settled : last.columns = (w.settle r).columns) :
      Offered w r
        (.ok (.written (w.headerLength (w.columns.getD (keysOf r)) + lineLength fields) 0)) last

theorem encode_cases (fields : List String) (w : Writer) : ∃ encoder,
    w.encode fields = (.ok (), { w with encoder }) ∨
      ∃ m, w.encode fields = (.error (.serialization m), { w with encoder }) := by
  rw [encode]
  split
  · next encoder written => exact ⟨encoder, .inl rfl⟩
  · next f encoder written => exact ⟨encoder, .inr ⟨f.message, rfl⟩⟩

theorem writeHeader_cases (columns : List String) (w : Writer) :
    ∃ last : Writer, last.columns = w.columns ∧
      (w.writeHeader columns = (.ok (w.headerLength columns), last) ∨
        ∃ m, w.writeHeader columns = (.error (.serialization m), last)) := by
  cases headed : w.headerWritten with
  | true =>
    refine ⟨w, rfl, .inl ?_⟩
    rw [writeHeader, headerLength, headed]
    rfl
  | false =>
    rw [writeHeader, headerLength, headed]
    obtain ⟨encoder, written | ⟨m, failed⟩⟩ := encode_cases columns w
    · rw [written]
      exact ⟨{ w with encoder, headerWritten := true }, rfl, .inl rfl⟩
    · rw [failed]
      exact ⟨{ w with encoder }, rfl, .inr ⟨m, rfl⟩⟩

theorem offered_writeRecord (w : Writer) (r : Record) :
    Offered w r (w.writeRecord r).1 (w.writeRecord r).2.1 := by
  rw [writeRecord]
  cases checked : row w.layout (w.columns.getD (keysOf r)) r with
  | error e => exact .rejected checked
  | ok fields =>
    dsimp only
    obtain ⟨headed, settled, header | ⟨m, header⟩⟩ :=
      writeHeader_cases (w.columns.getD (keysOf r)) (w.settle r)
    · rw [settle] at header
      obtain ⟨encoder, written | ⟨m, failed⟩⟩ := encode_cases fields headed
      · simp only [header, written]
        exact .written checked settled
      · simp only [header, failed]
        exact .failed settled
    · rw [settle] at header
      simp only [header]
      exact .failed settled

theorem columns_writeRecord (w : Writer) (r : Record) :
    (w.writeRecord r).2.1.columns = some (w.columns.getD (keysOf r)) := by
  have offered := offered_writeRecord w r
  generalize (w.writeRecord r).1 = result at offered
  generalize (w.writeRecord r).2.1 = last at offered ⊢
  cases offered with
  | rejected refused => rfl
  | failed settled => exact settled
  | written accepted settled => exact settled

/-- A validation error comes from the check of the record and settles the columns, no more. -/
theorem writeRecord_rejected {w last : Writer} {r : Record} {m : String} {log : Log}
    (h : w.writeRecord r = (.error (.validation m), last, log)) :
    row w.layout (w.columns.getD (keysOf r)) r = .error (.validation m) ∧ last = w.settle r := by
  have offered := offered_writeRecord w r
  rw [h] at offered
  cases offered with
  | rejected refused => exact ⟨refused, rfl⟩

theorem settle_of_columns {w : Writer} {columns : List String} (h : w.columns = some columns)
    (r : Record) : w.settle r = w := by
  unfold settle
  rw [h, Option.getD_some, ← h]

/-! ## Writers without columns -/

/-- The writers that come of offering records and flushing, in any order. -/
inductive Reached (layout : Layout) (out : ByteSink) : Writer → Prop
  | start : Reached layout out (start layout out)
  | offered {w : Writer} (r : Record) (reached : Reached layout out w) :
      Reached layout out (w.writeRecord r).2.1
  | flushed {w : Writer} (reached : Reached layout out w) : Reached layout out w.flush.2

variable {layout : Layout} {out : ByteSink}

theorem columns_flush (w : Writer) : w.flush.2.columns = w.columns := by
  unfold flush
  split <;> rfl

theorem put_nil (out : ByteSink) : out.put [] = (.ok (), out) := by
  rcases out with ⟨taken, room⟩
  cases room with
  | none => simp [ByteSink.put]
  | some n => simp [ByteSink.put]

theorem flush_start (layout : Layout) (out : ByteSink) :
    (start layout out).flush = (.ok (), start layout out) := by
  have nothing : (Encoder.start out).flush = (.ok (), Encoder.start out) := by
    simp only [Encoder.flush, Encoder.start, put_nil]
  simp only [flush, start, nothing]

/-- A writer without columns is as it was at first: no record was offered to it. -/
theorem eq_start_of_columns {w : Writer} (h : Reached layout out w) (unsettled : w.columns = none) :
    w = start layout out := by
  induction h with
  | start => rfl
  | offered r reached ih =>
    rw [columns_writeRecord] at unsettled
    cases unsettled
  | flushed reached ih =>
    rw [columns_flush] at unsettled
    rw [ih unsettled, flush_start]

/-- Under the columns that it settles itself, only a record that is no mapping is rejected. -/
theorem keysOf_of_rejected {r : Record} {e : Error} (refused : row layout (keysOf r) r = .error e) :
    keysOf r = [] := by
  cases r with
  | object fields =>
    have accepted : layout.Accepts (Fields.keys fields) (.object fields) :=
      ⟨fields, rfl, fun _ key member => member⟩
    have own : keysOf (.object fields) = Fields.keys fields := rfl
    rw [own, row_of_accepts accepted] at refused
    cases refused
  | _ => rfl

/-! ## What is seen of it -/

/-- What a writer shows of further records: what becomes of each, and the bytes that its sink has
taken once it is flushed. -/
def shown (w : Writer) (records : List Record) : List (Except Error Outcome) × Bytes :=
  let (outcomes, last, _) := sink.offerEach w records
  (outcomes, last.flush.2.encoder.out.taken)

theorem outcome_of_shown {v w : Writer} {r : Record} (same : v.shown [r] = w.shown [r]) :
    (v.writeRecord r).1 = (w.writeRecord r).1 :=
  (List.cons.inj (congrArg Prod.fst same)).1

/-- A mapping with one key of one byte and a text of one byte. -/
def probe : Record := .object [("a", .string "b")]

/-- Four bytes count for it at first: the two of its header and the two of its row. -/
theorem writeRecord_probe_start (unset : layout.columns = none) :
    ((start layout out).writeRecord probe).1 = .ok (.written 4 0) := by
  have columns : (start layout out).columns.getD (keysOf probe) = ["a"] := by
    rw [start, unset]
    rfl
  have accepted : layout.Accepts ["a"] probe := ⟨_, rfl, fun _ _ member => member⟩
  have cells : row layout ["a"] probe = .ok ["b"] := row_of_accepts accepted
  have name : ["a"].map Utf8.ofString = [[0x61]] := by decide
  have text : ["b"].map Utf8.ofString = [[0x62]] := by decide
  have header : Encoder.writeRecord [[0x61]] (.start out) = _ :=
    Encoder.writeRecord_byte (by decide) out #[] rfl (by decide)
  have line : Encoder.writeRecord [[0x62]]
      ⟨out, (#[].push 0x61).push 0x0A, 0, false, false, true, some 1⟩ = _ :=
    Encoder.writeRecord_byte (by decide) out _ rfl (by decide)
  have laidOut : (start layout out).layout = layout := rfl
  have unheaded : (start layout out).headerWritten = false := rfl
  have fresh : (start layout out).encoder = .start out := rfl
  simp only [writeRecord, columns, laidOut, cells, writeHeader, encode, unheaded, fresh, name,
    text, Bool.false_eq_true, if_false, header, line]
  rfl

/-- No byte counts for it if there are no columns. -/
theorem writeRecord_probe_empty {w : Writer} (empty : w.columns = some []) :
    (w.writeRecord probe).1 ≠ .ok (.written 4 0) := by
  intro counted
  have offered := offered_writeRecord w probe
  rw [counted] at offered
  generalize outcome : Except.ok (Outcome.written 4 0) = result at offered
  generalize (w.writeRecord probe).2.1 = last at offered
  cases offered with
  | rejected refused => cases outcome
  | failed settled => cases outcome
  | written accepted settled =>
    rw [empty, Option.getD_some] at accepted outcome
    rw [row_of_accepts (accepts_of_row accepted)] at accepted
    cases accepted
    unfold headerLength at outcome
    split at outcome <;> cases outcome

/-- A record that is no mapping is rejected by every writer. -/
theorem writeRecord_other {r : Record} (other : r.fields? = none) (w : Writer) :
    w.writeRecord r =
      (.error (.validation "CSV export requires mapping records"), w.settle r, []) := by
  have refused : row w.layout (w.columns.getD (keysOf r)) r =
      .error (.validation "CSV export requires mapping records") := by
    rw [row, other]
  rw [writeRecord, refused]
  rfl

/-- After a record that is rejected, a writer shows the same of all further records as if it had
never been offered if and only if the columns were settled before. -/
theorem rejected_unnoticed_iff {w last : Writer} {r : Record} {m : String} {log : Log}
    (reached : Reached layout out w)
    (rejected : w.writeRecord r = (.error (.validation m), last, log)) :
    (∀ records, last.shown records = w.shown records) ↔ w.columns.isSome = true := by
  obtain ⟨refused, rfl⟩ := writeRecord_rejected rejected
  constructor
  · intro unnoticed
    cases unsettled : w.columns with
    | some columns => rfl
    | none =>
      obtain rfl := eq_start_of_columns reached unsettled
      rw [unsettled] at refused
      have empty : ((start layout out).settle r).columns = some [] := by
        rw [settle, unsettled, Option.getD_none, keysOf_of_rejected refused]
      have same := outcome_of_shown (unnoticed [probe])
      rw [writeRecord_probe_start unsettled] at same
      exact absurd same (writeRecord_probe_empty empty)
  · intro settled records
    obtain ⟨columns, settled⟩ := Option.isSome_iff_exists.mp settled
    rw [settle_of_columns settled]

/-- A text offered after a mapping. -/
theorem rejected_unnoticed_second :
    let w := ((start .default (.start none)).writeRecord probe).2.1
    w.writeRecord (.string "b") =
      (.error (.validation "CSV export requires mapping records"), w.settle (.string "b"), []) ∧
    ∀ records, (w.settle (.string "b")).shown records = w.shown records := by
  intro w
  have reached : Reached .default (.start none) w := .offered probe .start
  have rejected := writeRecord_other (r := .string "b") rfl w
  refine ⟨rejected, (rejected_unnoticed_iff reached rejected).mpr ?_⟩
  rw [columns_writeRecord, Option.isSome_some]

/-- A text offered first. The writer then has the empty list of columns, and the mapping that comes
after it counts for other bytes than it would have. -/
theorem rejected_noticed_first :
    let w := start .default (.start none)
    w.writeRecord (.string "b") =
      (.error (.validation "CSV export requires mapping records"), w.settle (.string "b"), []) ∧
    (w.settle (.string "b")).shown [probe] ≠ w.shown [probe] := by
  intro w
  refine ⟨writeRecord_other rfl w, ?_⟩
  intro same
  have outcome := outcome_of_shown same
  rw [writeRecord_probe_start rfl] at outcome
  exact writeRecord_probe_empty rfl outcome

end Writer
end RecordFlow.Csv
