import RecordFlow.Csv.Encoder
import RecordFlow.Record
import RecordFlow.Sink.Basic

/-!
# Writing records as CSV

Mapping records become rows under one header row. The columns are given, or else the keys of the
first record offered. Values are written as flat text. Without any record nothing is written.
-/
namespace RecordFlow.Csv

inductive Extras where
  | ignore
  | raise
deriving DecidableEq, Repr

structure Layout where
  columns : Option (List String)
  /-- stands where a record has no value for a column -/
  defaultValue : String
  extras : Extras
deriving DecidableEq, Repr

def Layout.default : Layout := ⟨none, "", .ignore⟩

structure Writer where
  layout : Layout
  columns : Option (List String)
  headerWritten : Bool
  encoder : Encoder

namespace Writer

def start (layout : Layout) (out : ByteSink) : Writer := ⟨layout, layout.columns, false, .start out⟩

def keysOf (r : Record) : List String := (r.fields?.map Fields.keys).getD []

def row (layout : Layout) (columns : List String) (r : Record) : Except Error (List String) :=
  match r.fields? with
  | none => .error (.validation "CSV export requires mapping records")
  | some fields =>
    let extras := fields.keys.filter fun key => !columns.contains key
    if layout.extras = .raise ∧ ¬ extras.isEmpty then
      .error (.validation ("record contains keys without a column: " ++ ", ".intercalate extras))
    else
      .ok (columns.map fun column =>
        match fields.get? column with
        | some v => Record.render v
        | none => layout.defaultValue)

/-- The bytes that a row counts for: its fields and one byte after each. -/
def lineLength (fields : List String) : Nat :=
  fields.foldr (fun field n => (Utf8.ofString field).length + 1 + n) 0

def encode (fields : List String) (w : Writer) : Except Error Unit × Writer :=
  match Encoder.writeRecord (fields.map Utf8.ofString) w.encoder with
  | (.ok (), encoder) => (.ok (), { w with encoder })
  | (.error f, encoder) => (.error (.serialization f.message), { w with encoder })

def writeHeader (columns : List String) (w : Writer) : Except Error Nat × Writer :=
  if w.headerWritten then (.ok 0, w)
  else match w.encode columns with
    | (.ok (), w) => (.ok (lineLength columns), { w with headerWritten := true })
    | (.error e, w) => (.error e, w)

/-- Settles the columns, checks the record, and writes the header if it is due and the row. -/
def writeRecord (r : Record) (w : Writer) : Except Error Outcome × Writer × Log :=
  let columns := w.columns.getD (keysOf r)
  let w := { w with columns := some columns }
  match row w.layout columns r with
  | .error e => (.error e, w, [])
  | .ok fields =>
    match w.writeHeader columns with
    | (.error e, w) => (.error e, w, [])
    | (.ok headerLength, w) =>
      match w.encode fields with
      | (.error e, w) => (.error e, w, [])
      | (.ok (), w) => (.ok (.written (headerLength + lineLength fields) 0), w, [])

def flush (w : Writer) : Except Error Unit × Writer :=
  match w.encoder.flush with
  | (.ok (), encoder) => (.ok (), { w with encoder })
  | (.error m, encoder) => (.error (.io m), { w with encoder })

end Writer

def sink : Sink Writer where
  write := Writer.writeRecord
  finish := Writer.flush

end RecordFlow.Csv
