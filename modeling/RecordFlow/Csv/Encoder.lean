import RecordFlow.Sink.Bytes

/-!
# Writing CSV text

Fields are separated by commas and records end with a line feed. A field that holds a comma, a quote
or a line end is put in quotes, with its quotes doubled; a record that would be an empty line is
written as a pair of quotes. The text is gathered in a buffer and handed on when the buffer is full.
A step that fails keeps what it did, and a buffer that could not be handed on is kept whole.
-/
namespace RecordFlow.Csv

structure Encoder where
  out : ByteSink
  buffer : Array UInt8
  /-- the fields of the record at hand that are complete -/
  fieldsWritten : Nat
  inField : Bool
  quoting : Bool
  /-- nothing of the record at hand has been written -/
  isBlank : Bool
  width : Option Nat

inductive WriteFault where
  | refused (message : String)
  | wrongWidth (length expected : Nat)
deriving DecidableEq, Repr

def WriteFault.message : WriteFault → String
  | refused m => "csv: " ++ m
  | wrongWidth length expected =>
    "csv: CSV error: found record with " ++ toString length ++
      " fields, but the previous record has " ++ toString expected ++ " fields"

abbrev Action := Encoder → Except WriteFault Unit × Encoder

namespace Action

def done : Action := fun e => (.ok (), e)

/-- One step after another, up to the first that fails. -/
def andThen (first second : Action) : Action := fun e =>
  match first e with
  | (.ok (), e) => second e
  | (.error f, e) => (.error f, e)

end Action

namespace Encoder

def bufferSize : Nat := 8192

def start (out : ByteSink) : Encoder := ⟨out, #[], 0, false, false, true, none⟩

def flush (e : Encoder) : Except String Unit × Encoder :=
  match e.out.put e.buffer.toList with
  | (.ok (), out) => (.ok (), { e with out, buffer := #[] })
  | (.error m, out) => (.error m, { e with out })

/-- Puts a piece that stays together into the buffer, which is handed on first if need be. -/
def emit (piece : Bytes) : Action := fun e =>
  if e.buffer.size + piece.length ≤ bufferSize then
    (.ok (), { e with buffer := e.buffer.appendList piece, isBlank := false })
  else match e.flush with
    | (.ok (), e) => (.ok (), { e with buffer := e.buffer.appendList piece, isBlank := false })
    | (.error m, e) => (.error (.refused m), e)

def needsQuotes (field : Bytes) : Bool :=
  field.any fun b => b = 0x2C || b = 0x22 || b = 0x0A || b = 0x0D

/-- The content of a field; inside quotes a quote is doubled. -/
def emitContent (quoting : Bool) : Bytes → Action
  | [] => Action.done
  | b :: rest =>
    (emit (if quoting && b = 0x22 then [b, b] else [b])).andThen (emitContent quoting rest)

def closeQuotes : Action := fun e =>
  if e.quoting then
    (emit [0x22]).andThen (fun e => (.ok (), { e with inField := false, quoting := false })) e
  else (.ok (), e)

def delimiter : Action :=
  closeQuotes.andThen <| (emit [0x2C]).andThen fun e => (.ok (), { e with inField := false })

def openField (field : Bytes) : Action := fun e =>
  if e.inField then (.ok (), e)
  else
    let e := { e with quoting := needsQuotes field }
    let opened : Action := fun e => (.ok (), { e with inField := true })
    if e.quoting then (emit [0x22]).andThen opened e else opened e

def writeField (field : Bytes) : Action := fun e =>
  let separated : Action := if 0 < e.fieldsWritten then delimiter else Action.done
  (separated.andThen <| (openField field).andThen fun e =>
    (emitContent e.quoting field).andThen
      (fun e => (.ok (), { e with fieldsWritten := e.fieldsWritten + 1 })) e) e

def writeFields : List Bytes → Action
  | [] => Action.done
  | field :: rest => (writeField field).andThen (writeFields rest)

def checkWidth : Action := fun e =>
  match e.width with
  | none => (.ok (), { e with width := some e.fieldsWritten })
  | some expected =>
    if e.fieldsWritten = expected then (.ok (), e)
    else (.error (.wrongWidth e.fieldsWritten expected), e)

def markBlank : Action := fun e => if e.isBlank then emit [0x22, 0x22] e else (.ok (), e)

def endRecord : Action :=
  checkWidth.andThen <| closeQuotes.andThen <| markBlank.andThen <| (emit [0x0A]).andThen fun e =>
    (.ok (), { e with fieldsWritten := 0, inField := false, isBlank := true })

def writeRecord (fields : List Bytes) : Action := (writeFields fields).andThen endRecord

end Encoder
end RecordFlow.Csv
