import RecordFlow.Json.Printer
import RecordFlow.Sink.Basic
import RecordFlow.Sink.Bytes

/-!
# Writing one JSON document per line
-/
namespace RecordFlow.Jsonl

def document (r : Record) : Bytes := Utf8.ofString (Json.compact r)

def writeRecord (r : Record) (out : ByteSink) : Except Error Outcome × ByteSink × Log :=
  let line := document r
  match out.put line with
  | (.error m, out) => (.error (.io m), out, [])
  | (.ok (), out) =>
    match out.put [0x0A] with
    | (.error m, out) => (.error (.io m), out, [])
    | (.ok (), out) => (.ok (.written (line.length + 1) 0), out, [])

/-- Compact documents, each ended by a line feed. -/
def sink : Sink ByteSink where
  write := writeRecord
  finish out := (.ok (), out)

end RecordFlow.Jsonl
