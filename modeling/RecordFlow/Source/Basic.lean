import RecordFlow.Csv.Reader
import RecordFlow.Jsonl.Reader
import RecordFlow.Source.JsonFiles

/-!
# Record sources

A source hands out items one at a time, from lines, from the rows of a table, from files, or from
values at hand.
-/
namespace RecordFlow

inductive Source where
  | lines (reader : Jsonl.Reader)
  | table (t : Csv.Table)
  | files (f : JsonFiles)
  | items (rest : List Item)

namespace Source

def next : Source → Option Item × Source × Log
  | lines reader =>
    let (item, reader, log) := reader.next
    (item, lines reader, log)
  | table t =>
    let (item, t) := t.next
    (item, table t, [])
  | files f =>
    let (item, f) := f.next
    (item, files f, [])
  | items [] => (none, items [], [])
  | items (item :: rest) => (some item, items rest, [])

def take : (calls : Nat) → Source → List Item × Source × Log
  | 0, s => ([], s, [])
  | calls + 1, s =>
    match s.next with
    | (none, s, log) => ([], s, log)
    | (some item, s, log) =>
      let (rest, last, later) := take calls s
      (item :: rest, last, log ++ later)

end Source
end RecordFlow
