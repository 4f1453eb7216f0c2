import RecordFlow.Json.Shape
import RecordFlow.Jsonl.Lines
import RecordFlow.Stream.Stage
import RecordFlow.Text.Blank

/-!
# Reading one JSON document per line

Blank lines are ignored. A line that holds no document, or no text, is rejected: skipped with a
warning, up to a limit, or reported in its place. Any other failure of the input is reported once
and ends the stream.
-/
namespace RecordFlow.Jsonl

/-- How many rejected lines are put up with. -/
structure Tolerance where
  skipErrors : Bool
  maxErrors : Nat
deriving DecidableEq, Repr

namespace Tolerance

def default : Tolerance := ⟨true, 100⟩

def toValue (t : Tolerance) : Value :=
  .object [("skip_errors", .bool t.skipErrors),
    ("max_errors", .number (.ofWord (.ofNat t.maxErrors)))]

structure Draft where
  skipErrors : Option Bool
  maxErrors : Option Nat

open Json (Shape)

def fields : List (Shape.Field Draft) := [
  { name := "skip_errors"
    required := false
    isSet := fun d => d.skipErrors.isSome
    read := fun d s => (Shape.bool s).map fun (b, rest) =>
      ({ d with skipErrors := some b }, rest) },
  { name := "max_errors"
    required := false
    isSet := fun d => d.maxErrors.isSome
    read := fun d s => (Shape.count s).map fun (n, rest) =>
      ({ d with maxErrors := some n }, rest) }]

def shape (title : String) : Shape Tolerance := fun s =>
  (Shape.structured title fields ⟨none, none⟩ s).map fun (d, rest) =>
    (⟨d.skipErrors.getD default.skipErrors, d.maxErrors.getD default.maxErrors⟩, rest)

end Tolerance

structure Reader where
  tolerance : Tolerance
  lines : List Line
  lineNumber : Nat
  recordsRead : Nat
  errorCount : Nat
  isDone : Bool

namespace Reader

def start (tolerance : Tolerance) (lines : List Line) : Reader := ⟨tolerance, lines, 0, 0, 0, false⟩

/-- Counts a rejected line. The error is what the caller is told of it, if anything. -/
def reject (r : Reader) (message : String) : Option Error × Reader × Log :=
  let r := { r with errorCount := r.errorCount + 1 }
  if !r.tolerance.skipErrors then
    (some (.serialization ("line " ++ toString r.lineNumber ++ ": " ++ message)), r, [])
  else if r.tolerance.maxErrors < r.errorCount then
    (some (.validation ("too many errors (" ++ toString r.errorCount ++ "): last error at line " ++
      toString r.lineNumber ++ ": " ++ message)), { r with isDone := true }, [])
  else
    (none, r, [⟨.warn, "skipping invalid JSON line " ++ toString r.lineNumber ++ ": " ++ message⟩])

/-- What a line means: nothing, a record, a reason to reject it, or a failure of the input. -/
inductive Reading where
  | blank
  | record (r : Record)
  | rejected (message : String)
  | failed (message : String)

def readLine : Line → Reading
  | .error f => if f.undecodable then .rejected f.message else .failed f.message
  | .ok line =>
    let text := Text.trim line.toList
    if text.isEmpty then .blank
    else match Json.parse (String.ofList text) with
      | .ok v => .record v
      | .error e => .rejected e.message

/-- Reads on over the given lines. -/
def nextFrom (r : Reader) : List Line → Option Item × Reader × Log
  | [] => (none, { r with lines := [], isDone := true }, [])
  | line :: rest =>
    let r := { r with lines := rest, lineNumber := r.lineNumber + 1 }
    match readLine line with
    | .blank => nextFrom r rest
    | .record record => (some (.ok record), { r with recordsRead := r.recordsRead + 1 }, [])
    | .failed message =>
      (some (.error (.io ("line " ++ toString r.lineNumber ++ ": " ++ message))),
        { r with errorCount := r.errorCount + 1, isDone := true }, [])
    | .rejected message =>
      match r.reject message with
      | (some e, r, log) => (some (.error e), r, log)
      | (none, r, log) =>
        let (item, last, later) := nextFrom r rest
        (item, last, log ++ later)

/-- The next item, if the reader has not ended. -/
def next (r : Reader) : Option Item × Reader × Log :=
  if r.isDone then (none, r, []) else r.nextFrom r.lines

def takeWithin : (calls : Nat) → Reader → List Item × Reader × Log
  | 0, r => ([], r, [])
  | calls + 1, r =>
    match r.next with
    | (none, r, log) => ([], r, log)
    | (some item, r, log) =>
      let (items, last, later) := takeWithin calls r
      (item :: items, last, log ++ later)

/-- All items. Every item takes a line. -/
def readAll (r : Reader) : List Item × Reader × Log := takeWithin (r.lines.length + 1) r

end Reader
end RecordFlow.Jsonl
