import RecordFlow.Csv.Scan
import RecordFlow.Stream.Stage

/-!
# Reading CSV

The first record names the columns and every later one must be as long. Each becomes a mapping from
the columns to its fields. A record that is too long, too short or no text gives an error in its
place; a failure of the input ends the stream.
-/
namespace RecordFlow.Csv

/-- The place where reading a record began: how many records, lines and bytes precede it. Lines
count from one. -/
structure Position where
  record : Nat
  line : Nat
  byte : Nat
deriving DecidableEq, Repr

/-- The place after a record that took the bytes `consumed`. -/
def Position.next (p : Position) (consumed : Bytes) : Position :=
  ⟨p.record + 1, p.line + consumed.count 0x0A, p.byte + consumed.length⟩

def fault (message : String) : Error := .serialization ("csv: " ++ message)

def widthFault (p : Position) (length expected : Nat) : Error :=
  fault ("CSV error: record " ++ toString p.record ++ " (line: " ++ toString p.line ++ ", byte: " ++
    toString p.byte ++ "): found record with " ++ toString length ++
    " fields, but the previous record has " ++ toString expected ++ " fields")

def textFault (p : Position) (field cleanLength : Nat) : Error :=
  fault ("CSV parse error: record " ++ toString p.record ++ " (line " ++ toString p.line ++
    ", field: " ++ toString field ++ ", byte: " ++ toString p.byte ++
    "): invalid utf-8: invalid UTF-8 in field " ++ toString field ++ " near byte index " ++
    toString cleanLength)

def decodeFields (p : Position) (index : Nat) : List Bytes → Except Error (List String)
  | [] => .ok []
  | field :: rest =>
    match Utf8.toString? field with
    | some text => (decodeFields p (index + 1) rest).map (text :: ·)
    | none => .error (textFault p index (Utf8.cleanLength (Utf8.pieces field)))

structure Reader where
  bytes : Bytes
  failure : Option ReadFailure
  position : Position
  width : Option Nat

namespace Reader

def byteOrderMark : Bytes := [0xEF, 0xBB, 0xBF]

/-- The length of the mark at the front of the first portion of an input. -/
def markLength (firstLength : Nat) (bytes : Bytes) : Nat :=
  if byteOrderMark.isPrefixOf bytes && 3 ≤ firstLength then 3 else 0

def start (input : Input) : Reader :=
  ⟨input.readable, input.failure?, ⟨0, 1, 0⟩, none⟩

def ended (r : Reader) : Reader := { r with bytes := [], failure := none }

def advance (r : Reader) (rest : Bytes) (width : Nat) : Reader where
  bytes := rest
  failure := r.failure
  position := r.position.next (r.bytes.take (r.bytes.length - rest.length))
  width := some width

/-- The next record, after dropping `mark` bytes. A record that a failure cuts off is lost. -/
def next (r : Reader) (mark : Nat) : Option (Except Error (List String)) × Reader :=
  match scanRecord (r.bytes.drop mark), r.failure with
  | none, none => (none, r.ended)
  | none, some f => (some (.error (fault f.message)), r.ended)
  | some ⟨_, _, false⟩, some f => (some (.error (fault f.message)), r.ended)
  | some ⟨fields, rest, _⟩, _ =>
    let width := r.width.getD fields.length
    let outcome :=
      if fields.length = width then decodeFields r.position 0 fields
      else .error (widthFault r.position fields.length width)
    (some outcome, r.advance rest width)

end Reader

structure Table where
  columns : List String
  rows : Reader

namespace Table

/-- Reads the columns. Without any record there are none. A byte order mark is dropped if it arrives
with the first `firstLength` bytes; if nothing else arrives with it the input counts as ended. -/
def start (firstLength : Nat) (input : Input) : Except Error Table :=
  let reader := Reader.start input
  let mark := Reader.markLength firstLength reader.bytes
  if 0 < mark ∧ firstLength = mark then .ok ⟨[], reader.ended⟩
  else match reader.next mark with
    | (none, rows) => .ok ⟨[], rows⟩
    | (some (.error e), _) => .error e
    | (some (.ok columns), rows) => .ok ⟨columns, rows⟩

def record (columns fields : List String) : Record :=
  .object (Fields.ofEntries (columns.zip (fields.map .string)))

def next (t : Table) : Option Item × Table :=
  match t.rows.next 0 with
  | (none, rows) => (none, { t with rows })
  | (some (.error e), rows) => (some (.error e), { t with rows })
  | (some (.ok fields), rows) => (some (.ok (record t.columns fields)), { t with rows })

def takeWithin : (calls : Nat) → Table → List Item
  | 0, _ => []
  | calls + 1, t =>
    match t.next with
    | (none, _) => []
    | (some item, t) => item :: takeWithin calls t

/-- All items. Every record takes a byte, and a failure gives one more. -/
def readAll (t : Table) : List Item := takeWithin (t.rows.bytes.length + 2) t

end Table
end RecordFlow.Csv
