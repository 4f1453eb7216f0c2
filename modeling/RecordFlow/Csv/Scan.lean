import RecordFlow.Input

/-!
# Records in CSV text

Fields stand between commas, and a record ends with a line feed, a carriage return, or both. A field
that opens with a quote goes on to the next lone quote; two quotes there are one, and what follows
the closing quote up to the next comma belongs to the field too. Line ends before a record count for
nothing.
-/
namespace RecordFlow.Csv

inductive Mode where
  | start
  | plain
  | quoted
  | quoteSeen
deriving DecidableEq, Repr

/-- A record and the bytes after it. It is closed by a line end, else by the end of the bytes. -/
structure Scanned where
  fields : List Bytes
  rest : Bytes
  closed : Bool

def isLineEnd (b : UInt8) : Bool := b = 0x0A || b = 0x0D

/-- Reads a record to its end; `fields` and `field` were read so far, both in reverse. -/
def scan (fields : List Bytes) (field : Bytes) : Mode → Bytes → Scanned
  | _, [] => ⟨(field.reverse :: fields).reverse, [], false⟩
  | .quoted, b :: rest =>
    if b = 0x22 then scan fields field .quoteSeen rest else scan fields (b :: field) .quoted rest
  | mode, b :: rest =>
    if mode = .start ∧ b = 0x22 then scan fields field .quoted rest
    else if mode = .quoteSeen ∧ b = 0x22 then scan fields (b :: field) .quoted rest
    else if b = 0x2C then scan (field.reverse :: fields) [] .start rest
    else if isLineEnd b then ⟨(field.reverse :: fields).reverse, rest, true⟩
    else scan fields (b :: field) .plain rest

/-- The first record, if anything but line ends is there. The line feed of a line end that began
with a carriage return is left to the next call, for which it is a line end before the record. -/
def scanRecord (s : Bytes) : Option Scanned :=
  match s.dropWhile isLineEnd with
  | [] => none
  | start => some (scan [] [] .start start)

end RecordFlow.Csv
