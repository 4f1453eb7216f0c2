import RecordFlow.Json.Shape
import RecordFlow.Sink.Basic

/-!
# The stored form of write counts
-/
namespace RecordFlow.Stats

open Json (Shape)

structure Draft where
  seen : Option Nat
  written : Option Nat
  skipped : Option Nat
  bytes : Option Nat
  files : Option Nat

/-- A count under a name. -/
def countField (name : String) (value : Draft → Option Nat) (set : Draft → Nat → Draft) :
    Shape.Field Draft where
  name := name
  required := true
  isSet d := (value d).isSome
  read d s := (Shape.count s).map fun (n, rest) => (set d n, rest)

def fields : List (Shape.Field Draft) := [
  countField "records_seen" Draft.seen fun d n => { d with seen := some n },
  countField "records_written" Draft.written fun d n => { d with written := some n },
  countField "records_skipped" Draft.skipped fun d n => { d with skipped := some n },
  countField "bytes_written" Draft.bytes fun d n => { d with bytes := some n },
  countField "files_created" Draft.files fun d n => { d with files := some n }]

def shape (title : String) : Shape Stats := fun s =>
  (Shape.structured title fields ⟨none, none, none, none, none⟩ s).map fun (d, rest) =>
    (⟨d.seen.getD 0, d.written.getD 0, d.skipped.getD 0, d.bytes.getD 0, d.files.getD 0⟩, rest)

def countValue (n : Nat) : Value := .number (.ofWord (.ofNat n))

def toValue (s : Stats) : Value :=
  .object [("records_seen", countValue s.seen), ("records_written", countValue s.written),
    ("records_skipped", countValue s.skipped), ("bytes_written", countValue s.bytes),
    ("files_created", countValue s.files)]

end RecordFlow.Stats
