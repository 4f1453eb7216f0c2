import RecordFlow.Log
import RecordFlow.Path.Access
import RecordFlow.Value.Equality
import RecordFlow.Value.Merge

/-!
# Records

A record is one item of harvested data, usually a mapping. It is read by key or by path, written at
paths and rendered as flat text.
-/
namespace RecordFlow

abbrev Record := Value

namespace Record

def empty : Record := .emptyObject

/-- The value at a dotted path. A text that is no path is reported and counts as absent. -/
def lookup (record : Record) (dotted : String) : Option Value × Log :=
  match Path.parse dotted with
  | .ok path => (path.resolve record, [])
  | .error e => (none, [⟨.debug, "unresolvable path '" ++ dotted ++ "': " ++ e.text⟩])

/-- A record from a plain value: anything but a mapping is put under the key `value`. -/
def ofValue : Value → Record
  | .object fields => .object fields
  | other => .object [("value", other)]

/-- Flat text: a string as it is, null as nothing, anything else as compact JSON. -/
def render : Value → String
  | .null => ""
  | .string s => s
  | other => Json.compact other

end Record
end RecordFlow
