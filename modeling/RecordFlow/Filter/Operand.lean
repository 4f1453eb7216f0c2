import RecordFlow.Record

/-!
# Filter operands

An operand is a path, looked up in the record at hand, or a literal value. In the declarative form a
list is a path, and so is a text with a dot or with both brackets; a one-key mapping says outright
which of the two it holds.
-/
namespace RecordFlow

inductive Operand where
  | path (p : Path)
  | literal (v : Value)
deriving DecidableEq

namespace Operand

/-- The operand's value for a record; absent if its path leads nowhere. -/
def resolve (record : Record) : Operand → Option Value
  | path p => p.resolve record
  | literal v => some v

def looksLikePath (text : String) : Bool :=
  text.toList.contains '.' || (text.toList.contains '[' && text.toList.contains ']')

def pathOfValue (v : Value) : Except Error Operand :=
  match Path.ofValue v with
  | .ok p => .ok (path p)
  | .error e => .error (.expression e.text)

def ofValue : Value → Except Error Operand
  | .array items => pathOfValue (.array items)
  | .object [(key, v)] =>
    if key = "path" then pathOfValue v
    else if key = "value" then .ok (literal v)
    else .ok (literal (.object [(key, v)]))
  | .string text => if looksLikePath text then pathOfValue (.string text)
    else .ok (literal (.string text))
  | other => .ok (literal other)

/-- The declarative form: a path as its list of segments, a literal under the key `value`. -/
def toValue : Operand → Value
  | path p => p.toValue
  | literal v => .object [("value", v)]

def identical : Operand → Operand → Bool
  | path p, path q => p == q
  | literal v, literal w => v.identical w
  | _, _ => false

end Operand
end RecordFlow
