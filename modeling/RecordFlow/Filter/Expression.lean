import RecordFlow.Filter.Basic
import RecordFlow.Json.Reader

/-!
# The declarative form of filters

A filter is written as an array: its tag, then its operands or its inner filters. `ofValue` reads
the form and `toValue` writes it.
-/
namespace RecordFlow

/-- A wrong number of operands after a tag. -/
def Error.arity (tag : String) (expected actual : Nat) : Error :=
  .expression ("'" ++ tag ++ "' expects " ++ toString expected ++ " operand(s), got " ++
    toString actual)

namespace Relation

def ofTag? (tag : String) : Option Relation :=
  [eq, neq, gt, gte, lt, lte, contains].find? (·.tag == tag)

end Relation

namespace Filter

def relationOf (r : Relation) : List Value → Except Error Filter
  | [a, b] => do
    let left ← Operand.ofValue a
    let right ← Operand.ofValue b
    pure (relation r left right)
  | operands => .error (.arity r.tag 2 operands.length)

def constantOf (tag : String) (b : Bool) : List Value → Except Error Filter
  | [] => .ok (constant b)
  | operands => .error (.arity tag 0 operands.length)

def presentOf : List Value → Except Error Filter
  | [a] => (Operand.ofValue a).map present
  | operands => .error (.arity "exists" 1 operands.length)

mutual

def ofValue : Value → Except Error Filter
  | .array [] => .error (.expression "filter expression may not be empty")
  | .array (.string tag :: operands) =>
    if tag = "true" then constantOf tag true operands
    else if tag = "false" then constantOf tag false operands
    else if tag = "exists" then presentOf operands
    else if tag = "not" then
      match operands with
      | [inner] => (ofValue inner).map negation
      | _ => .error (.arity tag 1 operands.length)
    else if tag = "and" then (ofValues operands).map all
    else if tag = "or" then (ofValues operands).map any
    else match Relation.ofTag? tag with
      | some r => relationOf r operands
      | none => .error (.expression ("unknown filter tag '" ++ tag ++ "'"))
  | .array (other :: _) =>
    .error (.expression ("filter tag must be a string, got " ++ Json.compact other))
  | other =>
    .error (.expression ("filter expression must be a tagged array, got " ++ Json.compact other))

def ofValues : List Value → Except Error (List Filter)
  | [] => .ok []
  | v :: rest => do
    let f ← ofValue v
    let fs ← ofValues rest
    pure (f :: fs)

end

mutual

def toValue : Filter → Value
  | constant b => .array [.string (constant b).tag]
  | relation r left right => .array [.string r.tag, left.toValue, right.toValue]
  | present operand => .array [.string "exists", operand.toValue]
  | negation inner => .array [.string "not", toValue inner]
  | all parts => .array (.string "and" :: toValues parts)
  | any parts => .array (.string "or" :: toValues parts)

def toValues : List Filter → List Value
  | [] => []
  | f :: rest => toValue f :: toValues rest

end

def parse (text : String) : Except Error Filter :=
  match Json.parse text with
  | .ok v => ofValue v
  | .error e => .error (.serialization e.message)

end Filter
end RecordFlow
