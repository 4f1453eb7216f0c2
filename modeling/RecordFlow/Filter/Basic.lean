import RecordFlow.Filter.Operand

/-!
# Filters

A filter is a predicate on records. Two absent operands are equal; an absent operand has no place
in the order and contains nothing. Only two numbers or two strings are ordered.
-/
namespace RecordFlow

inductive Relation where
  | eq
  | neq
  | gt
  | gte
  | lt
  | lte
  /-- container first, part second -/
  | contains
deriving DecidableEq, Repr

inductive Filter where
  | constant (b : Bool)
  | relation (r : Relation) (left right : Operand)
  | present (operand : Operand)
  | negation (inner : Filter)
  | all (parts : List Filter)
  | any (parts : List Filter)

namespace Relation

def equal : Option Value → Option Value → Bool
  | none, none => true
  | some v, some w => v.equals w
  | _, _ => false

/-- The order of two numbers or of two strings, by code point. -/
def order : Option Value → Option Value → Option Ordering
  | some (.number a), some (.number b) => some (a.compare b)
  | some (.string a), some (.string b) => some (compareOfLessAndEq a b)
  | _, _ => none

/-- An item of a sequence, a part of a text or a key of a mapping. -/
def holds : Option Value → Option Value → Bool
  | some (.array items), some v => items.any (·.equals v)
  | some (.string text), some (.string part) => Text.occursIn part.toList text.toList
  | some (.object fields), some (.string key) => Fields.contains fields key
  | _, _ => false

def test (r : Relation) (left right : Option Value) : Bool :=
  match r with
  | eq => equal left right
  | neq => !equal left right
  | gt => order left right == some .gt
  | gte => order left right == some .gt || order left right == some .eq
  | lt => order left right == some .lt
  | lte => order left right == some .lt || order left right == some .eq
  | contains => holds left right

def tag : Relation → String
  | eq => "eq"
  | neq => "neq"
  | gt => "gt"
  | gte => "gte"
  | lt => "lt"
  | lte => "lte"
  | contains => "contains"

end Relation

namespace Filter

mutual

def evaluate (record : Record) : Filter → Bool
  | constant b => b
  | relation r left right => r.test (left.resolve record) (right.resolve record)
  | present operand =>
    match operand.resolve record with
    | none => false
    | some v => !v.isNull
  | negation inner => !evaluate record inner
  | all parts => evaluateAll record parts
  | any parts => evaluateAny record parts

def evaluateAll (record : Record) : List Filter → Bool
  | [] => true
  | f :: rest => evaluate record f && evaluateAll record rest

def evaluateAny (record : Record) : List Filter → Bool
  | [] => false
  | f :: rest => evaluate record f || evaluateAny record rest

end

def tag : Filter → String
  | constant true => "true"
  | constant false => "false"
  | relation r _ _ => r.tag
  | present _ => "exists"
  | negation _ => "not"
  | all _ => "and"
  | any _ => "or"

mutual

def identical : Filter → Filter → Bool
  | constant a, constant b => a == b
  | relation r a b, relation s c d => r == s && a.identical c && b.identical d
  | present a, present b => a.identical b
  | negation f, negation g => identical f g
  | all fs, all gs => identicalAll fs gs
  | any fs, any gs => identicalAll fs gs
  | _, _ => false

def identicalAll : List Filter → List Filter → Bool
  | [], [] => true
  | f :: fs, g :: gs => identical f g && identicalAll fs gs
  | _, _ => false

end

end Filter
end RecordFlow
