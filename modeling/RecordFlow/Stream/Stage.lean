import RecordFlow.Transform.Basic
import RecordFlow.Filter.Basic

/-!
# Stages

A stage maps a sequence of items to a sequence of items. An item is a record or an error. Errors
pass every stage; a filter drops records, a transform replaces each record by its output or by an
error, and a limit ends the sequence once enough records have passed.
-/
namespace RecordFlow

/-- One step of a record sequence. -/
abbrev Item := Except Error Record

def Item.isRecord : Item → Bool
  | .ok _ => true
  | .error _ => false

inductive Stage where
  | filter (f : Filter)
  | transform (t : Transform)
  | limit (count : Nat)

namespace Stage

def name : Stage → String
  | filter _ => "filter"
  | transform _ => "transform"
  | limit _ => "limit"

/-- The shortest beginning with `n` records, or everything if there are fewer. -/
def takeRecords : (n : Nat) → List Item → List Item
  | 0, _ => []
  | _ + 1, [] => []
  | n + 1, .ok r :: rest => .ok r :: takeRecords n rest
  | n + 1, .error e :: rest => .error e :: takeRecords (n + 1) rest

/-- What a filter keeps: every error and every record it accepts. -/
def keeps (f : Filter) : Item → Bool
  | .ok r => f.evaluate r
  | .error _ => true

def transformed (t : Transform) : Item → Item
  | .ok r => t.evaluate r
  | .error e => .error e

/-- The stage as a function on whole sequences. -/
def onItems : Stage → List Item → List Item
  | filter f, items => List.filter (keeps f) items
  | transform t, items => items.map (transformed t)
  | limit n, items => takeRecords n items

def allOnItems (stages : List Stage) (items : List Item) : List Item :=
  stages.foldl (fun items stage => stage.onItems items) items

end Stage
end RecordFlow
