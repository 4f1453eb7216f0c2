import RecordFlow.Csv.Writer
import RecordFlow.Json.Shape

/-!
# The stored form of CSV layouts
-/
namespace RecordFlow.Csv

open Json (Shape)

namespace Extras

def name : Extras → String
  | ignore => "ignore"
  | raise => "raise"

def all : List Extras := [ignore, raise]

def shape : Shape Extras := fun s =>
  (Shape.name (all.map name) s).map fun (n, rest) =>
    ((all.find? (·.name == n)).getD ignore, rest)

end Extras

namespace Layout

structure Draft where
  columns : Option (Option (List String))
  defaultValue : Option String
  extras : Option Extras

def fields : List (Shape.Field Draft) := [
  { name := "columns"
    required := false
    isSet := fun d => d.columns.isSome
    read := fun d s => (Shape.option (Shape.list Shape.string) s).map fun (columns, rest) =>
      ({ d with columns := some columns }, rest) },
  { name := "default_value"
    required := false
    isSet := fun d => d.defaultValue.isSome
    read := fun d s => (Shape.string s).map fun (text, rest) =>
      ({ d with defaultValue := some text }, rest) },
  { name := "extras_action"
    required := false
    isSet := fun d => d.extras.isSome
    read := fun d s => (Extras.shape s).map fun (extras, rest) =>
      ({ d with extras := some extras }, rest) }]

/-- Settings that are not given have their default. -/
def shape (title : String) : Shape Layout := fun s =>
  (Shape.structured title fields ⟨none, none, none⟩ s).map fun (d, rest) =>
    (⟨d.columns.getD default.columns, d.defaultValue.getD default.defaultValue,
      d.extras.getD default.extras⟩, rest)

def toValue (l : Layout) : Value :=
  .object [
    ("columns", (l.columns.map fun names => Value.array (names.map .string)).getD .null),
    ("default_value", .string l.defaultValue), ("extras_action", .string l.extras.name)]

end Layout
end RecordFlow.Csv
