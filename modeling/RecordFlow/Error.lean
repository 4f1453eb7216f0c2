import RecordFlow.Value.Basic

/-!
# Errors

An error is one of eight kinds with a message. A function error also names the function and a
pipeline error the stage it belongs to; `atStage` leaves these two as they are and puts the stage
in front of every other message.
-/
namespace RecordFlow

inductive Error where
  | io (message : String)
  | serialization (message : String)
  | expression (message : String)
  | path (message : String)
  | function (name message : String)
  | validation (message : String)
  | pipeline (stage message : String)
  | internal (message : String)
deriving DecidableEq, Repr

namespace Error

def text : Error → String
  | io m => "io error: " ++ m
  | serialization m => "serialization error: " ++ m
  | expression m => "invalid expression: " ++ m
  | path m => "path error: " ++ m
  | function name m => "function '" ++ name ++ "' failed: " ++ m
  | validation m => "validation error: " ++ m
  | pipeline stage m => "pipeline error at stage '" ++ stage ++ "': " ++ m
  | internal m => "internal error: " ++ m

/-- Names the stage in the message. The kind stays, and so does an error with a name of its own. -/
def atStage (stage : String) : Error → Error
  | io m => io (stage ++ ": " ++ m)
  | serialization m => serialization (stage ++ ": " ++ m)
  | expression m => expression (stage ++ ": " ++ m)
  | path m => path (stage ++ ": " ++ m)
  | validation m => validation (stage ++ ": " ++ m)
  | internal m => internal (stage ++ ": " ++ m)
  | named => named

def kind : Error → String
  | io _ => "Io"
  | serialization _ => "Serde"
  | expression _ => "InvalidExpression"
  | path _ => "Path"
  | function _ _ => "Function"
  | validation _ => "Validation"
  | pipeline _ _ => "Pipeline"
  | internal _ => "Internal"

def message : Error → String
  | io m | serialization m | expression m | path m | function _ m | validation m | pipeline _ m
  | internal m => m

/-- What a kind keeps beside the message: its name in the stored form and its value. -/
def label? : Error → Option (String × String)
  | function name _ => some ("name", name)
  | pipeline stage _ => some ("stage", stage)
  | _ => none

/-- These kinds are stored with the bare message. -/
def isBare : Error → Bool
  | io _ | serialization _ | internal _ => true
  | _ => false

/-- One error of every kind; `label` is for the kinds that keep one. -/
def ofEveryKind (label message : String) : List Error :=
  [io message, serialization message, expression message, path message, function label message,
    validation message, pipeline label message, internal message]

def ofKind? (label message : String) (kind : String) : Option Error :=
  (ofEveryKind label message).find? (·.kind == kind)

def toValue (e : Error) : Value :=
  let content :=
    if e.isBare then .string e.message
    else .object ((e.label?.map fun (key, label) => (key, Value.string label)).toList ++
      [("message", .string e.message)])
  .object [(e.kind, content)]

end Error
end RecordFlow
