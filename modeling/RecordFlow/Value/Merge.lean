import RecordFlow.Value.Basic

/-!
# Deep merge

Two mappings merge key by key, two sequences are concatenated, and otherwise the incoming value
wins.
-/
namespace RecordFlow.Value

mutual

def merge (target : Value) : Value → Value
  | .object incoming =>
    match target with
    | .object fields => .object (mergeFields fields incoming)
    | _ => .object incoming
  | .array incoming =>
    match target with
    | .array items => .array (items ++ incoming)
    | _ => .array incoming
  | scalar => scalar

/-- The incoming entries merged one after another. -/
def mergeFields (fields : Fields) : List (String × Value) → Fields
  | [] => fields
  | (key, value) :: rest =>
    mergeFields
      (fields.insert key
        (match fields.get? key with
          | some present => merge present value
          | none => value))
      rest

end

end RecordFlow.Value
