import RecordFlow.Stream.Basic
import RecordFlow.Transform.Expression

/-!
# Pipelines

A pipeline is a list of stages. It is built from a list of steps, each a mapping with an operator
and its configuration. The first bad step decides the error, which names the step.
-/
namespace RecordFlow

structure Pipeline where
  stages : List Stage

namespace Pipeline

def names (p : Pipeline) : List String := p.stages.map Stage.name

def push (p : Pipeline) (stage : Stage) : Pipeline := ⟨p.stages ++ [stage]⟩

def validate (p : Pipeline) : Except Error Unit :=
  if p.stages.isEmpty then .error (.pipeline "pipeline" "no stages configured") else .ok ()

/-- The stages over a source. Nothing is taken from it yet. -/
def run (p : Pipeline) (source : List Item) : Stream := .start p.stages source

end Pipeline

namespace Stage

def expressionOf (operator : String) (config : Value) : Except Error Value :=
  match config.field? "expression" with
  | some v => .ok v
  | none => .error (.validation (operator ++ " requires 'expression'"))

def ofConfig (registry : Registry) (operator : String) (config : Value) : Except Error Stage :=
  if operator = "filter" then do
    let v ← expressionOf operator config
    let f ← Filter.ofValue v
    pure (filter f)
  else if operator = "transform" then do
    let v ← expressionOf operator config
    let t ← Transform.ofValue registry v
    pure (transform t)
  else if operator = "limit" then
    match (config.field? "count").bind Value.word? with
    | some n => .ok (limit n.toNat)
    | none => .error (.validation "limit requires unsigned integer 'count'")
  else .error (.validation ("unknown operator '" ++ operator ++ "'"))

/-- How messages name a step, its position counted from zero. -/
def stepName (index : Nat) : String := "step #" ++ toString index

def ofStep (registry : Registry) (index : Nat) (step : Value) : Except Error (String × Stage) :=
  match step.fields? with
  | none => .error (.validation ("pipeline " ++ stepName index ++ " must be an object"))
  | some fields =>
    match (fields.get? "operator").bind Value.string? with
    | none => .error (.validation ("pipeline " ++ stepName index ++ " missing string 'operator'"))
    | some operator =>
      match ofConfig registry operator ((fields.get? "config").getD .null) with
      | .ok stage => .ok (operator, stage)
      | .error e => .error (e.atStage (stepName index ++ " (" ++ operator ++ ")"))

end Stage

namespace Pipeline

/-- The stages of the steps from a position on, with an entry for every good step. -/
def stagesFrom (registry : Registry) : Nat → List Value → Except Error (List Stage) × Log
  | _, [] => (.ok [], [])
  | index, step :: rest =>
    match Stage.ofStep registry index step with
    | .error e => (.error e, [])
    | .ok (operator, stage) =>
      let (stages, log) := stagesFrom registry (index + 1) rest
      (stages.map (stage :: ·),
        ⟨.debug, "pipeline " ++ Stage.stepName index ++ ": " ++ operator⟩ :: log)

def ofSteps (registry : Registry) (steps : List Value) : Except Error Pipeline × Log :=
  match stagesFrom registry 0 steps with
  | (.error e, log) => (.error e, log)
  | (.ok stages, log) =>
    (match validate ⟨stages⟩ with
      | .ok () => .ok ⟨stages⟩
      | .error e => .error e, log)

def ofValue (registry : Registry) : Value → Except Error Pipeline × Log
  | .array steps => ofSteps registry steps
  | _ => (.error (.validation "pipeline definition must be a list of steps"), [])

def parseJson (registry : Registry) (text : String) : Except Error Pipeline × Log :=
  match Json.parse text with
  | .ok document => ofValue registry document
  | .error e => (.error (.serialization e.message), [])

end Pipeline
end RecordFlow
