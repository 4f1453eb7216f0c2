import RecordFlow.Files.Open
import RecordFlow.Pipeline.Basic
import RecordFlow.Yaml.Reader

/-!
# Pipeline definitions in files

A definition file is YAML if its extension says so and JSON otherwise.
-/
namespace RecordFlow.Pipeline

/-- What is said of a text that is no YAML. -/
def malformedYaml : Error := .serialization "malformed YAML"

def parseYaml (registry : Registry) (text : String) : Except Error Pipeline × Log :=
  match Yaml.parse? text with
  | some document => ofValue registry document
  | none => (.error malformedYaml, [])

def isYaml (path : String) : Bool :=
  match (Files.fileName? path.toList).bind Files.extension? with
  | some extension => extension = "yaml".toList || extension = "yml".toList
  | none => false

def load (registry : Registry) (v : Files.Volume) (path : String) : Except Error Pipeline × Log :=
  match v.readText path with
  | .error e => (.error e, [])
  | .ok text =>
    let (outcome, log) := if isYaml path then parseYaml registry text else parseJson registry text
    (outcome, ⟨.debug, "loading pipeline definition from " ++ v.shown path⟩ :: log)

end RecordFlow.Pipeline
