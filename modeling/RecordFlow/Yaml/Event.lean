import RecordFlow.Yaml.Token

/-!
# YAML events

The tokens of a document describe a tree, which events list from the outside in: scalars, references
to nodes under a name, and the starts and ends of collections. Where a node is missing an empty
scalar stands for it.
-/
namespace RecordFlow.Yaml

/-- The name and the tag of a node. -/
structure Properties where
  anchor : Option String
  tag : Option Bytes
deriving DecidableEq, Repr

inductive Event where
  | reference (name : String)
  | scalar (p : Properties) (text : String) (plain : Bool)
  | sequenceStart (p : Properties)
  | sequenceEnd
  | mappingStart (p : Properties)
  | mappingEnd
deriving DecidableEq, Repr

namespace Event

def noProperties : Properties := ⟨none, none⟩

def emptyScalar : Event := scalar noProperties "" true

/-- What handles stand for. -/
abbrev Handles := List (Bytes × Bytes)

def primaryMark : Bytes := Utf8.ofString "!"

def standardHandles : Handles := [
  (primaryMark, primaryMark), (Utf8.ofString "!!", Utf8.ofString "tag:yaml.org,2002:")]

/-- The full tag, if its handle is known. -/
def fullTag? (handles : Handles) (t : Tag) : Option Bytes :=
  if t.handle.isEmpty then some t.suffix else (handles.lookup t.handle).map (· ++ t.suffix)

/-- A name and a tag before a node, in either order. -/
def takeProperties : List Token → Option String × Option Tag × List Token
  | .anchor name :: .tag t :: ts => (some name, some t, ts)
  | .tag t :: .anchor name :: ts => (some name, some t, ts)
  | .anchor name :: ts => (some name, none, ts)
  | .tag t :: ts => (none, some t, ts)
  | ts => (none, none, ts)

def properties? (handles : Handles) (ts : List Token) : Option (Properties × List Token) :=
  let (anchor, tag, ts) := takeProperties ts
  match tag with
  | none => some (⟨anchor, none⟩, ts)
  | some t => (fullTag? handles t).map fun tag => (⟨anchor, some tag⟩, ts)

/-- Where a node may stand. -/
structure Spot where
  /-- block collections are allowed -/
  block : Bool
  /-- a sequence is allowed whose entries are not indented -/
  flush : Bool

def inFlow : Spot := ⟨false, false⟩

def inSequence : Spot := ⟨true, false⟩

def inMapping : Spot := ⟨true, true⟩

abbrev Parsed := Option (List Event × List Token)

def Parsed.andThen (first : Parsed) (next : List Token → Parsed) : Parsed :=
  match first with
  | none => none
  | some (es, ts) => (next ts).map fun (more, ts) => (es ++ more, ts)

/-- A node, or an empty scalar before one of the given tokens. -/
def nodeUnless (stops : List Token) (node : List Token → Parsed) (ts : List Token) : Parsed :=
  match ts with
  | t :: _ => if stops.contains t then some ([emptyScalar], ts) else node ts
  | [] => node ts

mutual

/-- A node. Every call takes a token at least or hands on a smaller `budget`. -/
def node (handles : Handles) : (budget : Nat) → Spot → List Token → Parsed
  | 0, _, _ => none
  | _ + 1, _, .reference name :: ts => some ([reference name], ts)
  | budget + 1, spot, ts => do
    let (p, ts) ← properties? handles ts
    let startSequence (entries : Parsed) : Parsed :=
      entries.map fun (es, ts) => (sequenceStart p :: es, ts)
    let startMapping (entries : Parsed) : Parsed :=
      entries.map fun (es, ts) => (mappingStart p :: es, ts)
    match ts with
    | .scalar text plain :: ts => some ([scalar p text plain], ts)
    | .flowSequenceStart :: ts => startSequence (flowSequence handles budget true ts)
    | .flowMappingStart :: ts => startMapping (flowMapping handles budget true ts)
    | ts =>
      match ts, spot.block, spot.flush with
      | .blockEntry :: _, _, true => startSequence (flushSequence handles budget ts)
      | .blockSequenceStart :: ts, true, _ => startSequence (blockSequence handles budget ts)
      | .blockMappingStart :: ts, true, _ => startMapping (blockMapping handles budget ts)
      | ts, _, _ => if p = noProperties then none else some ([scalar p "" true], ts)

def blockSequence (handles : Handles) : (budget : Nat) → List Token → Parsed
  | 0, _ => none
  | budget + 1, .blockEntry :: ts =>
    (nodeUnless [.blockEntry, .blockEnd] (node handles budget inSequence) ts).andThen
      (blockSequence handles budget)
  | _ + 1, .blockEnd :: ts => some ([sequenceEnd], ts)
  | _ + 1, _ => none

def flushSequence (handles : Handles) : (budget : Nat) → List Token → Parsed
  | 0, _ => none
  | budget + 1, .blockEntry :: ts =>
    (nodeUnless [.blockEntry, .key, .value, .blockEnd] (node handles budget inSequence) ts).andThen
      (flushSequence handles budget)
  | _ + 1, ts => some ([sequenceEnd], ts)

def blockMapping (handles : Handles) : (budget : Nat) → List Token → Parsed
  | 0, _ => none
  | budget + 1, .key :: ts =>
    ((nodeUnless [.key, .value, .blockEnd] (node handles budget inMapping) ts).andThen
      (blockValue handles budget)).andThen (blockMapping handles budget)
  | _ + 1, .blockEnd :: ts => some ([mappingEnd], ts)
  | _ + 1, _ => none

def blockValue (handles : Handles) : (budget : Nat) → List Token → Parsed
  | 0, _ => none
  | budget + 1, .value :: ts =>
    nodeUnless [.key, .value, .blockEnd] (node handles budget inMapping) ts
  | _ + 1, ts => some ([emptyScalar], ts)

def flowSequence (handles : Handles) : (budget : Nat) → (first : Bool) → List Token → Parsed
  | 0, _, _ => none
  | _ + 1, _, .flowSequenceEnd :: ts => some ([sequenceEnd], ts)
  | budget + 1, true, ts =>
    (flowEntry handles budget ts).andThen (flowSequence handles budget false)
  | _ + 1, false, .flowEntry :: .flowSequenceEnd :: ts => some ([sequenceEnd], ts)
  | budget + 1, false, .flowEntry :: ts =>
    (flowEntry handles budget ts).andThen (flowSequence handles budget false)
  | _ + 1, false, _ => none

/-- An entry of a sequence in brackets. One with a key is a mapping of its own; where the key is
missing the token in its place is passed over. -/
def flowEntry (handles : Handles) : (budget : Nat) → List Token → Parsed
  | 0, _ => none
  | budget + 1, .key :: ts =>
    let key : Parsed := match ts with
      | .value :: ts | .flowEntry :: ts | .flowSequenceEnd :: ts => some ([emptyScalar], ts)
      | ts => node handles budget inFlow ts
    ((Parsed.andThen (some ([mappingStart noProperties], ts)) fun _ => key).andThen
      (flowValue handles budget .flowSequenceEnd)).andThen fun ts => some ([mappingEnd], ts)
  | budget + 1, ts => node handles budget inFlow ts

def flowValue (handles : Handles) : (budget : Nat) → (last : Token) → List Token → Parsed
  | 0, _, _ => none
  | budget + 1, last, .value :: ts =>
    nodeUnless [.flowEntry, last] (node handles budget inFlow) ts
  | _ + 1, _, ts => some ([emptyScalar], ts)

def flowMapping (handles : Handles) : (budget : Nat) → (first : Bool) → List Token → Parsed
  | 0, _, _ => none
  | _ + 1, _, .flowMappingEnd :: ts => some ([mappingEnd], ts)
  | budget + 1, true, ts =>
    (flowPair handles budget ts).andThen (flowMapping handles budget false)
  | _ + 1, false, .flowEntry :: .flowMappingEnd :: ts => some ([mappingEnd], ts)
  | budget + 1, false, .flowEntry :: ts =>
    (flowPair handles budget ts).andThen (flowMapping handles budget false)
  | _ + 1, false, _ => none

/-- An entry of a mapping in braces. One without a mark for its key has no value. -/
def flowPair (handles : Handles) : (budget : Nat) → List Token → Parsed
  | 0, _ => none
  | budget + 1, .key :: ts =>
    (nodeUnless [.value, .flowEntry, .flowMappingEnd] (node handles budget inFlow) ts).andThen
      (flowValue handles budget .flowMappingEnd)
  | budget + 1, ts =>
    (node handles budget inFlow ts).andThen fun ts => some ([emptyScalar], ts)

end

/-! ## Documents -/

def takeDirectives : List Token → List Directive × List Token
  | .directive d :: ts =>
    let (ds, ts) := takeDirectives ts
    (d :: ds, ts)
  | ts => ([], ts)

/-- Versions 1.1 and 1.2 are known. -/
def isKnownVersion : Directive → Bool
  | .version major minor => major = 1 && (minor = 1 || minor = 2)
  | .tag _ _ => true

def isVersion : Directive → Bool
  | .version _ _ => true
  | .tag _ _ => false

def handleOf? : Directive → Option (Bytes × Bytes)
  | .version _ _ => none
  | .tag handle start => some (handle, start)

/-- The handles that directives declare, at most once each, beside the standard ones. -/
def handles? (ds : List Directive) : Option Handles :=
  let declared := ds.filterMap handleOf?
  if ds.all isKnownVersion && (ds.filter isVersion).length ≤ 1 && (declared.map Prod.fst).Nodup then
    some (declared ++ standardHandles)
  else none

/-- A mark or a directive, which cannot be part of a document. -/
def isBoundary : Token → Bool
  | .directive _ | .documentStart | .documentEnd => true
  | _ => false

def rootNode (handles : Handles) (ts : List Token) : Parsed :=
  node handles (4 * ts.length + 4) inSequence ts

def markedDocument (handles : Handles) (ts : List Token) : Parsed :=
  match ts with
  | [] => some ([emptyScalar], [])
  | t :: _ => if isBoundary t then some ([emptyScalar], ts) else rootNode handles ts

def firstDocument (ts : List Token) : Parsed :=
  match ts with
  | [] => some ([], [])
  | .directive _ :: _ | .documentStart :: _ =>
    match takeDirectives ts with
    | (ds, .documentStart :: ts) => (handles? ds).bind fun handles => markedDocument handles ts
    | _ => none
  | ts => rootNode standardHandles ts

/-- The events of a text with one document or none. Without a document there are no events. -/
def ofTokens? (ts : List Token) : Option (List Event) :=
  match firstDocument ts with
  | some (es, rest) =>
    if (rest.dropWhile (· == .documentEnd)).isEmpty then some es else none
  | none => none

end Event
end RecordFlow.Yaml
