import RecordFlow.Yaml.Event
import RecordFlow.Yaml.Scalar

/-!
# Reading YAML

A text with one document gives its value, and a text without one gives null. A name stands for the
last node that has its number; a name used again for another node takes the count of names so far as
its new number. References may be followed a limited number of times, and collections nest to a
limited depth, so that a node that contains itself is refused.
-/
namespace RecordFlow.Yaml

/-- An event with the number of the name that it defines or refers to. -/
structure Numbered where
  event : Event
  number : Option Nat

def anchor? : Event → Option String
  | .scalar p _ _ | .sequenceStart p | .mappingStart p => p.anchor
  | _ => none

/-- The name gets a number, in place of the one it had. -/
def rename (name : String) (number : Nat) : List (String × Nat) → List (String × Nat)
  | [] => [(name, number)]
  | (n, old) :: rest =>
    if n = name then (n, number) :: rest else (n, old) :: rename name number rest

/-- Numbers the events. A reference to a name that is not defined before it is refused. -/
def numbered? (names : List (String × Nat)) : List Event → Option (List Numbered)
  | [] => some []
  | .reference name :: rest =>
    match names.lookup name with
    | some number => (numbered? names rest).map (⟨.reference name, some number⟩ :: ·)
    | none => none
  | e :: rest =>
    match anchor? e with
    | some name => (numbered? (rename name names.length names) rest).map (⟨e, names.length⟩ :: ·)
    | none => (numbered? names rest).map (⟨e, none⟩ :: ·)

def defines (number : Nat) (e : Numbered) : Bool :=
  e.number = some number && (anchor? e.event).isSome

/-- The events from the last one on that defines a number. -/
def target? (number : Nat) : List Numbered → Option (List Numbered)
  | [] => none
  | e :: rest => (target? number rest).or (if defines number e then some (e :: rest) else none)

/-- What was read, the events after it, and the references that may still be followed. -/
structure Read (α : Type) where
  value : α
  rest : List Numbered
  jumps : Nat

/-- A reader of nodes. -/
abbrev NodeReader (α : Type) := (jumps : Nat) → List Numbered → Option (Read α)

/-- Reads the node that a reference stands for. -/
def follow (all : List Numbered) (read : NodeReader α) : NodeReader α
  | 0, ⟨.reference _, some _⟩ :: _ => none
  | jumps + 1, ⟨.reference _, some number⟩ :: rest => do
    let r ← read jumps (← target? number all)
    pure { r with rest }
  | jumps, events => read jumps events

def items (read : NodeReader α) : (budget : Nat) → NodeReader (List α)
  | 0, _, _ => none
  | budget + 1, jumps, events =>
    match events with
    | ⟨.sequenceEnd, _⟩ :: rest => some ⟨[], rest, jumps⟩
    | events => do
      let item ← read jumps events
      let tail ← items read budget item.jumps item.rest
      pure { tail with value := item.value :: tail.value }

def entries (readKey : NodeReader String) (read : NodeReader α) :
    (budget : Nat) → NodeReader (List (String × α))
  | 0, _, _ => none
  | budget + 1, jumps, events =>
    match events with
    | ⟨.mappingEnd, _⟩ :: rest => some ⟨[], rest, jumps⟩
    | events => do
      let key ← readKey jumps events
      let value ← read key.jumps key.rest
      let tail ← entries readKey read budget value.jumps value.rest
      pure { tail with value := (key.value, value.value) :: tail.value }

/-- A key is a scalar, taken as text whatever its tag. -/
def key : NodeReader String
  | jumps, ⟨.scalar _ text _, _⟩ :: rest => some ⟨text, rest, jumps⟩
  | _, _ => none

/-- A tag of one's own says nothing that a value could hold. -/
def isOwnTag (tag : Option Bytes) : Bool := (tag.bind List.head?) == some 0x21

def standardTag : Bytes := Utf8.ofString "tag:yaml.org,2002:"

def kindOf (tag : Bytes) : String :=
  if standardTag.isPrefixOf tag then
    (Utf8.toString? (tag.drop standardTag.length)).getD ""
  else ""

def scalarValue? (tag : Option Bytes) (text : String) (plain : Bool) : Option Value :=
  match tag with
  | none => if plain then plainValue? text else some (.string text)
  | some t => taggedValue? (kindOf t) text

/-- A node that is no reference, in which `depth` collections may still be opened. -/
def node (all : List Numbered) : (depth : Nat) → NodeReader Value
  | _, jumps, ⟨.scalar p text plain, _⟩ :: rest =>
    if isOwnTag p.tag then none
    else (scalarValue? p.tag text plain).map fun v => ⟨v, rest, jumps⟩
  | depth + 1, jumps, ⟨.sequenceStart p, _⟩ :: rest =>
    if isOwnTag p.tag then none
    else (items (follow all (node all depth)) (rest.length + 1) jumps rest).map fun r =>
      ⟨.array r.value, r.rest, r.jumps⟩
  | depth + 1, jumps, ⟨.mappingStart p, _⟩ :: rest =>
    if isOwnTag p.tag then none
    else
      (entries (follow all key) (follow all (node all depth)) (rest.length + 1) jumps rest).map
        fun r => ⟨.object (Fields.ofEntries r.value), r.rest, r.jumps⟩
  | _, _, _ => none

/-- Collections that may be open at once. -/
def depthLimit : Nat := 128

/-- References that may be followed for each event. -/
def jumpsPerEvent : Nat := 100

/-- The value of the events of a document. -/
def valueOfEvents? (events : List Event) : Option Value :=
  if events.isEmpty then some .null
  else do
    let all ← numbered? [] events
    let r ← node all depthLimit (jumpsPerEvent * all.length) all
    pure r.value

def parse? (text : String) : Option Value := do
  let tokens ← Token.scan? text.toList
  let events ← Event.ofTokens? tokens
  valueOfEvents? events

end RecordFlow.Yaml
