import RecordFlow.Json.Printer
import RecordFlow.Json.Skip
import RecordFlow.Text.Quoted

/-!
# Reading JSON of a known shape

Configurations are read straight from their text, so the first fault in the text wins, be it of
syntax or of shape. A structure is a mapping with known keys or a sequence of the fields in order;
unknown keys are passed over. A fault of shape is placed after the value that has it; one about a
whole structure is placed after the structure has been closed, as far as that goes.
-/
namespace RecordFlow.Json

abbrev Shape (α : Type) := Bytes → Except Failure (α × Bytes)

/-- How a fault names a value that is not wanted, and what follows it. Containers are not read. -/
def describe (s : Bytes) : Except Failure (String × Bytes) :=
  match skipBlank s with
  | [] => .error ⟨.endInValue, [], .looked⟩
  | 0x6E :: rest => literal [0x75, 0x6C, 0x6C] "null" rest
  | 0x74 :: rest => literal [0x72, 0x75, 0x65] "boolean \x60true\x60" rest
  | 0x66 :: rest => literal [0x61, 0x6C, 0x73, 0x65] "boolean \x60false\x60" rest
  | 0x22 :: rest => (stringBody rest).map fun (text, rest) => ("string " ++ Text.quoted text, rest)
  | 0x5B :: rest => .ok ("sequence", 0x5B :: rest)
  | 0x7B :: rest => .ok ("map", 0x7B :: rest)
  | b :: rest =>
    if b = 0x2D || isDigit b then
      (number (b :: rest)).map fun (n, rest) =>
        match n with
        | .whole _ => ("integer \x60" ++ String.ofList (numberText n) ++ "\x60", rest)
        | .float _ => ("floating point \x60" ++ String.ofList (numberText n) ++ "\x60", rest)
    else .error ⟨.expectedValue, b :: rest, .looked⟩

/-- Refuses whatever comes next. -/
def refuse (expected : String) : Shape α := fun s =>
  match describe s with
  | .error f => .error f
  | .ok (found, rest) => .error ⟨.wrongKind found expected, rest, .consumed⟩

namespace Shape

def bool : Shape Bool := fun s =>
  match skipBlank s with
  | 0x74 :: rest => literal [0x72, 0x75, 0x65] true rest
  | 0x66 :: rest => literal [0x61, 0x6C, 0x73, 0x65] false rest
  | rest => refuse "a boolean" rest

def count : Shape Nat := fun s =>
  match describe s with
  | .error f => .error f
  | .ok (found, rest) =>
    match number (skipBlank s) with
    | .ok (.whole i, rest) =>
      if 0 ≤ i.val then .ok (i.val.toNat, rest)
      else .error ⟨.wrongValue found "usize", rest, .consumed⟩
    | _ => .error ⟨.wrongKind found "usize", rest, .consumed⟩

def string : Shape String := fun s =>
  match skipBlank s with
  | 0x22 :: rest => stringBody rest
  | rest => refuse "a string" rest

def null (expected : String) : Shape Unit := fun s =>
  match skipBlank s with
  | 0x6E :: rest => literal [0x75, 0x6C, 0x6C] () rest
  | rest => refuse expected rest

def option (inner : Shape α) : Shape (Option α) := fun s =>
  match skipBlank s with
  | 0x6E :: rest => literal [0x75, 0x6C, 0x6C] none rest
  | rest => (inner rest).map fun (v, rest) => (some v, rest)

def list (inner : Shape α) : Shape (List α) := fun s =>
  match skipBlank s with
  | 0x5B :: rest => items inner (rest.length + 1) true rest
  | rest => refuse "a sequence" rest

/-! ## Structures -/

/-- A field of a structure whose fields are gathered in a `σ`. -/
structure Field (σ : Type) where
  name : String
  required : Bool
  isSet : σ → Bool
  read : σ → Shape σ

/-- Where a mapping is left when it is given up. -/
def afterMapping (s : Bytes) : Bytes :=
  match skipBlank s with
  | 0x7D :: rest => rest
  | rest => rest

def unsetField? (fields : List (Field σ)) (state : σ) : Option String :=
  (fields.find? fun f => f.required && !f.isSet state).map Field.name

/-- The fields of a mapping by their keys. -/
def keyed (fields : List (Field σ)) :
    (budget : Nat) → Bool → σ → Bytes → Except Failure (σ × Bytes)
  | 0, _, _, _ => .error ⟨.endInObject, [], .looked⟩
  | budget + 1, first, state, s => do
    match ← nextKey first s with
    | .done rest =>
      match unsetField? fields state with
      | none => pure (state, rest.drop 1)
      | some name => throw ⟨.missingField name, rest.drop 1, .consumed⟩
    | .more rest =>
      let (key, rest) ← stringBody rest
      match fields.find? (·.name == key) with
      | none =>
        let rest ← colon rest
        let rest ← skipValue (2 * rest.length + 1) rest
        keyed fields budget false state rest
      | some field =>
        if field.isSet state then throw ⟨.duplicateField key, afterMapping rest, .consumed⟩
        let rest ← colon rest
        let (state, rest) ← field.read state rest
        keyed fields budget false state rest

def closeSequence (s : Bytes) : Except Failure Bytes :=
  match skipBlank s with
  | [] => .error ⟨.endInList, [], .looked⟩
  | 0x5D :: rest => .ok rest
  | 0x2C :: rest =>
    match skipBlank rest with
    | 0x5D :: rest => .error ⟨.trailingComma, 0x5D :: rest, .looked⟩
    | rest => .error ⟨.trailingCharacters, rest, .looked⟩
  | rest => .error ⟨.trailingCharacters, rest, .looked⟩

def elements (n : Nat) : String :=
  if n = 1 then "1 element" else toString n ++ " elements"

/-- The fields of a sequence by their order; `index` counts those read. -/
def listed (title : String) (total : Nat) :
    List (Field σ) → (index : Nat) → σ → Bytes → Except Failure (σ × Bytes)
  | [], _, state, s => (closeSequence s).map (state, ·)
  | field :: fields, index, state, s => do
    match ← nextItem (index == 0) s with
    | .more rest =>
      let (state, rest) ← field.read state rest
      listed title total fields (index + 1) state rest
    | .done rest =>
      if (field :: fields).any Field.required then
        throw ⟨.wrongLength index (title ++ " with " ++ elements total), rest.drop 1, .consumed⟩
      else pure (state, rest.drop 1)

/-- A structure with the given title, read onto an initial state. -/
def structured (title : String) (fields : List (Field σ)) (state : σ) : Shape σ := fun s =>
  match skipBlank s with
  | 0x7B :: rest => keyed fields (rest.length + 1) true state rest
  | 0x5B :: rest => listed title fields.length fields 0 state rest
  | rest => refuse title rest

/-! ## Variants -/

/-- The name of a variant after its opening quote. It must be known. -/
def variantName (known : List String) (s : Bytes) : Except Failure (String × Bytes) := do
  let (name, rest) ← stringBody s
  if known.contains name then pure (name, rest)
  else throw ⟨.unknownVariant name known, rest, .consumed⟩

/-- The name of a variant as the key of a mapping, which holds nothing else. -/
def variantKey (known : List String) (s : Bytes) : Except Failure (String × Bytes) :=
  match skipBlank s with
  | [] => .error ⟨.endInObject, [], .looked⟩
  | 0x22 :: rest => variantName known rest
  | 0x7D :: rest => .error ⟨.expectedValue, 0x7D :: rest, .looked⟩
  | rest => .error ⟨.keyNotString, rest, .looked⟩

/-- A variant: its bare name, or a mapping from its name to its content. -/
def variant (known : List String) (bare : String → Except Failure α)
    (content : String → Shape α) : Shape α := fun s =>
  match skipBlank s with
  | [] => .error ⟨.endInValue, [], .looked⟩
  | 0x22 :: rest => do
    let (name, rest) ← variantName known rest
    let v ← bare name
    pure (v, rest)
  | 0x7B :: rest => do
    let (name, rest) ← variantKey known rest
    let rest ← colon rest
    let (v, rest) ← content name rest
    match skipBlank rest with
    | 0x7D :: rest => pure (v, rest)
    | [] => throw ⟨.endInObject, [], .consumed⟩
    | rest => throw ⟨.expectedValue, rest, .consumed⟩
  | rest => .error ⟨.expectedValue, rest, .looked⟩

def name (known : List String) : Shape String :=
  variant known .ok fun n s => (null "unit" s).map fun (_, rest) => (n, rest)

def parse (shape : Shape α) (text : String) : Except SyntaxError α :=
  let bytes := Utf8.ofString text
  let outcome := do
    let (v, rest) ← shape bytes
    finish v rest
  outcome.mapError (·.report false bytes)

end Shape
end RecordFlow.Json
