import RecordFlow.Json.Reader

/-!
# Passing over JSON values

A value that nobody asked for is passed over by its syntax alone: its numbers may be out of range,
its strings may hold half surrogate pairs, and it may be nested to any depth.
-/
namespace RecordFlow.Json

def skipExponent (s : Bytes) : Except Failure Bytes :=
  let s := match s with
    | 0x2B :: rest => rest
    | 0x2D :: rest => rest
    | _ => s
  match s with
  | [] => .error ⟨.invalidNumber, [], .consumed⟩
  | b :: rest =>
    if isDigit b then .ok (rest.dropWhile isDigit) else .error ⟨.invalidNumber, rest, .consumed⟩

def skipFraction (s : Bytes) : Except Failure Bytes :=
  match s with
  | 0x2E :: rest =>
    if startsWithDigit rest then
      let s := rest.dropWhile isDigit
      if startsWithExponent s then skipExponent (s.drop 1) else .ok s
    else .error ⟨.invalidNumber, rest, .looked⟩
  | _ => if startsWithExponent s then skipExponent (s.drop 1) else .ok s

def skipNumber : Bytes → Except Failure Bytes
  | [] => .error ⟨.invalidNumber, [], .consumed⟩
  | b :: rest =>
    if b = 0x30 then
      if startsWithDigit rest then .error ⟨.invalidNumber, rest, .looked⟩ else skipFraction rest
    else if isDigit b then skipFraction (rest.dropWhile isDigit)
    else .error ⟨.invalidNumber, rest, .consumed⟩

def escapeLength : Bytes → Except Failure Nat
  | 0x75 :: s => (hex4 s).map fun _ => 5
  | s => (escapeBytes s).map Prod.snd

/-- Passes a string after its opening quote, first dropping `skip` bytes. -/
def skipString : Nat → Bytes → Except Failure Bytes
  | _, [] => .error ⟨.endInString, [], .consumed⟩
  | skip + 1, _ :: s => skipString skip s
  | 0, b :: s =>
    if b = 0x22 then .ok s
    else if b = 0x5C then
      match escapeLength s with
      | .ok n => skipString n s
      | .error f => .error f
    else if b < 0x20 then .error ⟨.controlCharacter, b :: s, .consumed⟩
    else skipString 0 s

mutual

/-- Passes one value; `budget` bounds the values and containers inside. -/
def skipValue : (budget : Nat) → Bytes → Except Failure Bytes
  | 0, _ => .error ⟨.endInValue, [], .looked⟩
  | budget + 1, s =>
    match skipBlank s with
    | [] => .error ⟨.endInValue, [], .looked⟩
    | 0x6E :: rest => literalRest [0x75, 0x6C, 0x6C] rest
    | 0x74 :: rest => literalRest [0x72, 0x75, 0x65] rest
    | 0x66 :: rest => literalRest [0x61, 0x6C, 0x73, 0x65] rest
    | 0x22 :: rest => skipString 0 rest
    | 0x2D :: rest => skipNumber rest
    | 0x5B :: rest =>
      match skipBlank rest with
      | 0x5D :: rest => .ok rest
      | [] => .error ⟨.endInList, [], .looked⟩
      | rest => skipItems budget rest
    | 0x7B :: rest =>
      match skipBlank rest with
      | 0x7D :: rest => .ok rest
      | [] => .error ⟨.endInObject, [], .looked⟩
      | rest => skipEntries budget rest
    | b :: rest =>
      if isDigit b then skipNumber (b :: rest) else .error ⟨.expectedValue, b :: rest, .looked⟩

/-- Passes an item and what follows it in the sequence. -/
def skipItems : (budget : Nat) → Bytes → Except Failure Bytes
  | 0, _ => .error ⟨.endInList, [], .looked⟩
  | budget + 1, s =>
    match skipValue budget s with
    | .error f => .error f
    | .ok rest =>
      match skipBlank rest with
      | [] => .error ⟨.endInList, [], .looked⟩
      | 0x5D :: rest => .ok rest
      | 0x2C :: rest => skipItems budget rest
      | rest => .error ⟨.expectedListCommaOrEnd, rest, .looked⟩

/-- Passes an entry and what follows it in the mapping. -/
def skipEntries : (budget : Nat) → Bytes → Except Failure Bytes
  | 0, _ => .error ⟨.endInObject, [], .looked⟩
  | budget + 1, s =>
    match skipBlank s with
    | [] => .error ⟨.endInObject, [], .looked⟩
    | 0x22 :: rest =>
      match (skipString 0 rest).bind colon with
      | .error f => .error f
      | .ok rest =>
        match skipValue budget rest with
        | .error f => .error f
        | .ok rest =>
          match skipBlank rest with
          | [] => .error ⟨.endInObject, [], .looked⟩
          | 0x7D :: rest => .ok rest
          | 0x2C :: rest => skipEntries budget rest
          | rest => .error ⟨.expectedObjectCommaOrEnd, rest, .looked⟩
    | rest => .error ⟨.keyNotString, rest, .looked⟩

end

end RecordFlow.Json
