import RecordFlow.Json.Numeral
import RecordFlow.Value.Basic

/-!
# Reading JSON

The reader works on bytes and returns what follows the value read. Nesting is bounded by the number
of containers that may still be opened, and items of a container by the bytes left, since each
takes at least one. A repeated key keeps its first place and its last value.
-/
namespace RecordFlow.Json

/-- Containers that may be open at once. -/
def depthLimit : Nat := 127

def isBlank (b : UInt8) : Bool := b = 0x20 || b = 0x0A || b = 0x09 || b = 0x0D

def skipBlank (s : Bytes) : Bytes := s.dropWhile isBlank

def literalRest : Bytes → Bytes → Except Failure Bytes
  | [], s => .ok s
  | _ :: _, [] => .error ⟨.endInValue, [], .consumed⟩
  | e :: name, b :: s =>
    if b = e then literalRest name s else .error ⟨.expectedIdent, s, .consumed⟩

def literal (name : Bytes) (v : α) (s : Bytes) : Step α :=
  (literalRest name s).map (v, ·)

def hexValue? (b : UInt8) : Option Nat :=
  let n := b.toNat
  if 0x30 ≤ n ∧ n ≤ 0x39 then some (n - 0x30)
  else if 0x41 ≤ n ∧ n ≤ 0x46 then some (n - 0x41 + 10)
  else if 0x61 ≤ n ∧ n ≤ 0x66 then some (n - 0x61 + 10)
  else none

def hex4 : Bytes → Except Failure Nat
  | a :: b :: c :: d :: rest =>
    match hexValue? a, hexValue? b, hexValue? c, hexValue? d with
    | some a, some b, some c, some d => .ok (((a * 16 + b) * 16 + c) * 16 + d)
    | _, _, _, _ => .error ⟨.invalidEscape, rest, .consumed⟩
  | _ => .error ⟨.endInString, [], .consumed⟩

def isLeading (n : Nat) : Bool := 0xD800 ≤ n && n ≤ 0xDBFF

def isTrailing (n : Nat) : Bool := 0xDC00 ≤ n && n ≤ 0xDFFF

/-- The second half of a surrogate pair, with its own backslash. -/
def trailingHalf : Bytes → Except Failure Nat
  | [] => .error ⟨.endInString, [], .consumed⟩
  | 0x5C :: [] => .error ⟨.endInString, [], .consumed⟩
  | 0x5C :: 0x75 :: s => do
    let n ← hex4 s
    if isTrailing n then pure n else throw ⟨.loneSurrogate, s.drop 4, .consumed⟩
  | 0x5C :: _ :: s => .error ⟨.endOfHexEscape, s, .consumed⟩
  | _ :: s => .error ⟨.endOfHexEscape, s, .consumed⟩

/-- The bytes of the scalar that a hexadecimal escape writes, and how many bytes it takes after the
letter that opens it. -/
def unicodeEscape (s : Bytes) : Except Failure (Bytes × Nat) := do
  let n ← hex4 s
  if isTrailing n then throw ⟨.loneSurrogate, s.drop 4, .consumed⟩
  if isLeading n then
    let m ← trailingHalf (s.drop 4)
    let scalar := (n - 0xD800) * 0x400 + (m - 0xDC00) + 0x10000
    pure (Utf8.encode [Char.ofNat scalar], 10)
  else pure (Utf8.encode [Char.ofNat n], 4)

/-- The bytes that an escape writes, and how many bytes it takes after the backslash. -/
def escapeBytes : Bytes → Except Failure (Bytes × Nat)
  | [] => .error ⟨.endInString, [], .consumed⟩
  | 0x22 :: _ => .ok ([0x22], 1)
  | 0x5C :: _ => .ok ([0x5C], 1)
  | 0x2F :: _ => .ok ([0x2F], 1)
  | 0x62 :: _ => .ok ([0x08], 1)
  | 0x66 :: _ => .ok ([0x0C], 1)
  | 0x6E :: _ => .ok ([0x0A], 1)
  | 0x72 :: _ => .ok ([0x0D], 1)
  | 0x74 :: _ => .ok ([0x09], 1)
  | 0x75 :: s => (unicodeEscape s).map fun (bytes, n) => (bytes, n + 1)
  | _ :: s => .error ⟨.invalidEscape, s, .consumed⟩

/-- The bytes of a string up to its closing quote, first dropping `skip` bytes of an escape. -/
def stringBytes : Nat → Bytes → Except Failure (Bytes × Bytes)
  | _, [] => .error ⟨.endInString, [], .consumed⟩
  | skip + 1, _ :: s => stringBytes skip s
  | 0, b :: s =>
    if b = 0x22 then .ok ([], s)
    else if b = 0x5C then do
      let (bytes, n) ← escapeBytes s
      let (tail, rest) ← stringBytes n s
      pure (bytes ++ tail, rest)
    else if b < 0x20 then .error ⟨.controlCharacter, s, .consumed⟩
    else do
      let (tail, rest) ← stringBytes 0 s
      pure (b :: tail, rest)

def stringBody (s : Bytes) : Except Failure (String × Bytes) := do
  let (bytes, rest) ← stringBytes 0 s
  match Utf8.toString? bytes with
  | some text => pure (text, rest)
  | none => throw ⟨.invalidCodePoint, rest, .consumed⟩

/-- What comes next inside a container. The closing byte is left for the container to take. -/
inductive Next where
  | done (rest : Bytes)
  | more (rest : Bytes)

def nextItem (first : Bool) (s : Bytes) : Except Failure Next :=
  match skipBlank s with
  | [] => .error ⟨.endInList, [], .looked⟩
  | 0x5D :: rest => .ok (.done (0x5D :: rest))
  | 0x2C :: rest =>
    if first then .ok (.more (0x2C :: rest))
    else match skipBlank rest with
      | [] => .error ⟨.endInValue, [], .looked⟩
      | 0x5D :: rest' => .error ⟨.trailingComma, 0x5D :: rest', .looked⟩
      | rest' => .ok (.more rest')
  | rest => if first then .ok (.more rest) else .error ⟨.expectedListCommaOrEnd, rest, .looked⟩

def nextKey (first : Bool) (s : Bytes) : Except Failure Next :=
  match skipBlank s with
  | [] => .error ⟨.endInObject, [], .looked⟩
  | 0x7D :: rest => .ok (.done (0x7D :: rest))
  | 0x22 :: rest =>
    if first then .ok (.more rest)
    else .error ⟨.expectedObjectCommaOrEnd, 0x22 :: rest, .looked⟩
  | 0x2C :: rest =>
    if first then .error ⟨.keyNotString, 0x2C :: rest, .looked⟩
    else match skipBlank rest with
      | [] => .error ⟨.endInValue, [], .looked⟩
      | 0x22 :: rest' => .ok (.more rest')
      | 0x7D :: rest' => .error ⟨.trailingComma, 0x7D :: rest', .looked⟩
      | rest' => .error ⟨.keyNotString, rest', .looked⟩
  | rest =>
    if first then .error ⟨.keyNotString, rest, .looked⟩
    else .error ⟨.expectedObjectCommaOrEnd, rest, .looked⟩

def colon (s : Bytes) : Except Failure Bytes :=
  match skipBlank s with
  | [] => .error ⟨.endInObject, [], .looked⟩
  | 0x3A :: rest => .ok rest
  | rest => .error ⟨.expectedColon, rest, .looked⟩

/-- The items of a sequence and its closing bracket; `budget` bounds their number. -/
def items (item : Bytes → Step α) :
    (budget : Nat) → Bool → Bytes → Except Failure (List α × Bytes)
  | 0, _, _ => .error ⟨.endInList, [], .looked⟩
  | budget + 1, first, s => do
    match ← nextItem first s with
    | .done rest => pure ([], rest.drop 1)
    | .more rest =>
      let (v, rest) ← item rest
      let (vs, rest) ← items item budget false rest
      pure (v :: vs, rest)

def entries (item : Bytes → Step α) :
    (budget : Nat) → Bool → Bytes → Except Failure (List (String × α) × Bytes)
  | 0, _, _ => .error ⟨.endInObject, [], .looked⟩
  | budget + 1, first, s => do
    match ← nextKey first s with
    | .done rest => pure ([], rest.drop 1)
    | .more rest =>
      let (key, rest) ← stringBody rest
      let rest ← colon rest
      let (v, rest) ← item rest
      let (es, rest) ← entries item budget false rest
      pure ((key, v) :: es, rest)

/-- One value, in which `depth` containers may still be opened. -/
def value (depth : Nat) (s : Bytes) : Step Value :=
  match skipBlank s with
  | [] => .error ⟨.endInValue, [], .looked⟩
  | 0x6E :: rest => literal [0x75, 0x6C, 0x6C] .null rest
  | 0x74 :: rest => literal [0x72, 0x75, 0x65] (.bool true) rest
  | 0x66 :: rest => literal [0x61, 0x6C, 0x73, 0x65] (.bool false) rest
  | 0x22 :: rest => (stringBody rest).map fun (text, rest) => (.string text, rest)
  | 0x5B :: rest =>
    match depth with
    | 0 => .error ⟨.recursionLimit, 0x5B :: rest, .looked⟩
    | depth + 1 =>
      (items (value depth) (rest.length + 1) true rest).map fun (vs, rest) => (.array vs, rest)
  | 0x7B :: rest =>
    match depth with
    | 0 => .error ⟨.recursionLimit, 0x7B :: rest, .looked⟩
    | depth + 1 =>
      (entries (value depth) (rest.length + 1) true rest).map fun (es, rest) =>
        (.object (Fields.ofEntries es), rest)
  | b :: rest =>
    if b = 0x2D || isDigit b then
      (number (b :: rest)).map fun (n, rest) => (.number n, rest)
    else .error ⟨.expectedValue, b :: rest, .looked⟩

def finish (v : α) (s : Bytes) : Except Failure α :=
  match skipBlank s with
  | [] => .ok v
  | rest => .error ⟨.trailingCharacters, rest, .looked⟩

def document (s : Bytes) : Except Failure Value := do
  let (v, rest) ← value depthLimit s
  finish v rest

def parse (text : String) : Except SyntaxError Value :=
  let bytes := Utf8.ofString text
  (document bytes).mapError (·.report false bytes)

end RecordFlow.Json
