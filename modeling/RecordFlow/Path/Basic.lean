import RecordFlow.Error
import RecordFlow.Json.Printer
import RecordFlow.Text.Digit
import RecordFlow.Text.Split

/-!
# Paths

A path is a list of steps from the outside in: keys of mappings and positions in sequences. The
dotted text `a.b[0].c` writes the keys between dots and each position in brackets. The list form
holds any key. The empty path is the root.
-/
namespace RecordFlow

inductive Segment where
  | field (key : String)
  | index (i : UInt64)
deriving DecidableEq, Repr

structure Path where
  segments : List Segment
deriving DecidableEq, Repr

namespace Segment

def chars : Segment → List Char
  | field key => key.toList
  | index i => '[' :: (Json.naturalText i.toNat ++ [']'])

/-- The segment after others: a key is set off by a dot. -/
def continued : Segment → List Char
  | field key => '.' :: key.toList
  | index i => (index i).chars

def toValue : Segment → Value
  | field key => .string key
  | index i => .number (.ofWord i)

/-- Every empty pair of braces in a key becomes `number`. -/
def fillPlaceholder (number : List Char) : Segment → Segment
  | field key => field (String.ofList (Text.replace ['\x7b', '\x7d'] number key.toList))
  | index i => index i

end Segment

namespace Path

def root : Path := ⟨[]⟩

def isRoot (p : Path) : Bool := p.segments.isEmpty

def child (p : Path) (s : Segment) : Path := ⟨p.segments ++ [s]⟩

def withPlaceholder (p : Path) (n : Nat) : Path :=
  ⟨p.segments.map (·.fillPlaceholder (Json.naturalText n))⟩

def chars (p : Path) : List Char :=
  match p.segments with
  | [] => []
  | s :: rest => s.chars ++ rest.flatMap Segment.continued

def text (p : Path) : String := String.ofList p.chars

def toValue (p : Path) : Value := .array (p.segments.map Segment.toValue)

/-! ## Reading the dotted text -/

/-- The digits between the brackets, group by group; `opened` holds those of a group being read, in
reverse. -/
def groups? : (opened : Option (List Char)) → List Char → Option (List (List Char))
  | none, [] => some []
  | none, c :: rest => if c = '[' then groups? (some []) rest else none
  | some _, [] => none
  | some digits, c :: rest =>
    if c = ']' then
      if digits.isEmpty then none else (groups? none rest).map (digits.reverse :: ·)
    else if Text.isDecimalDigit c then groups? (some (c :: digits)) rest
    else none

/-- Why the digits in brackets name no position. -/
inductive IndexFault where
  | invalidDigit
  | tooLarge
deriving DecidableEq, Repr

def IndexFault.message : IndexFault → String
  | invalidDigit => "invalid digit found in string"
  | tooLarge => "number too large to fit in target type"

/-- A position in ASCII digits, after `value`. -/
def position (value : UInt64) : List Char → Except IndexFault UInt64
  | [] => .ok value
  | c :: rest =>
    if c.isDigit then
      let next := value.toNat * 10 + Text.digitValue c
      if next < UInt64.size then position (.ofNat next) rest else .error .tooLarge
    else .error .invalidDigit

def isBracket (c : Char) : Bool := c = '[' || c = ']'

def positions (path : String) : List (List Char) → Except Error (List Segment)
  | [] => .ok []
  | digits :: rest =>
    match position 0 digits with
    | .error fault =>
      .error (.path ("bad index '" ++ String.ofList digits ++ "' in path '" ++ path ++ "': " ++
        fault.message))
    | .ok i => (positions path rest).map (.index i :: ·)

/-- One part between dots: a name and the positions after it. -/
def part (path : String) (cs : List Char) : Except Error (List Segment) :=
  let name := cs.takeWhile (!isBracket ·)
  match groups? none (cs.dropWhile (!isBracket ·)) with
  | none =>
    .error (.path ("malformed segment '" ++ String.ofList cs ++ "' in path '" ++ path ++ "'"))
  | some groups =>
    (positions path groups).map fun indices =>
      if name.isEmpty then indices else .field (String.ofList name) :: indices

/-- Empty parts are skipped. -/
def parts (path : String) : List (List Char) → Except Error (List Segment)
  | [] => .ok []
  | cs :: rest =>
    if cs.isEmpty then parts path rest
    else match part path cs with
      | .error e => .error e
      | .ok segments => (parts path rest).map (segments ++ ·)

def parse (path : String) : Except Error Path :=
  match parts path (Text.splitOn ['.'] path.toList) with
  | .error e => .error e
  | .ok [] => .error (.path "path may not be empty")
  | .ok segments => .ok ⟨segments⟩

/-! ## Reading the declarative form -/

def segmentOfValue : Value → Except Error Segment
  | .string key => .ok (.field key)
  | .number n =>
    match n.toWord? with
    | some i => .ok (.index i)
    | none =>
      .error (.path ("path index must be a non-negative integer, got " ++
        Json.compact (.number n)))
  | other =>
    .error (.path ("path segments must be strings or integers, got " ++ Json.compact other))

def segmentsOfValues : List Value → Except Error (List Segment)
  | [] => .ok []
  | v :: rest =>
    match segmentOfValue v with
    | .error e => .error e
    | .ok s => (segmentsOfValues rest).map (s :: ·)

/-- A dotted text, or a list of keys and positions. -/
def ofValue : Value → Except Error Path
  | .string dotted => parse dotted
  | .array items => (segmentsOfValues items).map Path.mk
  | other => .error (.path ("path must be a dotted string or a list, got " ++ Json.compact other))

end Path
end RecordFlow
