import RecordFlow.Text.Utf8

/-!
# What can be wrong with a JSON text

A fault is found at a place: the bytes not yet consumed, with or without the byte looked at. Lines
count from one and columns count bytes, so column zero stands right after a line feed.
-/
namespace RecordFlow.Json

inductive Fault where
  | endInList
  | endInObject
  | endInString
  | endInValue
  | expectedColon
  | expectedListCommaOrEnd
  | expectedObjectCommaOrEnd
  | expectedIdent
  | expectedValue
  | invalidEscape
  | invalidNumber
  | numberOutOfRange
  | invalidCodePoint
  | controlCharacter
  | keyNotString
  | loneSurrogate
  | trailingComma
  | trailingCharacters
  | endOfHexEscape
  | recursionLimit
  | wrongKind (found expected : String)
  | wrongValue (found expected : String)
  | wrongLength (length : Nat) (expected : String)
  | unknownVariant (name : String) (known : List String)
  | missingField (name : String)
  | duplicateField (name : String)
deriving DecidableEq, Repr

/-- The names in backquotes, as alternatives. -/
def alternatives : List String → String
  | [] => "there are no variants"
  | [a] => "expected \x60" ++ a ++ "\x60"
  | [a, b] => "expected \x60" ++ a ++ "\x60 or \x60" ++ b ++ "\x60"
  | names => "expected one of " ++ ", ".intercalate (names.map fun n => "\x60" ++ n ++ "\x60")

namespace Fault

def message : Fault → String
  | endInList => "EOF while parsing a list"
  | endInObject => "EOF while parsing an object"
  | endInString => "EOF while parsing a string"
  | endInValue => "EOF while parsing a value"
  | expectedColon => "expected \x60:\x60"
  | expectedListCommaOrEnd => "expected \x60,\x60 or \x60]\x60"
  | expectedObjectCommaOrEnd => "expected \x60,\x60 or \x60\x7d\x60"
  | expectedIdent => "expected ident"
  | expectedValue => "expected value"
  | invalidEscape => "invalid escape"
  | invalidNumber => "invalid number"
  | numberOutOfRange => "number out of range"
  | invalidCodePoint => "invalid unicode code point"
  | controlCharacter => "control character (\\u0000-\\u001F) found while parsing a string"
  | keyNotString => "key must be a string"
  | loneSurrogate => "lone leading surrogate in hex escape"
  | trailingComma => "trailing comma"
  | trailingCharacters => "trailing characters"
  | endOfHexEscape => "unexpected end of hex escape"
  | recursionLimit => "recursion limit exceeded"
  | wrongKind found expected => "invalid type: " ++ found ++ ", expected " ++ expected
  | wrongValue found expected => "invalid value: " ++ found ++ ", expected " ++ expected
  | wrongLength length expected =>
    "invalid length " ++ toString length ++ ", expected " ++ expected
  | unknownVariant name known => "unknown variant \x60" ++ name ++ "\x60, " ++ alternatives known
  | missingField name => "missing field \x60" ++ name ++ "\x60"
  | duplicateField name => "duplicate field \x60" ++ name ++ "\x60"

def isEnd : Fault → Bool
  | endInList | endInObject | endInString | endInValue => true
  | _ => false

end Fault

/-- How the place of a fault is counted. -/
inductive Mark where
  /-- after the consumed bytes -/
  | consumed
  /-- with the byte looked at -/
  | looked
  /-- with the byte looked at if the text comes from a stream, which hands it out for good -/
  | held
  /-- no place is known -/
  | nowhere
deriving DecidableEq, Repr

/-- A fault with the bytes that were still to come. -/
structure Failure where
  fault : Fault
  rest : Bytes
  mark : Mark
deriving Repr

/-- A line, counted from one, and the bytes before the place in it. -/
structure Place where
  line : Nat
  column : Nat
deriving DecidableEq, Repr

def Place.after (s : Bytes) : Place :=
  s.foldl (fun p b => if b = 0x0A then ⟨p.line + 1, 0⟩ else ⟨p.line, p.column + 1⟩) ⟨1, 0⟩

structure SyntaxError where
  fault : Fault
  place : Option Place
deriving DecidableEq, Repr

def SyntaxError.message (e : SyntaxError) : String :=
  match e.place with
  | none => e.fault.message
  | some p => e.fault.message ++ " at line " ++ toString p.line ++ " column " ++ toString p.column

namespace Failure

def counted (f : Failure) (streamed : Bool) (total : Nat) : Nat :=
  let consumed := total - f.rest.length
  let ahead := match f.mark with
    | .looked => true
    | .held => streamed
    | _ => false
  if ahead && !f.rest.isEmpty then consumed + 1 else consumed

def report (f : Failure) (streamed : Bool) (text : Bytes) : SyntaxError where
  fault := f.fault
  place := if f.mark = .nowhere then none
    else some (Place.after (text.take (f.counted streamed text.length)))

/-- True when the fault was found only after the end of the text had been seen. -/
def sawEnd (f : Failure) : Bool :=
  f.rest.isEmpty && (f.fault.isEnd || f.mark == .looked || f.mark == .held)

end Failure
end RecordFlow.Json
