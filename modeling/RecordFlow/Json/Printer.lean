import RecordFlow.Number.Decimal
import RecordFlow.Value.Basic

/-!
# Writing JSON

Compact text has no blanks; indented text has two per level. Strings escape the quote, the
backslash and the control characters only. A binary64 number has the fewest digits that read back:
positional with at least one decimal from `1e-5` up to `1e16`, with a signed exponent beyond.
-/
namespace RecordFlow.Json

/-- The decimal point may stand this many digits to the left of the first digit. -/
def positionalLeast : Int := -5

/-- The decimal point may stand this many digits to the right of the first digit. -/
def positionalGreatest : Int := 16

def hexDigit (n : Nat) : Char := (Nat.digitChar n)

def escape (c : Char) : List Char :=
  if c = '"' then ['\\', '"']
  else if c = '\\' then ['\\', '\\']
  else if c = '\n' then ['\\', 'n']
  else if c = '\r' then ['\\', 'r']
  else if c = '\t' then ['\\', 't']
  else if c = '\x08' then ['\\', 'b']
  else if c = '\x0c' then ['\\', 'f']
  else if c.toNat < 0x20 then
    ['\\', 'u', '0', '0', hexDigit (c.toNat / 16), hexDigit (c.toNat % 16)]
  else [c]

def quoted (s : String) : List Char := '"' :: (s.toList.flatMap escape ++ ['"'])

def naturalText (n : Nat) : List Char := Nat.toDigits 10 n

def wholeText (i : Int) : List Char :=
  if i < 0 then '-' :: naturalText i.natAbs else naturalText i.natAbs

/-- Positional or exponent notation, by the place of the decimal point. -/
def decimalText (d : Decimal) : List Char :=
  let digits := naturalText d.digits
  let point : Int := digits.length + d.exponent
  if 0 ≤ d.exponent ∧ point ≤ positionalGreatest then
    digits ++ List.replicate d.exponent.toNat '0' ++ ['.', '0']
  else if 0 < point ∧ point ≤ positionalGreatest then
    digits.take point.toNat ++ '.' :: digits.drop point.toNat
  else if positionalLeast < point ∧ point ≤ 0 then
    ['0', '.'] ++ List.replicate (-point).toNat '0' ++ digits
  else
    let exponent := point - 1
    let sign := if exponent < 0 then '-' else '+'
    let fraction := if digits.length ≤ 1 then [] else '.' :: digits.drop 1
    digits.take 1 ++ fraction ++ ['e', sign] ++ naturalText exponent.natAbs

def floatText (x : Binary64) : List Char :=
  let magnitude :=
    if x.units = 0 then ['0', '.', '0'] else decimalText (Decimal.shortest x.units)
  if x.negative then '-' :: magnitude else magnitude

def numberText : Number → List Char
  | .whole i => wholeText i.val
  | .float x => floatText x

def boolText (b : Bool) : List Char :=
  if b then ['t', 'r', 'u', 'e'] else ['f', 'a', 'l', 's', 'e']

def nullText : List Char := ['n', 'u', 'l', 'l']

mutual

def compactText : Value → List Char
  | .null => nullText
  | .bool b => boolText b
  | .number n => numberText n
  | .string s => quoted s
  | .array items => '[' :: (compactItems items ++ [']'])
  | .object fields => '\x7b' :: (compactFields fields ++ ['\x7d'])

def compactItems : List Value → List Char
  | [] => []
  | [v] => compactText v
  | v :: w :: rest => compactText v ++ ',' :: compactItems (w :: rest)

def compactFields : List (String × Value) → List Char
  | [] => []
  | [(k, v)] => quoted k ++ ':' :: compactText v
  | (k, v) :: e :: rest => quoted k ++ ':' :: (compactText v ++ ',' :: compactFields (e :: rest))

end

def newline (level : Nat) : List Char := '\n' :: List.replicate (2 * level) ' '

mutual

def indentedText (level : Nat) : Value → List Char
  | .array [] => ['[', ']']
  | .array (v :: items) =>
    '[' :: (newline (level + 1) ++ indentedText (level + 1) v ++
      (indentedItems (level + 1) items ++ newline level ++ [']']))
  | .object [] => ['\x7b', '\x7d']
  | .object ((k, v) :: fields) =>
    '\x7b' :: (newline (level + 1) ++ quoted k ++ [':', ' '] ++ indentedText (level + 1) v ++
      (indentedFields (level + 1) fields ++ newline level ++ ['\x7d']))
  | .null => nullText
  | .bool b => boolText b
  | .number n => numberText n
  | .string s => quoted s

def indentedItems (level : Nat) : List Value → List Char
  | [] => []
  | v :: rest => ',' :: (newline level ++ indentedText level v ++ indentedItems level rest)

def indentedFields (level : Nat) : List (String × Value) → List Char
  | [] => []
  | (k, v) :: rest =>
    ',' :: (newline level ++ quoted k ++ [':', ' '] ++ indentedText level v ++
      indentedFields level rest)

end

def compact (v : Value) : String := String.ofList (compactText v)

def indented (v : Value) : String := String.ofList (indentedText 0 v)

end RecordFlow.Json
