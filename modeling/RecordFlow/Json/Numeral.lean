import RecordFlow.Json.Fault
import RecordFlow.Number.Basic

/-!
# Reading JSON numbers

Digits are gathered in 64 bits. Where the next digit would not fit, further integer digits raise
the exponent and further fraction digits are dropped. The significand is rounded to binary64 first
and then multiplied or divided by a rounded power of ten, so the result may differ from the nearest
number by rounding twice.
-/
namespace RecordFlow.Json

abbrev Step (α : Type) := Except Failure (α × Bytes)

def isDigit (b : UInt8) : Bool := 0x30 ≤ b && b ≤ 0x39

def digit (b : UInt8) : Nat := b.toNat - 0x30

def startsWithDigit : Bytes → Bool
  | b :: _ => isDigit b
  | [] => false

def startsWithExponent : Bytes → Bool
  | b :: _ => b = 0x65 || b = 0x45
  | [] => false

/-- The largest power of ten that is applied at once. -/
def powerLimit : Nat := 308

def tenPower (k : Nat) : Binary64 :=
  (Binary64.ofFraction? false (Nat.pow 10 k) 1).getD (.zero false)

/-- Divides by the largest power `rounds` times; zero stays zero. -/
def lower? : (rounds : Nat) → Binary64 → Option Binary64
  | 0, x => some x
  | rounds + 1, x =>
    if x.units = 0 then some x else (x.div? (tenPower powerLimit)).bind (lower? rounds)

/-- `x * 10 ^ exponent`, dividing in steps of at most `powerLimit` decimal places. -/
def scale? (x : Binary64) (exponent : Int) : Option Binary64 :=
  if 0 ≤ exponent then
    if exponent ≤ powerLimit then x.mul? (tenPower exponent.toNat)
    else if x.units = 0 then some x
    else none
  else
    let places := (-exponent).toNat
    let rounds := (places - 1) / powerLimit
    (lower? rounds x).bind (·.div? (tenPower (places - rounds * powerLimit)))

/-- The sign and the significand, which fits 64 bits, of a number being read. -/
structure Significand where
  negative : Bool
  digits : Nat

def Significand.toBinary64? (m : Significand) : Option Binary64 :=
  Binary64.ofFraction? false m.digits 1

def Significand.fits (m : Significand) (d : Nat) : Bool := m.digits * 10 + d < UInt64.size

def Significand.push (m : Significand) (d : Nat) : Significand :=
  { m with digits := m.digits * 10 + d }

def finishFloat (m : Significand) (exponent : Int) (rest : Bytes) : Step Number :=
  match m.toBinary64?.bind (scale? · exponent) with
  | some x => .ok (.float { x with negative := m.negative }, rest)
  | none => .error ⟨.numberOutOfRange, rest, .held⟩

/-- The exponents add up within signed 32 bits and stop at the ends of that range. -/
def addExponent (start : Int) (negative : Bool) (value : Nat) : Int :=
  let sum := if negative then start - value else start + value
  max (-2147483648) (min 2147483647 sum)

/-- The digits of an exponent of which `value` was read. A too large one is zero or out of range at
once. -/
def exponentDigits (m : Significand) (start : Int) (negative : Bool) : Nat → Bytes → Step Number
  | value, [] => finishFloat m (addExponent start negative value) []
  | value, b :: rest =>
    if isDigit b then
      if value * 10 + digit b ≤ 2147483647 then
        exponentDigits m start negative (value * 10 + digit b) rest
      else if m.digits ≠ 0 ∧ ¬ negative then .error ⟨.numberOutOfRange, rest, .consumed⟩
      else .ok (.float (.zero m.negative), rest.dropWhile isDigit)
    else finishFloat m (addExponent start negative value) (b :: rest)

def exponentStart (m : Significand) (start : Int) (negative : Bool) : Bytes → Step Number
  | [] => .error ⟨.endInValue, [], .consumed⟩
  | b :: rest =>
    if isDigit b then exponentDigits m start negative (digit b) rest
    else .error ⟨.invalidNumber, rest, .consumed⟩

def exponentPart (m : Significand) (start : Int) : Bytes → Step Number
  | 0x2B :: rest => exponentStart m start false rest
  | 0x2D :: rest => exponentStart m start true rest
  | s => exponentStart m start false s

def afterFraction (m : Significand) (exponent : Int) (s : Bytes) : Step Number :=
  if startsWithExponent s then exponentPart m exponent (s.drop 1) else finishFloat m exponent s

def fractionDigits : Significand → Int → Bytes → Step Number
  | m, exponent, [] => afterFraction m exponent []
  | m, exponent, b :: rest =>
    if isDigit b then
      if m.fits (digit b) then fractionDigits (m.push (digit b)) (exponent - 1) rest
      else afterFraction m exponent (rest.dropWhile isDigit)
    else afterFraction m exponent (b :: rest)

def fractionPart (m : Significand) (exponent : Int) (s : Bytes) : Step Number :=
  if startsWithDigit s then fractionDigits m exponent s
  else if s.isEmpty then .error ⟨.endInValue, s, .looked⟩
  else .error ⟨.invalidNumber, s, .looked⟩

/-- Zero with a minus sign and what lies below `-2 ^ 63` are binary64 numbers. -/
def wholeNumber (m : Significand) : Number :=
  let i : Int := if m.negative then -m.digits else m.digits
  if m.negative ∧ m.digits = 0 then .float (.zero true)
  else match Whole.ofInt? i with
    | some w => .whole w
    | none => .float { m.toBinary64?.getD (.zero true) with negative := m.negative }

/-- Integer digits that no longer fit count into the exponent. -/
def longInteger (m : Significand) : Nat → Bytes → Step Number
  | extra, [] => finishFloat m extra []
  | extra, b :: rest =>
    if isDigit b then longInteger m (extra + 1) rest
    else if b = 0x2E then fractionPart m extra rest
    else if startsWithExponent (b :: rest) then exponentPart m extra rest
    else finishFloat m extra (b :: rest)

def integerDigits : Significand → Bytes → Step Number
  | m, [] => .ok (wholeNumber m, [])
  | m, b :: rest =>
    if isDigit b then
      if m.fits (digit b) then integerDigits (m.push (digit b)) rest
      else longInteger m 1 rest
    else if b = 0x2E then fractionPart m 0 rest
    else if startsWithExponent (b :: rest) then exponentPart m 0 rest
    else .ok (wholeNumber m, b :: rest)

/-- After the sign. A leading zero stands alone. -/
def integerPart (negative : Bool) : Bytes → Step Number
  | [] => .error ⟨.endInValue, [], .consumed⟩
  | b :: rest =>
    if b = 0x30 ∧ startsWithDigit rest then .error ⟨.invalidNumber, rest, .looked⟩
    else if isDigit b then integerDigits ⟨negative, digit b⟩ rest
    else .error ⟨.invalidNumber, rest, .consumed⟩

def number : Bytes → Step Number
  | 0x2D :: rest => integerPart true rest
  | s => integerPart false s

end RecordFlow.Json
