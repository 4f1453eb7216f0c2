import RecordFlow.Json.Printer
import RecordFlow.Number.Decimal
import RecordFlow.Text.Digit

/-!
# Values of YAML scalars

A plain scalar is null, a truth value, a whole number, a decimal number, or else text. Digits after
a leading zero are text, and so is a decimal number that is too large. A whole number that needs
more than 64 bits and no more than 128 is refused.
-/
namespace RecordFlow.Yaml

def isNull (s : List Char) : Bool :=
  ["null".toList, "Null".toList, "NULL".toList, "~".toList].contains s

def bool? (s : List Char) : Option Bool :=
  if ["true".toList, "True".toList, "TRUE".toList].contains s then some true
  else if ["false".toList, "False".toList, "FALSE".toList].contains s then some false
  else none

/-! ## Whole numbers -/

/-- Digits in a base and their value. -/
def digitValue? (base : Nat) (c : Char) : Option Nat :=
  let value? :=
    if c.isDigit then some (c.toNat - '0'.toNat)
    else if 'a' ≤ c ∧ c ≤ 'f' then some (c.toNat - 'a'.toNat + 10)
    else if 'A' ≤ c ∧ c ≤ 'F' then some (c.toNat - 'A'.toNat + 10)
    else none
  value?.filter (· < base)

def natural? (base : Nat) : List Char → Option Nat
  | [] => none
  | digits => digits.foldlM (fun n c => (digitValue? base c).map (n * base + ·)) 0

def marked? : List Char → Option Nat
  | '0' :: 'x' :: digits => natural? 16 digits
  | '0' :: 'o' :: digits => natural? 8 digits
  | '0' :: 'b' :: digits => natural? 2 digits
  | _ => none

def takeSign : List Char → Option Char × List Char
  | '+' :: rest => (some '+', rest)
  | '-' :: rest => (some '-', rest)
  | rest => (none, rest)

/-- More than one digit, the first of which is a zero. -/
def hasLeadingZero (s : List Char) : Bool :=
  match (takeSign s).2 with
  | '0' :: c :: rest => (c :: rest).all Char.isDigit
  | _ => false

def whole? (s : List Char) : Option Int :=
  let (sign, digits) := takeSign s
  let natural := (marked? digits).or (if hasLeadingZero s then none else natural? 10 digits)
  natural.map fun n => if sign = some '-' then -(n : Int) else n

/-- Too many bits for a value, but not for a number. -/
def isOversized (i : Int) : Bool :=
  -((Nat.pow 2 127 : Nat) : Int) ≤ i && i < ((Nat.pow 2 128 : Nat) : Int)

/-! ## Decimal numbers -/

def exponent? : List Char → Option Int
  | [] => some 0
  | c :: rest =>
    if c = 'e' ∨ c = 'E' then
      let (sign, digits) := takeSign rest
      (natural? 10 digits).map fun n => if sign = some '-' then -(n : Int) else n
    else none

def decimal? (s : List Char) : Option Decimal :=
  let integer := s.takeWhile Char.isDigit
  let rest := s.dropWhile Char.isDigit
  let (fraction, rest) := match rest with
    | '.' :: rest => (rest.takeWhile Char.isDigit, rest.dropWhile Char.isDigit)
    | rest => ([], rest)
  if integer.isEmpty && fraction.isEmpty then none
  else (exponent? rest).map fun e =>
    ⟨Text.digitsValue (integer ++ fraction), e - fraction.length⟩

/-- A number or one of the names of what is not finite, for which there is no value. -/
inductive Real where
  | finite (x : Binary64)
  | notFinite

def isNotFinite (s : List Char) : Bool :=
  ((["", "+", "-"].flatMap fun sign => [".inf", ".Inf", ".INF"].map (sign ++ ·)) ++
    [".nan", ".NaN", ".NAN"]).any (·.toList == s)

def real? (s : List Char) : Option Real :=
  if isNotFinite s then some .notFinite
  else
    let (sign, digits) := takeSign s
    (decimal? digits).bind fun d =>
      (Binary64.ofDecimal? (sign = some '-') d.digits d.exponent).map .finite

def Real.toValue : Real → Value
  | .finite x => .number (.float x)
  | .notFinite => .null

/-! ## Scalars -/

def wholeValue? (i : Int) : Option Value := (Whole.ofInt? i).map fun w => .number (.whole w)

def plainValue? (text : String) : Option Value :=
  let s := text.toList
  if s.isEmpty || isNull s then some .null
  else match bool? s with
    | some b => some (.bool b)
    | none =>
      match (whole? s).filter fun i => isOversized i with
      | some i => wholeValue? i
      | none =>
        if hasLeadingZero s then some (.string text)
        else match real? s with
          | some x => some x.toValue
          | none => some (.string text)

def taggedValue? (kind : String) (text : String) : Option Value :=
  let s := text.toList
  if kind = "bool" then (bool? s).map .bool
  else if kind = "int" then (whole? s).bind wholeValue?
  else if kind = "float" then (real? s).map Real.toValue
  else if kind = "null" then (if isNull s then some .null else none)
  else some (.string text)

end RecordFlow.Yaml
