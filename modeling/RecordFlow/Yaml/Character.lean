/-!
# Characters in YAML

The classes of characters that YAML tells apart, and line breaks.
-/
namespace RecordFlow.Yaml

/-- Characters that a text may hold; other control characters are refused. -/
def isAllowed (c : Char) : Bool :=
  let n := c.toNat
  n == 0x09 || n == 0x0A || n == 0x0D || (0x20 ≤ n && n ≤ 0x7E) || n == 0x85 ||
    (0xA0 ≤ n && n ≤ 0xFFFD) || 0x10000 ≤ n

def byteOrderMark : Char := '\uFEFF'

def isBlank (c : Char) : Bool := c = ' ' || c = '\t'

def isBreak (c : Char) : Bool :=
  c = '\n' || c = '\r' || c = '\u0085' || c = '\u2028' || c = '\u2029'

def isNameChar (c : Char) : Bool := c.isAlphanum || c = '_' || c = '-'

/-- No word goes on here. -/
def atGap : List Char → Bool
  | [] => true
  | c :: _ => isBlank c || isBreak c

def atBreak : List Char → Bool
  | [] => false
  | c :: _ => isBreak c

def atBreakOrEnd (s : List Char) : Bool := s.isEmpty || atBreak s

/-- What a break counts as in a scalar: two of the breaks keep their kind. -/
def breakText (c : Char) : List Char := if c = '\u2028' || c = '\u2029' then [c] else ['\n']

/-- The text of a break at the front, if there is one, and what follows. -/
def takeBreak : List Char → List Char × List Char
  | '\r' :: '\n' :: rest => (['\n'], rest)
  | c :: rest => if isBreak c then (breakText c, rest) else ([], c :: rest)
  | [] => ([], [])

def skipBlanks (s : List Char) : List Char := s.dropWhile isBlank

def skipComment : List Char → List Char
  | '#' :: rest => rest.dropWhile (!isBreak ·)
  | s => s

/-- The rest of a line that may hold a comment and nothing else. -/
def finishLine (s : List Char) : Option (List Char) :=
  let s := skipComment (skipBlanks s)
  if atBreakOrEnd s then some (takeBreak s).2 else none

/-- Three dashes, or three dots, set off at the start of a line. -/
def atMark (c : Char) : List Char → Bool
  | a :: b :: d :: rest => a = c && b = c && d = c && atGap rest
  | _ => false

def atDocumentMark (s : List Char) : Bool := atMark '-' s || atMark '.' s

end RecordFlow.Yaml
