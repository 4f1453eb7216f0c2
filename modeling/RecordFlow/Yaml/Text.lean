import RecordFlow.Yaml.Character

/-!
# Texts of YAML scalars

A scalar is plain, in single or double quotes, or a block of lines. The first three may run over
several lines: a single break between words becomes a space, and more breaks keep all but the first.
A block keeps its breaks, or folds those between lines that begin without a blank.
-/
namespace RecordFlow.Yaml

/-- Blanks and breaks between two words. Blanks beside a break count for nothing. -/
structure Gap where
  /-- the blanks before any break, in reverse -/
  blanks : List Char
  firstBreak : List Char
  laterBreaks : List Char
  broken : Bool
  /-- the blanks since the last break -/
  column : Nat

namespace Gap

def empty : Gap := ⟨[], [], [], false, 0⟩

/-- A line break that counts for nothing itself. -/
def escaped : Gap := ⟨[], [], [], true, 0⟩

def addBlank (g : Gap) (c : Char) : Gap :=
  if g.broken then { g with column := g.column + 1 } else { g with blanks := c :: g.blanks }

def addBreak (g : Gap) (text : List Char) : Gap :=
  if g.broken then { g with laterBreaks := g.laterBreaks ++ text, column := 0 }
  else ⟨[], text, [], true, 0⟩

/-- What the gap leaves in the scalar. -/
def text (g : Gap) : List Char :=
  if !g.broken then g.blanks.reverse
  else if g.firstBreak = ['\n'] then (if g.laterBreaks.isEmpty then [' '] else g.laterBreaks)
  else g.firstBreak ++ g.laterBreaks

/-- The gap is followed by the mark of a document. -/
def endsDocument (g : Gap) (s : List Char) : Bool := g.broken && g.column = 0 && atDocumentMark s

end Gap

/-- The text so far, in reverse, with what a gap leaves. -/
def joined (text : List Char) : Option Gap → List Char
  | none => text
  | some g => g.text.reverse ++ text

/-! ## Plain scalars -/

/-- A plain scalar and what follows it. `endedLine` says that it was followed by a break. -/
structure Plain where
  text : List Char
  rest : List Char
  endedLine : Bool

def isFlowIndicator (c : Char) : Bool := c = ',' || c = '[' || c = ']' || c = '\x7b' || c = '\x7d'

/-- After a gap, a comment, a mark or a line that is not indented enough ends a plain scalar. -/
def gapEnds (flow : Bool) (indent : Nat) (s : List Char) : Option Gap → Bool
  | none => false
  | some g =>
    (!flow && g.broken && g.column < indent) || g.endsDocument s || s.head? = some '#'

/-- Inside brackets a colon may not stand before another indicator. -/
def isStrayColon (flow : Bool) : List Char → Bool
  | ':' :: c :: _ => flow && (isFlowIndicator c || c = '?')
  | _ => false

def wordEnds (flow : Bool) : List Char → Bool
  | ':' :: rest => atGap rest
  | c :: _ => flow && isFlowIndicator c
  | [] => true

/-- Reads on in a plain scalar after the text, which is in reverse, and a gap. -/
def plainFrom (flow : Bool) (indent : Nat) (text : List Char) :
    (gap : Option Gap) → List Char → Option Plain
  | gap, [] => some ⟨text.reverse, [], (gap.getD .empty).broken⟩
  | gap, '\r' :: '\n' :: rest =>
    plainFrom flow indent text (some ((gap.getD .empty).addBreak ['\n'])) rest
  | gap, c :: rest =>
    let g := gap.getD .empty
    if isBreak c then plainFrom flow indent text (some (g.addBreak (breakText c))) rest
    else if isBlank c then
      if g.broken && c = '\t' && g.column < indent then none
      else plainFrom flow indent text (some (g.addBlank c)) rest
    else if gapEnds flow indent (c :: rest) gap then some ⟨text.reverse, c :: rest, g.broken⟩
    else if isStrayColon flow (c :: rest) then none
    else if wordEnds flow (c :: rest) then some ⟨text.reverse, c :: rest, g.broken⟩
    else plainFrom flow indent (c :: joined text gap) none rest

def plain (flow : Bool) (indent : Nat) (s : List Char) : Option Plain :=
  plainFrom flow indent [] none s

/-! ## Quoted scalars -/

/-- A scalar in single quotes, after its opening quote. -/
def singleQuotedFrom (text : List Char) :
    (gap : Option Gap) → List Char → Option (List Char × List Char)
  | _, [] => none
  | gap, '\r' :: '\n' :: rest =>
    singleQuotedFrom text (some ((gap.getD .empty).addBreak ['\n'])) rest
  | gap, '\'' :: '\'' :: rest => singleQuotedFrom ('\'' :: joined text gap) none rest
  | gap, c :: rest =>
    let g := gap.getD .empty
    if isBreak c then singleQuotedFrom text (some (g.addBreak (breakText c))) rest
    else if isBlank c then singleQuotedFrom text (some (g.addBlank c)) rest
    else if g.endsDocument (c :: rest) then none
    else if c = '\'' then some ((joined text gap).reverse, rest)
    else singleQuotedFrom (c :: joined text gap) none rest

def singleQuoted (s : List Char) : Option (List Char × List Char) := singleQuotedFrom [] none s

def hexDigit? (c : Char) : Option Nat :=
  if c.isDigit then some (c.toNat - '0'.toNat)
  else if 'a' ≤ c ∧ c ≤ 'f' then some (c.toNat - 'a'.toNat + 10)
  else if 'A' ≤ c ∧ c ≤ 'F' then some (c.toNat - 'A'.toNat + 10)
  else none

def hexNumber? : (n : Nat) → (value : Nat) → List Char → Option Nat
  | 0, value, _ => some value
  | _ + 1, _, [] => none
  | n + 1, value, c :: rest => do hexNumber? n (value * 16 + (← hexDigit? c)) rest

def hexEscape? (digits : Nat) (s : List Char) : Option (Char × Nat) := do
  let n ← hexNumber? digits 0 s
  if n.isValidChar then some (Char.ofNat n, digits + 1) else none

/-- Letters after a backslash and what they stand for. -/
def escapes : List (Char × Char) := [
  ('0', '\x00'), ('a', '\x07'), ('b', '\x08'), ('t', '\t'), ('\t', '\t'), ('n', '\n'),
  ('v', '\x0b'), ('f', '\x0c'), ('r', '\r'), ('e', '\x1b'), (' ', ' '), ('"', '"'), ('/', '/'),
  ('\\', '\\'), ('N', '\u0085'), ('_', '\u00a0'), ('L', '\u2028'), ('P', '\u2029')]

/-- What an escape stands for, and how many characters it takes after the backslash. -/
def escape? : List Char → Option (Char × Nat)
  | 'x' :: rest => hexEscape? 2 rest
  | 'u' :: rest => hexEscape? 4 rest
  | 'U' :: rest => hexEscape? 8 rest
  | c :: _ => (escapes.lookup c).map (·, 1)
  | [] => none

def breakLength : List Char → Nat
  | '\r' :: '\n' :: _ => 2
  | _ => 1

/-- A scalar in double quotes, after its opening quote, first dropping `skip` characters. -/
def doubleQuotedFrom (text : List Char) :
    (skip : Nat) → (gap : Option Gap) → List Char → Option (List Char × List Char)
  | _, _, [] => none
  | skip + 1, gap, _ :: rest => doubleQuotedFrom text skip gap rest
  | 0, gap, '\r' :: '\n' :: rest =>
    doubleQuotedFrom text 0 (some ((gap.getD .empty).addBreak ['\n'])) rest
  | 0, gap, c :: rest =>
    let g := gap.getD .empty
    if isBreak c then doubleQuotedFrom text 0 (some (g.addBreak (breakText c))) rest
    else if isBlank c then doubleQuotedFrom text 0 (some (g.addBlank c)) rest
    else if g.endsDocument (c :: rest) then none
    else if c = '"' then some ((joined text gap).reverse, rest)
    else if c = '\\' then
      if atBreak rest then
        doubleQuotedFrom (joined text gap) (breakLength rest) (some Gap.escaped) rest
      else match escape? rest with
        | some (e, n) => doubleQuotedFrom (e :: joined text gap) n none rest
        | none => none
    else doubleQuotedFrom (c :: joined text gap) 0 none rest

def doubleQuoted (s : List Char) : Option (List Char × List Char) := doubleQuotedFrom [] 0 none s

/-! ## Blocks of lines -/

/-- What becomes of the breaks at the end of a block. -/
inductive Chomp where
  | strip
  | clip
  | keep
deriving DecidableEq, Repr

def chomp? : List Char → Option (Chomp × List Char)
  | '+' :: rest => some (.keep, rest)
  | '-' :: rest => some (.strip, rest)
  | _ => none

/-- A digit that says how far the block is indented. Zero is refused. -/
def increment? : List Char → Option (Nat × List Char)
  | c :: rest =>
    if !c.isDigit then some (0, c :: rest)
    else if c = '0' then none else some (c.toNat - '0'.toNat, rest)
  | [] => some (0, [])

/-- Chomping and indentation, in either order, and the lines after them. -/
def blockHeader (s : List Char) : Option ((Chomp × Nat) × List Char) :=
  match chomp? s with
  | some (chomp, s) => do
    let (increment, s) ← increment? s
    pure ((chomp, increment), ← finishLine s)
  | none => do
    let (increment, s) ← increment? s
    match if increment = 0 then none else chomp? s with
    | some (chomp, s) => pure ((chomp, increment), ← finishLine s)
    | none => pure ((Chomp.clip, increment), ← finishLine s)

/-- Empty lines and the indentation of the line after them. -/
structure Margin where
  column : Nat
  /-- the longest run of spaces seen -/
  widest : Nat
  breaks : List Char
  rest : List Char

/-- Passes spaces up to the column `indent`, or all if that is zero, and whole empty lines. A tab in
their place is refused. -/
def marginFrom (indent column widest : Nat) (breaks : List Char) : List Char → Option Margin
  | ' ' :: rest =>
    if indent = 0 ∨ column < indent then marginFrom indent (column + 1) widest breaks rest
    else some ⟨column, max widest column, breaks, ' ' :: rest⟩
  | '\r' :: '\n' :: rest => marginFrom indent 0 (max widest column) (breaks ++ ['\n']) rest
  | c :: rest =>
    if isBreak c then marginFrom indent 0 (max widest column) (breaks ++ breakText c) rest
    else if c = '\t' ∧ (indent = 0 ∨ column < indent) then none
    else some ⟨column, max widest column, breaks, c :: rest⟩
  | [] => some ⟨column, max widest column, breaks, []⟩

structure Block where
  text : List Char
  lastBreak : List Char
  laterBreaks : List Char
  rest : List Char

/-- The lines of a block from a line on that stands at `column`. `wasBlank` says that the line
before began with a blank. Each line takes a character at least. -/
def blockLines (folds : Bool) (indent : Nat) :
    (budget column : Nat) → (wasBlank : Bool) → Block → Option Block
  | 0, _, _, _ => none
  | budget + 1, column, wasBlank, b =>
    match b.rest with
    | [] => some b
    | c :: _ =>
      if column ≠ indent then some b
      else
        let fold := folds && b.lastBreak.head? = some '\n' && !wasBlank && !isBlank c
        let lead := if !fold then b.lastBreak else if b.laterBreaks.isEmpty then [' '] else []
        let line := b.rest.takeWhile (!isBreak ·)
        let (lastBreak, rest) := takeBreak (b.rest.dropWhile (!isBreak ·))
        match marginFrom indent 0 0 [] rest with
        | none => none
        | some m =>
          blockLines folds indent budget m.column (isBlank c)
            ⟨b.text ++ lead ++ b.laterBreaks ++ line, lastBreak, m.breaks, m.rest⟩

def Block.chomped (b : Block) : Chomp → List Char
  | .strip => b.text
  | .clip => b.text ++ b.lastBreak
  | .keep => b.text ++ b.lastBreak ++ b.laterBreaks

/-- A block after its indicator, below a node indented by `outer` (none at the top level is minus
one). -/
def block (folds : Bool) (outer : Int) (s : List Char) : Option (List Char × List Char) := do
  let ((chomp, increment), s) ← blockHeader s
  let given := if increment = 0 then 0 else (max outer 0).toNat + increment
  let m ← marginFrom given 0 0 [] s
  let indent := if given = 0 then max (max m.widest (outer + 1).toNat) 1 else given
  let b ← blockLines folds indent (m.rest.length + 1) m.column false ⟨[], [], m.breaks, m.rest⟩
  pure (b.chomped chomp, b.rest)

end RecordFlow.Yaml
