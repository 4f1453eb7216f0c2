import RecordFlow.Yaml.Tag

/-!
# YAML tokens

A text is cut into tokens from left to right. Indentation shows as tokens that open and close block
collections. That a node is a key shows only at the colon after it, so the place of every node that
may turn out to be a key is kept, one for each bracket that is open; the tokens before the key are
then put in at that place. Such a key stands on one line and is not longer than 1024 characters.
-/
namespace RecordFlow.Yaml

inductive Token where
  | directive (d : Directive)
  | documentStart
  | documentEnd
  | blockSequenceStart
  | blockMappingStart
  | blockEnd
  | flowSequenceStart
  | flowSequenceEnd
  | flowMappingStart
  | flowMappingEnd
  | blockEntry
  | flowEntry
  | key
  | value
  | reference (name : String)
  | anchor (name : String)
  | tag (t : Tag)
  | scalar (text : String) (plain : Bool)
deriving DecidableEq, Repr

/-- A node that may turn out to be a key. It must be one if it stands where only a key may. -/
structure Candidate where
  required : Bool
  /-- the number of tokens before it -/
  place : Nat
  index : Nat
  line : Nat
  column : Nat

/-- A scan at work. -/
structure Scan where
  rest : List Char
  index : Nat
  line : Nat
  column : Nat
  tokens : List Token
  /-- one for each open bracket, innermost first, and one for the text outside -/
  candidates : List (Option Candidate)
  keyAllowed : Bool
  /-- the column of the innermost block collection, minus one outside of all -/
  indent : Int
  outerIndents : List Int

namespace Scan

def start (text : List Char) : Scan := ⟨text, 0, 0, 0, [], [none], true, -1, []⟩

def moveTo (s : Scan) (rest : List Char) : Scan :=
  let consumed := s.rest.take (s.rest.length - rest.length)
  let s := consumed.foldl
    (fun s c =>
      if isBreak c then { s with index := s.index + 1, line := s.line + 1, column := 0 }
      else { s with index := s.index + 1, column := s.column + 1 })
    s
  { s with rest }

def skip (n : Nat) (s : Scan) : Scan := s.moveTo (s.rest.drop n)

def push (t : Token) (s : Scan) : Scan := { s with tokens := t :: s.tokens }

/-- Puts a token in after the first `place` tokens. -/
def insertAt (place : Nat) (t : Token) (s : Scan) : Scan :=
  let later := s.tokens.length - place
  { s with tokens := s.tokens.take later ++ t :: s.tokens.drop later }

def inFlow (s : Scan) : Bool := 1 < s.candidates.length

/-! ## Candidates for keys -/

def candidate? (s : Scan) : Option Candidate := s.candidates.head?.join

def setCandidate (c : Option Candidate) (s : Scan) : Scan :=
  { s with candidates := c :: s.candidates.drop 1 }

/-- Gives up the innermost candidate, unless it has to be a key. -/
def dropCandidate (s : Scan) : Option Scan :=
  match s.candidate? with
  | some c => if c.required then none else some (s.setCandidate none)
  | none => some s

/-- Makes the next node a candidate where keys are allowed. -/
def saveCandidate (s : Scan) : Option Scan :=
  if s.keyAllowed then
    s.dropCandidate.map fun s =>
      s.setCandidate (some ⟨!s.inFlow && s.indent = s.column, s.tokens.length, s.index, s.line,
        s.column⟩)
  else some s

def isStale (s : Scan) (c : Candidate) : Bool := c.line < s.line || c.index + 1024 < s.index

/-- Gives up the candidates that have become too long. -/
def dropStale (s : Scan) : Option Scan := do
  let candidates ← s.candidates.mapM fun c =>
    match c with
    | some c => if !s.isStale c then some (some c) else if c.required then none else some none
    | none => some none
  pure { s with candidates }

/-! ## Indentation -/

/-- Opens a block collection at a column, if that lies further in. Its token comes after the first
`place` tokens. -/
def indentTo (column : Nat) (place : Nat) (t : Token) (s : Scan) : Scan :=
  if s.inFlow ∨ (column : Int) ≤ s.indent then s
  else { s.insertAt place t with indent := column, outerIndents := s.indent :: s.outerIndents }

def dedentFrom (s : Scan) (column indent : Int) : List Int → Scan
  | [] => { s with indent, outerIndents := [] }
  | outer :: rest =>
    if column < indent then dedentFrom (s.push .blockEnd) column outer rest
    else { s with indent, outerIndents := outer :: rest }

/-- Closes the block collections that lie further in than a column. -/
def dedentTo (column : Int) (s : Scan) : Scan :=
  if s.inFlow then s else dedentFrom s column s.indent s.outerIndents

/-! ## Tokens -/

/-- Blanks, comments and breaks before a token. A byte order mark that begins a line is passed over
and takes a column. A tab is no blank where it could pass for indentation. After a break a key may
follow. -/
def skipToToken : (budget : Nat) → Scan → Scan
  | 0, s => s
  | budget + 1, s =>
    let s := if s.column = 0 ∧ s.rest.head? = some byteOrderMark then s.skip 1 else s
    let tabs := s.inFlow || !s.keyAllowed
    let s := s.moveTo (skipComment (s.rest.dropWhile fun c => c = ' ' || (tabs && c = '\t')))
    if atBreak s.rest then
      let s := s.moveTo (takeBreak s.rest).2
      skipToToken budget (if s.inFlow then s else { s with keyAllowed := true })
    else s

/-- Ends everything that a new document ends. -/
def closeAll (s : Scan) : Option Scan := do
  let s ← (s.dedentTo (-1)).dropCandidate
  pure { s with keyAllowed := false }

def openFlow (t : Token) (s : Scan) : Option Scan := do
  let s ← s.saveCandidate
  pure ({ s with candidates := none :: s.candidates, keyAllowed := true }.skip 1 |>.push t)

def closeFlow (t : Token) (s : Scan) : Option Scan := do
  let s ← s.dropCandidate
  let candidates := if s.inFlow then s.candidates.drop 1 else s.candidates
  pure ({ s with candidates, keyAllowed := false }.skip 1 |>.push t)

def flowEntry (s : Scan) : Option Scan := do
  let s ← s.dropCandidate
  pure ({ s with keyAllowed := true }.skip 1 |>.push .flowEntry)

/-- Opens a block collection at this column, where one is allowed to start. -/
def startBlock (t : Token) (s : Scan) : Option Scan :=
  if s.inFlow then some s
  else if s.keyAllowed then some (s.indentTo s.column s.tokens.length t)
  else none

def blockEntry (s : Scan) : Option Scan := do
  let s ← s.startBlock .blockSequenceStart
  let s ← s.dropCandidate
  pure ({ s with keyAllowed := true }.skip 1 |>.push .blockEntry)

def keyMark (s : Scan) : Option Scan := do
  let s ← s.startBlock .blockMappingStart
  let s ← s.dropCandidate
  pure ({ s with keyAllowed := !s.inFlow }.skip 1 |>.push .key)

def valueMark (s : Scan) : Option Scan :=
  match s.candidate? with
  | some c =>
    let s := (s.insertAt c.place .key).indentTo c.column c.place .blockMappingStart
    some ({ s.setCandidate none with keyAllowed := false }.skip 1 |>.push .value)
  | none => do
    let s ← s.startBlock .blockMappingStart
    pure ({ s with keyAllowed := !s.inFlow }.skip 1 |>.push .value)

/-- A token that may begin a key, with what follows it. -/
def node (read : Scan → Option (Token × List Char)) (s : Scan) : Option Scan := do
  let s ← s.saveCandidate
  let (t, rest) ← read s
  pure ({ s with keyAllowed := false }.moveTo rest |>.push t)

def readQuoted (body : List Char → Option (List Char × List Char)) (s : Scan) :
    Option (Token × List Char) :=
  (body (s.rest.drop 1)).map fun (text, rest) => (.scalar (String.ofList text) false, rest)

def blockScalar (folds : Bool) (s : Scan) : Option Scan := do
  let s ← s.dropCandidate
  let (text, rest) ← block folds s.indent (s.rest.drop 1)
  pure ({ s with keyAllowed := true }.moveTo rest |>.push (.scalar (String.ofList text) false))

def plainScalar (s : Scan) : Option Scan := do
  let s ← s.saveCandidate
  let p ← plain s.inFlow (s.indent + 1).toNat s.rest
  pure ({ s with keyAllowed := p.endedLine }.moveTo p.rest
    |>.push (.scalar (String.ofList p.text) true))

/-- Characters that no plain scalar begins with. -/
def indicators : List Char :=
  ['-', '?', ':', ',', '[', ']', '\x7b', '\x7d', '#', '&', '*', '!', '|', '>', '\'', '"', '%', '@',
    '\x60']

/-- A dash may begin a plain scalar, and outside brackets a question mark or a colon may, if no gap
follows. -/
def startsPlain (flow : Bool) (c : Char) (rest : List Char) : Bool :=
  (!isBlank c && !indicators.contains c) || (c = '-' && !(rest.head?.map isBlank).getD false) ||
    (!flow && (c = '?' || c = ':') && !atGap rest)

def tokenAt (s : Scan) (c : Char) (rest : List Char) : Option Scan :=
  let flow := s.inFlow
  if s.column = 0 ∧ c = '%' then do
    let s ← s.closeAll
    let (d, rest) ← directive? rest
    pure (s.moveTo rest |>.push (.directive d))
  else if s.column = 0 ∧ atMark '-' (c :: rest) then
    s.closeAll.map fun s => s.skip 3 |>.push .documentStart
  else if s.column = 0 ∧ atMark '.' (c :: rest) then
    s.closeAll.map fun s => s.skip 3 |>.push .documentEnd
  else if c = '[' then s.openFlow .flowSequenceStart
  else if c = '\x7b' then s.openFlow .flowMappingStart
  else if c = ']' then s.closeFlow .flowSequenceEnd
  else if c = '\x7d' then s.closeFlow .flowMappingEnd
  else if c = ',' then s.flowEntry
  else if c = '-' ∧ atGap rest then s.blockEntry
  else if c = '?' ∧ (flow ∨ atGap rest) then s.keyMark
  else if c = ':' ∧ (flow ∨ atGap rest) then s.valueMark
  else if c = '*' then
    s.node fun s => (anchorName? (s.rest.drop 1)).map fun (name, rest) => (.reference name, rest)
  else if c = '&' then
    s.node fun s => (anchorName? (s.rest.drop 1)).map fun (name, rest) => (.anchor name, rest)
  else if c = '!' then
    s.node fun s => (tag? flow s.rest).map fun (t, rest) => (.tag t, rest)
  else if c = '|' ∧ !flow then s.blockScalar false
  else if c = '>' ∧ !flow then s.blockScalar true
  else if c = '\'' then s.node (readQuoted singleQuoted)
  else if c = '"' then s.node (readQuoted doubleQuoted)
  else if startsPlain flow c rest then s.plainScalar
  else none

/-- The tokens to the end of the text. Every token takes a character at least. -/
def run : (budget : Nat) → Scan → Option (List Token)
  | 0, _ => none
  | budget + 1, s => do
    let s ← (s.skipToToken (s.rest.length + 1)).dropStale
    let s := s.dedentTo s.column
    match s.rest with
    | [] => do
      let s ← s.closeAll
      pure s.tokens.reverse
    | c :: rest => do
      let s ← s.tokenAt c rest
      run budget s

end Scan

def Token.scan? (text : List Char) : Option (List Token) :=
  if text.all isAllowed then (Scan.start text).run (text.length + 1) else none

end RecordFlow.Yaml
