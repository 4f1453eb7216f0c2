import RecordFlow.Text.Utf8
import RecordFlow.Yaml.Text

/-!
# Names, tags and directives of YAML

A tag names a kind by a handle and a suffix. A verbatim tag has no handle, a tag with one mark has
the primary one, and a lone mark is a suffix itself. Characters may be escaped by the bytes of their
UTF-8 form.
-/
namespace RecordFlow.Yaml

/-- A name after its mark. It has at least a letter, and a gap or certain indicators follow it. -/
def anchorName? (s : List Char) : Option (String × List Char) :=
  let name := s.takeWhile isNameChar
  let rest := s.dropWhile isNameChar
  let ends := match rest with
    | c :: _ => atGap rest || ['?', ':', ',', ']', '\x7d', '%', '@', '\x60'].contains c
    | [] => true
  if name.isEmpty || !ends then none else some (String.ofList name, rest)

def uriMarks : List Char :=
  [';', '/', '?', ':', '@', '&', '=', '+', '$', '.', '%', '!', '~', '*', '\'', '(', ')']

/-- Characters of a tag's suffix; some indicators are among them only inside a verbatim tag. -/
def isUriChar (verbatim : Bool) (c : Char) : Bool :=
  isNameChar c || uriMarks.contains c || (verbatim && (c = ',' || c = '[' || c = ']'))

/-- An escaped byte. -/
def escapedByte? : List Char → Option UInt8
  | '%' :: a :: b :: _ => do pure (UInt8.ofNat ((← hexDigit? a) * 16 + (← hexDigit? b)))
  | _ => none

/-- The length of a UTF-8 sequence by its first byte. -/
def sequenceLength? (b : UInt8) : Option Nat :=
  if b < 0x80 then some 1
  else if b < 0xC0 then none
  else if b < 0xE0 then some 2
  else if b < 0xF0 then some 3
  else if b < 0xF8 then some 4
  else none

/-- The bytes of `n` escapes, at least the first of which is there. -/
def escapedBytes? : (n : Nat) → List Char → Option Bytes
  | 0, _ => some []
  | n + 1, s => do pure ((← escapedByte? s) :: (← escapedBytes? n (s.drop 3)))

/-- The bytes of an escaped character. The ones after the first have to continue it. -/
def escapedChar? (s : List Char) : Option Bytes := do
  let n ← sequenceLength? (← escapedByte? s)
  let bytes ← escapedBytes? n s
  if (bytes.drop 1).all fun b => b &&& 0xC0 == 0x80 then some bytes else none

/-- The bytes of a suffix, first dropping `skip` characters, and what follows it. -/
def uriFrom (verbatim : Bool) : (skip : Nat) → List Char → Option (Bytes × List Char)
  | _, [] => some ([], [])
  | skip + 1, _ :: rest => uriFrom verbatim skip rest
  | 0, c :: rest =>
    if !isUriChar verbatim c then some ([], c :: rest)
    else if c = '%' then
      match escapedChar? (c :: rest) with
      | some bytes =>
        (uriFrom verbatim (3 * bytes.length - 1) rest).map fun (tail, rest) =>
          (bytes ++ tail, rest)
      | none => none
    else (uriFrom verbatim 0 rest).map fun (tail, rest) => (Utf8.encode [c] ++ tail, rest)

def uri? (verbatim : Bool) (s : List Char) : Option (Bytes × List Char) := uriFrom verbatim 0 s

structure Tag where
  handle : Bytes
  suffix : Bytes
deriving DecidableEq, Repr

/-- The characters of a handle: a mark, a name, and perhaps a second mark. -/
def handle? : List Char → Option (List Char × List Char)
  | '!' :: rest =>
    let name := rest.takeWhile isNameChar
    match rest.dropWhile isNameChar with
    | '!' :: rest => some ('!' :: (name ++ ['!']), rest)
    | rest => some ('!' :: name, rest)
  | _ => none

/-- What a tag may be followed by. -/
def tagEnds (flow : Bool) (s : List Char) : Bool := atGap s || (flow && s.head? = some ',')

/-- A suffix that is not empty. -/
def suffix? (verbatim : Bool) (s : List Char) : Option (Bytes × List Char) :=
  (uri? verbatim s).filter fun r => !r.1.isEmpty

def tag? (flow : Bool) (s : List Char) : Option (Tag × List Char) := do
  let (tag, rest) ← match s with
    | '!' :: '<' :: rest => do
      let (suffix, rest) ← suffix? true rest
      match rest with
      | '>' :: rest => pure ((⟨[], suffix⟩ : Tag), rest)
      | _ => none
    | s => do
      let (handle, rest) ← handle? s
      if 1 < handle.length ∧ handle.getLast? = some '!' then
        let (suffix, rest) ← suffix? false rest
        pure (⟨Utf8.encode handle, suffix⟩, rest)
      else
        let (tail, rest) ← uri? false rest
        let suffix := Utf8.encode (handle.drop 1) ++ tail
        let mark := Utf8.encode ['!']
        pure (if suffix.isEmpty then ⟨[], mark⟩ else ⟨mark, suffix⟩, rest)
  if tagEnds flow rest then some (tag, rest) else none

/-! ## Directives -/

/-- What a line that opens with a percent sign says. -/
inductive Directive where
  | version (major minor : Nat)
  | tag (handle start : Bytes)
deriving DecidableEq, Repr

def versionNumber? (s : List Char) : Option (Nat × List Char) :=
  let digits := s.takeWhile Char.isDigit
  if digits.isEmpty ∨ 9 < digits.length then none
  else some (digits.foldl (fun n c => n * 10 + (c.toNat - '0'.toNat)) 0, s.dropWhile Char.isDigit)

def versionDirective? (s : List Char) : Option (Directive × List Char) := do
  let (major, s) ← versionNumber? (skipBlanks s)
  match s with
  | '.' :: s => do
    let (minor, s) ← versionNumber? s
    pure (.version major minor, s)
  | _ => none

def tagDirective? (s : List Char) : Option (Directive × List Char) := do
  let (handle, s) ← handle? (skipBlanks s)
  if handle.getLast? ≠ some '!' then none
  else match s with
    | c :: _ =>
      if !isBlank c then none
      else do
        let (start, s) ← suffix? true (skipBlanks s)
        if atGap s then some (.tag (Utf8.encode handle) start, s) else none
    | [] => none

def directive? (s : List Char) : Option (Directive × List Char) := do
  let name := s.takeWhile isNameChar
  let rest := s.dropWhile isNameChar
  let (directive, rest) ←
    if !atGap rest then none
    else if name = "YAML".toList then versionDirective? rest
    else if name = "TAG".toList then tagDirective? rest
    else none
  pure (directive, ← finishLine rest)

end RecordFlow.Yaml
