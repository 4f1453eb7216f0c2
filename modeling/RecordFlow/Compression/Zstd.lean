import RecordFlow.Compression.Gzip

/-!
# Zstandard files

A file is a row of frames, some of which may be there to be skipped. A frame has a header and
blocks, the last of which is marked. A block holds its bytes as they are or one byte that is
repeated. A file that ends inside a frame fails after the content before the end. The content of a
frame is handed out in portions, and a portion in which the data make no sense is lost.
-/
namespace RecordFlow.Zstd

inductive Fault where
  | unknownFrame
  | incomplete
  | corrupt
  | unsupported
  | largeWindow
deriving DecidableEq, Repr

def Fault.message : Fault → String
  | unknownFrame => "Unknown frame descriptor"
  | incomplete => "incomplete frame"
  | corrupt => "Data corruption detected"
  | unsupported => "Unsupported frame parameter"
  | largeWindow => "Frame requires too much memory for decoding"

def magic : Bytes := [0x28, 0xB5, 0x2F, 0xFD]

def skippableMagic : Bytes := [0x2A, 0x4D, 0x18]

def isPrefixOfEither (short long : Bytes) : Bool :=
  short.isPrefixOf long || long.isPrefixOf short

/-- The beginning of a file may be that of a frame to skip. -/
def maySkip : Bytes → Bool
  | [] => true
  | b :: rest => b.toNat / 16 == 5 && isPrefixOfEither rest skippableMagic

def skip (n : Nat) (s : Bytes) : Except Fault Bytes :=
  if s.length < n then .error .incomplete else .ok (s.drop n)

/-- The length of the dictionary name and of the content size, by their codes in the descriptor. -/
def nameLength (code : Nat) : Nat := if code = 3 then 4 else code

def sizeLength (code : Nat) (single : Bool) : Nat :=
  if code = 0 then (if single then 1 else 0) else Nat.pow 2 code

/-- The content size that a header gives; two bytes count from 256 on. -/
def contentSize (code : Nat) (single : Bool) (s : Bytes) : Option Nat :=
  if code = 0 && !single then none
  else
    let n := Gzip.littleEndian (s.take (sizeLength code single))
    some (if code = 1 then n + 256 else n)

/-- A window has one of eight sizes between two powers of two. -/
def windowSize (code : Nat) : Nat :=
  let power := Nat.pow 2 (code / 8 + 10)
  power + power / 8 * (code % 8)

structure Header where
  size : Option Nat
  window : Nat

def header (s : Bytes) : Except Fault (Header × Bytes) := do
  match s with
  | [] => throw .incomplete
  | descriptor :: afterDescriptor =>
    let d := descriptor.toNat
    let single := d.testBit 5
    let rest ← skip (if single then 0 else 1) afterDescriptor
    let rest ← skip (nameLength (d % 4)) rest
    let size := contentSize (d / 64) single rest
    let rest ← skip (sizeLength (d / 64) single) rest
    if d.testBit 3 then throw .unsupported
    let code := Gzip.littleEndian (afterDescriptor.take 1)
    pure (⟨size, if single then size.getD 0 else windowSize code⟩, rest)

/-- The content of a frame is handed out in portions of so many bytes. -/
def portion : Nat := 8192

/-- The portions before the one in which a fault shows. -/
def delivered (content : Bytes) : Bytes :=
  content.take (portion * ((content.length - 1) / portion))

/-- The window is small enough to be kept. A content that fits in a portion needs no window, which
then has only to stay below `2 ^ 32`. -/
def Header.fits (h : Header) : Bool :=
  if h.size.any (· ≤ portion) then h.window < Nat.pow 2 32 else h.window ≤ Nat.pow 2 27 + 1

/-- No block gives more bytes than the window holds. -/
def Header.blockLimit (h : Header) : Nat := min h.window 131072

/-- The content of the blocks, after `reversed`, and what follows them. Each takes three bytes. -/
def blocks (h : Header) :
    (budget : Nat) → (reversed : Bytes) → Bytes → Bytes × Except Fault Bytes
  | 0, reversed, _ => (reversed.reverse, .error .incomplete)
  | budget + 1, reversed, s =>
    match s with
    | a :: b :: c :: rest =>
      let n := Gzip.littleEndian [a, b, c]
      let size := n / 8
      let corrupt : Bytes × Except Fault Bytes := (delivered reversed.reverse, .error .corrupt)
      let goOn (block rest : Bytes) : Bytes × Except Fault Bytes :=
        let reversed' := block.reverse ++ reversed
        if !n.testBit 0 then blocks h budget reversed' rest
        else if h.size.getD reversed'.length = reversed'.length then (reversed'.reverse, .ok rest)
        else corrupt
      match n / 2 % 4, rest with
      | 0, rest =>
        if h.blockLimit < size then corrupt
        else if rest.length < size then (reversed.reverse ++ rest, .error .incomplete)
        else goOn (rest.take size) (rest.drop size)
      | 1, [] => (reversed.reverse, .error .incomplete)
      | 1, b :: rest =>
        if h.blockLimit < size then corrupt else goOn (List.replicate size b) rest
      | _, _ => corrupt
    | _ => (reversed.reverse, .error .incomplete)

def frame (s : Bytes) : Bytes × Except Fault Bytes :=
  match header s with
  | .error f => ([], .error f)
  | .ok (h, rest) =>
    if h.fits then blocks h (rest.length + 1) [] rest else ([], .error .largeWindow)

def skipFrame (s : Bytes) : Except Fault Bytes := do
  let rest ← skip 8 s
  skip (Gzip.littleEndian ((s.drop 4).take 4)) rest

def next (s : Bytes) : Bytes × Except Fault Bytes :=
  if magic.isPrefixOf s then frame (s.drop 4)
  else if s.isPrefixOf magic then ([], .error .incomplete)
  else if maySkip s then ([], skipFrame s)
  else ([], .error .unknownFrame)

/-- The frames of a file. Each takes four bytes at least. -/
def frames : (budget : Nat) → Bytes → Input
  | 0, _ => []
  | budget + 1, s =>
    match next s with
    | (content, .error f) => Input.ofBytes content ++ Input.ofFailure ⟨false, f.message⟩
    | (content, .ok []) => Input.ofBytes content
    | (content, .ok rest) => Input.ofBytes content ++ frames budget rest

def content (s : Bytes) : Input := frames (s.length + 1) s

end RecordFlow.Zstd
