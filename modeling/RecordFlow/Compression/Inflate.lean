import RecordFlow.Text.Utf8

/-!
# Inflating

Deflated data is a row of bits, the least bit of each byte first, cut into blocks. A block holds its
bytes as they are, or as symbols of two prefix codes that are given by the lengths of their words:
literals and lengths in one, distances in the other. What was inflated before a fault stays known.
-/
namespace RecordFlow.Inflate

abbrev Bits := List Bool

inductive Fault where
  | truncated
  | corrupt
deriving DecidableEq, Repr

def bitsOfByte (b : UInt8) : Bits := (List.range 8).map b.toNat.testBit

def bitsOf (s : Bytes) : Bits := s.flatMap bitsOfByte

/-- A number of `n` bits, least first. -/
def readNumber : (n : Nat) → Bits → Except Fault (Nat × Bits)
  | 0, bits => .ok (0, bits)
  | _ + 1, [] => .error .truncated
  | n + 1, b :: bits =>
    match readNumber n bits with
    | .ok (high, bits) => .ok (b.toNat + 2 * high, bits)
    | .error f => .error f

/-! ## Prefix codes -/

def longest : Nat := 15

/-- A canonical code: how many words have the lengths one, two and so on, and the symbols by the
length and order of their words. -/
structure Code where
  counts : List Nat
  symbols : Array Nat

namespace Code

def symbolsOf (lengths : List Nat) (length : Nat) : List Nat :=
  (lengths.zipIdx.filter fun p => p.1 == length).map Prod.snd

def ofLengths (lengths : List Nat) : Code :=
  let groups := (List.range longest).map fun i => symbolsOf lengths (i + 1)
  ⟨groups.map List.length, groups.flatten.toArray⟩

/-- The share of all words of the greatest length that begin with a word of the code, in units of
one such word. -/
def share (counts : List Nat) : Nat := counts.foldl (fun total n => 2 * (total + n)) 0

/-- A code with two words or more leaves no word over. -/
def isComplete (c : Code) : Bool := c.symbols.size ≤ 1 || share c.counts == Nat.pow 2 (longest + 1)

/-- Reads a symbol. `code` is the word read so far, `first` the first word of its length, and
`index` the number of symbols with shorter words. -/
def readFrom (symbols : Array Nat) (code first index : Nat) :
    (counts : List Nat) → Bits → Except Fault (Nat × Bits)
  | [], _ => .error .corrupt
  | _ :: _, [] => .error .truncated
  | n :: counts, b :: bits =>
    let code := code + b.toNat
    if code < first + n then
      match symbols[index + (code - first)]? with
      | some symbol => .ok (symbol, bits)
      | none => .error .corrupt
    else readFrom symbols (2 * code) (2 * (first + n)) (index + n) counts bits

def read (c : Code) (bits : Bits) : Except Fault (Nat × Bits) :=
  readFrom c.symbols 0 0 0 c.counts bits

end Code

/-! ## Lengths and distances -/

/-- A number that a symbol stands for, up to the extra bits that follow it. -/
structure Span where
  base : Nat
  extra : Nat

def Span.read (s : Span) (bits : Bits) : Except Fault (Nat × Bits) :=
  (readNumber s.extra bits).map fun (n, bits) => (s.base + n, bits)

/-- Spans one after another from `base` on, with the given numbers of extra bits. -/
def spans (base : Nat) : List Nat → List Span
  | [] => []
  | extra :: rest => ⟨base, extra⟩ :: spans (base + Nat.pow 2 extra) rest

/-- The lengths from three on; the last stands for the greatest length alone. -/
def lengthSpans : List Span :=
  (spans 3 [0, 0, 0, 0, 0, 0, 0, 0, 1, 1, 1, 1, 2, 2, 2, 2, 3, 3, 3, 3, 4, 4, 4, 4, 5, 5, 5, 5]) ++
    [⟨258, 0⟩]

def distanceSpans : List Span :=
  spans 1 [0, 0, 0, 0, 1, 1, 2, 2, 3, 3, 4, 4, 5, 5, 6, 6, 7, 7, 8, 8, 9, 9, 10, 10, 11, 11, 12, 12,
    13, 13]

def readSpan (spans : List Span) (symbol : Nat) (bits : Bits) : Except Fault (Nat × Bits) :=
  match spans[symbol]? with
  | some s => s.read bits
  | none => .error .corrupt

/-- Repeats bytes from `distance` back, one at a time. Before the first byte there are zeros. -/
def copyBack (distance : Nat) : (length : Nat) → Array UInt8 → Array UInt8
  | 0, out => out
  | length + 1, out =>
    let b := if distance ≤ out.size then (out[out.size - distance]?).getD 0 else 0
    copyBack distance length (out.push b)

/-! ## Blocks -/

structure Result where
  out : Array UInt8
  ending : Except Fault Bits

/-- A length after its symbol, and the distance that follows. -/
def readCopy (distances : Code) (symbol : Nat) (bits : Bits) :
    Except Fault ((Nat × Nat) × Bits) := do
  let (length, bits) ← readSpan lengthSpans (symbol - 257) bits
  let (symbol, bits) ← distances.read bits
  let (distance, bits) ← readSpan distanceSpans symbol bits
  pure ((length, distance), bits)

/-- The symbols up to the end of the block. Each takes a bit at least, so `budget` bits suffice. -/
def symbolsBlock (literals distances : Code) :
    (budget : Nat) → Array UInt8 → Bits → Result
  | 0, out, _ => ⟨out, .error .truncated⟩
  | budget + 1, out, bits =>
    match literals.read bits with
    | .error f => ⟨out, .error f⟩
    | .ok (symbol, bits) =>
      if symbol < 256 then symbolsBlock literals distances budget (out.push (.ofNat symbol)) bits
      else if symbol = 256 then ⟨out, .ok bits⟩
      else match readCopy distances symbol bits with
        | .error f => ⟨out, .error f⟩
        | .ok ((length, distance), bits) =>
          symbolsBlock literals distances budget (copyBack distance length out) bits

def storedBytes : (length : Nat) → Array UInt8 → Bits → Result
  | 0, out, bits => ⟨out, .ok bits⟩
  | length + 1, out, bits =>
    match readNumber 8 bits with
    | .error f => ⟨out, .error f⟩
    | .ok (n, bits) => storedBytes length (out.push (.ofNat n)) bits

/-- The length of such a block, which stands there twice, the second time inverted. -/
def storedLength (bits : Bits) : Except Fault (Nat × Bits) := do
  let (length, bits) ← readNumber 16 (bits.drop (bits.length % 8))
  let (inverted, bits) ← readNumber 16 bits
  if length + inverted = 0xFFFF then pure (length, bits) else throw .corrupt

def fixedLiterals : Code :=
  .ofLengths (List.replicate 144 8 ++ List.replicate 112 9 ++ List.replicate 24 7 ++
    List.replicate 8 8)

def fixedDistances : Code := .ofLengths (List.replicate 32 5)

/-- The order in which the word lengths of the code for word lengths are given. -/
def lengthOrder : List Nat := [16, 17, 18, 0, 8, 7, 9, 6, 10, 5, 11, 4, 12, 3, 13, 2, 14, 1, 15]

def readNumbers (size : Nat) : (count : Nat) → Bits → Except Fault (List Nat × Bits)
  | 0, bits => .ok ([], bits)
  | count + 1, bits => do
    let (n, bits) ← readNumber size bits
    let (ns, bits) ← readNumbers size count bits
    pure (n :: ns, bits)

/-- Word lengths after those in `reversed`, until there are `total`. Three symbols repeat: the last
length, or no word, over a shorter or a longer stretch. -/
def readLengths (code : Code) (total : Nat) :
    (budget : Nat) → (reversed : List Nat) → Bits → Except Fault (List Nat × Bits)
  | 0, _, _ => .error .truncated
  | budget + 1, reversed, bits =>
    if total ≤ reversed.length then
      if reversed.length = total then .ok (reversed.reverse, bits) else .error .corrupt
    else do
      let (symbol, bits) ← code.read bits
      let again (value : Nat) (s : Span) : Except Fault (List Nat × Bits) := do
        let (count, bits) ← s.read bits
        readLengths code total budget (List.replicate count value ++ reversed) bits
      if symbol < 16 then readLengths code total budget (symbol :: reversed) bits
      else if symbol = 16 then
        match reversed with
        | [] => throw .corrupt
        | last :: _ => again last ⟨3, 2⟩
      else if symbol = 17 then again 0 ⟨3, 3⟩
      else again 0 ⟨11, 7⟩

def readCodes (bits : Bits) : Except Fault ((Code × Code) × Bits) := do
  let (literals, bits) ← readNumber 5 bits
  let (distances, bits) ← readNumber 5 bits
  let (lengths, bits) ← readNumber 4 bits
  let (given, bits) ← readNumbers 3 (lengths + 4) bits
  let lengthCode := Code.ofLengths
    ((List.range 19).map fun symbol => ((lengthOrder.zip given).lookup symbol).getD 0)
  if !lengthCode.isComplete then throw .corrupt
  let total := literals + 257 + (distances + 1)
  let (all, bits) ← readLengths lengthCode total (total + 1) [] bits
  let literalCode := Code.ofLengths (all.take (literals + 257))
  let distanceCode := Code.ofLengths (all.drop (literals + 257))
  if literalCode.isComplete && distanceCode.isComplete then
    pure ((literalCode, distanceCode), bits)
  else throw .corrupt

def block (out : Array UInt8) (bits : Bits) : Result :=
  match readNumber 2 bits with
  | .error f => ⟨out, .error f⟩
  | .ok (kind, bits) =>
    if kind = 0 then
      match storedLength bits with
      | .error f => ⟨out, .error f⟩
      | .ok (length, bits) => storedBytes length out bits
    else if kind = 1 then symbolsBlock fixedLiterals fixedDistances (bits.length + 1) out bits
    else if kind = 2 then
      match readCodes bits with
      | .error f => ⟨out, .error f⟩
      | .ok ((literals, distances), bits) =>
        symbolsBlock literals distances (bits.length + 1) out bits
    else ⟨out, .error .corrupt⟩

/-- The blocks up to the last, which its first bit marks. Each takes three bits at least. -/
def blocks : (budget : Nat) → Array UInt8 → Bits → Result
  | 0, out, _ => ⟨out, .error .truncated⟩
  | _ + 1, out, [] => ⟨out, .error .truncated⟩
  | budget + 1, out, last :: bits =>
    match block out bits with
    | ⟨out, .error f⟩ => ⟨out, .error f⟩
    | ⟨out, .ok bits⟩ => if last then ⟨out, .ok bits⟩ else blocks budget out bits

def inflate (s : Bytes) : Array UInt8 × Except Fault Bytes :=
  let bits := bitsOf s
  let result := blocks (bits.length + 1) #[] bits
  (result.out, result.ending.map fun bits => s.drop (s.length - bits.length / 8))

end RecordFlow.Inflate
