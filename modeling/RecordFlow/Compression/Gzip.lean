import RecordFlow.Compression.Inflate
import RecordFlow.Digest.Crc32
import RecordFlow.Input

/-!
# Gzip files

A file is a row of members, and its content is the content of its members. A member has a header,
deflated data, and the checksum and length of what it inflates to. A fault comes after all content
before it, but a member whose data make no sense gives none of its content.
-/
namespace RecordFlow.Gzip

inductive Fault where
  | header
  | ended
  | incomplete
  | corrupt
  | checksum
deriving DecidableEq, Repr

def Fault.message : Fault → String
  | header => "invalid gzip header"
  | ended => "unexpected end of file"
  | incomplete => "incomplete deflate stream"
  | corrupt => "corrupt deflate stream"
  | checksum => "corrupt gzip stream does not have a matching checksum"

/-- What follows the first `n` bytes, if they are there. -/
def skip (n : Nat) (s : Bytes) : Except Fault Bytes :=
  if s.length < n then .error .ended else .ok (s.drop n)

/-- What follows a text that a zero byte ends. -/
def skipText (s : Bytes) : Except Fault Bytes :=
  match s.dropWhile (· != 0) with
  | [] => .error .ended
  | _ :: rest => .ok rest

def littleEndian (s : Bytes) : Nat := s.foldr (fun b n => b.toNat + 256 * n) 0

/-- What follows the field of a header that stands after its length. -/
def skipExtra (s : Bytes) : Except Fault Bytes := do
  let rest ← skip 2 s
  skip (littleEndian (s.take 2)) rest

def checkHeader (member s : Bytes) : Except Fault Bytes := do
  let rest ← skip 2 s
  let sum := Crc32.checksum (member.take (member.length - s.length))
  if sum.toNat % 65536 = littleEndian (s.take 2) then pure rest else throw .checksum

def skipHeader (member : Bytes) : Except Fault Bytes := do
  let rest ← skip 10 member
  match member with
  | 0x1F :: 0x8B :: 8 :: flags :: _ =>
    let has (bit : Nat) : Bool := flags.toNat.testBit bit
    if 0x20 ≤ flags.toNat then throw .header
    let rest ← if has 2 then skipExtra rest else pure rest
    let rest ← if has 3 then skipText rest else pure rest
    let rest ← if has 4 then skipText rest else pure rest
    if has 1 then checkHeader member rest else pure rest
  | _ => throw .header

def skipTrailer (content s : Bytes) : Except Fault Bytes := do
  let rest ← skip 8 s
  if littleEndian (s.take 4) = (Crc32.checksum content).toNat ∧
      littleEndian ((s.drop 4).take 4) = content.length % UInt32.size then pure rest
  else throw .checksum

def member (s : Bytes) : Bytes × Except Fault Bytes :=
  match skipHeader s with
  | .error f => ([], .error f)
  | .ok deflated =>
    match Inflate.inflate deflated with
    | (_, .error .corrupt) => ([], .error .corrupt)
    | (out, .error .truncated) => (out.toList, .error .incomplete)
    | (out, .ok rest) => (out.toList, skipTrailer out.toList rest)

/-- The members of a file that is not empty. Each takes ten bytes at least. -/
def members : (budget : Nat) → Bytes → Input
  | 0, _ => []
  | budget + 1, s =>
    match member s with
    | (content, .error f) => Input.ofBytes content ++ Input.ofFailure ⟨false, f.message⟩
    | (content, .ok []) => Input.ofBytes content
    | (content, .ok rest) => Input.ofBytes content ++ members budget rest

def content (s : Bytes) : Input := members (s.length + 1) s

end RecordFlow.Gzip
