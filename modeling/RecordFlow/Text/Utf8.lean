/-!
# UTF-8

Bytes are read one scalar at a time. A byte that opens no well-formed sequence is kept as a stray,
so a faulty text still has a reading and the length of its clean start is known. `decode?` accepts
the texts without strays, and `encode` writes them.
-/
namespace RecordFlow

abbrev Bytes := List UInt8

namespace Utf8

inductive Piece where
  | scalar (c : Char)
  | stray (b : UInt8)
deriving DecidableEq, Repr

/-- The six payload bits of a continuation byte. -/
def payload? (b : UInt8) : Option Nat :=
  if 0x80 ≤ b.toNat ∧ b.toNat < 0xC0 then some (b.toNat - 0x80) else none

/-- The scalar `n`, unless a shorter sequence would write it or it is no scalar value. -/
def scalar? (least n : Nat) : Option Char :=
  if least ≤ n ∧ n.isValidChar then some (Char.ofNat n) else none

def one? (a : UInt8) : Option Char :=
  if a.toNat < 0x80 then some (Char.ofNat a.toNat) else none

def two? (a b : UInt8) : Option Char := do
  guard (0xC0 ≤ a.toNat ∧ a.toNat < 0xE0)
  scalar? 0x80 ((a.toNat - 0xC0) * 64 + (← payload? b))

def three? (a b c : UInt8) : Option Char := do
  guard (0xE0 ≤ a.toNat ∧ a.toNat < 0xF0)
  scalar? 0x800 (((a.toNat - 0xE0) * 64 + (← payload? b)) * 64 + (← payload? c))

def four? (a b c d : UInt8) : Option Char := do
  guard (0xF0 ≤ a.toNat ∧ a.toNat < 0xF8)
  scalar? 0x10000
    ((((a.toNat - 0xF0) * 64 + (← payload? b)) * 64 + (← payload? c)) * 64 + (← payload? d))

/-- Reads all bytes; at most one sequence length fits any first byte. -/
def pieces : Bytes → List Piece
  | [] => []
  | a :: s₁ =>
    match one? a with
    | some c => .scalar c :: pieces s₁
    | none =>
      match s₁ with
      | [] => [.stray a]
      | b :: s₂ =>
        match two? a b with
        | some c => .scalar c :: pieces s₂
        | none =>
          match s₂ with
          | [] => .stray a :: pieces [b]
          | d :: s₃ =>
            match three? a b d with
            | some c => .scalar c :: pieces s₃
            | none =>
              match s₃ with
              | [] => .stray a :: pieces [b, d]
              | e :: s₄ =>
                match four? a b d e with
                | some c => .scalar c :: pieces s₄
                | none => .stray a :: pieces (b :: d :: e :: s₄)

def scalars? : List Piece → Option (List Char)
  | [] => some []
  | .scalar c :: rest => (scalars? rest).map (c :: ·)
  | .stray _ :: _ => none

def decode? (s : Bytes) : Option (List Char) := scalars? (pieces s)

def encode (cs : List Char) : Bytes := cs.flatMap String.utf8EncodeChar

/-- The bytes before the first stray. -/
def cleanLength : List Piece → Nat
  | .scalar c :: rest => c.utf8Size + cleanLength rest
  | _ => 0

/-- The bytes begin a well-formed sequence that goes on. Whether one does shows with the last
continuation byte, which takes part in the most sequences. -/
def isCut : Bytes → Bool
  | [a, b] => (three? a b 0xBF).isSome || (four? a b 0xBF 0xBF).isSome
  | [a, b, c] => (four? a b c 0xBF).isSome
  | _ => false

/-- Reads strays as replacement characters, one for each cut sequence; `cut` holds the strays since
the last replacement. -/
def replaceStrays : (cut : Bytes) → List Piece → List Char
  | _, [] => []
  | _, .scalar c :: rest => c :: replaceStrays [] rest
  | cut, .stray b :: rest =>
    if isCut (cut ++ [b]) then replaceStrays (cut ++ [b]) rest
    else '\uFFFD' :: replaceStrays [b] rest

def lossy (s : Bytes) : List Char := replaceStrays [] (pieces s)

def ofString (s : String) : Bytes := encode s.toList

def toString? (s : Bytes) : Option String := (decode? s).map String.ofList

end Utf8
end RecordFlow
