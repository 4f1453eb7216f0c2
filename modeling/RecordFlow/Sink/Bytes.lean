import RecordFlow.Text.Utf8

/-!
# Byte sinks

A byte sink keeps what it takes. It may have room for a limited number of bytes only; of a write
that exceeds the room it takes the beginning.
-/
namespace RecordFlow

structure ByteSink where
  taken : Bytes
  /-- how many more bytes fit, if that is limited -/
  room : Option Nat
deriving DecidableEq, Repr

namespace ByteSink

def start (room : Option Nat) : ByteSink := ⟨[], room⟩

/-- What a sink without room says. -/
def refusal : String := "sink is full"

def put (bytes : Bytes) (s : ByteSink) : Except String Unit × ByteSink :=
  match s.room with
  | none => (.ok (), { s with taken := s.taken ++ bytes })
  | some n =>
    if bytes.length ≤ n then
      (.ok (), ⟨s.taken ++ bytes, some (n - bytes.length)⟩)
    else (.error refusal, ⟨s.taken ++ bytes.take n, some 0⟩)

end ByteSink
end RecordFlow
