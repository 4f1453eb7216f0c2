import RecordFlow.Text.Utf8

/-!
# Inputs

An input is what reading a source of bytes gives: bytes in order, and failures where reading failed.
A failure does not end an input; whether a reader goes on after it is the reader's affair.
-/
namespace RecordFlow

/-- Why reading failed. `undecodable` says that the bytes were there but made no sense. -/
structure ReadFailure where
  undecodable : Bool
  message : String
deriving DecidableEq, Repr

abbrev Input := List (Except ReadFailure UInt8)

namespace Input

def ofBytes (bytes : Bytes) : Input := bytes.map .ok

def ofFailure (failure : ReadFailure) : Input := [.error failure]

def readable : Input → Bytes
  | .ok b :: rest => b :: readable rest
  | _ => []

def failure? : Input → Option ReadFailure
  | [] => none
  | .ok _ :: rest => failure? rest
  | .error f :: _ => some f

@[simp] theorem readable_ofBytes (bytes : Bytes) : (ofBytes bytes).readable = bytes := by
  induction bytes with
  | nil => rfl
  | cons b bytes ih => exact congrArg (b :: ·) ih

@[simp] theorem failure?_ofBytes (bytes : Bytes) : (ofBytes bytes).failure? = none := by
  induction bytes with
  | nil => rfl
  | cons b bytes ih => exact ih

end Input

/-- Bytes that are no UTF-8 text. -/
def ReadFailure.notText : ReadFailure := ⟨true, "stream did not contain valid UTF-8"⟩

end RecordFlow
