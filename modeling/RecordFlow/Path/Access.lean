import RecordFlow.Path.Basic

/-!
# Reading and writing at a path

Reading never fails: what is missing or of the wrong kind is absent. Writing replaces what stands
at the path. A key creates the mapping that holds it, also over a value of another kind; a position
must already exist. `Value.write` returns the value together with the fault, because what was done
before the fault stays done.
-/
namespace RecordFlow

inductive WriteFault where
  | outOfRange (index : UInt64) (length : Nat)
  | notSequence (index : UInt64)
deriving DecidableEq, Repr

namespace Value

def step? : Value → Segment → Option Value
  | .object fields, .field key => Fields.get? key fields
  | .array items, .index i => items[i.toNat]?
  | _, _ => none

def resolve (v : Value) : List Segment → Option Value
  | [] => some v
  | s :: rest => (v.step? s).bind (·.resolve rest)

/-- The entries of a mapping; any other value counts as an empty one. -/
def fieldsOrEmpty : Value → Fields
  | .object fields => fields
  | _ => []

/-- Puts `new` at the end of the segments. -/
def write (new : Value) : List Segment → Value → Value × Option WriteFault
  | [], _ => (new, none)
  | .field key :: rest, v =>
    let fields := v.fieldsOrEmpty
    let (inner, fault) := write new rest ((fields.get? key).getD emptyObject)
    (.object (fields.insert key inner), fault)
  | .index i :: rest, v =>
    match v with
    | .array items =>
      match items[i.toNat]? with
      | some item =>
        let (inner, fault) := write new rest item
        (.array (items.set i.toNat inner), fault)
      | none => (v, some (.outOfRange i items.length))
    | _ => (v, some (.notSequence i))

end Value

def WriteFault.error (path : Path) : WriteFault → Error
  | outOfRange i length =>
    .path ("index " ++ toString i.toNat ++ " out of range (len " ++ toString length ++
      ") while writing '" ++ path.text ++ "'")
  | notSequence i =>
    .path ("index " ++ toString i.toNat ++ " applied to a non-sequence while writing '" ++
      path.text ++ "'")

namespace Path

def resolve (p : Path) (v : Value) : Option Value := v.resolve p.segments

/-- Writes in place: also after an error the first part is what is left. -/
def writeInto (p : Path) (v new : Value) : Value × Except Error Unit :=
  if p.isRoot then (v, .error (.path "cannot write to the root path"))
  else match Value.write new p.segments v with
    | (written, none) => (written, .ok ())
    | (left, some fault) => (left, .error (fault.error p))

def write (p : Path) (v new : Value) : Except Error Value :=
  match p.writeInto v new with
  | (written, .ok ()) => .ok written
  | (_, .error e) => .error e

end Path
end RecordFlow
