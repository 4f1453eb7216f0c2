import RecordFlow.Value.Basic

/-!
# Equality of values

Three equalities. Equality of trees is decidable; it tells the order of entries apart. `identical`
ignores that order but keeps `1` and `1.0` apart. `equals` compares numbers by value as well.
-/
namespace RecordFlow.Value

mutual

def decEq : (a b : Value) → Decidable (a = b)
  | .null, .null => isTrue rfl
  | .bool a, .bool b => decidable_of_iff (a = b) (by simp)
  | .number a, .number b => decidable_of_iff (a = b) (by simp)
  | .string a, .string b => decidable_of_iff (a = b) (by simp)
  | .array a, .array b =>
    match decEqAll a b with
    | isTrue h => isTrue (by rw [h])
    | isFalse h => isFalse (by simp [h])
  | .object a, .object b =>
    match decEqIn a b with
    | isTrue h => isTrue (by rw [h])
    | isFalse h => isFalse (by simp [h])
  | .null, .bool _ | .null, .number _ | .null, .string _ | .null, .array _ | .null, .object _
  | .bool _, .null | .bool _, .number _ | .bool _, .string _ | .bool _, .array _
  | .bool _, .object _
  | .number _, .null | .number _, .bool _ | .number _, .string _ | .number _, .array _
  | .number _, .object _
  | .string _, .null | .string _, .bool _ | .string _, .number _ | .string _, .array _
  | .string _, .object _
  | .array _, .null | .array _, .bool _ | .array _, .number _ | .array _, .string _
  | .array _, .object _
  | .object _, .null | .object _, .bool _ | .object _, .number _ | .object _, .string _
  | .object _, .array _ => isFalse (by simp)

def decEqAll : (a b : List Value) → Decidable (a = b)
  | [], [] => isTrue rfl
  | v :: a, w :: b =>
    match decEq v w, decEqAll a b with
    | isTrue h, isTrue h' => isTrue (by rw [h, h'])
    | isFalse h, _ => isFalse (by simp [h])
    | _, isFalse h => isFalse (by simp [h])
  | [], _ :: _ | _ :: _, [] => isFalse (by simp)

def decEqIn : (a b : List (String × Value)) → Decidable (a = b)
  | [], [] => isTrue rfl
  | (k, v) :: a, (l, w) :: b =>
    if hk : k = l then
      match decEq v w, decEqIn a b with
      | isTrue h, isTrue h' => isTrue (by rw [hk, h, h'])
      | isFalse h, _ => isFalse (by simp [h])
      | _, isFalse h => isFalse (by simp [h])
    else isFalse (by simp [hk])
  | [], _ :: _ | _ :: _, [] => isFalse (by simp)

end

instance : DecidableEq Value := decEq

mutual

/-- Agreement under a comparison of numbers. Sequences agree item by item, mappings when they are
equally long and every entry of the left one agrees with the right one's value for its key. -/
def agree (numbers : Number → Number → Bool) : Value → Value → Bool
  | .null, .null => true
  | .bool a, .bool b => a == b
  | .number a, .number b => numbers a b
  | .string a, .string b => a == b
  | .array a, .array b => agreeAll numbers a b
  | .object a, .object b => a.length == b.length && agreeIn numbers a b
  | _, _ => false

def agreeAll (numbers : Number → Number → Bool) : List Value → List Value → Bool
  | [], [] => true
  | v :: a, w :: b => agree numbers v w && agreeAll numbers a b
  | _, _ => false

def agreeIn (numbers : Number → Number → Bool) : List (String × Value) → Fields → Bool
  | [], _ => true
  | (k, v) :: rest, b =>
    (match b.get? k with
      | some w => agree numbers v w
      | none => false) && agreeIn numbers rest b

end

/-- Equality that tells `1` from `1.0`. -/
def identical : Value → Value → Bool := agree Number.identical

/-- Equality that compares numbers by value. -/
def equals : Value → Value → Bool := agree fun a b => a.compare b == .eq

end RecordFlow.Value
