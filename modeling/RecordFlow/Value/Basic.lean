import RecordFlow.Number.Basic

/-!
# Values

A value is a scalar, a sequence, or a mapping whose entries keep the order in which their keys
first came. `Fields.insert` replaces in place or adds at the end, so it never repeats a key.
-/
namespace RecordFlow

inductive Value where
  | null
  | bool (b : Bool)
  | number (n : Number)
  | string (s : String)
  | array (items : List Value)
  | object (fields : List (String × Value))
deriving Inhabited

abbrev Fields := List (String × Value)

namespace Fields

def get? (key : String) : Fields → Option Value
  | [] => none
  | (k, v) :: rest => if k = key then some v else get? key rest

def insert (key : String) (value : Value) : Fields → Fields
  | [] => [(key, value)]
  | (k, v) :: rest => if k = key then (k, value) :: rest else (k, v) :: insert key value rest

def keys (fields : Fields) : List String := fields.map Prod.fst

def contains (fields : Fields) (key : String) : Bool := (fields.get? key).isSome

/-- Entries added one after another: a later value takes the place of an earlier one. -/
def ofEntries (entries : List (String × Value)) : Fields :=
  entries.foldl (fun fields e => fields.insert e.1 e.2) []

theorem get?_insert_self (key : String) (value : Value) (fields : Fields) :
    (fields.insert key value).get? key = some value := by
  induction fields with
  | nil => simp [insert, get?]
  | cons e rest ih => by_cases h : e.1 = key <;> simp [insert, get?, h, ih]

theorem get?_insert_of_ne {key other : String} (value : Value) (fields : Fields)
    (h : key ≠ other) : (fields.insert key value).get? other = fields.get? other := by
  induction fields with
  | nil => simp [insert, get?, h]
  | cons e rest ih =>
    by_cases hk : e.1 = key
    · subst hk; simp [insert, get?, h]
    · simp only [insert, if_neg hk, get?, ih]

/-- Inserting keeps the keys in order, with at most one more at the end. -/
theorem keys_insert (key : String) (value : Value) (fields : Fields) :
    (fields.insert key value).keys =
      if key ∈ fields.keys then fields.keys else fields.keys ++ [key] := by
  induction fields with
  | nil => simp [insert, keys]
  | cons e rest ih =>
    by_cases hk : e.1 = key
    · subst hk; simp [insert, keys]
    · have hk' : ¬ key = e.1 := fun h => hk h.symm
      simp only [insert, if_neg hk]
      simp only [keys, List.map_cons, List.mem_cons, hk', false_or] at ih ⊢
      rw [ih]
      split <;> simp [*]

end Fields

namespace Value

def emptyObject : Value := .object []

def fields? : Value → Option Fields
  | .object fields => some fields
  | _ => none

def string? : Value → Option String
  | .string s => some s
  | _ => none

def word? : Value → Option UInt64
  | .number n => n.toWord?
  | _ => none

def isObject (v : Value) : Bool := v.fields?.isSome

def field? (v : Value) (key : String) : Option Value := v.fields?.bind (·.get? key)

def isNull : Value → Bool
  | .null => true
  | _ => false

mutual

/-- No mapping at any depth repeats a key. -/
def DistinctKeys : Value → Prop
  | .array items => DistinctKeysAll items
  | .object fields => (Fields.keys fields).Nodup ∧ DistinctKeysIn fields
  | _ => True

def DistinctKeysAll : List Value → Prop
  | [] => True
  | v :: rest => DistinctKeys v ∧ DistinctKeysAll rest

def DistinctKeysIn : List (String × Value) → Prop
  | [] => True
  | (_, v) :: rest => DistinctKeys v ∧ DistinctKeysIn rest

end

end Value
end RecordFlow
