import RecordFlow.Named
import RecordFlow.Record

/-!
# Named functions

A registry holds the functions that transforms may call by name. A name registered again takes the
later function.
-/
namespace RecordFlow

/-- A computation on records under a name. Its errors reach the caller unchanged. -/
structure Function where
  name : String
  run : Record → Except Error Value

structure Registry where
  functions : List (String × (Record → Except Error Value))

namespace Registry

def empty : Registry := ⟨[]⟩

def register (r : Registry) (name : String) (run : Record → Except Error Value) : Registry :=
  ⟨Named.put name run r.functions⟩

def find? (r : Registry) (name : String) : Option Function :=
  (r.functions.find? (·.1 == name)).map fun e => ⟨name, e.2⟩

def get (r : Registry) (name : String) : Except Error Function :=
  match r.find? name with
  | some f => .ok f
  | none => .error (.expression ("unknown custom function: " ++ name))

def contains (r : Registry) (name : String) : Bool := (r.find? name).isSome

def size (r : Registry) : Nat := r.functions.length

def names (r : Registry) : List String :=
  (r.functions.map Prod.fst).mergeSort fun a b => !decide (b < a)

/-! ## What is registered -/

theorem lookup_register (r : Registry) (name : String) (run : Record → Except Error Value)
    (asked : String) : (r.register name run).functions.lookup asked =
      if asked = name then some run else r.functions.lookup asked :=
  Named.lookup_put name run r.functions asked

theorem find?_eq_lookup (r : Registry) (name : String) :
    r.find? name = (r.functions.lookup name).map (Function.mk name) := by
  rw [find?]
  induction r.functions with
  | nil => rfl
  | cons e rest ih =>
    rw [List.find?_cons, Named.lookup_cons]
    by_cases first : e.1 = name
    · rw [beq_iff_eq.mpr first, if_pos first.symm]
      rfl
    · rw [beq_eq_false_iff_ne.mpr first, if_neg (Ne.symm first)]
      exact ih

theorem find?_eq_some_iff {r : Registry} {name : String} {f : Function} :
    r.find? name = some f ↔ f.name = name ∧ r.functions.lookup name = some f.run := by
  obtain ⟨own, run⟩ := f
  rw [find?_eq_lookup, Option.map_eq_some_iff]
  constructor
  · rintro ⟨_, found, same⟩
    cases same
    exact ⟨rfl, found⟩
  · rintro ⟨rfl, found⟩
    exact ⟨run, found, rfl⟩

@[simp] theorem find?_empty (name : String) : empty.find? name = none := rfl

/-- The function registered last under a name is found, and the other names keep theirs. -/
@[simp] theorem find?_register (r : Registry) (name : String)
    (run : Record → Except Error Value) (asked : String) :
    (r.register name run).find? asked =
      if asked = name then some ⟨name, run⟩ else r.find? asked := by
  rw [find?_eq_lookup, find?_eq_lookup, lookup_register]
  by_cases same : asked = name <;> simp [same]

theorem get_eq_ok_iff {r : Registry} {name : String} {f : Function} :
    r.get name = .ok f ↔ r.find? name = some f := by
  rw [get]
  cases r.find? name <;> simp

end Registry
end RecordFlow
