import RecordFlow.Path.Access

/-!
# Reading after writing

A write opens one segment after another and puts the inner value back on the way up. A path that is
read afterwards lies below the written one, above it, apart from it, or in its way: there one of the
two names a key where the other names a position.
-/
namespace RecordFlow

namespace Fields

theorem insert_get? {key : String} {value : Value} {fields : Fields}
    (h : fields.get? key = some value) : fields.insert key value = fields := by
  induction fields with
  | nil => cases h
  | cons e rest ih =>
    by_cases same : e.1 = key
    · subst same
      simp only [get?, if_true, Option.some.injEq] at h
      simp only [insert, if_true, ← h]
    · simp only [get?, if_neg same] at h
      simp only [insert, if_neg same, ih h]

theorem insert_insert (key : String) (new old : Value) (fields : Fields) :
    (fields.insert key old).insert key new = fields.insert key new := by
  induction fields with
  | nil => simp [insert]
  | cons e rest ih => by_cases same : e.1 = key <;> simp [insert, same, ih]

end Fields

def Segment.isField : Segment → Bool
  | field _ => true
  | index _ => false

namespace Segments

/-- The first difference is between two keys or between two positions. -/
inductive Apart : List Segment → List Segment → Prop
  | here {s t : Segment} (p q : List Segment) : s ≠ t → s.isField = t.isField →
      Apart (s :: p) (t :: q)
  | there (s : Segment) {p q : List Segment} : Apart p q → Apart (s :: p) (s :: q)

/-- The first difference is between a key and a position. -/
inductive Clash : List Segment → List Segment → Prop
  | here {s t : Segment} (p q : List Segment) : s.isField ≠ t.isField → Clash (s :: p) (t :: q)
  | there (s : Segment) {p q : List Segment} : Clash p q → Clash (s :: p) (s :: q)

theorem Apart.symm {p q : List Segment} (h : Apart p q) : Apart q p := by
  induction h with
  | here p q differ kinds => exact .here q p differ.symm kinds.symm
  | there s _ ih => exact .there s ih

theorem Apart.ne_nil {p q : List Segment} (h : Apart p q) : q ≠ [] := by
  cases h <;> exact List.cons_ne_nil _ _

theorem Apart.not_below {p q : List Segment} (h : Apart p q) : ¬ p <+: q := by
  induction h with
  | here p q differ kinds => exact fun below => differ (List.cons_prefix_cons.mp below).1
  | there s _ ih => exact fun below => ih (List.cons_prefix_cons.mp below).2

theorem Apart.append {p q : List Segment} (h : Apart p q) (r : List Segment) :
    Apart p (q ++ r) := by
  induction h with
  | here p q differ kinds => exact .here p (q ++ r) differ kinds
  | there s _ ih => exact .there s ih

theorem Apart.not_clash {p q : List Segment} (h : Apart p q) : ¬ Clash p q := by
  induction h with
  | here p q differ kinds =>
    intro clash
    cases clash with
    | here _ _ other => exact other kinds
    | there _ _ => exact differ rfl
  | there s _ ih =>
    intro clash
    cases clash with
    | here _ _ other => exact other rfl
    | there _ inner => exact ih inner

/-- Any two paths lie in one of four ways. -/
theorem prefix_or_apart_or_clash (p q : List Segment) :
    p <+: q ∨ q <+: p ∨ Apart p q ∨ Clash p q := by
  induction p generalizing q with
  | nil => exact .inl List.nil_prefix
  | cons s p ih =>
    cases q with
    | nil => exact .inr (.inl List.nil_prefix)
    | cons t q =>
      by_cases same : s = t
      · subst same
        rcases ih q with below | above | apart | clash
        · exact .inl (List.cons_prefix_cons.mpr ⟨rfl, below⟩)
        · exact .inr (.inl (List.cons_prefix_cons.mpr ⟨rfl, above⟩))
        · exact .inr (.inr (.inl (.there s apart)))
        · exact .inr (.inr (.inr (.there s clash)))
      · by_cases kinds : s.isField = t.isField
        · exact .inr (.inr (.inl (.here p q same kinds)))
        · exact .inr (.inr (.inr (.here p q kinds)))

end Segments

namespace Value

/-! ## One segment -/

/-- What a write finds at a segment: a missing key counts as an empty mapping. -/
def inside : Segment → Value → Option Value
  | .field key, v => some ((v.fieldsOrEmpty.get? key).getD emptyObject)
  | .index i, v => v.step? (.index i)

def placed : Segment → Value → Value → Value
  | .field key, inner, v => .object (v.fieldsOrEmpty.insert key inner)
  | .index i, inner, .array items => .array (items.set i.toNat inner)
  | .index _, _, v => v

variable {s t : Segment} {v w x y z : Value}

theorem inside_index {i : UInt64} (h : inside (.index i) v = some x) :
    ∃ items, v = .array items ∧ items[i.toNat]? = some x := by
  cases v with
  | array items => exact ⟨items, rfl, h⟩
  | _ => cases h

theorem inside_of_step? (h : v.step? s = some x) : inside s v = some x := by
  cases s with
  | index i => exact h
  | field key =>
    cases v with
    | object fields =>
      have found : Fields.get? key fields = some x := h
      rw [inside, fieldsOrEmpty, found, Option.getD_some]
    | _ => cases h

theorem step?_placed (h : inside s v = some x) : (placed s y v).step? s = some y := by
  cases s with
  | field key => exact Fields.get?_insert_self key y _
  | index i =>
    obtain ⟨items, rfl, found⟩ := inside_index h
    exact List.getElem?_set_self (List.getElem?_eq_some_iff.mp found).1

theorem step?_placed_of_ne (h : inside s v = some x) (differ : s ≠ t)
    (kinds : s.isField = t.isField) : (placed s y v).step? t = v.step? t := by
  cases s with
  | field key =>
    cases t with
    | index j => cases kinds
    | field other =>
      have apart : key ≠ other := fun same => differ (same ▸ rfl)
      have kept := Fields.get?_insert_of_ne y v.fieldsOrEmpty apart
      cases v <;> exact kept
  | index i =>
    cases t with
    | field key => cases kinds
    | index j =>
      obtain ⟨items, rfl, _⟩ := inside_index h
      have apart : i.toNat ≠ j.toNat := fun same => differ (by rw [UInt64.toNat_inj.mp same])
      exact List.getElem?_set_ne apart

theorem step?_placed_of_kind (h : inside s v = some x) (kinds : s.isField ≠ t.isField) :
    (placed s y v).step? t = none := by
  cases s with
  | field key =>
    cases t with
    | field other => exact absurd rfl kinds
    | index j => rfl
  | index i =>
    cases t with
    | index j => exact absurd rfl kinds
    | field key =>
      obtain ⟨items, rfl, _⟩ := inside_index h
      rfl

theorem placed_placed (h : inside s v = some x) :
    placed s y (placed s z v) = placed s y v := by
  cases s with
  | field key => exact congrArg Value.object (Fields.insert_insert key y z _)
  | index i =>
    obtain ⟨items, rfl, _⟩ := inside_index h
    exact congrArg Value.array (List.set_set ..)

theorem placed_of_step? (h : v.step? s = some x) : placed s x v = v := by
  cases s with
  | field key =>
    cases v with
    | object fields => exact congrArg Value.object (Fields.insert_get? h)
    | _ => cases h
  | index i =>
    obtain ⟨items, rfl, found⟩ := inside_index h
    obtain ⟨short, rfl⟩ := List.getElem?_eq_some_iff.mp found
    exact congrArg Value.array (List.set_getElem_self short)

theorem inside_eq_getD (h : inside s v = some x) : x = (v.step? s).getD emptyObject := by
  cases s with
  | index i => rw [show v.step? (.index i) = some x from h, Option.getD_some]
  | field key =>
    obtain rfl := Option.some.inj h
    cases v <;> rfl

theorem resolve_emptyObject {q : List Segment} (below : q ≠ []) : emptyObject.resolve q = none := by
  cases q with
  | nil => exact absurd rfl below
  | cons t q => cases t <;> rfl

/-- An empty mapping in place of a missing key makes no difference to what is read. -/
theorem resolve_inside {q : List Segment} (h : inside s v = some x) (below : q ≠ []) :
    x.resolve q = v.resolve (s :: q) := by
  rw [resolve, inside_eq_getD h]
  cases v.step? s with
  | none => exact resolve_emptyObject below
  | some y => rfl

/-- A write goes on inside and puts back what is left there, also after a fault. -/
theorem write_cons (new : Value) (p : List Segment) (h : inside s v = some x) :
    write new (s :: p) v = (placed s (write new p x).1 v, (write new p x).2) := by
  cases s with
  | field key =>
    obtain rfl := Option.some.inj h
    rfl
  | index i =>
    obtain ⟨items, rfl, found⟩ := inside_index h
    simp only [write, found, placed]

theorem write_missing (new : Value) (p : List Segment) (h : inside s v = none) :
    ∃ fault, write new (s :: p) v = (v, some fault) := by
  cases s with
  | field key => cases h
  | index i =>
    cases v with
    | array items =>
      have missing : items[i.toNat]? = none := h
      refine ⟨.outOfRange i items.length, ?_⟩
      simp only [write, missing]
    | _ => exact ⟨.notSequence i, rfl⟩

/-! ## Whole paths -/

theorem resolve_append (v : Value) (p q : List Segment) :
    v.resolve (p ++ q) = (v.resolve p).bind (·.resolve q) := by
  induction p generalizing v with
  | nil => rfl
  | cons s p ih =>
    simp only [List.cons_append, resolve]
    cases v.step? s with
    | none => rfl
    | some x => exact ih x

def put (new : Value) (p : List Segment) (v : Value) : Option Value :=
  match (write new p v).2 with
  | none => some (write new p v).1
  | some _ => none

theorem put_nil (new v : Value) : put new [] v = some new := rfl

theorem put_cons (new : Value) (s : Segment) (p : List Segment) (v : Value) :
    put new (s :: p) v = (inside s v).bind fun x => (put new p x).map (placed s · v) := by
  unfold put
  cases found : inside s v with
  | none =>
    obtain ⟨fault, failed⟩ := write_missing new p found
    rw [failed]
    rfl
  | some x =>
    rw [write_cons new p found, Option.bind_some]
    cases (write new p x).2 <;> rfl

variable {p q : List Segment} {new : Value}

theorem put_cons_eq_some (h : put new (s :: p) v = some w) :
    ∃ x y, inside s v = some x ∧ put new p x = some y ∧ w = placed s y v := by
  rw [put_cons] at h
  obtain ⟨x, found, inner⟩ := Option.bind_eq_some_iff.mp h
  obtain ⟨y, written, rfl⟩ := Option.map_eq_some_iff.mp inner
  exact ⟨x, y, found, written, rfl⟩

theorem resolve_put (h : put new p v = some w) : w.resolve p = some new := by
  induction p generalizing v w with
  | nil => exact h.symm
  | cons s p ih =>
    obtain ⟨x, y, found, inner, rfl⟩ := put_cons_eq_some h
    rw [resolve, step?_placed found, Option.bind_some, ih inner]

theorem resolve_put_append (h : put new p v = some w) (q : List Segment) :
    w.resolve (p ++ q) = new.resolve q := by
  rw [resolve_append, resolve_put h, Option.bind_some]

/-- Apart from the written path nothing changes. -/
theorem resolve_put_of_apart (h : put new p v = some w) (apart : Segments.Apart p q) :
    w.resolve q = v.resolve q := by
  induction apart generalizing v w with
  | here p q differ kinds =>
    obtain ⟨x, y, found, _, rfl⟩ := put_cons_eq_some h
    rw [resolve, resolve, step?_placed_of_ne found differ kinds]
  | there s apart ih =>
    obtain ⟨x, y, found, inner, rfl⟩ := put_cons_eq_some h
    rw [resolve, step?_placed found, Option.bind_some, ih inner]
    exact resolve_inside found apart.ne_nil

/-- A path in the way of the written one is gone. -/
theorem resolve_put_of_clash (h : put new p v = some w) (clash : Segments.Clash p q) :
    w.resolve q = none := by
  induction clash generalizing v w with
  | here p q kinds =>
    obtain ⟨x, y, found, _, rfl⟩ := put_cons_eq_some h
    rw [resolve, step?_placed_of_kind found kinds, Option.bind_none]
  | there s _ ih =>
    obtain ⟨x, y, found, inner, rfl⟩ := put_cons_eq_some h
    rw [resolve, step?_placed found, Option.bind_some, ih inner]

/-- Writing what is there changes nothing, not even the order of keys. -/
theorem put_of_resolve (h : v.resolve p = some x) : put x p v = some v := by
  induction p generalizing v with
  | nil => exact h.symm
  | cons s p ih =>
    obtain ⟨y, found, below⟩ := Option.bind_eq_some_iff.mp h
    rw [put_cons, inside_of_step? found, Option.bind_some, ih below, Option.map_some,
      placed_of_step? found]

/-- Of two writes at one path the second counts. -/
theorem put_put {old : Value} (h : put old p v = some w) : put new p w = put new p v := by
  induction p generalizing v w with
  | nil => rfl
  | cons s p ih =>
    obtain ⟨x, y, found, inner, rfl⟩ := put_cons_eq_some h
    rw [put_cons, put_cons, found, inside_of_step? (step?_placed found), Option.bind_some,
      Option.bind_some, ih inner]
    simp only [placed_placed found]

/-- What a write finds at the end of a path, before it writes. -/
def opened : List Segment → Value → Option Value
  | [], v => some v
  | s :: p, v => (inside s v).bind (opened p)

theorem opened_of_resolve (h : v.resolve p = some x) : opened p v = some x := by
  induction p generalizing v with
  | nil => exact h
  | cons s p ih =>
    obtain ⟨y, found, below⟩ := Option.bind_eq_some_iff.mp h
    rw [opened, inside_of_step? found, Option.bind_some, ih below]

theorem eq_getD_of_opened (h : opened p v = some x) : x = (v.resolve p).getD emptyObject := by
  induction p generalizing v with
  | nil => exact (Option.some.inj h).symm
  | cons s p ih =>
    obtain ⟨y, found, below⟩ := Option.bind_eq_some_iff.mp h
    rw [ih below, resolve, inside_eq_getD found]
    cases v.step? s with
    | some z => rfl
    | none =>
      cases p with
      | nil => rfl
      | cons t p => rw [Option.getD_none, resolve_emptyObject (List.cons_ne_nil t p)]; rfl

theorem put_append (new : Value) (p q : List Segment) (v : Value) :
    put new (p ++ q) v = (opened p v).bind fun x => (put new q x).bind fun y => put y p v := by
  induction p generalizing v with
  | nil =>
    simp only [List.nil_append, opened, Option.bind_some, put_nil, Option.bind_fun_some]
  | cons s p ih =>
    simp only [List.cons_append, put_cons, opened]
    cases inside s v with
    | none => rfl
    | some x =>
      simp only [Option.bind_some, ih x]
      cases opened p x with
      | none => rfl
      | some y =>
        simp only [Option.bind_some]
        cases put new q y <;> rfl

theorem isSome_put (new : Value) (p : List Segment) (v : Value) :
    (put new p v).isSome = (opened p v).isSome := by
  induction p generalizing v with
  | nil => rfl
  | cons s p ih =>
    rw [put_cons, opened]
    cases inside s v with
    | none => rfl
    | some x => rw [Option.bind_some, Option.isSome_map, ih, Option.bind_some]

/-- A longer write changes what stands at the shorter path by the rest of the path. -/
theorem resolve_put_of_prefix (h : put new (p ++ q) v = some w) (there : v.resolve p = some x) :
    ∃ y, put new q x = some y ∧ w.resolve p = some y := by
  rw [put_append, opened_of_resolve there, Option.bind_some] at h
  obtain ⟨y, inner, outer⟩ := Option.bind_eq_some_iff.mp h
  exact ⟨y, inner, resolve_put outer⟩

/-! ## Positions -/

/-- Every position that the path names is there to be written. -/
def HasPositions (v : Value) (p : List Segment) : Prop :=
  ∀ before i behind, p = before ++ .index i :: behind →
    (v.resolve (before ++ [.index i])).isSome

theorem resolve_concat_index (v : Value) (u : List Segment) (i : UInt64) :
    (v.resolve (u ++ [.index i])).isSome ↔
      ∃ items, v.resolve u = some (.array items) ∧ i.toNat < items.length := by
  rw [resolve_append]
  constructor
  · intro h
    obtain ⟨w, found⟩ := Option.isSome_iff_exists.mp h
    obtain ⟨x, there, at_⟩ := Option.bind_eq_some_iff.mp found
    rw [resolve] at at_
    cases x with
    | array items =>
      obtain ⟨y, found, _⟩ := Option.bind_eq_some_iff.mp at_
      exact ⟨items, there, (List.getElem?_eq_some_iff.mp found).1⟩
    | _ => cases at_
  · rintro ⟨items, there, short⟩
    have found : items[i.toNat]? = some items[i.toNat] := List.getElem?_eq_getElem short
    rw [there, Option.bind_some, resolve, step?, found]
    rfl

theorem hasPositions_nil (v : Value) : v.HasPositions [] := by
  intro before i behind split
  cases before <;> cases split

theorem hasPositions_cons (hs : inside s v = some x) :
    v.HasPositions (s :: p) ↔ x.HasPositions p := by
  constructor
  · rintro h before i behind rfl
    rw [resolve_inside hs (by simp)]
    exact h (s :: before) i behind rfl
  · intro h before i behind split
    cases before with
    | nil =>
      cases split
      rw [List.nil_append, resolve, show v.step? (.index i) = some x from hs]
      rfl
    | cons t before =>
      obtain ⟨rfl, rest⟩ := List.cons.inj split
      rw [List.cons_append, ← resolve_inside hs (by simp)]
      exact h before i behind rest

/-- A write fails only for want of a position. -/
theorem isSome_put_iff (new : Value) : (put new p v).isSome ↔ v.HasPositions p := by
  rw [isSome_put]
  induction p generalizing v with
  | nil => exact ⟨fun _ => hasPositions_nil v, fun _ => rfl⟩
  | cons s p ih =>
    rw [opened]
    cases found : inside s v with
    | some x => rw [Option.bind_some, ih, hasPositions_cons found]
    | none =>
      refine ⟨nofun, fun h => ?_⟩
      cases s with
      | field key => cases found
      | index i =>
        have there := h [] i p rfl
        rw [List.nil_append, resolve, show v.step? (.index i) = none from found] at there
        cases there

theorem hasPositions_of_put (h : put new p v = some w) : v.HasPositions p :=
  (isSome_put_iff new).mp (h ▸ rfl)

theorem HasPositions.opened (h : v.HasPositions p) :
    opened p v = some ((v.resolve p).getD emptyObject) := by
  have there : (Value.opened p v).isSome := isSome_put null p v ▸ (isSome_put_iff null).mpr h
  obtain ⟨x, found⟩ := Option.isSome_iff_exists.mp there
  rw [found, eq_getD_of_opened found]

def OnlyKeys (p : List Segment) : Prop := ∀ s ∈ p, s.isField = true

theorem OnlyKeys.hasPositions (h : OnlyKeys p) (v : Value) : v.HasPositions p := by
  rintro before i behind rfl
  cases h (.index i) (by simp)

theorem OnlyKeys.opened (h : OnlyKeys p) (v : Value) :
    opened p v = some ((v.resolve p).getD emptyObject) := (h.hasPositions v).opened

theorem OnlyKeys.not_clash (hp : OnlyKeys p) (hq : OnlyKeys q) : ¬ Segments.Clash p q := by
  intro clash
  induction clash with
  | here p q kinds => exact kinds ((hp _ List.mem_cons_self).trans (hq _ List.mem_cons_self).symm)
  | there s _ ih =>
    exact ih (fun t member => hp t (List.mem_cons_of_mem _ member))
      (fun t member => hq t (List.mem_cons_of_mem _ member))

end Value

namespace Path

variable {p : Path} {v w new : Value} {e : Error}

theorem write_eq_ok_iff :
    p.write v new = .ok w ↔ p.segments ≠ [] ∧ Value.put new p.segments v = some w := by
  have root : p.isRoot = true ↔ p.segments = [] := List.isEmpty_iff
  unfold write writeInto Value.put
  by_cases empty : p.segments = []
  · rw [if_pos (root.mpr empty)]
    exact ⟨nofun, fun h => absurd empty h.1⟩
  · rw [if_neg (fun h => empty (root.mp h))]
    rcases Value.write new p.segments v with ⟨left, _ | fault⟩
    · simp [empty]
    · simp

theorem write_error (h : p.write v new = .error e) : ∃ m, e = .path m := by
  unfold write writeInto at h
  split at h
  · cases h
  · rename_i failed
    cases h
    split at failed
    · cases failed; exact ⟨_, rfl⟩
    · split at failed
      · cases failed
      · rename_i fault _
        cases failed
        cases fault <;> exact ⟨_, rfl⟩

end Path
end RecordFlow
