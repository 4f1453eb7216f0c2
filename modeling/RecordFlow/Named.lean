/-!
# Named entries

Lists of entries under names, as directories and registries hold them. The first entry of a name is
the one that counts. An entry is put in the place of the one with its name, or at the end.
-/
namespace RecordFlow.Named

variable {α : Type}

/-- The entry replaced in place, or added at the end. -/
def put (name : String) (x : α) : List (String × α) → List (String × α)
  | [] => [(name, x)]
  | (first, old) :: rest =>
    if first = name then (first, x) :: rest else (first, old) :: put name x rest

theorem lookup_cons (first : String) (x : α) (entries : List (String × α)) (asked : String) :
    ((first, x) :: entries).lookup asked =
      if asked = first then some x else entries.lookup asked := by
  by_cases here : asked = first
  · rw [if_pos here, here, List.lookup_cons_self]
  · rw [if_neg here, List.lookup_cons, beq_eq_false_iff_ne.mpr here]

theorem mem_of_lookup {entries : List (String × α)} {name : String} {x : α}
    (h : entries.lookup name = some x) : (name, x) ∈ entries := by
  obtain ⟨before, after, rfl, -⟩ := List.lookup_eq_some_iff.mp h
  exact List.mem_append_right before List.mem_cons_self

theorem lookup_of_mem {entries : List (String × α)} (distinct : (entries.map Prod.fst).Nodup)
    {name : String} {x : α} (h : (name, x) ∈ entries) : entries.lookup name = some x := by
  induction entries with
  | nil => cases h
  | cons e entries ih =>
    rw [List.map_cons, List.nodup_cons] at distinct
    rw [lookup_cons]
    rcases List.mem_cons.mp h with rfl | later
    · exact if_pos rfl
    · have apart : name ≠ e.1 := by
        intro same
        exact distinct.1 (same ▸ List.mem_map_of_mem (f := Prod.fst) later)
      rw [if_neg apart]
      exact ih distinct.2 later

/-- Where no name is repeated, the order of the entries does not matter to a look-up. -/
theorem lookup_perm {entries moved : List (String × α)} (moves : entries.Perm moved)
    (distinct : (entries.map Prod.fst).Nodup) (name : String) :
    entries.lookup name = moved.lookup name := by
  have unique := (moves.map Prod.fst).nodup_iff.mp distinct
  apply Option.ext
  intro x
  constructor
  · intro found
    exact lookup_of_mem unique (moves.mem_iff.mp (mem_of_lookup found))
  · intro found
    exact lookup_of_mem distinct (moves.mem_iff.mpr (mem_of_lookup found))

/-! ## What is put -/

theorem lookup_put (name : String) (x : α) (entries : List (String × α)) (asked : String) :
    (put name x entries).lookup asked =
      if asked = name then some x else entries.lookup asked := by
  induction entries with
  | nil => exact lookup_cons name x [] asked
  | cons e entries ih =>
    obtain ⟨first, old⟩ := e
    rw [put]
    split
    · next here =>
      rw [lookup_cons, lookup_cons, here]
      split <;> rfl
    · next apart =>
      rw [lookup_cons, lookup_cons, ih]
      split
      · next here => rw [if_neg (here ▸ apart)]
      · rfl

theorem mem_put {name : String} {x : α} {entries : List (String × α)} {e : String × α}
    (h : e ∈ put name x entries) : e = (name, x) ∨ e ∈ entries := by
  induction entries with
  | nil => exact .inl (List.mem_singleton.mp h)
  | cons first entries ih =>
    obtain ⟨other, old⟩ := first
    rw [put] at h
    split at h
    · next here =>
      rcases List.mem_cons.mp h with rfl | later
      · exact .inl (by rw [here])
      · exact .inr (List.mem_cons_of_mem _ later)
    · rcases List.mem_cons.mp h with rfl | later
      · exact .inr List.mem_cons_self
      · exact (ih later).imp_right (List.mem_cons_of_mem _)

theorem names_put (name : String) (x : α) (entries : List (String × α)) :
    (put name x entries).map Prod.fst =
      if name ∈ entries.map Prod.fst then entries.map Prod.fst
      else entries.map Prod.fst ++ [name] := by
  induction entries with
  | nil => rfl
  | cons e entries ih =>
    obtain ⟨first, old⟩ := e
    by_cases here : first = name
    · subst here
      simp [put]
    · have apart : ¬ name = first := Ne.symm here
      simp only [put, if_neg here, List.map_cons, ih, List.mem_cons, apart, false_or]
      split <;> rfl

theorem nodup_put {entries : List (String × α)} (distinct : (entries.map Prod.fst).Nodup)
    (name : String) (x : α) : ((put name x entries).map Prod.fst).Nodup := by
  rw [names_put]
  split
  · exact distinct
  · next fresh =>
    rw [List.nodup_append]
    refine ⟨distinct, List.nodup_cons.mpr ⟨List.not_mem_nil, List.nodup_nil⟩, ?_⟩
    rintro a member _ last rfl
    exact fresh (List.mem_singleton.mp last ▸ member)

end RecordFlow.Named
