import RecordFlow.Proofs.Path.Edits

/-!
# The path of an edit, and whether its replay succeeds

Between the last edit at or above a path and the end, the path is either lost for good or only
edited from below. So its value at the end depends on the edits alone. A replay fails only where a
position that was there during the edits is missing in the result.
-/
namespace RecordFlow.Value

open Segments

/-- A mapping stands where the path names a position. -/
inductive Lost : List Segment → Value → Prop
  | here (i : UInt64) (p : List Segment) (fields : Fields) : Lost (.index i :: p) (.object fields)
  | there {s : Segment} {p : List Segment} {v x : Value} : v.step? s = some x → Lost p x →
      Lost (s :: p) v

variable {es : List Edit} {v w x r b q : Value} {p u : List Segment} {new : Value}

theorem Lost.resolve (lost : Lost u v) : v.resolve u = none := by
  induction lost with
  | here i p fields => rfl
  | there found _ ih => rw [Value.resolve, found, Option.bind_some, ih]

theorem mapping_of_put {s t : Segment} (h : put new (t :: p) v = some w)
    (there : v.step? s = some x) (kinds : t.isField ≠ s.isField) :
    ∃ i fields, s = .index i ∧ w = .object fields := by
  obtain ⟨y, y', found, _, rfl⟩ := put_cons_eq_some h
  cases t with
  | field key =>
    cases s with
    | field other => exact absurd rfl kinds
    | index i => exact ⟨i, _, rfl, rfl⟩
  | index j =>
    obtain ⟨items, rfl, _⟩ := inside_index found
    cases s with
    | field other => cases there
    | index i => exact absurd rfl kinds

/-- A write that is neither above a lost path nor at it leaves it lost. -/
theorem Lost.put (lost : Lost u v) (h : put new p v = some w) (free : ¬ p <+: u) : Lost u w := by
  induction lost generalizing p w with
  | here i rest fields =>
    cases p with
    | nil => exact absurd List.nil_prefix free
    | cons t p =>
      cases t with
      | field key =>
        obtain ⟨y, y', _, _, rfl⟩ := put_cons_eq_some h
        exact .here ..
      | index j => cases put_cons .. ▸ h
  | @there s rest v x found inner ih =>
    cases p with
    | nil => exact absurd List.nil_prefix free
    | cons t p =>
      by_cases kinds : t.isField = s.isField
      · obtain ⟨y, y', opened, written, rfl⟩ := put_cons_eq_some h
        by_cases same : t = s
        · subst same
          obtain rfl : x = y := Option.some.inj ((inside_of_step? found).symm.trans opened)
          have free' : ¬ p <+: rest := fun below => free (List.cons_prefix_cons.mpr ⟨rfl, below⟩)
          exact .there (step?_placed opened) (ih written free')
        · exact .there ((step?_placed_of_ne opened same kinds).trans found) inner
      · obtain ⟨i, fields, rfl, rfl⟩ := mapping_of_put h found kinds
        exact .here ..

theorem lost_of_clash (clash : Clash p u) (h : put new p v = some w)
    (there : v.resolve u = some x) : Lost u w := by
  induction clash generalizing v w with
  | here p q kinds =>
    obtain ⟨y, found, _⟩ := Option.bind_eq_some_iff.mp there
    obtain ⟨i, fields, rfl, rfl⟩ := mapping_of_put h found kinds
    exact .here ..
  | there s _ ih =>
    obtain ⟨y, found, below⟩ := Option.bind_eq_some_iff.mp there
    obtain ⟨y', z, opened, written, rfl⟩ := put_cons_eq_some h
    obtain rfl : y = y' := Option.some.inj ((inside_of_step? found).symm.trans opened)
    exact .there (step?_placed opened) (ih written below)

theorem Lost.edited (lost : Lost u v) (h : edited es v = some w)
    (free : ∀ e ∈ es, ¬ e.1 <+: u) : Lost u w := by
  induction es generalizing v with
  | nil => exact Option.some.inj h ▸ lost
  | cons e es ih =>
    obtain ⟨here, later⟩ := List.forall_mem_cons.mp free
    obtain ⟨x, first, rest⟩ := edited_cons_eq_some h
    exact ih (lost.put first here) rest later

/-- The edits below a path, seen from there. -/
def editsBelow (u : List Segment) (es : List Edit) : List Edit :=
  es.filterMap fun e => if u.isPrefixOf e.1 then some (e.1.drop u.length, e.2) else none

theorem editsBelow_cons_append (u z : List Segment) (new : Value) (es : List Edit) :
    editsBelow u ((u ++ z, new) :: es) = (z, new) :: editsBelow u es := by
  simp [editsBelow]

theorem editsBelow_cons_of_not_below {e : Edit} (h : ¬ u <+: e.1) (es : List Edit) :
    editsBelow u (e :: es) = editsBelow u es := by
  simp [editsBelow, h]

theorem editsBelow_replay (there : r.resolve u = some x) (es : List Edit) :
    editsBelow u (replay r es) = replay x (editsBelow u es) := by
  induction es with
  | nil => rfl
  | cons e es ih =>
    rcases e with ⟨path, new⟩
    by_cases within : u <+: path
    · obtain ⟨z, rfl⟩ := within
      rw [editsBelow_cons_append, replay, replay, List.map_cons, List.map_cons]
      rw [editsBelow_cons_append, resolve_append, there, Option.bind_some]
      exact congrArg _ ih
    · rw [editsBelow_cons_of_not_below within, replay, List.map_cons]
      rw [editsBelow_cons_of_not_below within]
      exact ih

theorem resolve_edited_of_apart (h : edited es v = some w) (apart : ∀ e ∈ es, Apart e.1 u) :
    w.resolve u = v.resolve u := by
  induction es generalizing v with
  | nil => rw [Option.some.inj h]
  | cons e es ih =>
    obtain ⟨here, later⟩ := List.forall_mem_cons.mp apart
    obtain ⟨v', first, rest⟩ := edited_cons_eq_some h
    exact (ih rest later).trans (resolve_put_of_apart first here)

/-- Edits that are neither above a path nor in its way reach it from below only. -/
theorem resolve_edited (h : edited es v = some w) (there : v.resolve u = some x)
    (free : ∀ e ∈ es, ¬ e.1 <+: u) (clear : ∀ e ∈ es, ¬ Clash e.1 u) :
    ∃ y, w.resolve u = some y ∧ edited (editsBelow u es) x = some y := by
  induction es generalizing v x with
  | nil =>
    cases h
    exact ⟨x, there, rfl⟩
  | cons e es ih =>
    obtain ⟨here, later⟩ := List.forall_mem_cons.mp free
    obtain ⟨here', later'⟩ := List.forall_mem_cons.mp clear
    obtain ⟨v', first, rest⟩ := edited_cons_eq_some h
    rcases prefix_or_apart_or_clash e.1 u with above | ⟨z, path⟩ | apart | clash
    · exact absurd above here
    · rcases e with ⟨_, new⟩
      subst path
      obtain ⟨x', written, there'⟩ := resolve_put_of_prefix first there
      obtain ⟨y, at_end, inner⟩ := ih rest there' later later'
      refine ⟨y, at_end, ?_⟩
      rw [editsBelow_cons_append, Value.edited, written, Option.bind_some, inner]
    · rw [editsBelow_cons_of_not_below apart.symm.not_below]
      exact ih rest ((resolve_put_of_apart first apart).trans there) later later'
    · exact absurd clash here'

theorem lost_of_edited (h : edited es v = some w) (there : v.resolve u = some x)
    (free : ∀ e ∈ es, ¬ e.1 <+: u) (clash : ∃ e ∈ es, Clash e.1 u) : Lost u w := by
  induction es generalizing v x with
  | nil => exact absurd clash (by simp)
  | cons e es ih =>
    obtain ⟨here, later⟩ := List.forall_mem_cons.mp free
    obtain ⟨v', first, rest⟩ := edited_cons_eq_some h
    by_cases now : Clash e.1 u
    · exact (lost_of_clash now first there).edited rest later
    · have one : edited [e] v = some v' := by rw [edited, first, Option.bind_some, edited]
      obtain ⟨y, there', _⟩ := resolve_edited one there (by simpa using here) (by simpa using now)
      obtain ⟨e', member, clash'⟩ := clash
      rcases List.mem_cons.mp member with rfl | behind
      · exact absurd clash' now
      · exact ih rest there' later ⟨e', behind, clash'⟩

theorem settled_below (h : edited es b = some r) (there : b.resolve u = some new)
    (done : edited (replay r es) q = some w)
    (there' : q.resolve u = some ((r.resolve u).getD .null)) (free : ∀ e ∈ es, ¬ e.1 <+: u) :
    w.resolve u = r.resolve u := by
  have free' : ∀ e ∈ replay r es, ¬ e.1 <+: u :=
    forall_mem_replay (P := (¬ · <+: u)).mpr free
  by_cases clear : ∀ e ∈ es, ¬ Clash e.1 u
  · have clear' : ∀ e ∈ replay r es, ¬ Clash e.1 u :=
      forall_mem_replay (P := (¬ Clash · u)).mpr clear
    obtain ⟨x, ended, inner⟩ := resolve_edited h there free clear
    rw [ended, Option.getD_some] at there'
    obtain ⟨x', ended', inner'⟩ := resolve_edited done there' free' clear'
    rw [editsBelow_replay ended] at inner'
    rw [ended, ended', settled _ _ x inner x x' (.inr rfl) inner']
  · have clear' : ¬ ∀ e ∈ replay r es, ¬ Clash e.1 u := fun all =>
      clear (forall_mem_replay (P := (¬ Clash · u)).mp all)
    simp only [Classical.not_forall, Classical.not_not] at clear clear'
    rw [(lost_of_edited h there free (by simpa using clear)).resolve]
    rw [(lost_of_edited done there' free' (by simpa using clear')).resolve]

/-- A replay that succeeds leaves at every written path what the edits left there, whatever it
starts from. -/
theorem settled_at (h : edited es b = some r) (done : edited (replay r es) q = some w) :
    ∀ e ∈ es, w.resolve e.1 = r.resolve e.1 := by
  intro e member
  -- The last edit at the path or above it decides: before it, anything may have stood there.
  rcases exists_last (·.1 <+: e.1) es with none | ⟨xs, ⟨u, new⟩, ys, rfl, ⟨z, path⟩, after⟩
  · exact absurd (List.prefix_refl _) (none e member)
  · obtain ⟨_, _, rest⟩ := edited_append_eq_some h
    obtain ⟨b', written, rest⟩ := edited_cons_eq_some rest
    rw [replay_append, replay_cons] at done
    obtain ⟨_, _, rest'⟩ := edited_append_eq_some done
    obtain ⟨q', written', rest'⟩ := edited_cons_eq_some rest'
    have free : ∀ y ∈ ys, ¬ y.1 <+: u := fun y behind above =>
      after y behind (above.trans ⟨z, path⟩)
    have same : w.resolve u = r.resolve u :=
      settled_below rest (resolve_put written) rest' (resolve_put written') free
    rw [← path, resolve_append, resolve_append, same]

/-! ## When a replay succeeds -/

/-- Where the first value has a sequence, the other two have the same positions below it. -/
def SamePositions (v q r : Value) : Prop :=
  ∀ u items i, v.resolve u = some (.array items) →
    ((q.resolve (u ++ [.index i])).isSome ↔ (r.resolve (u ++ [.index i])).isSome)

theorem samePositions_empty (r : Value) : SamePositions emptyObject emptyObject r := by
  intro u items i there
  cases u with
  | nil => cases there
  | cons s u => cases s <;> cases there

theorem resolve_getD {z : List Segment} (longer : z ≠ []) (u : List Segment) :
    ((r.resolve u).getD .null).resolve z = r.resolve (u ++ z) := by
  rw [resolve_append]
  cases r.resolve u with
  | some x => rfl
  | none =>
    cases z with
    | nil => exact absurd rfl longer
    | cons s z => cases s <;> rfl

theorem SamePositions.put (same : SamePositions v q r) (h : put new p v = some w)
    (h' : Value.put ((r.resolve p).getD .null) p q = some x) : SamePositions w x r := by
  intro u items i there
  by_cases above : p <+: u
  · obtain ⟨z, rfl⟩ := above
    rw [List.append_assoc, resolve_put_append h', resolve_getD (by simp)]
  rcases prefix_or_apart_or_clash p u with before | ⟨_ | ⟨s, z⟩, rfl⟩ | apart | clash
  · exact absurd before above
  · exact absurd (by simp) above
  · -- Below a sequence only a position was written, which keeps its length on both sides.
    obtain ⟨j, rfl⟩ : ∃ j, s = .index j := by
      have written := resolve_put h
      rw [resolve_append, there, Option.bind_some] at written
      cases s with
      | field key => cases written
      | index j => exact ⟨j, rfl⟩
    have opened := hasPositions_of_put h
    have opened' := hasPositions_of_put h'
    obtain ⟨items', there', _⟩ := (resolve_concat_index v u j).mp (opened u j z rfl)
    obtain ⟨slots, here, _⟩ := (resolve_concat_index q u j).mp (opened' u j z rfl)
    obtain ⟨y, inner, here'⟩ := resolve_put_of_prefix h' here
    obtain ⟨_, y', _, _, rfl⟩ := put_position inner
    rw [← same u items' i there', resolve_concat_index, resolve_concat_index, here, here']
    simp
  · rw [resolve_put_of_apart h' (apart.append _)]
    exact same u items i (resolve_put_of_apart h apart ▸ there)
  · rw [resolve_put_of_clash h clash] at there
    cases there

/-- A path that could be written during the edits can be written in their replay if and only if
the positions it names are there at the end. -/
theorem SamePositions.hasPositions_iff (same : SamePositions v q r)
    (h : Value.put new p v = some w) : q.HasPositions p ↔ r.HasPositions p := by
  have opened := hasPositions_of_put h
  constructor <;> intro there before i behind split
  · obtain ⟨items, found, _⟩ := (resolve_concat_index v before i).mp (opened before i behind split)
    exact (same before items i found).mp (there before i behind split)
  · obtain ⟨items, found, _⟩ := (resolve_concat_index v before i).mp (opened before i behind split)
    exact (same before items i found).mpr (there before i behind split)

theorem isSome_edited_replay (same : SamePositions v q r) (h : edited es v = some w) :
    (edited (replay r es) q).isSome ↔ ∀ e ∈ es, r.HasPositions e.1 := by
  induction es generalizing v q with
  | nil => simp [replay, edited]
  | cons e es ih =>
    obtain ⟨v', first, rest⟩ := edited_cons_eq_some h
    rw [List.forall_mem_cons, replay_cons, edited, ← same.hasPositions_iff first]
    rw [← isSome_put_iff ((r.resolve e.1).getD .null)]
    cases first' : Value.put ((r.resolve e.1).getD .null) e.1 q with
    | none => simp
    | some q' =>
      rw [Option.bind_some, ih (same.put first first') rest]
      simp

end RecordFlow.Value
