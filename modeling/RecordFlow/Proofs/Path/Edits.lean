import RecordFlow.Proofs.Path.Write

/-!
# Edits and their replay

Edits are writes of values at paths, one after another. Replaying them writes the same paths in the
same order with the values that stand there at the end, and null where a path is gone by then. A
replay that succeeds ends with the result of the edits, the order of keys included: a null written
at a path that is gone lies inside something that is written again later.
-/
namespace RecordFlow.Value

abbrev Edit := List Segment × Value

/-- The value after all edits, if each of them succeeds. -/
def edited : List Edit → Value → Option Value
  | [], v => some v
  | (p, new) :: es, v => (put new p v).bind (edited es)

/-- The edits again, with the values that `r` has at their paths. -/
def replay (r : Value) (es : List Edit) : List Edit :=
  es.map fun e => (e.1, (r.resolve e.1).getD .null)

/-- The edits below the picked segments, seen from there. -/
def under (pick : Segment → Bool) : List Edit → List Edit
  | [] => []
  | ([], _) :: es => under pick es
  | (s :: p, new) :: es => if pick s then (p, new) :: under pick es else under pick es

/-- The edits that do not go through the segment. -/
def others (s : Segment) (es : List Edit) : List Edit := es.filter fun e => e.1.head? ≠ some s

variable {es : List Edit} {v w r b q : Value} {p : List Segment} {s : Segment}
  {pick : Segment → Bool}

theorem edited_append (xs ys : List Edit) (v : Value) :
    edited (xs ++ ys) v = (edited xs v).bind (edited ys) := by
  induction xs generalizing v with
  | nil => rfl
  | cons e xs ih =>
    simp only [List.cons_append, edited]
    cases put e.2 e.1 v with
    | none => rfl
    | some x => exact ih x

theorem edited_append_eq_some {xs ys : List Edit} (h : edited (xs ++ ys) v = some w) :
    ∃ x, edited xs v = some x ∧ edited ys x = some w :=
  Option.bind_eq_some_iff.mp (edited_append xs ys v ▸ h)

theorem edited_cons_eq_some {e : Edit} (h : edited (e :: es) v = some w) :
    ∃ x, put e.2 e.1 v = some x ∧ edited es x = some w := Option.bind_eq_some_iff.mp h

theorem replay_cons (r : Value) (e : Edit) (es : List Edit) :
    replay r (e :: es) = (e.1, (r.resolve e.1).getD .null) :: replay r es := rfl

theorem replay_append (r : Value) (xs ys : List Edit) :
    replay r (xs ++ ys) = replay r xs ++ replay r ys := List.map_append

/-- Below a segment a replay is the replay of what stands there. -/
theorem under_replay {x : Value} (h : ∀ s, pick s = true → r.step? s = some x) (es : List Edit) :
    under pick (replay r es) = replay x (under pick es) := by
  induction es with
  | nil => rfl
  | cons e es ih =>
    rcases e with ⟨_ | ⟨s, p⟩, new⟩
    · exact ih
    · cases picked : pick s with
      | false => simpa [replay, under, picked] using ih
      | true =>
        have there : r.resolve (s :: p) = x.resolve p := by rw [resolve, h s picked]; rfl
        simpa [replay, under, picked, there] using ih

theorem others_replay (r : Value) (s : Segment) (es : List Edit) :
    others s (replay r es) = replay r (others s es) := by
  simp only [others, replay, List.filter_map]
  rfl

theorem forall_mem_replay {P : List Segment → Prop} :
    (∀ e ∈ replay r es, P e.1) ↔ ∀ e ∈ es, P e.1 := List.forall_mem_map

theorem replay_congr {x : Value} (h : ∀ e ∈ es, r.resolve e.1 = x.resolve e.1) :
    replay r es = replay x es :=
  List.map_congr_left fun e member => by rw [h e member]

theorem length_under_le (pick : Segment → Bool) (n : Nat) (h : ∀ e ∈ es, e.1.length ≤ n + 1) :
    ∀ e ∈ under pick es, e.1.length ≤ n := by
  induction es with
  | nil => exact nofun
  | cons e es ih =>
    have rest := ih fun e member => h e (List.mem_cons_of_mem _ member)
    rcases e with ⟨_ | ⟨s, p⟩, new⟩
    · exact rest
    · have here := h _ List.mem_cons_self
      unfold under
      split
      · intro e member
        rcases List.mem_cons.mp member with rfl | later
        · exact Nat.le_of_succ_le_succ here
        · exact rest e later
      · exact rest

/-! ## Edits of a mapping -/

def ThroughKeys (es : List Edit) : Prop := ∀ e ∈ es, ∃ key p, e.1 = .field key :: p

theorem put_key (new : Value) (key : String) (p : List Segment) (fields : Fields) :
    put new (.field key :: p) (.object fields) =
      (put new p ((Fields.get? key fields).getD emptyObject)).map
        fun y => .object (Fields.insert key y fields) := put_cons ..

theorem edited_entry {key : String} {x : Value} {rest : Fields} (through : ThroughKeys es) :
    edited es (.object ((key, x) :: rest)) = some r ↔
      ∃ y others', edited (under (· = .field key) es) x = some y ∧
        edited (others (.field key) es) (.object rest) = some (.object others') ∧
        r = .object ((key, y) :: others') := by
  induction es generalizing x rest with
  | nil =>
    simp only [edited, under, others, List.filter_nil, Option.some.injEq]
    constructor
    · rintro rfl
      exact ⟨x, rest, rfl, rfl, rfl⟩
    · rintro ⟨y, others', rfl, same, rfl⟩
      cases same
      rfl
  | cons e es ih =>
    rcases e with ⟨path, new⟩
    obtain ⟨⟨other, p, rfl⟩, later⟩ := List.forall_mem_cons.mp through
    by_cases same : other = key
    · subst same
      have first : put new (.field other :: p) (.object ((other, x) :: rest)) =
          (put new p x).map fun y => .object ((other, y) :: rest) := by
        simp [put_key, Fields.get?, Fields.insert]
      have split : under (· = .field other) ((.field other :: p, new) :: es) =
          (p, new) :: under (· = .field other) es := by simp [under]
      have apart : others (.field other) ((.field other :: p, new) :: es) =
          others (.field other) es := by simp [others]
      simp only [edited, first, split, apart]
      cases put new p x with
      | none => simp
      | some y => exact ih later
    · have first : put new (.field other :: p) (.object ((key, x) :: rest)) =
          (put new p ((Fields.get? other rest).getD emptyObject)).map
            fun y => .object ((key, x) :: Fields.insert other y rest) := by
        simp only [put_key, Fields.get?, Fields.insert, if_neg (Ne.symm same)]
      have split : under (· = .field key) ((.field other :: p, new) :: es) =
          under (· = .field key) es := by simp [under, same]
      have apart : others (.field key) ((.field other :: p, new) :: es) =
          (.field other :: p, new) :: others (.field key) es := by simp [others, same]
      simp only [edited, first, split, apart, put_key]
      cases put new p ((Fields.get? other rest).getD emptyObject) with
      | none => simp
      | some y => exact ih later

/-- An edit of an empty mapping goes to a new entry, which starts as an empty mapping. -/
theorem edited_empty (key : String) (p : List Segment) (new : Value) (es : List Edit) :
    edited ((.field key :: p, new) :: es) emptyObject =
      edited ((.field key :: p, new) :: es) (.object [(key, emptyObject)]) := by
  simp [edited, emptyObject, put_key, Fields.get?, Fields.insert]

/-- A replay of the edits, from where they started or from where they ended, ends where they
ended. -/
def Settled (es : List Edit) (b : Value) : Prop :=
  ∀ r, edited es b = some r → ∀ q w, q = b ∨ q = r → edited (replay r es) q = some w → w = r

theorem settled_nil (b : Value) : Settled [] b := by
  intro r h q w start done
  cases h
  cases done
  exact start.elim id id

variable {n : Nat}

def Within (n : Nat) (es : List Edit) : Prop := ∀ e ∈ es, e.1.length ≤ n

theorem Within.others (within : Within n es) (s : Segment) : Within n (others s es) :=
  fun e member => within e (List.mem_filter.mp member).1

theorem length_others_le (s : Segment) (es : List Edit) : (others s es).length ≤ es.length :=
  List.length_filter_le ..

theorem ThroughKeys.replay (through : ThroughKeys es) (r : Value) :
    ThroughKeys (replay r es) :=
  forall_mem_replay (P := fun path => ∃ key p, path = .field key :: p).mpr through

theorem ThroughKeys.others (through : ThroughKeys es) (s : Segment) :
    ThroughKeys (others s es) :=
  fun e member => through e (List.mem_filter.mp member).1

theorem settled_entry (shorter : ∀ es b, Within n es → Settled es b) {key : String} {x : Value}
    {rest : Fields} (through : ThroughKeys es) (within : Within (n + 1) es)
    (tail : Settled (others (.field key) es) (.object rest)) :
    Settled es (.object ((key, x) :: rest)) := by
  intro r h q w start done
  obtain ⟨y, ends, first, tail', rfl⟩ := (edited_entry through).mp h
  obtain ⟨x', begins, rfl, startHere, startThere⟩ : ∃ x' begins,
      q = .object ((key, x') :: begins) ∧ (x' = x ∨ x' = y) ∧
        (Value.object begins = .object rest ∨ Value.object begins = .object ends) := by
    rcases start with rfl | rfl
    · exact ⟨x, rest, rfl, .inl rfl, .inl rfl⟩
    · exact ⟨y, ends, rfl, .inr rfl, .inr rfl⟩
  obtain ⟨y', ends', first', tail'', rfl⟩ := (edited_entry (through.replay _)).mp done
  have here : ∀ s, decide (s = .field key) = true →
      (Value.object ((key, y) :: ends)).step? s = some y := by
    intro s picked
    rw [of_decide_eq_true picked]
    simp [step?, Fields.get?]
  have elsewhere : ∀ e ∈ others (.field key) es,
      (Value.object ((key, y) :: ends)).resolve e.1 = (Value.object ends).resolve e.1 := by
    intro e member
    obtain ⟨other, p, path⟩ := through e (List.mem_filter.mp member).1
    have differ : key ≠ other := by
      rintro rfl
      simpa [path] using (List.mem_filter.mp member).2
    simp [path, resolve, step?, Fields.get?, differ]
  rw [under_replay here] at first'
  rw [others_replay, replay_congr elsewhere] at tail''
  have same := shorter _ x (length_under_le _ n within) y first x' y' startHere first'
  have same' := tail _ tail' _ _ startThere tail''
  rw [same, Value.object.inj same']

/-- The first edit of a key that is not there yet adds an entry at the end. So the induction is on
the entries, and when they are used up on the edits of new ones. -/
theorem settled_object (shorter : ∀ es b, Within n es → Settled es b) (m : Nat) {es : List Edit}
    (few : es.length ≤ m) (through : ThroughKeys es) (within : Within (n + 1) es)
    (fields : Fields) : Settled es (.object fields) := by
  induction m generalizing es fields with
  | zero =>
    obtain rfl : es = [] := List.length_eq_zero_iff.mp (Nat.le_zero.mp few)
    exact settled_nil _
  | succ m ihm =>
    induction fields generalizing es with
    | cons entry rest ih =>
      exact settled_entry shorter through within
        (ih (Nat.le_trans (length_others_le _ es) few) (through.others _) (within.others _))
    | nil =>
      cases es with
      | nil => exact settled_nil _
      | cons e es =>
        rcases e with ⟨path, new⟩
        obtain ⟨key, p, rfl⟩ := through _ List.mem_cons_self
        have dropped : others (.field key) ((.field key :: p, new) :: es) =
            others (.field key) es := by simp [others]
        have tail : Settled (others (.field key) ((.field key :: p, new) :: es)) (.object []) :=
          ihm (dropped ▸ Nat.le_trans (length_others_le _ es) (Nat.le_of_succ_le_succ few))
            (through.others _) (within.others _) []
        have entry := settled_entry (x := emptyObject) shorter through within tail
        intro r h q w start done
        have h' := edited_empty key p new es ▸ h
        rcases start with rfl | rfl
        · exact entry r h' _ w (.inl rfl) ((edited_empty ..).symm.trans done)
        · exact entry _ h' _ w (.inr rfl) done

/-! ## Edits of a sequence -/

def ThroughPositions (es : List Edit) : Prop := ∀ e ∈ es, ∃ i p, e.1 = .index i :: p

def at? (n : Nat) : Segment → Bool
  | .field _ => false
  | .index i => i.toNat == n

theorem put_position {new : Value} {i : UInt64} {items : List Value}
    (h : put new (.index i :: p) (.array items) = some w) :
    ∃ x y, items[i.toNat]? = some x ∧ put new p x = some y ∧ w = .array (items.set i.toNat y) :=
  put_cons_eq_some h

theorem edited_items {items : List Value} (through : ThroughPositions es)
    (h : edited es (.array items) = some w) :
    ∃ items', w = .array items' ∧ items'.length = items.length ∧
      ∀ (k : Nat) x, items[k]? = some x → edited (under (at? k) es) x = items'[k]? := by
  induction es generalizing items with
  | nil =>
    cases h
    exact ⟨items, rfl, rfl, fun k x found => found.symm⟩
  | cons e es ih =>
    rcases e with ⟨path, new⟩
    obtain ⟨⟨i, p, rfl⟩, later⟩ := List.forall_mem_cons.mp through
    obtain ⟨v, first, rest⟩ := edited_cons_eq_some h
    obtain ⟨x, y, found, written, rfl⟩ := put_position first
    obtain ⟨items', rfl, size, pointwise⟩ := ih later rest
    refine ⟨items', rfl, size.trans List.length_set, fun k x' found' => ?_⟩
    by_cases here : i.toNat = k
    · subst here
      obtain rfl : x = x' := Option.some.inj (found.symm.trans found')
      have split : under (at? i.toNat) ((.index i :: p, new) :: es) =
          (p, new) :: under (at? i.toNat) es := by simp [under, at?]
      rw [split, edited, written, Option.bind_some]
      exact pointwise _ y (List.getElem?_set_self (List.getElem?_eq_some_iff.mp found).1)
    · have split : under (at? k) ((.index i :: p, new) :: es) = under (at? k) es := by
        simp [under, at?, here]
      rw [split]
      exact pointwise k x' ((List.getElem?_set_ne here).trans found')

theorem ThroughPositions.replay (through : ThroughPositions es) (r : Value) :
    ThroughPositions (replay r es) :=
  forall_mem_replay (P := fun path => ∃ i p, path = .index i :: p).mpr through

theorem settled_array (shorter : ∀ es b, Within n es → Settled es b) {es : List Edit}
    (through : ThroughPositions es) (within : Within (n + 1) es) (items : List Value) :
    Settled es (.array items) := by
  intro r h q w start done
  obtain ⟨ends, rfl, size, pointwise⟩ := edited_items through h
  obtain ⟨begins, rfl, startSize, startAt⟩ : ∃ begins, q = .array begins ∧
      begins.length = items.length ∧
      ∀ (k : Nat) x, begins[k]? = some x → items[k]? = some x ∨ ends[k]? = some x := by
    rcases start with rfl | rfl
    · exact ⟨items, rfl, rfl, fun _ _ found => .inl found⟩
    · exact ⟨ends, rfl, size, fun _ _ found => .inr found⟩
  obtain ⟨ends', rfl, size', pointwise'⟩ := edited_items (through.replay _) done
  congr 1
  apply List.ext_getElem?
  intro k
  by_cases inside : k < items.length
  · have found : items[k]? = some items[k] := List.getElem?_eq_getElem inside
    have found' : begins[k]? = some begins[k] := List.getElem?_eq_getElem (by omega)
    have ended : ends[k]? = some ends[k] := List.getElem?_eq_getElem (by omega)
    have there : ∀ s, at? k s = true → (Value.array ends).step? s = some ends[k] := by
      intro s picked
      cases s with
      | field _ => cases picked
      | index i =>
        rw [← ended, ← eq_of_beq picked]
        rfl
    have again := pointwise' k _ found'
    rw [under_replay there] at again
    have ended' : ends'[k]? = some ends'[k] := List.getElem?_eq_getElem (by omega)
    have same := shorter _ _ (length_under_le _ n within) _ ((pointwise k _ found).trans ended)
      begins[k] ends'[k] ?_ (again.trans ended')
    · rw [ended, ended', same]
    · refine (startAt k _ found').imp ?_ ?_ <;> intro other
      · exact Option.some.inj (found.symm.trans other) |>.symm
      · exact Option.some.inj (ended.symm.trans other) |>.symm
  · rw [List.getElem?_eq_none (by omega), List.getElem?_eq_none (by omega)]

/-! ## Any edits -/

def Rootless (es : List Edit) : Prop := ∀ e ∈ es, e.1 ≠ []

/-- What is not a mapping is one without entries to the first edit of a key. -/
theorem edited_fieldsOrEmpty {e : Edit} (through : ThroughKeys (e :: es)) (v : Value) :
    edited (e :: es) (.object v.fieldsOrEmpty) = edited (e :: es) v := by
  obtain ⟨key, p, path⟩ := through e List.mem_cons_self
  rw [edited, edited, path, put_cons, put_cons]
  rfl

theorem throughKeys_of_object {fields : Fields} (rootless : Rootless es)
    (h : edited es (.object fields) = some r) : ThroughKeys es := by
  induction es generalizing fields with
  | nil => exact nofun
  | cons e es ih =>
    obtain ⟨there, later⟩ := List.forall_mem_cons.mp rootless
    obtain ⟨v, first, rest⟩ := edited_cons_eq_some h
    rcases e with ⟨_ | ⟨s, p⟩, new⟩
    · exact absurd rfl there
    · cases s with
      | index i => cases put_cons .. ▸ first
      | field key =>
        obtain ⟨x, y, _, _, rfl⟩ := put_cons_eq_some first
        exact List.forall_mem_cons.mpr ⟨⟨key, p, rfl⟩, ih later rest⟩

theorem positions_then_keys (rootless : Rootless es) (h : edited es b = some r) :
    ∃ xs ys, es = xs ++ ys ∧ ThroughPositions xs ∧ ThroughKeys ys := by
  induction es generalizing b with
  | nil => exact ⟨[], [], rfl, nofun, nofun⟩
  | cons e es ih =>
    obtain ⟨there, later⟩ := List.forall_mem_cons.mp rootless
    obtain ⟨v, first, rest⟩ := edited_cons_eq_some h
    rcases e with ⟨_ | ⟨s, p⟩, new⟩
    · exact absurd rfl there
    · cases s with
      | index i =>
        obtain ⟨xs, ys, rfl, positions, keys⟩ := ih later rest
        exact ⟨_ :: xs, ys, rfl, List.forall_mem_cons.mpr ⟨⟨i, p, rfl⟩, positions⟩, keys⟩
      | field key =>
        obtain ⟨x, y, _, _, rfl⟩ := put_cons_eq_some first
        exact ⟨[], _, rfl, nofun,
          List.forall_mem_cons.mpr ⟨⟨key, p, rfl⟩, throughKeys_of_object later rest⟩⟩

theorem settled_keys (shorter : ∀ es b, Within n es → Settled es b) (through : ThroughKeys es)
    (within : Within (n + 1) es) (b : Value) : Settled es b := by
  cases es with
  | nil => exact settled_nil b
  | cons e es =>
    intro r h q w start done
    have entries := settled_object shorter _ (Nat.le_refl _) through within b.fieldsOrEmpty
    have h' := (edited_fieldsOrEmpty through b).trans h
    rcases start with rfl | rfl
    · exact entries r h' _ w (.inl rfl)
        ((edited_fieldsOrEmpty (e := (e.1, _)) (through.replay r) q).trans done)
    · exact entries q h' _ w (.inr rfl) done

theorem edited_mapping {fields : Fields} (through : ThroughKeys es)
    (h : edited es (.object fields) = some r) : ∃ fields', r = .object fields' := by
  induction es generalizing fields with
  | nil => exact ⟨fields, (Option.some.inj h).symm⟩
  | cons e es ih =>
    obtain ⟨⟨key, p, path⟩, later⟩ := List.forall_mem_cons.mp through
    obtain ⟨v, first, rest⟩ := edited_cons_eq_some h
    obtain ⟨x, y, _, _, rfl⟩ := put_cons_eq_some (path ▸ first)
    exact ih later rest

theorem edited_sequence {e : Edit} (through : ThroughPositions (e :: es))
    (h : edited (e :: es) b = some r) : ∃ items, b = .array items := by
  obtain ⟨i, p, path⟩ := through e List.mem_cons_self
  obtain ⟨v, first, _⟩ := edited_cons_eq_some h
  obtain ⟨x, y, found, _, _⟩ := put_cons_eq_some (path ▸ first)
  obtain ⟨items, rfl, _⟩ := inside_index found
  exact ⟨items, rfl⟩

theorem settled_rootless (shorter : ∀ es b, Within n es → Settled es b) (rootless : Rootless es)
    (within : Within (n + 1) es) (b : Value) : Settled es b := by
  intro r h
  obtain ⟨xs, ys, rfl, positions, keys⟩ := positions_then_keys rootless h
  cases xs with
  | nil => exact settled_keys shorter keys within b r h
  | cons x xs =>
    obtain ⟨a, moved, keyed⟩ := edited_append_eq_some h
    obtain ⟨items, rfl⟩ := edited_sequence positions moved
    obtain ⟨items', rfl, _, _⟩ := edited_items positions moved
    cases ys with
    | nil =>
      rw [List.append_nil] at h within ⊢
      exact settled_array shorter positions within items r h
    | cons y ys =>
      -- The first key drops the sequence, so the keys start from an empty mapping.
      have emptied := (edited_fieldsOrEmpty keys (.array items')).trans keyed
      intro q w start done
      rw [replay_append] at done
      obtain ⟨a', moved', keyed'⟩ := edited_append_eq_some done
      rcases start with rfl | rfl
      · obtain ⟨_, rfl, _, _⟩ := edited_items (positions.replay r) moved'
        have within' : Within (n + 1) (y :: ys) :=
          fun e member => within e (List.mem_append_right _ member)
        exact settled_object shorter _ (Nat.le_refl _) keys within' [] r emptied _ w (.inl rfl)
          ((edited_fieldsOrEmpty (e := (y.1, _)) (keys.replay r) _).trans keyed')
      · obtain ⟨_, rfl⟩ := edited_mapping keys emptied
        obtain ⟨_, clash⟩ := edited_sequence (e := (x.1, _)) (positions.replay _) moved'
        cases clash

theorem exists_last (kind : Edit → Prop) (es : List Edit) :
    (∀ e ∈ es, ¬ kind e) ∨ ∃ xs e ys, es = xs ++ e :: ys ∧ kind e ∧ ∀ y ∈ ys, ¬ kind y := by
  induction es with
  | nil => exact .inl nofun
  | cons e es ih =>
    rcases ih with none | ⟨xs, last, ys, rfl, here, after⟩
    · by_cases here : kind e
      · exact .inr ⟨[], e, es, rfl, here, none⟩
      · exact .inl (List.forall_mem_cons.mpr ⟨here, none⟩)
    · exact .inr ⟨e :: xs, last, ys, rfl, here, after⟩

/-- Only the edits after the last one of the whole value count. -/
theorem settled_of_rootless (rootless : ∀ es b, Rootless es → Within n es → Settled es b)
    (es : List Edit) (b : Value) (within : Within n es) : Settled es b := by
  rcases exists_last (·.1 = []) es with none | ⟨xs, ⟨_, v⟩, ys, rfl, rfl, none⟩
  · exact rootless es b none within
  · intro r h q w _ done
    obtain ⟨_, _, whole⟩ := edited_append_eq_some h
    rw [replay_append] at done
    obtain ⟨_, _, whole'⟩ := edited_append_eq_some done
    have within' : Within n ys := fun e member =>
      within e (List.mem_append_right _ (List.mem_cons_of_mem _ member))
    exact rootless ys v none within' r whole r w (.inr rfl) whole'

theorem settled_within (n : Nat) : ∀ es b, Within n es → Settled es b := by
  induction n with
  | zero =>
    refine settled_of_rootless fun es b rootless within => ?_
    cases es with
    | nil => exact settled_nil b
    | cons e es =>
      have none := rootless e List.mem_cons_self
      exact absurd (List.length_eq_zero_iff.mp (Nat.le_zero.mp (within e List.mem_cons_self))) none
  | succ n ih => exact settled_of_rootless fun es b rootless within =>
      settled_rootless ih rootless within b

/-- The replay of edits, when it succeeds, gives what the edits gave. -/
theorem settled (es : List Edit) (b : Value) : Settled es b := by
  have bounded : ∃ n, Within n es := by
    induction es with
    | nil => exact ⟨0, nofun⟩
    | cons e es ih =>
      obtain ⟨n, within⟩ := ih
      refine ⟨max e.1.length n, List.forall_mem_cons.mpr ⟨Nat.le_max_left .., ?_⟩⟩
      exact fun e' member => Nat.le_trans (within e' member) (Nat.le_max_right ..)
  obtain ⟨n, within⟩ := bounded
  exact settled_within n es b within

end RecordFlow.Value
