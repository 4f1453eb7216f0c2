import RecordFlow.Pipeline.Basic
import RecordFlow.Proofs.Stream.Calls

/-!
# What a pipeline run hands out, and when

A run hands out the items that its stages make of the source as a list, and each of them as soon as
the source has given enough. After a limit has been reached the source is left alone.
-/
namespace RecordFlow

namespace Stage

/-- The first `n` items of the source give `k` items, and fewer give fewer. -/
def Needs (stages : List Stage) (source : List Item) (k n : Nat) : Prop :=
  (allOnItems stages (source.take n)).length = k ∧
    ∀ m < n, (allOnItems stages (source.take m)).length < k

/-- Only one number of items is the first that is enough. -/
theorem Needs.unique {stages : List Stage} {source : List Item} {k n m : Nat}
    (h : Needs stages source k n) (h' : Needs stages source k m) : n = m := by
  rcases Nat.lt_trichotomy n m with before | same | behind
  · exact absurd h.1 (Nat.ne_of_lt (h'.2 n before))
  · exact same
  · exact absurd h'.1 (Nat.ne_of_lt (h.2 m behind))

/-- Items behind those that are enough are not needed. -/
theorem Needs.append {stages : List Stage} {source : List Item} {k n : Nat}
    (h : Needs stages source k n) (fits : k ≤ (allOnItems stages source).length)
    (more : List Item) : Needs stages (source ++ more) k n := by
  have within : n ≤ source.length := by
    apply Nat.le_of_not_lt
    intro beyond
    have few := h.2 source.length beyond
    rw [List.take_length] at few
    exact Nat.not_lt.mpr fits few
  have same (m : Nat) (upTo : m ≤ n) : (source ++ more).take m = source.take m :=
    List.take_append_of_le_length (Nat.le_trans upTo within)
  refine ⟨by rw [same n (Nat.le_refl n), h.1], ?_⟩
  intro m earlier
  rw [same m (Nat.le_of_lt earlier)]
  exact h.2 m earlier

theorem allOnItems_empty (stages : List Stage) : allOnItems stages [] = [] := by
  induction stages with
  | nil => rfl
  | cons stage stages ih =>
    simpa only [allOnItems, List.foldl_cons, onItems_nil] using ih

theorem length_takeRecords_le (n : Nat) (items : List Item) :
    (takeRecords n items).length ≤ items.length := by
  induction items generalizing n with
  | nil => cases n <;> simp [takeRecords]
  | cons item items ih =>
    cases n with
    | zero => simp [takeRecords_zero]
    | succ n => cases item <;> simpa [takeRecords] using ih _

theorem length_onItems_le (stage : Stage) (items : List Item) :
    (stage.onItems items).length ≤ items.length := by
  cases stage with
  | filter f => exact List.length_filter_le ..
  | transform t => exact Nat.le_of_eq (List.length_map _)
  | limit n => exact length_takeRecords_le n items

theorem length_allOnItems_le (stages : List Stage) (items : List Item) :
    (allOnItems stages items).length ≤ items.length := by
  induction stages generalizing items with
  | nil => exact Nat.le_refl _
  | cons stage stages ih => exact Nat.le_trans (ih _) (length_onItems_le stage items)

end Stage

namespace Stream

def after (s : Stream) : Nat → Stream
  | 0 => s
  | k + 1 => (s.after k).next.2.1

theorem after_add (s : Stream) (k m : Nat) : s.after (k + m) = (s.after k).after m := by
  induction m with
  | zero => rfl
  | succ m ih => exact congrArg (fun s : Stream => s.next.2.1) ih

theorem after_of_closed {s : Stream} (h : s.Closed) (m : Nat) : s.after m = s := by
  induction m with
  | zero => rfl
  | succ m ih => rw [after, ih]; exact ((calls_next s).of_closed h).2

theorem ran_attach {stages : List Stage} {s : Stream} (h : Ran stages [] s)
    (more : List Stage) : Ran (stages ++ more) [] (more.foldl attach s) := by
  induction more generalizing stages s with
  | nil => simpa using h
  | cons stage more ih =>
    have first : Ran (stages ++ [stage]) [] (s.attach stage) := by
      have := Ran.through stage h
      rw [Stage.allOnItems_empty] at this
      cases stage <;> exact this
    simpa using ih first

theorem source_start (stages : List Stage) (s : Stream) :
    (stages.foldl attach s).source = s.source ∧ (stages.foldl attach s).pulls = s.pulls := by
  induction stages generalizing s with
  | nil => exact ⟨rfl, rfl⟩
  | cons stage stages ih => exact ih (s.attach stage)

/-- The stream after `k` calls of a run, told by the calls made to the source. -/
structure Reached (stages : List Stage) (source : List Item) (k : Nat) (s : Stream) : Prop where
  left : s.source = source.drop s.pulls
  ran : Ran stages (source.take s.pulls) s
  outputs : Stage.allOnItems stages (source.take s.pulls) =
    (Stage.allOnItems stages source).take k
  needs : k ≤ (Stage.allOnItems stages source).length → Stage.Needs stages source k s.pulls
  opened : ∀ m < s.pulls, Stage.Open stages (source.take m)

theorem reached_start (stages : List Stage) (source : List Item) :
    Reached stages source 0 (start stages source) := by
  obtain ⟨items, pulls⟩ := source_start stages (tap source 0)
  have untouched : (start stages source).pulls = 0 := pulls
  refine ⟨by rw [untouched]; exact items, ?_, ?_, fun _ => ?_, by rw [untouched]; exact nofun⟩
  · rw [untouched]
    exact ran_attach (.tap [] source 0) stages
  · rw [untouched, List.take_zero, Stage.allOnItems_empty, List.take_zero]
  · rw [untouched]
    exact ⟨by rw [List.take_zero, Stage.allOnItems_empty]; rfl, nofun⟩

variable {stages : List Stage} {source passed : List Item} {k : Nat} {s s' : Stream}
  {out : Option Item}

theorem Reached.advance (h : Reached stages source k s)
    (took : Took stages (source.take s.pulls) passed s out s') :
    source.take s'.pulls = source.take s.pulls ++ passed ∧ s'.source = source.drop s'.pulls := by
  have split : source.drop s.pulls = passed ++ s'.source := h.left.symm.trans took.source
  have exactly : s'.pulls = s.pulls + passed.length →
      source.take s'.pulls = source.take s.pulls ++ passed ∧
        s'.source = source.drop s'.pulls := by
    intro pulls
    rw [pulls, List.take_add, ← List.drop_drop, split, List.take_left, List.drop_left]
    exact ⟨rfl, rfl⟩
  cases out with
  | some item => exact exactly (took.pulls rfl)
  | none =>
    rcases took.stopped rfl with ⟨_, pulls⟩ | ⟨dry, pulls⟩
    · exact exactly pulls
    · rw [dry, List.append_nil] at split
      rw [pulls, Nat.add_assoc, List.take_add, ← List.drop_drop, split, dry,
        List.take_of_length_le (Nat.le_succ _), List.drop_of_length_le (Nat.le_succ _)]
      exact ⟨rfl, rfl⟩

/-- No call to the source comes after a limit is reached, in this call of the run or before. -/
theorem Reached.still_opened (h : Reached stages source k s)
    (took : Took stages (source.take s.pulls) passed s out s') :
    ∀ m < s'.pulls, Stage.Open stages (source.take m) := by
  intro m earlier
  rcases Nat.lt_or_ge m s.pulls with before | within
  · exact h.opened m before
  · obtain ⟨n, rfl⟩ := Nat.exists_eq_add_of_le within
    have short : n ≤ passed.length := by
      cases out with
      | some item =>
        have pulls := took.pulls rfl
        omega
      | none => rcases took.stopped rfl with ⟨_, pulls⟩ | ⟨_, pulls⟩ <;> omega
    have split : source.drop s.pulls = passed ++ s'.source := h.left.symm.trans took.source
    rw [List.take_add, split, List.take_append_of_le_length short]
    exact took.opened n earlier

theorem Reached.finished (h : Reached stages source k s)
    (took : Took stages (source.take s.pulls) passed s none s') :
    (Stage.allOnItems stages source).length ≤ k := by
  have whole : source = source.take s.pulls ++ passed ++ s'.source := by
    rw [List.append_assoc, ← took.source, h.left, List.take_append_drop]
  have all : Stage.allOnItems stages source =
      Stage.allOnItems stages (source.take s.pulls ++ passed) := by
    rcases took.stopped rfl with ⟨closed, _⟩ | ⟨dry, _⟩
    · exact (congrArg _ whole).trans (took.ran.outputs_of_closed closed _)
    · rw [dry, List.append_nil] at whole
      exact congrArg _ whole
  rw [took.outputs, h.outputs, Option.toList_none, List.append_nil] at all
  have := congrArg List.length all
  rw [List.length_take] at this
  omega

theorem Reached.stop (h : Reached stages source k s)
    (took : Took stages (source.take s.pulls) passed s none s') :
    (Stage.allOnItems stages source)[k]? = none ∧ Reached stages source (k + 1) s' := by
  obtain ⟨taken, left⟩ := h.advance took
  have short := h.finished took
  have outputs := took.outputs
  rw [← taken, h.outputs, Option.toList_none, List.append_nil,
    List.take_of_length_le short] at outputs
  refine ⟨List.getElem?_eq_none short, left, taken ▸ took.ran, ?_, fun fits => ?_,
    h.still_opened took⟩
  · rw [outputs, List.take_of_length_le (Nat.le_succ_of_le short)]
  · omega

theorem Reached.hand {item : Item} (h : Reached stages source k s)
    (took : Took stages (source.take s.pulls) passed s (some item) s') :
    (Stage.allOnItems stages source)[k]? = some item ∧ Reached stages source (k + 1) s' := by
  obtain ⟨taken, left⟩ := h.advance took
  have outputs := took.outputs
  rw [← taken, h.outputs, Option.toList_some] at outputs
  have begin := Stage.allOnItems_prefix stages (List.take_prefix s'.pulls source)
  have size := congrArg List.length outputs
  rw [List.length_append, List.length_take, List.length_singleton] at size
  have room := begin.length_le
  have exactly : (Stage.allOnItems stages (source.take s'.pulls)).length = k + 1 := by omega
  have next := List.prefix_iff_eq_take.mp begin
  rw [exactly] at next
  refine ⟨?_, left, taken ▸ took.ran, next, fun _ => ⟨exactly, fun m earlier => ?_⟩,
    h.still_opened took⟩
  · have whole := next.symm.trans outputs
    rw [List.take_add_one, List.append_cancel_left_eq] at whole
    exact Option.toList_eq_singleton_iff.mp whole
  · rcases Nat.lt_or_ge m s.pulls with before | within
    · exact Nat.lt_succ_of_lt ((h.needs (by omega)).2 m before)
    · -- the items of this call that come before its last one give nothing
      obtain ⟨n, rfl⟩ := Nat.exists_eq_add_of_le within
      have pulls := took.pulls rfl
      have same := took.least rfl n (by omega)
      have begin : passed.take n = (source.drop s.pulls).take n := by
        rw [← h.left, took.source, List.take_append_of_le_length (by omega)]
      rw [begin, ← List.take_add] at same
      rw [same, (h.needs (by omega)).1]
      exact Nat.lt_succ_self k

theorem Reached.next (h : Reached stages source k s) :
    s.next.1 = (Stage.allOnItems stages source)[k]? ∧
      Reached stages source (k + 1) s.next.2.1 := by
  obtain ⟨passed, took⟩ := (calls_next s).took h.ran
  cases out : s.next.1 with
  | none =>
    rw [out] at took
    exact ⟨(h.stop took).1.symm, (h.stop took).2⟩
  | some item =>
    rw [out] at took
    exact ⟨(h.hand took).1.symm, (h.hand took).2⟩

theorem reached_after (stages : List Stage) (source : List Item) (k : Nat) :
    Reached stages source k ((start stages source).after k) := by
  induction k with
  | zero => exact reached_start stages source
  | succ k ih => exact ih.next.2

/-- The items drawn are those still to come, each with the calls its beginning of the source
needs. -/
theorem Reached.drawWithin (h : Reached stages source k s) (calls : Nat) :
    (s.drawWithin calls).1.map Drawn.item =
        ((Stage.allOnItems stages source).drop k).take calls ∧
      ∀ j d, (s.drawWithin calls).1[j]? = some d →
        Stage.Needs stages source (k + j + 1) d.pulls := by
  induction calls generalizing k s with
  | zero => exact ⟨by simp [Stream.drawWithin], by simp [Stream.drawWithin]⟩
  | succ calls ih =>
    obtain ⟨item, reached⟩ := h.next
    rcases answered : s.next with ⟨out, s', log⟩
    rw [answered] at item reached
    simp only [Stream.drawWithin, answered]
    cases out with
    | none =>
      have short := List.getElem?_eq_none_iff.mp item.symm
      exact ⟨by simp [List.drop_of_length_le short], by simp⟩
    | some out =>
      obtain ⟨fits, rfl⟩ := List.getElem?_eq_some_iff.mp item.symm
      obtain ⟨items, needs⟩ := ih reached
      refine ⟨?_, fun j d drawn => ?_⟩
      · rw [List.map_cons, items, List.drop_eq_getElem_cons fits, List.take_succ_cons]
      · cases j with
        | zero =>
          cases drawn
          exact reached.needs fits
        | succ j =>
          have := needs j d drawn
          rwa [Nat.add_right_comm k 1 j] at this

/-- The records that a limit has let pass tell whether it is reached. -/
theorem Reached.closed (h : Reached stages source k s) {before behind : List Stage} {n : Nat}
    (split : stages = before ++ .limit n :: behind)
    (passed : Item.records
      (Stage.allOnItems (before ++ [.limit n]) (source.take s.pulls)) = n) : s.Closed := by
  refine ⟨_, h.ran.adapter split, ?_⟩
  rw [Stage.allOnItems_concat, Stage.onItems, Stage.records_takeRecords] at passed
  have spent : n - Item.records (Stage.allOnItems before (source.take s.pulls)) = 0 := by omega
  rw [Adapter.ran, spent]
  rfl

end Stream

namespace Pipeline

/-- A run hands out, call by call, what the stages make of the source as a list; it takes for each
item the shortest beginning of the source that gives it; it calls the source only while every limit
has records left to let pass; and once a limit has let all its records pass, further calls leave the
source alone. -/
theorem run_computes_stages (stages : List Stage) (source : List Item) :
    (∀ k, (((Pipeline.mk stages).run source).after k).next.1 =
      (Stage.allOnItems stages source)[k]?) ∧
    (∀ k ≤ (Stage.allOnItems stages source).length,
      Stage.Needs stages source k (((Pipeline.mk stages).run source).after k).pulls) ∧
    ((Pipeline.mk stages).run source).draw.1.map Stream.Drawn.item =
      Stage.allOnItems stages source ∧
    (∀ k d, ((Pipeline.mk stages).run source).draw.1[k]? = some d →
      Stage.Needs stages source (k + 1) d.pulls) ∧
    (∀ k, ∀ m < (((Pipeline.mk stages).run source).after k).pulls,
      Stage.Open stages (source.take m)) ∧
    ∀ k before n behind, stages = before ++ .limit n :: behind →
      Item.records (Stage.allOnItems (before ++ [.limit n])
        (source.take (((Pipeline.mk stages).run source).after k).pulls)) = n →
      ∀ m, (((Pipeline.mk stages).run source).after (k + m)).pulls =
        (((Pipeline.mk stages).run source).after k).pulls := by
  have reached := Stream.reached_after stages source
  have drawn := (Stream.reached_start stages source).drawWithin
    ((Stream.start stages source).source.length + 1)
  have untouched : (Stream.start stages source).source = source :=
    (Stream.source_start stages (.tap source 0)).1
  refine ⟨fun k => (reached k).next.1, fun k fits => (reached k).needs fits, ?_, ?_,
    fun k => (reached k).opened, ?_⟩
  · refine drawn.1.trans ?_
    rw [List.drop_zero, List.take_of_length_le]
    rw [untouched]
    exact Nat.le_succ_of_le (Stage.length_allOnItems_le stages source)
  · intro k d member
    simpa only [Nat.zero_add] using drawn.2 k d member
  · intro k before n behind split passed m
    have closed := (reached k).closed split passed
    exact congrArg Stream.pulls
      ((Stream.after_add _ k m).trans (Stream.after_of_closed closed m))

/-- As long as a beginning of the source gives the items that are asked for, the items behind it
have no part in the answers and are not called for. So every demand on a source without end is
answered as by a beginning of it that is long enough. -/
theorem run_beginning (stages : List Stage) (source more : List Item) {k : Nat}
    (fits : k ≤ (Stage.allOnItems stages source).length) :
    (∀ j < k, (((Pipeline.mk stages).run (source ++ more)).after j).next.1 =
      (((Pipeline.mk stages).run source).after j).next.1) ∧
    (((Pipeline.mk stages).run (source ++ more)).after k).pulls =
      (((Pipeline.mk stages).run source).after k).pulls := by
  have begin := Stage.allOnItems_prefix stages (List.prefix_append source more)
  constructor
  · intro j earlier
    refine (Stream.reached_after stages _ j).next.1.trans ?_
    refine Eq.trans ?_ (Stream.reached_after stages source j).next.1.symm
    obtain ⟨rest, whole⟩ := begin
    rw [← whole, List.getElem?_append_left (Nat.lt_of_lt_of_le earlier fits)]
  · have needs := ((Stream.reached_after stages source k).needs fits).append fits more
    have both := (Stream.reached_after stages (source ++ more) k).needs
      (Nat.le_trans fits begin.length_le)
    exact both.unique needs

end Pipeline
end RecordFlow
