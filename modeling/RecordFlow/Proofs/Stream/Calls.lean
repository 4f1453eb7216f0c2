import RecordFlow.Stream.Basic

/-!
# Calls to a stream

The rules of one call, and the state that a chain of adapters is in once a beginning of the source
has gone through it. A call keeps that description: it takes more of the source and hands out what
the stages, as functions on lists, make of it.
-/
namespace RecordFlow

def Item.records (items : List Item) : Nat := items.countP Item.isRecord

namespace Item

@[simp] theorem records_nil : records [] = 0 := rfl

@[simp] theorem records_ok (r : Record) (items : List Item) :
    records (.ok r :: items) = records items + 1 := List.countP_cons_of_pos rfl

@[simp] theorem records_error (e : Error) (items : List Item) :
    records (.error e :: items) = records items := List.countP_cons_of_neg nofun

@[simp] theorem records_append (xs ys : List Item) :
    records (xs ++ ys) = records xs + records ys := List.countP_append

end Item

namespace Adapter

/-- What the adapter will do to the items still to come. -/
def stage : Adapter → Stage
  | filter f _ _ => .filter f
  | transform t _ _ => .transform t
  | limit remaining => .limit remaining

/-- The adapter of a stage once `items` have gone through it. -/
def ran : Stage → List Item → Adapter
  | .filter f, items =>
    filter f (Item.records items) (Item.records (Stage.onItems (.filter f) items))
  | .transform t, items =>
    transform t (Item.records items) (Item.records (Stage.onItems (.transform t) items))
  | .limit n, items => limit (n - Item.records items)

end Adapter

namespace Stage

theorem takeRecords_zero (items : List Item) : takeRecords 0 items = [] := by
  cases items <;> rfl

theorem takeRecords_append (n : Nat) (xs ys : List Item) :
    takeRecords n (xs ++ ys) = takeRecords n xs ++ takeRecords (n - Item.records xs) ys := by
  induction xs generalizing n with
  | nil => cases n <;> rfl
  | cons item xs ih =>
    cases n with
    | zero => simp only [takeRecords_zero, Nat.zero_sub, List.nil_append]
    | succ n =>
      cases item with
      | error e => simpa [takeRecords] using ih (n + 1)
      | ok r => simpa [takeRecords] using ih n

theorem records_takeRecords (n : Nat) (items : List Item) :
    Item.records (takeRecords n items) = min n (Item.records items) := by
  induction items generalizing n with
  | nil => cases n <;> simp [takeRecords]
  | cons item items ih =>
    cases n with
    | zero => simp [takeRecords_zero]
    | succ n =>
      cases item with
      | error e => simpa [takeRecords] using ih (n + 1)
      | ok r => simp only [takeRecords, Item.records_ok, ih, Nat.succ_min_succ]

theorem onItems_nil (stage : Stage) : stage.onItems [] = [] := by
  cases stage with
  | filter f => rfl
  | transform t => rfl
  | limit n => cases n <;> rfl

theorem onItems_append (stage : Stage) (xs ys : List Item) :
    stage.onItems (xs ++ ys) = stage.onItems xs ++ (Adapter.ran stage xs).stage.onItems ys := by
  cases stage with
  | filter f => exact List.filter_append ..
  | transform t => exact List.map_append
  | limit n => exact takeRecords_append n xs ys

theorem allOnItems_concat (stages : List Stage) (stage : Stage) (items : List Item) :
    allOnItems (stages ++ [stage]) items = stage.onItems (allOnItems stages items) := by
  simp only [allOnItems, List.foldl_append, List.foldl_cons, List.foldl_nil]

theorem allOnItems_prefix (stages : List Stage) {xs ys : List Item} (h : xs <+: ys) :
    allOnItems stages xs <+: allOnItems stages ys := by
  induction stages generalizing xs ys with
  | nil => exact h
  | cons stage stages ih =>
    obtain ⟨more, rfl⟩ := h
    exact ih ⟨_, (onItems_append stage xs more).symm⟩

end Stage

namespace Adapter

theorem onItems_of_closed {a : Adapter} (h : a.isClosed = true) (items : List Item) :
    a.stage.onItems items = [] := by
  cases a with
  | filter f pulled produced => cases h
  | transform t pulled produced => cases h
  | limit remaining =>
    cases remaining with
    | zero => exact Stage.takeRecords_zero items
    | succ n => cases h

theorem isClosed_ran_limit (n : Nat) (items : List Item) :
    (ran (.limit n) items).isClosed = true ↔ n ≤ Item.records items := by
  rw [ran]
  cases left : n - Item.records items with
  | zero => simpa [isClosed] using Nat.le_of_sub_eq_zero left
  | succ m => simp only [isClosed, Bool.false_eq_true, false_iff]; omega

/-- An error passes every adapter that still asks for items and leaves it as it is. -/
theorem ran_error (stage : Stage) (items : List Item) (e : Error)
    (h : (ran stage items).isClosed = false) :
    stage.onItems (items ++ [.error e]) = stage.onItems items ++ [.error e] ∧
      ran stage (items ++ [.error e]) = ran stage items := by
  cases stage with
  | filter f =>
    simp [ran, Stage.onItems, Stage.keeps, List.filter_cons]
  | transform t =>
    simp [ran, Stage.onItems, Stage.transformed]
  | limit n =>
    refine ⟨?_, by simp [ran]⟩
    rw [Stage.onItems_append]
    cases hn : n - Item.records items with
    | zero => simp [ran, isClosed, hn] at h
    | succ m => simp [ran, stage, Stage.onItems, hn, Stage.takeRecords]

/-- What an adapter does with a record is what its stage does with one more item. -/
theorem ran_receive (stage : Stage) (items : List Item) (r : Record) {out : Option Item}
    {a : Adapter} {entries : Log} (h : (ran stage items).isClosed = false)
    (received : (ran stage items).receive r = (out, a, entries)) :
    stage.onItems (items ++ [.ok r]) = stage.onItems items ++ out.toList ∧
      a = ran stage (items ++ [.ok r]) := by
  cases stage with
  | filter f =>
    simp only [ran, receive] at received
    split at received <;> cases received <;>
      simp_all [ran, Stage.onItems, Stage.keeps]
  | transform t =>
    simp only [ran, receive] at received
    split at received <;> cases received <;>
      simp_all [ran, Stage.onItems, Stage.transformed]
  | limit n =>
    cases received
    refine ⟨?_, by simp only [ran, Item.records_append, ← Nat.sub_sub]; rfl⟩
    rw [Stage.onItems_append]
    cases hn : n - Item.records items with
    | zero => simp [ran, isClosed, hn] at h
    | succ m => cases m <;> simp [ran, stage, Stage.onItems, hn, Stage.takeRecords]

end Adapter

namespace Stage

/-- No limit has let all its records pass. -/
def Open (stages : List Stage) (items : List Item) : Prop :=
  ∀ before n behind, stages = before ++ .limit n :: behind →
    Item.records (allOnItems (before ++ [.limit n]) items) < n

theorem open_nil (items : List Item) : Open [] items := by
  intro before n behind split
  simp at split

theorem Open.concat {stages : List Stage} {stage : Stage} {items : List Item}
    (h : Open stages items)
    (last : (Adapter.ran stage (allOnItems stages items)).isClosed = false) :
    Open (stages ++ [stage]) items := by
  intro before n behind split
  rcases List.eq_nil_or_concat behind with rfl | ⟨behind, other, rfl⟩
  · obtain ⟨rfl, same⟩ := List.append_inj' split rfl
    cases same
    rw [allOnItems_concat, onItems, records_takeRecords]
    have few := mt (Adapter.isClosed_ran_limit n (allOnItems stages items)).mpr (by simp [last])
    omega
  · rw [List.concat_eq_append, ← List.cons_append, ← List.append_assoc] at split
    exact h before n behind (List.append_inj' split rfl).1

end Stage

namespace Stream

/-- The rules of one call: what it hands out, if anything, and the stream after it. -/
inductive Calls : Stream → Option Item → Stream → Prop
  | dry (n : Nat) : Calls (tap [] n) none (tap [] (n + 1))
  | item (item : Item) (rest : List Item) (n : Nat) :
      Calls (tap (item :: rest) n) (some item) (tap rest (n + 1))
  | closed {a : Adapter} {s : Stream} : a.isClosed = true → Calls (through a s) none (through a s)
  | ended {a : Adapter} {s s' : Stream} : a.isClosed = false → Calls s none s' →
      Calls (through a s) none (through a s')
  | failed {a : Adapter} {s s' : Stream} {e : Error} : a.isClosed = false →
      Calls s (some (.error e)) s' → Calls (through a s) (some (.error e)) (through a s')
  | handed {a a' : Adapter} {s s' : Stream} {r : Record} {item : Item} {entries : Log} :
      a.isClosed = false → Calls s (some (.ok r)) s' → a.receive r = (some item, a', entries) →
      Calls (through a s) (some item) (through a' s')
  | discarded {a a' : Adapter} {s s' last : Stream} {r : Record} {out : Option Item}
      {entries : Log} : a.isClosed = false → Calls s (some (.ok r)) s' →
      a.receive r = (none, a', entries) → Calls (through a' s') out last →
      Calls (through a s) out last

theorem calls_next (s : Stream) : Calls s s.next.1 s.next.2.1 := by
  unfold next
  induction s using answer.induct with
  | case1 n =>
    rw [answer]
    exact .dry n
  | case2 item rest n =>
    rw [answer]
    exact .item item rest n
  | case3 a s closed =>
    rw [answer, if_pos closed]
    exact .closed closed
  | case4 a s opened s' log property answered ih =>
    rw [answered] at ih
    rw [answer, if_neg opened, answered]
    exact .ended (Bool.eq_false_iff.mpr opened) ih
  | case5 a s opened e s' log shorter answered ih =>
    rw [answered] at ih
    rw [answer, if_neg opened, answered]
    exact .failed (Bool.eq_false_iff.mpr opened) ih
  | case6 a s opened r s' log shorter answered item a' entries received ih =>
    rw [answered] at ih
    rw [answer, if_neg opened, answered]
    simp only [received]
    exact .handed (Bool.eq_false_iff.mpr opened) ih received
  | case7 a s opened r s' log shorter answered a' entries received taken out last later rest
      answered' ih ih' =>
    rw [answered] at ih
    rw [answered'] at ih'
    rw [answer, if_neg opened, answered]
    simp only [received, answered']
    exact .discarded (Bool.eq_false_iff.mpr opened) ih received ih'

/-- Some limit of the chain has been reached. -/
def Closed (s : Stream) : Prop := ∃ a ∈ s.adapters, a.isClosed = true

theorem Closed.of_through {a : Adapter} {s : Stream} (h : (through a s).Closed) :
    a.isClosed = true ∨ s.Closed := by
  obtain ⟨b, member, closed⟩ := h
  rcases List.mem_append.mp member with inner | same
  · exact .inr ⟨b, inner, closed⟩
  · exact .inl (List.mem_singleton.mp same ▸ closed)

theorem Closed.through (a : Adapter) {s : Stream} (h : s.Closed) : (through a s).Closed := by
  obtain ⟨b, member, closed⟩ := h
  exact ⟨b, List.mem_append_left _ member, closed⟩

/-- A reached limit anywhere in the chain keeps a call from touching the source. -/
theorem Calls.of_closed {s s' : Stream} {out : Option Item} (h : Calls s out s')
    (closed : s.Closed) : out = none ∧ s' = s := by
  induction h with
  | dry n => obtain ⟨a, member, _⟩ := closed; cases member
  | item item rest n => obtain ⟨a, member, _⟩ := closed; cases member
  | closed _ => exact ⟨rfl, rfl⟩
  | ended opened _ ih =>
    obtain ⟨_, rfl⟩ := ih (closed.of_through.resolve_left (by simp [opened]))
    exact ⟨rfl, rfl⟩
  | failed opened _ ih =>
    cases (ih (closed.of_through.resolve_left (by simp [opened]))).1
  | handed opened _ _ ih =>
    cases (ih (closed.of_through.resolve_left (by simp [opened]))).1
  | discarded opened _ _ _ ih _ =>
    cases (ih (closed.of_through.resolve_left (by simp [opened]))).1

/-- The chain of the stages once the items `taken` have gone through it. -/
inductive Ran : List Stage → List Item → Stream → Prop
  | tap (taken items : List Item) (n : Nat) : Ran [] taken (tap items n)
  | through {stages : List Stage} {taken : List Item} {s : Stream} (stage : Stage) :
      Ran stages taken s →
      Ran (stages ++ [stage]) taken (through (.ran stage (Stage.allOnItems stages taken)) s)

theorem Ran.adapter {stages : List Stage} {taken : List Item} {s : Stream}
    (h : Ran stages taken s) {before behind : List Stage} {stage : Stage}
    (split : stages = before ++ stage :: behind) :
    .ran stage (Stage.allOnItems before taken) ∈ s.adapters := by
  induction h generalizing behind with
  | tap taken items n => simp at split
  | through last _ ih =>
    rcases List.eq_nil_or_concat behind with rfl | ⟨behind, other, rfl⟩
    · obtain ⟨rfl, same⟩ := List.append_inj' split rfl
      cases same
      exact List.mem_append_right _ (List.mem_singleton.mpr rfl)
    · rw [List.concat_eq_append, ← List.cons_append, ← List.append_assoc] at split
      exact List.mem_append_left _ (ih (List.append_inj' split rfl).1)

theorem Ran.outputs_of_closed {stages : List Stage} {taken : List Item} {s : Stream}
    (h : Ran stages taken s) (closed : s.Closed) (more : List Item) :
    Stage.allOnItems stages (taken ++ more) = Stage.allOnItems stages taken := by
  induction h with
  | tap taken items n => obtain ⟨a, member, _⟩ := closed; cases member
  | @through stages taken s stage _ ih =>
    simp only [Stage.allOnItems_concat]
    rcases closed.of_through with reached | inner
    · obtain ⟨rest, split⟩ := Stage.allOnItems_prefix stages (List.prefix_append taken more)
      rw [← split, Stage.onItems_append, Adapter.onItems_of_closed reached, List.append_nil]
    · rw [ih inner]

/-- What a call does that takes the items `passed` from the source: an item comes out exactly when
the last of them has been taken, and nothing comes out only at a reached limit or at the end. The
source is called only while no limit is reached. -/
structure Took (stages : List Stage) (taken passed : List Item) (s : Stream) (out : Option Item)
    (s' : Stream) : Prop where
  source : s.source = passed ++ s'.source
  ran : Ran stages (taken ++ passed) s'
  outputs : Stage.allOnItems stages (taken ++ passed) =
    Stage.allOnItems stages taken ++ out.toList
  pulls : out.isSome → s'.pulls = s.pulls + passed.length
  least : out.isSome → ∀ n < passed.length,
    Stage.allOnItems stages (taken ++ passed.take n) = Stage.allOnItems stages taken
  stopped : out = none → s'.Closed ∧ s'.pulls = s.pulls + passed.length ∨
    s'.source = [] ∧ s'.pulls = s.pulls + passed.length + 1
  opened : ∀ n, s.pulls + n < s'.pulls → Stage.Open stages (taken ++ passed.take n)

/-- Before the last call to the source nothing comes out. -/
theorem Took.held {stages : List Stage} {taken passed : List Item} {s s' : Stream}
    {out : Option Item} (h : Took stages taken passed s out s') {n : Nat}
    (earlier : s.pulls + n < s'.pulls) :
    Stage.allOnItems stages (taken ++ passed.take n) = Stage.allOnItems stages taken := by
  cases out with
  | some item =>
    have pulls := h.pulls rfl
    exact h.least rfl n (by omega)
  | none =>
    have all := h.outputs
    rw [Option.toList_none, List.append_nil] at all
    have begin : taken ++ passed.take n <+: taken ++ passed :=
      (List.prefix_append_right_inj taken).mpr (List.take_prefix n passed)
    have above := Stage.allOnItems_prefix stages (List.prefix_append taken (passed.take n))
    have below := Stage.allOnItems_prefix stages begin
    rw [all] at below
    exact (List.IsPrefix.eq_of_length_le above below.length_le).symm

/-- An adapter asks only while it is not closed itself. -/
theorem Took.opened_through {stages : List Stage} {stage : Stage} {taken passed : List Item}
    {s s' : Stream} {out : Option Item} (h : Took stages taken passed s out s')
    (opened : (Adapter.ran stage (Stage.allOnItems stages taken)).isClosed = false) {n : Nat}
    (earlier : s.pulls + n < s'.pulls) :
    Stage.Open (stages ++ [stage]) (taken ++ passed.take n) :=
  (h.opened n earlier).concat (by rw [h.held earlier]; exact opened)

/-- The adapter hands out one item for the one it gets. -/
theorem Took.handed {stages : List Stage} {stage : Stage} {taken passed : List Item}
    {s s' : Stream} {item out : Item} (took : Took stages taken passed s (some item) s')
    (opened : (Adapter.ran stage (Stage.allOnItems stages taken)).isClosed = false)
    (outputs : stage.onItems (Stage.allOnItems stages taken ++ [item]) =
      stage.onItems (Stage.allOnItems stages taken) ++ [out]) :
    Took (stages ++ [stage]) taken passed
      (through (.ran stage (Stage.allOnItems stages taken)) s) (some out)
      (through (.ran stage (Stage.allOnItems stages taken ++ [item])) s') := by
  refine ⟨took.source, ?_, ?_, took.pulls, ?_, nofun, ?_⟩
  · simpa only [took.outputs, Option.toList_some] using Ran.through stage took.ran
  · simpa only [Stage.allOnItems_concat, took.outputs, Option.toList_some] using outputs
  · intro _ n short
    simp only [Stage.allOnItems_concat, took.least rfl n short]
  · intro n more
    exact took.opened_through opened more

/-- The adapter drops the item it gets, and the call goes on. -/
theorem Took.discarded {stages : List Stage} {stage : Stage} {taken first second : List Item}
    {s s' last : Stream} {item : Item} {out : Option Item} {a : Adapter}
    (took : Took stages taken first s (some item) s')
    (opened : (Adapter.ran stage (Stage.allOnItems stages taken)).isClosed = false)
    (outputs : stage.onItems (Stage.allOnItems stages taken ++ [item]) =
      stage.onItems (Stage.allOnItems stages taken))
    (later : Took (stages ++ [stage]) (taken ++ first) second (through a s') out last) :
    Took (stages ++ [stage]) taken (first ++ second)
      (through (.ran stage (Stage.allOnItems stages taken)) s) out last := by
  have dropped : Stage.allOnItems (stages ++ [stage]) (taken ++ first) =
      Stage.allOnItems (stages ++ [stage]) taken := by
    simpa only [Stage.allOnItems_concat, took.outputs, Option.toList_some] using outputs
  have source : s'.source = second ++ last.source := later.source
  have pulls : s'.pulls = s.pulls + first.length := took.pulls rfl
  have behind : ∀ n, first.length ≤ n →
      taken ++ (first ++ second).take n = taken ++ first ++ second.take (n - first.length) := by
    intro n after
    rw [List.take_append, List.take_of_length_le after, List.append_assoc]
  constructor
  case source =>
    rw [List.append_assoc, ← source]
    exact took.source
  case ran => simpa only [List.append_assoc] using later.ran
  case outputs => rw [← List.append_assoc, later.outputs, dropped]
  case pulls =>
    intro some
    rw [later.pulls some, List.length_append, ← Nat.add_assoc]
    exact congrArg (· + second.length) pulls
  case least =>
    intro some n short
    rcases Nat.lt_or_ge n first.length with before | after
    · rw [List.take_append_of_le_length (Nat.le_of_lt before)]
      simp only [Stage.allOnItems_concat, took.least rfl n before]
    · have short' : n - first.length < second.length := by
        rw [List.length_append] at short; omega
      rw [behind n after, later.least some _ short', dropped]
  case stopped =>
    intro none
    rw [List.length_append]
    rcases later.stopped none with ⟨closed, more⟩ | ⟨dry, more⟩
    · exact .inl ⟨closed, by simp only [Stream.pulls, pulls] at more ⊢; omega⟩
    · exact .inr ⟨dry, by simp only [Stream.pulls, pulls] at more ⊢; omega⟩
  case opened =>
    intro n more
    rcases Nat.lt_or_ge n first.length with before | after
    · rw [List.take_append_of_le_length (Nat.le_of_lt before)]
      exact took.opened_through opened (by omega)
    · rw [behind n after]
      exact later.opened _ (by simp only [Stream.pulls] at more ⊢; omega)

/-- A call keeps the description of the chain by the items taken. -/
theorem Calls.took {s s' : Stream} {out : Option Item} (h : Calls s out s')
    {stages : List Stage} {taken : List Item} (ran : Ran stages taken s) :
    ∃ passed, Took stages taken passed s out s' := by
  induction h generalizing stages taken with
  | dry n =>
    cases ran
    refine ⟨[], rfl, .tap .., by simp, nofun, nofun, fun _ => .inr ⟨rfl, rfl⟩, fun _ _ => ?_⟩
    exact Stage.open_nil _
  | item item rest n =>
    cases ran
    refine ⟨[item], rfl, .tap .., rfl, fun _ => rfl, fun _ n short => ?_, nofun, fun _ _ => ?_⟩
    · obtain rfl : n = 0 := by simpa using short
      simp
    · exact Stage.open_nil _
  | @closed a s closed =>
    refine ⟨[], rfl, by simpa using ran, by simp, nofun, nofun, fun _ => .inl ⟨?_, rfl⟩, ?_⟩
    · exact ⟨a, by simp [adapters], closed⟩
    · exact fun n more => absurd more (Nat.not_lt.mpr (Nat.le_add_right ..))
  | ended opened _ ih =>
    cases ran with
    | through stage inner =>
      obtain ⟨passed, took⟩ := ih inner
      have same := took.outputs.trans (List.append_nil _)
      refine ⟨passed, took.source, ?_, ?_, nofun, nofun, fun _ => ?_, fun n more => ?_⟩
      · simpa only [same] using Ran.through stage took.ran
      · simp only [Stage.allOnItems_concat, same, Option.toList_none, List.append_nil]
      · rcases took.stopped rfl with ⟨closed, pulls⟩ | dry
        · exact .inl ⟨closed.through _, pulls⟩
        · exact .inr dry
      · exact took.opened_through opened more
  | @failed a s s' e opened _ ih =>
    cases ran with
    | through stage inner =>
      obtain ⟨passed, took⟩ := ih inner
      have step := Adapter.ran_error stage _ e opened
      exact ⟨passed, step.2 ▸ took.handed opened step.1⟩
  | handed opened _ received ih =>
    cases ran with
    | through stage inner =>
      obtain ⟨passed, took⟩ := ih inner
      have step := Adapter.ran_receive stage _ _ opened received
      exact ⟨passed, step.2 ▸ took.handed opened step.1⟩
  | discarded opened _ received _ ih ih' =>
    cases ran with
    | through stage inner =>
      obtain ⟨first, took⟩ := ih inner
      have step := Adapter.ran_receive stage _ _ opened received
      have ran' := Ran.through stage took.ran
      rw [took.outputs, Option.toList_some, ← step.2] at ran'
      obtain ⟨second, later⟩ := ih' ran'
      have outputs := step.1.trans (List.append_nil _)
      exact ⟨first ++ second, took.discarded opened outputs later⟩

end Stream
end RecordFlow
