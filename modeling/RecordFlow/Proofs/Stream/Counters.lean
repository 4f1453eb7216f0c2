import RecordFlow.Proofs.Stream.Calls

/-!
# Conservation of the counters

Filters and transforms count the records they take and those they hand on; limits and errors leave
no trace. What one adapter hands on the next one takes, so the counters fit together along the whole
chain, whatever the source does and whenever the consumer stops.
-/
namespace RecordFlow

/-- The records that an adapter has taken and those that it has handed on. -/
structure Counts where
  pulled : Nat
  produced : Nat
deriving DecidableEq

namespace Adapter

def counts? : Adapter → Option Counts
  | filter _ pulled produced => some ⟨pulled, produced⟩
  | transform _ pulled produced => some ⟨pulled, produced⟩
  | limit _ => none

theorem start_eq_ran (stage : Stage) : start stage = ran stage [] := by
  cases stage <;> rfl

end Adapter

namespace Stage

/-- Filters and transforms keep counters. -/
def isCounting : Stage → Bool
  | limit _ => false
  | _ => true

/-- A record that a filter discards or a transform fails on. -/
def loses : Stage → Item → Bool
  | filter f, .ok r => !f.evaluate r
  | transform t, .ok r => !Item.isRecord (t.evaluate r)
  | _, _ => false

theorem records_filter (f : Filter) (items : List Item) :
    Item.records items =
      Item.records (onItems (.filter f) items) + items.countP (filter f).loses := by
  induction items with
  | nil => rfl
  | cons item items ih =>
    simp only [onItems] at ih ⊢
    cases item with
    | error e => simpa [List.filter_cons, keeps, loses] using ih
    | ok r => cases kept : f.evaluate r <;> simp [keeps, loses, kept, ih] <;> omega

theorem records_transform (t : Transform) (items : List Item) :
    Item.records items =
      Item.records (onItems (.transform t) items) + items.countP (transform t).loses := by
  induction items with
  | nil => rfl
  | cons item items ih =>
    simp only [onItems] at ih ⊢
    cases item with
    | error e => simpa [transformed, loses] using ih
    | ok r => cases out : t.evaluate r <;> simp [transformed, loses, out, Item.isRecord, ih] <;> omega

variable {stage : Stage} {reaching got : List Item}

theorem records_eq_add_lost (counting : stage.isCounting = true) (items : List Item) :
    Item.records items = Item.records (stage.onItems items) + items.countP stage.loses := by
  cases stage with
  | filter f => exact records_filter f items
  | transform t => exact records_transform t items
  | limit n => cases counting

theorem counts?_ran (counting : stage.isCounting = true) (items : List Item) :
    (Adapter.ran stage items).counts? =
      some ⟨Item.records items, Item.records (stage.onItems items)⟩ := by
  cases stage with
  | filter f => rfl
  | transform t => rfl
  | limit n => cases counting

theorem counts?_ran_limit (counting : stage.isCounting = false) (items : List Item) :
    (Adapter.ran stage items).counts? = none := by
  cases stage with
  | filter f => cases counting
  | transform t => cases counting
  | limit n => rfl

/-- What a stage hands on of the items that reach it. A limit hands on all of them: once it is
reached, it no longer asks for any. -/
structure Hands (stage : Stage) (reaching got : List Item) : Prop where
  outputs : got = stage.onItems reaching
  limited : stage.isCounting = false → got = reaching

theorem hands_nil (stage : Stage) : stage.Hands [] [] :=
  ⟨(onItems_nil stage).symm, fun _ => rfl⟩

theorem Hands.error (h : stage.Hands reaching got) (e : Error)
    (opened : (Adapter.ran stage reaching).isClosed = false) :
    stage.Hands (reaching ++ [.error e]) (got ++ [.error e]) := by
  constructor
  · rw [(Adapter.ran_error stage reaching e opened).1, h.outputs]
  · intro limit
    rw [h.limited limit]

theorem Hands.record (h : stage.Hands reaching got) {r : Record} {out : Option Item} {a : Adapter}
    {entries : Log} (opened : (Adapter.ran stage reaching).isClosed = false)
    (received : (Adapter.ran stage reaching).receive r = (out, a, entries)) :
    stage.Hands (reaching ++ [.ok r]) (got ++ out.toList) := by
  constructor
  · rw [(Adapter.ran_receive stage reaching r opened received).1, h.outputs]
  · intro limit
    cases stage with
    | filter f => cases limit
    | transform t => cases limit
    | limit n =>
      cases received
      rw [h.limited limit]
      rfl

end Stage

namespace Stream

/-- The counters along the chain, those next to the source first. -/
def counts (s : Stream) : List Counts := s.adapters.filterMap Adapter.counts?

/-- The stream with other items to come from its source. -/
def refill (items : List Item) : Stream → Stream
  | tap _ n => tap items n
  | through a s => through a (refill items s)

/-- A chain in use: its source has handed out the items `given`, and the consumer has received the
items `got`. Before any call the source may come to have other items, so it may go on after an
end, and it may go on for ever. -/
inductive Used (stages : List Stage) : (given got : List Item) → Stream → Prop
  | start (items : List Item) : Used stages [] [] (start stages items)
  | refill {given got : List Item} {s : Stream} (items : List Item) :
      Used stages given got s → Used stages given got (refill items s)
  | call {given passed got : List Item} {s : Stream} : Used stages given got s →
      s.source = passed ++ s.next.2.1.source →
      Used stages (given ++ passed) (got ++ s.next.1.toList) s.next.2.1

/-! ## One call -/

theorem Calls.unique {s s' t : Stream} {out other : Option Item} (h : Calls s out s')
    (h' : Calls s other t) : other = out ∧ t = s' := by
  induction h generalizing other t with
  | dry n => cases h'; exact ⟨rfl, rfl⟩
  | item item rest n => cases h'; exact ⟨rfl, rfl⟩
  | closed reached => cases h' <;> simp_all
  | ended opened calls ih =>
    cases h' with
    | closed reached => simp_all
    | ended _ calls' => obtain ⟨-, rfl⟩ := ih calls'; exact ⟨rfl, rfl⟩
    | failed _ calls' => cases (ih calls').1
    | handed _ calls' _ => cases (ih calls').1
    | discarded _ calls' _ _ => cases (ih calls').1
  | failed opened calls ih =>
    cases h' with
    | closed reached => simp_all
    | ended _ calls' => cases (ih calls').1
    | failed _ calls' => obtain ⟨same, rfl⟩ := ih calls'; exact ⟨same, rfl⟩
    | handed _ calls' _ => cases (ih calls').1
    | discarded _ calls' _ _ => cases (ih calls').1
  | handed opened calls received ih =>
    cases h' with
    | closed reached => simp_all
    | ended _ calls' => cases (ih calls').1
    | failed _ calls' => cases (ih calls').1
    | handed _ calls' received' =>
      obtain ⟨same, rfl⟩ := ih calls'
      cases same
      cases received.symm.trans received'
      exact ⟨rfl, rfl⟩
    | discarded _ calls' received' _ =>
      cases (ih calls').1
      cases received.symm.trans received'
  | discarded opened calls received _ ih later =>
    cases h' with
    | closed reached => simp_all
    | ended _ calls' => cases (ih calls').1
    | failed _ calls' => cases (ih calls').1
    | handed _ calls' received' =>
      cases (ih calls').1
      cases received.symm.trans received'
    | discarded _ calls' received' calls'' =>
      obtain ⟨same, rfl⟩ := ih calls'
      cases same
      cases received.symm.trans received'
      exact later calls''

theorem Calls.passed {s s' : Stream} {out : Option Item} (h : Calls s out s') :
    ∃ passed, s.source = passed ++ s'.source := by
  induction h with
  | dry n => exact ⟨[], rfl⟩
  | item item rest n => exact ⟨[item], rfl⟩
  | closed _ => exact ⟨[], rfl⟩
  | ended _ _ ih => exact ih
  | failed _ _ ih => exact ih
  | handed _ _ _ ih => exact ih
  | discarded _ _ _ _ ih later =>
    obtain ⟨first, split⟩ := ih
    obtain ⟨second, split'⟩ := later
    refine ⟨first ++ second, ?_⟩
    rw [List.append_assoc, ← split']
    exact split

variable {stages : List Stage} {stage : Stage} {given got passed : List Item} {s s' t t' : Stream}
  {out : Option Item}

theorem Used.calls (used : Used stages given got s) (h : Calls s out s')
    (split : s.source = passed ++ s'.source) :
    Used stages (given ++ passed) (got ++ out.toList) s' := by
  obtain ⟨rfl, rfl⟩ := h.unique (calls_next s)
  exact .call used split

/-! ## The last adapter -/

/-- The last adapter of a chain in use has received what the chain before it has handed out. -/
def Fed (stages : List Stage) (stage : Stage) (given got : List Item) (t : Stream) : Prop :=
  ∃ reaching s, t = through (.ran stage reaching) s ∧ Used stages given reaching s ∧
    stage.Hands reaching got

/-- A call of the last adapter to the chain before it. -/
theorem Fed.asks {a : Adapter} (fed : Fed stages stage given got (through a s))
    (h : Calls s out s') :
    ∃ reaching passed, a = .ran stage reaching ∧ s.source = passed ++ s'.source ∧
      Used stages (given ++ passed) (reaching ++ out.toList) s' ∧ stage.Hands reaching got := by
  obtain ⟨reaching, s, shape, used, hands⟩ := fed
  cases shape
  obtain ⟨passed, split⟩ := h.passed
  exact ⟨reaching, passed, rfl, split, used.calls h split, hands⟩

theorem Calls.fed (h : Calls t out t') (fed : Fed stages stage given got t) :
    ∃ passed, t.source = passed ++ t'.source ∧
      Fed stages stage (given ++ passed) (got ++ out.toList) t' := by
  induction h generalizing given got with
  | dry n => obtain ⟨_, _, shape, _⟩ := fed; cases shape
  | item item rest n => obtain ⟨_, _, shape, _⟩ := fed; cases shape
  | closed _ => exact ⟨[], rfl, by simpa using fed⟩
  | ended opened calls _ =>
    obtain ⟨reaching, passed, rfl, split, used, hands⟩ := fed.asks calls
    rw [Option.toList_none, List.append_nil] at used ⊢
    exact ⟨passed, split, reaching, _, rfl, used, hands⟩
  | @failed _ _ _ e opened calls _ =>
    obtain ⟨reaching, passed, rfl, split, used, hands⟩ := fed.asks calls
    refine ⟨passed, split, reaching ++ [.error e], _, ?_, used, hands.error e opened⟩
    rw [(Adapter.ran_error stage reaching e opened).2]
  | @handed _ _ _ _ r _ _ opened calls received _ =>
    obtain ⟨reaching, passed, rfl, split, used, hands⟩ := fed.asks calls
    refine ⟨passed, split, reaching ++ [.ok r], _, ?_, used, hands.record opened received⟩
    rw [(Adapter.ran_receive stage reaching r opened received).2]
  | @discarded _ _ _ _ _ r _ _ opened calls received _ _ later =>
    obtain ⟨reaching, first, rfl, split, used, hands⟩ := fed.asks calls
    have hands' := hands.record opened received
    rw [Option.toList_none, List.append_nil] at hands'
    obtain ⟨second, split', fed'⟩ := later
      ⟨reaching ++ [.ok r], _, by rw [(Adapter.ran_receive stage reaching r opened received).2],
        used, hands'⟩
    refine ⟨first ++ second, ?_, by rwa [← List.append_assoc]⟩
    rw [List.append_assoc, ← split']
    exact split

theorem Used.fed (used : Used (stages ++ [stage]) given got t) :
    Fed stages stage given got t := by
  induction used with
  | start items =>
    refine ⟨[], Stream.start stages items, ?_, .start items, stage.hands_nil⟩
    rw [Stream.start, List.foldl_append, ← Adapter.start_eq_ran]
    rfl
  | refill items _ ih =>
    obtain ⟨reaching, s, rfl, used, hands⟩ := ih
    exact ⟨reaching, _, rfl, .refill items used, hands⟩
  | call _ split ih =>
    obtain ⟨passed, split', fed⟩ := (calls_next _).fed ih
    obtain rfl := List.append_cancel_right (split.symm.trans split')
    exact fed

theorem Used.of_nil (used : Used [] given got s) : got = given ∧ s.adapters = [] := by
  suffices shape : got = given ∧ ∃ items n, s = tap items n by
    obtain ⟨same, items, n, rfl⟩ := shape
    exact ⟨same, rfl⟩
  induction used with
  | start items => exact ⟨rfl, items, 0, rfl⟩
  | refill items _ ih =>
    obtain ⟨same, _, n, rfl⟩ := ih
    exact ⟨same, items, n, rfl⟩
  | @call _ passed _ _ _ split ih =>
    obtain ⟨rfl, items, n, rfl⟩ := ih
    have call := calls_next (tap items n)
    generalize (tap items n).next.1 = out, (tap items n).next.2.1 = last at call split
    cases call with
    | dry n =>
      cases (List.append_eq_nil_iff.mp split.symm).1
      exact ⟨rfl, [], n + 1, rfl⟩
    | item item rest n =>
      have one : [item] ++ rest = passed ++ rest := split
      cases List.append_cancel_right one
      exact ⟨rfl, rest, n + 1, rfl⟩

/-! ## The whole chain -/

theorem adapters_through (a : Adapter) (s : Stream) :
    (through a s).adapters = s.adapters ++ [a] := rfl

theorem counts_through (a : Adapter) (s : Stream) :
    (through a s).counts = s.counts ++ a.counts?.toList := by
  rw [counts, adapters_through, List.filterMap_append]
  cases a <;> rfl

/-- Every adapter in the chain has received what the chain before it has handed out. -/
theorem Used.reaching {before behind : List Stage}
    (used : Used (before ++ stage :: behind) given got s) :
    ∃ reaching upstream rest, Used before given reaching upstream ∧
      s.adapters = upstream.adapters ++ .ran stage reaching :: rest := by
  obtain ⟨ends, rfl⟩ : ∃ ends : List Stage, behind = ends.reverse :=
    ⟨behind.reverse, (List.reverse_reverse behind).symm⟩
  induction ends generalizing got s with
  | nil =>
    obtain ⟨reaching, upstream, rfl, used, -⟩ := used.fed
    exact ⟨reaching, upstream, [], used, rfl⟩
  | cons last ends ih =>
    rw [List.reverse_cons, ← List.cons_append, ← List.append_assoc] at used
    obtain ⟨got', s', rfl, used', -⟩ := used.fed
    obtain ⟨reaching, upstream, rest, inner, split⟩ := ih used'
    refine ⟨reaching, upstream, rest ++ [.ran last got'], inner, ?_⟩
    rw [adapters_through, split, List.append_assoc]
    rfl

/-- What one adapter hands on the next one takes. -/
theorem Used.linked (used : Used stages given got s) :
    s.counts.map Counts.pulled ++ [Item.records got] =
      Item.records given :: s.counts.map Counts.produced := by
  obtain ⟨ends, rfl⟩ : ∃ ends : List Stage, stages = ends.reverse :=
    ⟨stages.reverse, (List.reverse_reverse stages).symm⟩
  induction ends generalizing got s with
  | nil =>
    obtain ⟨rfl, bare⟩ := used.of_nil
    rw [counts, bare]
    rfl
  | cons last ends ih =>
    rw [List.reverse_cons] at used
    obtain ⟨reaching, upstream, rfl, used', hands⟩ := used.fed
    have linked := ih used'
    rw [counts_through]
    cases counting : last.isCounting with
    | false =>
      rw [Stage.counts?_ran_limit counting, Option.toList_none, List.append_nil,
        hands.limited counting]
      exact linked
    | true =>
      rw [Stage.counts?_ran counting, Option.toList_some, List.map_append, List.map_append,
        hands.outputs]
      simp only [List.map_cons, List.map_nil]
      rw [linked]
      rfl

/-- In every chain of filters, transforms and limits, over any source and after any calls: the first
adapter that counts has taken as many records as the source has handed out, each later one as many
as the one before it has handed on, and the consumer has received as many as the last one has handed
on. The records that an adapter has taken but not handed on are those of the records that reached it
which it discarded or failed on. -/
theorem counters_conserved (used : Used stages given got s) :
    s.counts.map Counts.pulled ++ [Item.records got] =
        Item.records given :: s.counts.map Counts.produced ∧
      ∀ before stage behind, stages = before ++ stage :: behind → stage.isCounting = true →
        ∃ reaching upstream a rest c, Used before given reaching upstream ∧
          s.adapters = upstream.adapters ++ a :: rest ∧ a.counts? = some c ∧
          c.pulled = Item.records reaching ∧
          c.pulled = c.produced + reaching.countP stage.loses := by
  refine ⟨used.linked, ?_⟩
  rintro before stage behind rfl counting
  obtain ⟨reaching, upstream, rest, inner, split⟩ := used.reaching
  exact ⟨reaching, upstream, _, rest, _, inner, split, Stage.counts?_ran counting reaching, rfl,
    Stage.records_eq_add_lost counting reaching⟩

/-- An error, a discarded record and one that the transform fails on; then the source goes on, and
the limit lets one more record pass and is reached. -/
theorem counters_conserved_refilled :
    let named : Filter := .present (.path ⟨[.field "a"]⟩)
    let texts : Transform := .custom ⟨[.field "b"]⟩ ⟨"text", fun r =>
      match r.field? "a" with
      | some (.string s) => .ok (.string s)
      | _ => .error (.function "text" "no text")⟩
    let stages : List Stage := [.filter named, .limit 2, .transform texts]
    let broken : Item := .error (.internal "broken")
    let given : List Item := [broken, .ok .empty, .ok (.object [("a", .bool true)]),
      .ok (.object [("a", .string "x")])]
    let got : List Item := [broken, .error (.function "text" "no text"),
      .ok (.object [("b", .string "x")])]
    ∃ s, Used stages given got s ∧ s.counts = [⟨3, 2⟩, ⟨2, 1⟩] ∧
      s.counts.map Counts.pulled ++ [Item.records got] =
        Item.records given :: s.counts.map Counts.produced := by
  intro named texts stages broken given got
  let failing : List Item := [broken, .ok .empty, .ok (.object [("a", .bool true)])]
  let later : List Item := [.ok (.object [("a", .string "x")]), .ok (.object [("a", .string "y")])]
  have started : Used stages [] [] (Stream.start stages failing) := .start failing
  have first : Used stages [broken] [broken] _ :=
    started.calls (.failed rfl (.failed rfl (.failed rfl (.item _ _ _)))) rfl
  have second : Used stages failing [broken, .error (.function "text" "no text")] _ :=
    first.calls (.handed rfl (.handed rfl (.discarded rfl (.item _ _ _) rfl
      (.handed rfl (.item _ _ _) rfl)) rfl) rfl) rfl
  have third : Used stages given got _ :=
    (second.refill later).calls (.handed rfl (.handed rfl (.handed rfl (.item _ _ _) rfl) rfl) rfl)
      rfl
  have last : Used stages given got _ := third.calls (.ended rfl (.closed rfl)) rfl
  exact ⟨_, last, rfl, (counters_conserved last).1⟩

end Stream
end RecordFlow
