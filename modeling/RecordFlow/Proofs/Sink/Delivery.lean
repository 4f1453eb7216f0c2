import RecordFlow.Proofs.Sink.Words

/-!
# What a sink is handed

A write hands a sink the records of its source in order, up to the first failure: an error in the
source, or a record that the sink does not take. Only where there is none is the sink asked to
finish. The notes of a sink about what it was asked show this without a change of the write, and the
counts of a write that succeeds are the sums over what the sink said, kept in words.
-/
namespace RecordFlow

/-- What a sink can be asked to do. -/
inductive Request where
  | write (r : Record)
  | finish

namespace Written

variable {σ ν : Type}

def after (log : Log) (w : Written σ ν) : Written σ ν := { w with log := log ++ w.log }

/-- The same write to a sink that keeps notes. -/
def withNotes (notes : List Request) (w : Written σ ν) : Written (σ × List Request) ν :=
  ⟨w.result, (w.state, notes), w.rest, w.log⟩

end Written

namespace Sink

variable {σ ν : Type}

/-- The sink with notes of all that it is asked to do. -/
def noted (sink : Sink σ ν) : Sink (σ × List Request) ν where
  write r state :=
    let (outcome, next, log) := sink.write r state.1
    (outcome, (next, state.2 ++ [.write r]), log)
  finish state :=
    let (result, last) := sink.finish state.1
    (result, (last, state.2 ++ [.finish]))

/-- The sink takes the records one after another, says this of them and reaches this state. -/
inductive Takes (sink : Sink σ ν) : σ → List Record → List (Outcome ν) → Log → σ → Prop
  | nothing (state : σ) : Takes sink state [] [] [] state
  | record {state next last : σ} {r : Record} {outcome : Outcome ν} {log later : Log}
      {records : List Record} {outcomes : List (Outcome ν)} :
      sink.write r state = (.ok outcome, next, log) →
      Takes sink next records outcomes later last →
      Takes sink state (r :: records) (outcome :: outcomes) (log ++ later) last

/-- How a write ends behind the records that were taken: what was left of the source then, what the
sink was still asked, and what the write came to. -/
inductive Ends (sink : Sink σ ν) (stats : Stats ν) (state : σ) :
    List Item → List Request → Written σ ν → Prop
  | finished {last : σ} : sink.finish state = (.ok (), last) →
      Ends sink stats state [] [.finish] ⟨.ok stats, last, [], []⟩
  | unfinished {e : Error} {last : σ} : sink.finish state = (.error e, last) →
      Ends sink stats state [] [.finish] ⟨.error e, last, [], []⟩
  | broken (e : Error) (rest : List Item) :
      Ends sink stats state (.error e :: rest) [] ⟨.error e, state, rest, []⟩
  | refused {r : Record} {e : Error} {last : σ} {log : Log} (rest : List Item) :
      sink.write r state = (.error e, last, log) →
      Ends sink stats state (.ok r :: rest) [.write r] ⟨.error e, last, rest, log⟩

variable {sink : Sink σ ν} {state reached : σ} {records : List Record}
  {outcomes : List (Outcome ν)} {log : Log} {remaining : List Item} {ending : List Request}
  {w : Written σ ν}

theorem Takes.length_eq (h : sink.Takes state records outcomes log reached) :
    outcomes.length = records.length := by
  induction h with
  | nothing => rfl
  | record _ _ ih => rw [List.length_cons, List.length_cons, ih]

/-- A sink with notes takes the same records and notes them. -/
theorem Takes.noted (h : sink.Takes state records outcomes log reached) (notes : List Request) :
    sink.noted.Takes (state, notes) records outcomes log
      (reached, notes ++ records.map Request.write) := by
  induction h generalizing notes with
  | nothing state =>
    rw [List.map_nil, List.append_nil]
    exact .nothing _
  | @record state next last r outcome log later records outcomes wrote _ ih =>
    have noted : sink.noted.write r (state, notes) =
        (.ok outcome, (next, notes ++ [.write r]), log) := by
      simp only [Sink.noted, wrote]
    have rest := ih (notes ++ [.write r])
    rw [List.append_assoc, List.singleton_append] at rest
    exact .record noted rest

theorem Ends.noted {stats : Stats ν} (h : sink.Ends stats reached remaining ending w)
    (notes : List Request) :
    sink.noted.Ends stats (reached, notes) remaining ending (w.withNotes (notes ++ ending)) := by
  cases h with
  | finished done => exact .finished (by simp only [Sink.noted, done])
  | unfinished failed => exact .unfinished (by simp only [Sink.noted, failed])
  | broken e rest =>
    rw [List.append_nil]
    exact .broken e rest
  | refused rest failed => exact .refused rest (by simp only [Sink.noted, failed])

/-- Every source divides into the records that are taken and what a write ends with. -/
theorem exists_takes (sink : Sink σ ν) (state : σ) (source : List Item) :
    ∃ records outcomes log reached remaining, source = records.map .ok ++ remaining ∧
      sink.Takes state records outcomes log reached ∧
      ∀ stats, ∃ ending w, sink.Ends stats reached remaining ending w := by
  induction source generalizing state with
  | nil =>
    refine ⟨[], [], [], state, [], rfl, .nothing state, ?_⟩
    intro stats
    rcases finished : sink.finish state with ⟨_ | ⟨⟩, last⟩
    · exact ⟨_, _, .unfinished finished⟩
    · exact ⟨_, _, .finished finished⟩
  | cons item source ih =>
    cases item with
    | error e =>
      refine ⟨[], [], [], state, _, rfl, .nothing state, ?_⟩
      intro stats
      exact ⟨_, _, .broken e source⟩
    | ok r =>
      rcases wrote : sink.write r state with ⟨e | outcome, next, log⟩
      · refine ⟨[], [], [], state, _, rfl, .nothing state, ?_⟩
        intro stats
        exact ⟨_, _, .refused source wrote⟩
      · obtain ⟨records, outcomes, later, reached, remaining, same, takes, ends⟩ := ih next
        exact ⟨r :: records, outcome :: outcomes, log ++ later, reached, remaining,
          congrArg (_ :: ·) same, .record wrote takes, ends⟩

section Counts

variable [OfNat ν 1] [Add ν]

/-- Taken records are counted, and the write goes on behind them. -/
theorem Takes.writeFrom (h : sink.Takes state records outcomes log reached) (stats : Stats ν)
    (remaining : List Item) : sink.writeFrom stats state (records.map .ok ++ remaining) =
      (sink.writeFrom (outcomes.foldl Stats.count stats) reached remaining).after log := by
  induction h generalizing stats with
  | nothing => rfl
  | record wrote _ ih =>
    rw [List.map_cons, List.cons_append, writeFrom_cons wrote, ih, List.foldl_cons]
    simp only [Written.after, List.append_assoc]

theorem Ends.writeFrom {stats : Stats ν} (h : sink.Ends stats reached remaining ending w) :
    sink.writeFrom stats reached remaining = w := by
  cases h with
  | finished done | unfinished done => rw [Sink.writeFrom, done]
  | broken e rest => rfl
  | refused rest failed => rw [Sink.writeFrom, failed]

end Counts

/-- What became of a source that was written: the records that the sink took, what it said of each
and where that led, and how the write ended on what was left. -/
structure Delivery [OfNat ν 0] [OfNat ν 1] [Add ν] (sink : Sink σ ν) (state : σ)
    (source : List Item) where
  records : List Record
  outcomes : List (Outcome ν)
  log : Log
  reached : σ
  remaining : List Item
  ending : List Request
  written : Written σ ν
  source_eq : source = records.map .ok ++ remaining
  takes : sink.Takes state records outcomes log reached
  ends : sink.Ends (outcomes.foldl Stats.count .zero) reached remaining ending written

/-- Whatever a sink does, it is handed the records before the first failure in order. If there is
none it is asked to finish, once and at last, and otherwise the first error is the result and
nothing behind it is taken from the source. The counts of a success are the words of the sums over
all its items. Where these sums fit they are the counts, and no sum on the way was too large, so
additions that are checked find no fault. -/
theorem writeAll_delivers (sink : Sink σ UInt64) (state : σ) (source : List Item) :
    ∃ d : sink.Delivery state source,
      sink.writeAll state source = d.written.after d.log ∧
      sink.noted.writeAll (state, []) source =
        (sink.writeAll state source).withNotes (d.records.map .write ++ d.ending) ∧
      ∀ stats, (sink.writeAll state source).result = .ok stats →
        let said := d.outcomes.map Outcome.numbers
        stats = (Stats.total said).inWords ∧
        (Stats.total said).seen = source.length ∧
        (Stats.total said).seen = (Stats.total said).written + (Stats.total said).skipped ∧
        ((Stats.total said).Fits →
          stats.numbers = .total said ∧ ∀ k, (Stats.total (said.take k)).Fits) := by
  obtain ⟨records, outcomes, log, reached, remaining, rfl, takes, ends⟩ :=
    sink.exists_takes state source
  obtain ⟨ending, w, ended⟩ := ends (outcomes.foldl Stats.count .zero)
  have run : sink.writeAll state (records.map .ok ++ remaining) = w.after log :=
    (takes.writeFrom .zero remaining).trans (congrArg (Written.after log) ended.writeFrom)
  refine ⟨⟨records, outcomes, log, reached, remaining, ending, w, rfl, takes, ended⟩, run, ?_, ?_⟩
  · have noted := (takes.noted []).writeFrom .zero remaining
    rw [List.nil_append, (ended.noted _).writeFrom] at noted
    rw [run]
    exact noted
  · intro stats succeeded
    rw [run] at succeeded
    cases ended with
    | finished done =>
      cases succeeded
      have words := Stats.foldl_count outcomes
      have seen : (Stats.total (outcomes.map Outcome.numbers)).seen = records.length :=
        (List.length_map _).trans takes.length_eq
      refine ⟨words, ?_, Stats.seen_total _, ?_⟩
      · refine seen.trans ?_
        rw [List.append_nil, List.length_map]
      · intro fits
        exact ⟨(congrArg Stats.numbers words).trans (Stats.numbers_inWords fits), fits.take⟩
    | unfinished | broken | refused => cases succeeded

/-- Two records that come to more bytes than a word can stand for. -/
example :
    let sink : Sink Unit UInt64 :=
      { write := fun _ state => (.ok (.written 18446744073709551615 1), state, [])
        finish := fun state => (.ok (), state) }
    (sink.writeAll () [.ok .emptyObject, .ok .emptyObject]).result =
      .ok ⟨2, 2, 0, 18446744073709551614, 2⟩ := by rfl

end Sink
end RecordFlow
