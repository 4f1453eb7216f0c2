import RecordFlow.Sink.Basic

/-!
# Counts in words

What a sink says is summed up in words. The words are those of the sums, and they stand for the sums
as long as these fit. A sink that answers in numbers does the same in words, with the words of its
counts for a result.
-/
namespace RecordFlow

namespace Outcome

def isWritten : Outcome → Bool
  | written _ _ => true
  | skipped => false

def bytes : Outcome → Nat
  | written bytes _ => bytes
  | skipped => 0

def files : Outcome → Nat
  | written _ files => files
  | skipped => 0

theorem inWords_numbers (outcome : Outcome UInt64) : outcome.numbers.inWords = outcome := by
  cases outcome <;> simp [numbers, inWords]

end Outcome

namespace Stats

def sumOf (size : Outcome → Nat) (outcomes : List Outcome) : Nat :=
  outcomes.foldr (fun outcome sum => size outcome + sum) 0

/-- The counts of some outcomes. -/
def total (outcomes : List Outcome) : Stats where
  seen := outcomes.length
  written := outcomes.countP Outcome.isWritten
  skipped := outcomes.countP (!·.isWritten)
  bytes := sumOf Outcome.bytes outcomes
  files := sumOf Outcome.files outcomes

/-- Every count is a number that a word can stand for. -/
structure Fits (s : Stats) : Prop where
  seen : s.seen < UInt64.size
  written : s.written < UInt64.size
  skipped : s.skipped < UInt64.size
  bytes : s.bytes < UInt64.size
  files : s.files < UInt64.size

/-! ## Sums -/

@[simp] theorem sumOf_nil (size : Outcome → Nat) : sumOf size [] = 0 := rfl

@[simp] theorem sumOf_cons (size : Outcome → Nat) (outcome : Outcome) (outcomes : List Outcome) :
    sumOf size (outcome :: outcomes) = size outcome + sumOf size outcomes := rfl

theorem sumOf_append (size : Outcome → Nat) (outcomes more : List Outcome) :
    sumOf size (outcomes ++ more) = sumOf size outcomes + sumOf size more := by
  induction outcomes with
  | nil => exact (Nat.zero_add _).symm
  | cons first outcomes ih => rw [List.cons_append, sumOf_cons, sumOf_cons, ih, Nat.add_assoc]

/-- One more outcome is counted. -/
theorem count_total (outcomes : List Outcome) (outcome : Outcome) :
    (total outcomes).count outcome = total (outcomes ++ [outcome]) := by
  cases outcome <;>
    simp [count, total, sumOf_append, List.countP_append, Outcome.isWritten, Outcome.bytes,
      Outcome.files]

theorem seen_total (outcomes : List Outcome) :
    (total outcomes).seen = (total outcomes).written + (total outcomes).skipped := by
  have split := outcomes.length_eq_countP_add_countP Outcome.isWritten
  simpa [total] using split

/-- The sums of a beginning are no larger, so they fit if those of the whole do. -/
theorem Fits.take {outcomes : List Outcome} (h : (total outcomes).Fits) (k : Nat) :
    (total (outcomes.take k)).Fits := by
  have within := List.take_sublist k outcomes
  have sums (size : Outcome → Nat) : sumOf size (outcomes.take k) ≤ sumOf size outcomes := by
    have whole := sumOf_append size (outcomes.take k) (outcomes.drop k)
    rw [List.take_append_drop] at whole
    exact whole ▸ Nat.le_add_right _ _
  exact ⟨Nat.lt_of_le_of_lt within.length_le h.seen,
    Nat.lt_of_le_of_lt within.countP_le h.written, Nat.lt_of_le_of_lt within.countP_le h.skipped,
    Nat.lt_of_le_of_lt (sums Outcome.bytes) h.bytes,
    Nat.lt_of_le_of_lt (sums Outcome.files) h.files⟩

/-! ## Words -/

theorem numbers_inWords {s : Stats} (h : s.Fits) : s.inWords.numbers = s := by
  simp only [numbers, inWords, UInt64.toNat_ofNat_of_lt' h.seen,
    UInt64.toNat_ofNat_of_lt' h.written, UInt64.toNat_ofNat_of_lt' h.skipped,
    UInt64.toNat_ofNat_of_lt' h.bytes, UInt64.toNat_ofNat_of_lt' h.files]

theorem inWords_count (s : Stats) (outcome : Outcome) :
    (s.count outcome).inWords = s.inWords.count outcome.inWords := by
  cases outcome <;> simp [count, inWords, Outcome.inWords]

/-- Counting in words comes to the words of the sums. -/
theorem foldl_count (outcomes : List (Outcome UInt64)) :
    outcomes.foldl count zero = (total (outcomes.map Outcome.numbers)).inWords := by
  have onwards (before : List Outcome) : outcomes.foldl count (total before).inWords =
      (total (before ++ outcomes.map Outcome.numbers)).inWords := by
    induction outcomes generalizing before with
    | nil => rw [List.map_nil, List.append_nil, List.foldl_nil]
    | cons outcome outcomes ih =>
      have step : (total before).inWords.count outcome =
          (total (before ++ [outcome.numbers])).inWords := by
        rw [← count_total, inWords_count, Outcome.inWords_numbers]
      rw [List.foldl_cons, step, ih, List.append_assoc, List.map_cons, List.singleton_append]
  exact onwards []

end Stats

/-! ## Sinks that answer in numbers -/

def Written.inWords {σ : Type} (w : Written σ) : Written σ UInt64 :=
  ⟨w.result.map Stats.inWords, w.state, w.rest, w.log⟩

namespace Sink

variable {σ : Type}

theorem writeFrom_inWords (sink : Sink σ) (stats : Stats) (state : σ) (source : List Item) :
    sink.inWords.writeFrom stats.inWords state source =
      (sink.writeFrom stats state source).inWords := by
  induction source generalizing stats state with
  | nil =>
    rw [writeFrom, writeFrom]
    rcases finished : sink.finish state with ⟨_ | ⟨⟩, last⟩ <;>
      simp only [inWords, finished, Written.inWords, Except.map]
  | cons item source ih =>
    cases item with
    | error e => rfl
    | ok r =>
      rcases wrote : sink.write r state with ⟨e | outcome, next, log⟩
      · have same : sink.inWords.write r state = (.error e, next, log) := by
          simp only [inWords, wrote, Except.map]
        rw [writeFrom, writeFrom, same, wrote]
        rfl
      · have same : sink.inWords.write r state = (.ok outcome.inWords, next, log) := by
          simp only [inWords, wrote, Except.map]
        rw [writeFrom_cons same, writeFrom_cons wrote, ← Stats.inWords_count, ih]
        rfl

/-- A sink that answers in numbers does the same in words: the counts are the words of its counts,
and all else is as before. -/
theorem writeAll_inWords (sink : Sink σ) (state : σ) (source : List Item) :
    sink.inWords.writeAll state source = (sink.writeAll state source).inWords :=
  sink.writeFrom_inWords .zero state source

end Sink
end RecordFlow
