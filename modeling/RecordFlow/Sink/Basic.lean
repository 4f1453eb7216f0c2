import RecordFlow.Stream.Stage

/-!
# Sinks

A sink takes records one at a time and says what it did with each: wrote it, chose to skip it, or
failed. `writeAll` hands a source to a sink up to the first failure on either side and sums up what
the sink said.

What is counted may be anything that can be added up. A program counts in 64-bit words, and a sum
that is too large for a word starts again at zero, as additions do that are not checked. A sink that
says what it did in numbers without bound is one in words by `inWords`.
-/
namespace RecordFlow

inductive Outcome (ν : Type := Nat) where
  | written (bytes files : ν)
  | skipped
deriving DecidableEq, Repr

/-- A state machine that takes records. -/
structure Sink (σ : Type) (ν : Type := Nat) where
  write : Record → σ → Except Error (Outcome ν) × σ × Log
  finish : σ → Except Error Unit × σ

structure Stats (ν : Type := Nat) where
  seen : ν
  written : ν
  skipped : ν
  bytes : ν
  files : ν
deriving DecidableEq, Repr

namespace Stats

variable {ν : Type} [OfNat ν 1] [Add ν]

def zero [OfNat ν 0] : Stats ν := ⟨0, 0, 0, 0, 0⟩

def count (s : Stats ν) : Outcome ν → Stats ν
  | .written bytes files =>
    { s with
      seen := s.seen + 1
      written := s.written + 1
      bytes := s.bytes + bytes
      files := s.files + files }
  | .skipped => { s with seen := s.seen + 1, skipped := s.skipped + 1 }

/-- The counts as words keep them. -/
def inWords (s : Stats) : Stats UInt64 :=
  ⟨.ofNat s.seen, .ofNat s.written, .ofNat s.skipped, .ofNat s.bytes, .ofNat s.files⟩

/-- The numbers that the words stand for. -/
def numbers (s : Stats UInt64) : Stats :=
  ⟨s.seen.toNat, s.written.toNat, s.skipped.toNat, s.bytes.toNat, s.files.toNat⟩

end Stats

namespace Outcome

def inWords : Outcome → Outcome UInt64
  | written bytes files => written (.ofNat bytes) (.ofNat files)
  | skipped => skipped

def numbers : Outcome UInt64 → Outcome
  | written bytes files => written bytes.toNat files.toNat
  | skipped => skipped

end Outcome

/-- The end of a write: its result, the sink, the items that were not taken, and the log. -/
structure Written (σ : Type) (ν : Type := Nat) where
  result : Except Error (Stats ν)
  state : σ
  rest : List Item
  log : Log

namespace Sink

variable {σ : Type}

/-- The same sink, which says in words what it did. -/
def inWords (sink : Sink σ) : Sink σ UInt64 where
  write r state :=
    let (outcome, next, log) := sink.write r state
    (outcome.map Outcome.inWords, next, log)
  finish := sink.finish

variable {ν : Type} [OfNat ν 1] [Add ν]

/-- Hands over the items after those already counted. -/
def writeFrom (sink : Sink σ ν) (stats : Stats ν) (state : σ) : List Item → Written σ ν
  | [] =>
    match sink.finish state with
    | (.ok (), state) => ⟨.ok stats, state, [], []⟩
    | (.error e, state) => ⟨.error e, state, [], []⟩
  | .error e :: rest => ⟨.error e, state, rest, []⟩
  | .ok r :: rest =>
    match sink.write r state with
    | (.error e, state, log) => ⟨.error e, state, rest, log⟩
    | (.ok outcome, state, log) =>
      let w := writeFrom sink (stats.count outcome) state rest
      { w with log := log ++ w.log }

theorem writeFrom_cons {sink : Sink σ ν} {r : Record} {state next : σ} {outcome : Outcome ν}
    {log : Log} (wrote : sink.write r state = (.ok outcome, next, log)) (stats : Stats ν)
    (rest : List Item) : sink.writeFrom stats state (.ok r :: rest) =
      let w := sink.writeFrom (stats.count outcome) next rest
      { w with log := log ++ w.log } := by
  rw [writeFrom, wrote]

/-- A run that succeeds took its first record and succeeded on the others. -/
theorem write_of_writeFrom_cons {sink : Sink σ ν} {r : Record} {state : σ} {stats total : Stats ν}
    {rest : List Item}
    (h : (sink.writeFrom stats state (.ok r :: rest)).result = .ok total) :
    ∃ outcome next log, sink.write r state = (.ok outcome, next, log) ∧
      (sink.writeFrom (stats.count outcome) next rest).result = .ok total := by
  rw [writeFrom] at h
  split at h
  · cases h
  · next outcome next log wrote => exact ⟨outcome, next, log, wrote, h⟩

/-- Hands a whole source to the sink. The first error stops the write and is its result. -/
def writeAll [OfNat ν 0] (sink : Sink σ ν) (state : σ) (source : List Item) : Written σ ν :=
  sink.writeFrom .zero state source

/-- Offers records one by one, whatever becomes of each. -/
def offerEach (sink : Sink σ ν) (state : σ) :
    List Record → List (Except Error (Outcome ν)) × σ × Log
  | [] => ([], state, [])
  | r :: rest =>
    let (outcome, state, log) := sink.write r state
    let (outcomes, state, later) := sink.offerEach state rest
    (outcome :: outcomes, state, log ++ later)

end Sink
end RecordFlow
