import RecordFlow.Stream.Stage

/-!
# Record streams

A stream hands out items one call at a time. It is a source, or an adapter over another stream. An
adapter calls the stream under it until it has an item to hand on: a filter passes over the records
it discards, and a limit that is reached makes no more calls. Adapters count the records they take
and the records they hand on.
-/
namespace RecordFlow

inductive Adapter where
  | filter (f : Filter) (pulled produced : Nat)
  | transform (t : Transform) (pulled produced : Nat)
  | limit (remaining : Nat)

inductive Stream where
  /-- The items still to come and the calls made so far. -/
  | tap (items : List Item) (pulls : Nat)
  | through (a : Adapter) (upstream : Stream)

namespace Adapter

def start : Stage → Adapter
  | .filter f => filter f 0 0
  | .transform t => transform t 0 0
  | .limit n => limit n

/-- A limit that has let all its records pass. -/
def isClosed : Adapter → Bool
  | limit 0 => true
  | _ => false

/-- What becomes of a record: the item handed on, or nothing if the record is discarded. -/
def receive (r : Record) : Adapter → Option Item × Adapter × Log
  | filter f pulled produced =>
    if f.evaluate r then (some (.ok r), filter f (pulled + 1) (produced + 1), [])
    else (none, filter f (pulled + 1) produced,
      [⟨.trace, "filter '" ++ f.tag ++ "' discarded record #" ++ toString (pulled + 1)⟩])
  | transform t pulled produced =>
    match t.evaluate r with
    | .ok out => (some (.ok out), transform t (pulled + 1) (produced + 1), [])
    | .error e => (some (.error e), transform t (pulled + 1) produced,
      [⟨.trace, "transform failed on record #" ++ toString (pulled + 1)⟩])
  | limit remaining => (some (.ok r), limit (remaining - 1), [])

end Adapter

namespace Stream

def source : Stream → List Item
  | tap items _ => items
  | through _ s => s.source

def pulls : Stream → Nat
  | tap _ n => n
  | through _ s => s.pulls

/-- The adapters, the one next to the source first. -/
def adapters : Stream → List Adapter
  | tap _ _ => []
  | through a s => s.adapters ++ [a]

def attach (s : Stream) (stage : Stage) : Stream := through (.start stage) s

def start (stages : List Stage) (source : List Item) : Stream :=
  stages.foldl attach (tap source 0)

/-- What a call gives: an item or the end, the stream after it, and the log. -/
abbrev Answer := Option Item × Stream × Log

/-- One call. Every item takes at least one from the source, so a filter that discards records comes
to an end. -/
def answer : (s : Stream) →
    { a : Answer // a.1.isSome → a.2.1.source.length < s.source.length }
  | tap [] n => ⟨(none, tap [] (n + 1), []), nofun⟩
  | tap (item :: rest) n => ⟨(some item, tap rest (n + 1), []), fun _ => Nat.lt_succ_self _⟩
  | through a s =>
    if a.isClosed then ⟨(none, through a s, []), nofun⟩
    else match s.answer with
      | ⟨(none, s, log), _⟩ => ⟨(none, through a s, log), nofun⟩
      | ⟨(some (.error e), s, log), shorter⟩ => ⟨(some (.error e), through a s, log), shorter⟩
      | ⟨(some (.ok r), s', log), shorter⟩ =>
        match a.receive r with
        | (some item, a, entries) => ⟨(some item, through a s', log ++ entries), shorter⟩
        | (none, a, entries) =>
          have taken : s'.source.length < s.source.length := shorter rfl
          match (through a s').answer with
          | ⟨(out, s, later), rest⟩ =>
            ⟨(out, s, log ++ entries ++ later), fun h => Nat.lt_trans (rest h) taken⟩
termination_by s => (s.source.length, sizeOf s)
decreasing_by
  · simp only [source]
    exact Prod.Lex.right _ (by simp only [through.sizeOf_spec]; omega)
  · exact Prod.Lex.left _ _ taken

/-- The item handed out, or nothing at the end, and the stream after it. -/
def next (s : Stream) : Answer := s.answer.1

/-- Bounds for the number of items to come. Transforms keep the number; filters and limits say
nothing. -/
def sizeHint : Stream → Nat × Option Nat
  | tap items _ => (items.length, some items.length)
  | through (.transform ..) s => s.sizeHint
  | through _ _ => (0, none)

/-- An item with the calls made to the source when it was handed out. -/
structure Drawn where
  item : Item
  pulls : Nat

def drawWithin : (calls : Nat) → Stream → List Drawn × Stream × Log
  | 0, s => ([], s, [])
  | calls + 1, s =>
    match s.next with
    | (none, s, log) => ([], s, log)
    | (some item, s, log) =>
      let (drawn, last, later) := drawWithin calls s
      (⟨item, s.pulls⟩ :: drawn, last, log ++ later)

/-- All items up to the first end. Every item takes at least one from the source. -/
def draw (s : Stream) : List Drawn × Stream × Log := drawWithin (s.source.length + 1) s

def collectWithin : (calls : Nat) → Stream → Except Error (List Record) × Stream × Log
  | 0, s => (.ok [], s, [])
  | calls + 1, s =>
    match s.next with
    | (none, s, log) => (.ok [], s, log)
    | (some (.error e), s, log) => (.error e, s, log)
    | (some (.ok r), s, log) =>
      let (records, last, later) := collectWithin calls s
      (records.map (r :: ·), last, log ++ later)

/-- The records up to the end, or the first error. -/
def collect (s : Stream) : Except Error (List Record) × Stream × Log :=
  collectWithin (s.source.length + 1) s

end Stream
end RecordFlow
