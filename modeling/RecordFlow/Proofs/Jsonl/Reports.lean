import RecordFlow.Jsonl.Reader
import RecordFlow.Proofs.Stream.Calls

/-!
# What lines come to

For the lines of an input: which of them are rejected and where reading itself failed, the item that
a line gives after the lines before it, and the line after which nothing is read any more. From this
follow the items of the whole input and how many of each kind there are.
-/
namespace RecordFlow

/-- How many of the items are errors of a kind. -/
def Item.errors (kind : String) (items : List Item) : Nat :=
  items.countP fun
    | .ok _ => false
    | .error e => e.kind == kind

theorem Item.errors_append (kind : String) (xs ys : List Item) :
    errors kind (xs ++ ys) = errors kind xs + errors kind ys := List.countP_append

namespace Jsonl

/-! ## Lines -/

/-- The line is no text, or it is neither blank nor a document. -/
def isRejected : Line → Bool
  | .error f => f.undecodable
  | .ok line =>
    let text := Text.trim line.toList
    !text.isEmpty && !(Json.parse (String.ofList text)).isOk

/-- There is no line, because reading failed. -/
def isFailure : Line → Bool
  | .error f => !f.undecodable
  | .ok _ => false

def rejections (lines : List Line) : Nat := lines.countP isRejected

def failures (lines : List Line) : Nat := lines.countP isFailure

theorem rejections_concat (lines : List Line) (line : Line) :
    rejections (lines ++ [line]) = rejections lines + (isRejected line).toNat := by
  unfold rejections
  rw [List.countP_append, List.countP_singleton]
  cases isRejected line <;> rfl

theorem failures_concat (lines : List Line) (line : Line) :
    failures (lines ++ [line]) = failures lines + (isFailure line).toNat := by
  unfold failures
  rw [List.countP_append, List.countP_singleton]
  cases isFailure line <;> rfl

namespace Reader.Reading

@[simp] def isRejected : Reading → Bool
  | rejected _ => true
  | _ => false

@[simp] def isFailure : Reading → Bool
  | failed _ => true
  | _ => false

end Reader.Reading

theorem isRejected_readLine (line : Line) :
    (Reader.readLine line).isRejected = isRejected line := by
  cases line with
  | error f =>
    rw [Reader.readLine, isRejected]
    cases f.undecodable <;> rfl
  | ok line =>
    simp only [Reader.readLine, isRejected]
    by_cases blank : (Text.trim line.toList).isEmpty = true
    · rw [if_pos blank, blank]
      rfl
    · rw [if_neg blank, Bool.eq_false_iff.mpr blank]
      cases Json.parse (String.ofList (Text.trim line.toList)) <;> rfl

theorem isFailure_readLine (line : Line) :
    (Reader.readLine line).isFailure = isFailure line := by
  cases line with
  | error f =>
    rw [Reader.readLine, isFailure]
    cases f.undecodable <;> rfl
  | ok line =>
    simp only [Reader.readLine, isFailure]
    split
    · rfl
    · cases Json.parse (String.ofList (Text.trim line.toList)) <;> rfl

/-! ## One line after others -/

variable (t : Tolerance)

/-- What is told of a rejected line, if anything: its own error, or the last error once more lines
are rejected than are put up with. -/
def complaint (before : List Line) (message : String) : Option Item :=
  let number := toString (before.length + 1)
  if !t.skipErrors then some (.error (.serialization ("line " ++ number ++ ": " ++ message)))
  else if rejections before < t.maxErrors then none
  else some (.error (.validation ("too many errors (" ++ toString (rejections before + 1) ++
    "): last error at line " ++ number ++ ": " ++ message)))

/-- What is handed out for a line, if anything: nothing for a blank line, the record for a document,
and otherwise what is told of the fault. Lines are numbered from one. -/
def report (before : List Line) : Line → Option Item
  | .error f =>
    if f.undecodable then complaint t before f.message
    else some (.error (.io ("line " ++ toString (before.length + 1) ++ ": " ++ f.message)))
  | .ok line =>
    let text := Text.trim line.toList
    if text.isEmpty then none
    else match Json.parse (String.ofList text) with
      | .ok r => some (.ok r)
      | .error e => complaint t before e.message

/-- The same, told by what a reader takes the line for. -/
theorem report_eq (before : List Line) (line : Line) : report t before line =
    match Reader.readLine line with
    | .blank => none
    | .record r => some (.ok r)
    | .failed message =>
      some (.error (.io ("line " ++ toString (before.length + 1) ++ ": " ++ message)))
    | .rejected message => complaint t before message := by
  cases line with
  | error f =>
    rw [report, Reader.readLine]
    cases f.undecodable <;> rfl
  | ok line =>
    simp only [report, Reader.readLine]
    by_cases blank : (Text.trim line.toList).isEmpty = true
    · rw [if_pos blank, if_pos blank]
    · rw [if_neg blank, if_neg blank]
      cases Json.parse (String.ofList (Text.trim line.toList)) <;> rfl

/-- Nothing is read after the line: reading failed, or more lines are rejected than are put up
with. -/
def closes (before : List Line) (line : Line) : Bool :=
  isFailure line || (t.skipErrors && isRejected line && t.maxErrors ≤ rejections before)

/-- An error that names the number of its line and, if it is the last one, the number of errors. -/
inductive Located (count number : Nat) : Error → Prop
  | failed (message : String) :
      Located count number (.io ("line " ++ toString number ++ ": " ++ message))
  | rejected (message : String) :
      Located count number (.serialization ("line " ++ toString number ++ ": " ++ message))
  | last (message : String) :
      Located count number (.validation ("too many errors (" ++ toString count ++
        "): last error at line " ++ toString number ++ ": " ++ message))

theorem located_report {before : List Line} {line : Line} {e : Error}
    (told : report t before line = some (.error e)) :
    Located (rejections before + (isRejected line).toNat + (isFailure line).toNat)
      (before.length + 1) e := by
  rw [← isRejected_readLine, ← isFailure_readLine]
  rw [report_eq] at told
  cases reading : Reader.readLine line with
  | blank => rw [reading] at told; cases told
  | record r => rw [reading] at told; cases told
  | failed m =>
    rw [reading] at told
    cases told
    exact .failed m
  | rejected m =>
    simp only [reading, complaint] at told
    split at told
    · cases told
      exact .rejected m
    · split at told
      · cases told
      · cases told
        exact .last m

/-- A line that ends the reading is reported. -/
theorem isSome_report_of_closes {before : List Line} {line : Line}
    (ends : closes t before line = true) : (report t before line).isSome = true := by
  rw [closes, ← isFailure_readLine, ← isRejected_readLine] at ends
  rw [report_eq]
  cases reading : Reader.readLine line with
  | blank => simp [reading] at ends
  | record r => rfl
  | failed m => rfl
  | rejected m =>
    obtain ⟨skips, spent⟩ : t.skipErrors = true ∧ t.maxErrors ≤ rejections before := by
      simpa [reading] using ends
    simp [complaint, skips, Nat.not_lt.mpr spent]

/-! ## Whole inputs -/

def reportsAfter : (before : List Line) → List Line → List Item
  | _, [] => []
  | before, line :: rest => (report t before line).toList ++
      if closes t before line then [] else reportsAfter (before ++ [line]) rest

/-- The items that an input gives in all. -/
def reports (lines : List Line) : List Item := reportsAfter t [] lines

def isClosedAfter : (before : List Line) → List Line → Bool
  | _, [] => false
  | before, line :: rest => closes t before line || isClosedAfter (before ++ [line]) rest

/-- One of the lines is the last one that is read. -/
def isClosed (lines : List Line) : Bool := isClosedAfter t [] lines

/-- Lines that were all read: none stands behind one that ends the reading. -/
inductive Heard : List Line → Prop
  | start : Heard []
  | line {before : List Line} (line : Line) (heard : Heard before)
      (opened : isClosed t before = false) : Heard (before ++ [line])

variable {t}

theorem Heard.before {before : List Line} {line : Line} (h : Heard t (before ++ [line])) :
    Heard t before ∧ isClosed t before = false := by
  generalize whole : before ++ [line] = lines at h
  cases h with
  | start => exact absurd whole (List.concat_ne_nil line before)
  | line last heard opened =>
    obtain ⟨rfl, -⟩ := List.append_inj' whole rfl
    exact ⟨heard, opened⟩

theorem isClosedAfter_append (before xs ys : List Line) : isClosedAfter t before (xs ++ ys) =
    (isClosedAfter t before xs || isClosedAfter t (before ++ xs) ys) := by
  induction xs generalizing before with
  | nil => rw [List.nil_append, isClosedAfter, Bool.false_or, List.append_nil]
  | cons line xs ih =>
    rw [List.cons_append, isClosedAfter, isClosedAfter, ih, Bool.or_assoc, List.append_assoc,
      List.singleton_append]

theorem reportsAfter_append (before xs ys : List Line) : reportsAfter t before (xs ++ ys) =
    reportsAfter t before xs ++
      if isClosedAfter t before xs then [] else reportsAfter t (before ++ xs) ys := by
  induction xs generalizing before with
  | nil => rw [List.append_nil]; rfl
  | cons line xs ih =>
    rw [List.cons_append, reportsAfter, reportsAfter, isClosedAfter, List.append_assoc]
    cases closes t before line with
    | true => rfl
    | false =>
      simp only [Bool.false_eq_true, if_false, Bool.false_or]
      rw [ih, List.append_assoc, List.singleton_append]

theorem isClosed_concat (before : List Line) (line : Line) :
    isClosed t (before ++ [line]) = (isClosed t before || closes t before line) := by
  rw [isClosed, isClosedAfter_append, List.nil_append, isClosedAfter, isClosedAfter,
    Bool.or_false]
  rfl

theorem reports_concat {before : List Line} (opened : isClosed t before = false) (line : Line) :
    reports t (before ++ [line]) = reports t before ++ (report t before line).toList := by
  have empty : (if closes t before line then [] else reportsAfter t (before ++ [line]) []) = [] :=
    ite_self []
  rw [isClosed] at opened
  rw [reports, reportsAfter_append, opened, List.nil_append, reportsAfter, empty, List.append_nil]
  rfl

/-! ## How many -/

theorem failures_le {lines : List Line} (h : Heard t lines) :
    failures lines ≤ (isClosed t lines).toNat := by
  induction h with
  | start => exact Nat.le_refl 0
  | line line heard opened ih =>
    rw [opened] at ih
    rw [failures_concat, isClosed_concat, opened, closes]
    cases isFailure line with
    | true => exact Nat.succ_le_succ ih
    | false => exact Nat.le_trans ih (Nat.zero_le _)

/-- Of the rejected lines, only one that ends the reading exceeds what is put up with. -/
theorem rejections_le (skips : t.skipErrors = true) {lines : List Line} (h : Heard t lines) :
    rejections lines ≤ t.maxErrors + (isClosed t lines).toNat := by
  induction h with
  | start => exact Nat.zero_le _
  | @line before line heard opened ih =>
    rw [opened] at ih
    rw [rejections_concat, isClosed_concat, opened, closes, skips]
    cases isRejected line with
    | false => exact Nat.le_trans ih (Nat.add_le_add_left (Nat.zero_le _) _)
    | true =>
      by_cases spent : t.maxErrors ≤ rejections before
      · simp only [spent, decide_true, Bool.and_true, Bool.or_true]
        exact Nat.succ_le_succ ih
      · simp only [Bool.toNat_true]
        omega

theorem failures_of_opened {lines : List Line} (h : Heard t lines)
    (opened : isClosed t lines = false) : failures lines = 0 := by
  have few := failures_le h
  rw [opened] at few
  exact Nat.le_zero.mp few

theorem rejections_le_of_opened (skips : t.skipErrors = true) {lines : List Line}
    (h : Heard t lines) (opened : isClosed t lines = false) : rejections lines ≤ t.maxErrors := by
  have few := rejections_le skips h
  rw [opened] at few
  exact few

theorem errors_report (before : List Line) (line : Line) :
    Item.errors "Io" (report t before line).toList = (isFailure line).toNat ∧
    Item.errors "Serde" (report t before line).toList =
      (!t.skipErrors && isRejected line).toNat ∧
    Item.errors "Validation" (report t before line).toList =
      (t.skipErrors && isRejected line && t.maxErrors ≤ rejections before).toNat := by
  rw [← isFailure_readLine, ← isRejected_readLine, report_eq]
  cases Reader.readLine line with
  | blank => simp [Item.errors]
  | record r => simp [Item.errors]
  | failed m => simp [Item.errors, Error.kind]
  | rejected m =>
    cases skips : t.skipErrors with
    | false => simp [complaint, skips, Item.errors, Error.kind]
    | true =>
      by_cases spent : t.maxErrors ≤ rejections before
      · simp [complaint, skips, Item.errors, Error.kind, spent, Nat.not_lt.mpr spent]
      · simp [complaint, skips, Item.errors, spent, Nat.not_le.mp spent]

/-- Every failure is reported; every rejected line is reported, or else those that are not put up
with. -/
theorem errors_reports {lines : List Line} (h : Heard t lines) :
    Item.errors "Io" (reports t lines) = failures lines ∧
    Item.errors "Serde" (reports t lines) = (if t.skipErrors then 0 else rejections lines) ∧
    Item.errors "Validation" (reports t lines) =
      if t.skipErrors then rejections lines - t.maxErrors else 0 := by
  induction h with
  | start => simp [reports, reportsAfter, Item.errors, failures, rejections]
  | @line before line heard opened ih =>
    obtain ⟨io, serde, validation⟩ := ih
    obtain ⟨moreIo, moreSerde, moreValidation⟩ := errors_report (t := t) before line
    rw [reports_concat opened, Item.errors_append, Item.errors_append, Item.errors_append, io,
      serde, validation, moreIo, moreSerde, moreValidation, failures_concat, rejections_concat]
    refine ⟨rfl, ?_, ?_⟩
    · cases t.skipErrors <;> rfl
    · cases skips : t.skipErrors with
      | false => rfl
      | true =>
        have few := rejections_le_of_opened skips heard opened
        cases isRejected line with
        | false => rfl
        | true =>
          simp only [if_true, Bool.and_self, Bool.true_and, Bool.toNat_true]
          by_cases spent : t.maxErrors ≤ rejections before
          · rw [decide_eq_true spent, Bool.toNat_true]
            omega
          · rw [decide_eq_false spent, Bool.toNat_false]
            omega

/-- A failure and an error of the last kind are told only when the reading is over. -/
theorem isClosed_of_errors {lines : List Line} (h : Heard t lines)
    (told : 0 < Item.errors "Io" (reports t lines) ∨
      0 < Item.errors "Validation" (reports t lines)) : isClosed t lines = true := by
  obtain ⟨io, -, validation⟩ := errors_reports h
  rw [io, validation] at told
  cases closed : isClosed t lines with
  | true => rfl
  | false =>
    exfalso
    rcases told with failure | rejection
    · rw [failures_of_opened h closed] at failure
      exact Nat.lt_irrefl 0 failure
    · cases skips : t.skipErrors with
      | false =>
        rw [skips] at rejection
        cases rejection
      | true =>
        rw [skips, if_pos rfl] at rejection
        exact Nat.not_lt.mpr (rejections_le_of_opened skips h closed) (Nat.lt_of_sub_pos rejection)

end Jsonl
end RecordFlow
