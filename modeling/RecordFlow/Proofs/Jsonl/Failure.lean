import RecordFlow.Proofs.Jsonl.Account
import RecordFlow.Proofs.Jsonl.RoundTrip
import RecordFlow.Proofs.Text.Decimal

/-!
# Failures of an input

Where reading an input fails, the bytes since the last line end are lost and the failure stands in
the place of their line. A reader that has not ended before reports the failure and ends if and only
if the failure does not count as undecodable text.
-/
namespace RecordFlow.Jsonl

/-! ## The lines around a failure -/

/-- The lines of an input that have come to their end, after the bytes `reversed` of the first. -/
def endedLinesAfter (reversed : Bytes) : Input → List Line
  | [] => []
  | .error f :: rest => .error f :: endedLinesAfter [] rest
  | .ok b :: rest =>
    if b = 0x0A then endedLine reversed :: endedLinesAfter [] rest
    else endedLinesAfter (b :: reversed) rest

def endedLines (input : Input) : List Line := endedLinesAfter [] input

theorem linesAfter_failure (reversed : Bytes) (before : Input) (f : ReadFailure) (after : Input) :
    linesAfter reversed (before ++ .error f :: after) =
      endedLinesAfter reversed before ++ .error f :: lines after := by
  induction before generalizing reversed with
  | nil => rfl
  | cons event before ih =>
    cases event with
    | error g => rw [List.cons_append, linesAfter, endedLinesAfter, ih, List.cons_append]
    | ok b =>
      rw [List.cons_append, linesAfter, endedLinesAfter]
      by_cases ends : b = 0x0A
      · rw [if_pos ends, if_pos ends, ih, List.cons_append]
      · rw [if_neg ends, if_neg ends, ih]

/-! ## The text of a failure -/

/-- The number of a line ends at the colon, so the text tells the line. -/
theorem lineText_inj {n m : Nat} {a b : String}
    (h : "line " ++ toString n ++ ": " ++ a = "line " ++ toString m ++ ": " ++ b) : n = m := by
  have digits (n : Nat) (a : String) :
      (("line " ++ toString n ++ ": " ++ a).toList.drop 5).takeWhile Char.isDigit =
        Json.naturalText n := by
    have text : ("line " ++ toString n ++ ": " ++ a).toList.drop 5 =
        Json.naturalText n ++ (':' :: ' ' :: a.toList) := by
      have number : (toString n).toList = Json.naturalText n := Nat.toList_repr
      simp only [String.toList_append, number, List.append_assoc]
      rfl
    rw [text, List.takeWhile_append_of_pos fun _ => Json.isDigit_of_mem_naturalText]
    exact List.append_nil _
  have same : Json.naturalText n = Json.naturalText m := by rw [← digits n a, h, digits m b]
  rw [← Json.ofDigitChars_naturalText n, same, Json.ofDigitChars_naturalText]

variable {t : Tolerance}

theorem report_failure (before : List Line) {f : ReadFailure} (genuine : f.undecodable = false) :
    report t before (.error f) =
      some (.error (.io ("line " ++ toString (before.length + 1) ++ ": " ++ f.message))) := by
  rw [report, genuine]
  rfl

theorem closes_failure (before : List Line) {f : ReadFailure} (genuine : f.undecodable = false) :
    closes t before (.error f) = true := by
  rw [closes, isFailure, genuine]
  rfl

/-- Only a failure that is no undecodable text is told as one. -/
theorem report_io {before : List Line} {line : Line} {m : String}
    (h : report t before line = some (.error (.io m))) : ∃ f : ReadFailure,
      line = .error f ∧ f.undecodable = false ∧
      m = "line " ++ toString (before.length + 1) ++ ": " ++ f.message := by
  obtain ⟨count, -, -⟩ := errors_report (t := t) before line
  rw [h] at count
  cases line with
  | ok text => cases count
  | error f =>
    cases undecodable : f.undecodable with
    | true =>
      rw [isFailure, undecodable] at count
      cases count
    | false =>
      rw [report_failure before undecodable] at h
      cases h
      exact ⟨f, rfl, undecodable, rfl⟩

theorem mem_reportsAfter_io {before lines : List Line} {m : String}
    (h : .error (.io m) ∈ reportsAfter t before lines) : ∃ (k : Nat) (f : ReadFailure),
      lines[k]? = some (.error f) ∧ f.undecodable = false ∧
      m = "line " ++ toString (before.length + k + 1) ++ ": " ++ f.message := by
  induction lines generalizing before with
  | nil => cases h
  | cons line rest ih =>
    rw [reportsAfter, List.mem_append, Option.mem_toList] at h
    rcases h with here | there
    · obtain ⟨f, rfl, genuine, text⟩ := report_io here
      exact ⟨0, f, rfl, genuine, text⟩
    · split at there
      · cases there
      · obtain ⟨k, f, found, genuine, text⟩ := ih there
        rw [List.length_append, List.length_singleton, Nat.add_assoc _ 1, Nat.add_comm 1] at text
        exact ⟨k + 1, f, found, genuine, text⟩

/-- A reader that a failure finds still reading hands out one error for it, with the number of its
line, and then nothing, if and only if the failure does not count as undecodable text. -/
theorem failure_ends_iff (t : Tolerance) (before : Input) (f : ReadFailure) (after : Input)
    (opened : isClosed t (endedLines before) = false) :
    (∀ calls, ((Source.openLines t (before ++ .error f :: after)).after calls).next.1 =
      (reports t (endedLines before) ++ [.error (.io ("line " ++
        toString ((endedLines before).length + 1) ++ ": " ++ f.message))])[calls]?) ↔
      f.undecodable = false := by
  have whole : reports t (lines (before ++ .error f :: after)) = reports t (endedLines before) ++
      reportsAfter t (endedLines before) (.error f :: lines after) := by
    rw [isClosed] at opened
    rw [reports, lines, linesAfter_failure, reportsAfter_append, ← endedLines, opened]
    rfl
  simp only [Source.openLines, Reader.next_after, ← List.ext_getElem?_iff, whole,
    List.append_cancel_left_eq]
  constructor
  · intro same
    have told := List.mem_singleton_self (.error (.io ("line " ++
      toString ((endedLines before).length + 1) ++ ": " ++ f.message)) : Item)
    rw [← same] at told
    obtain ⟨k, g, found, genuine, text⟩ := mem_reportsAfter_io told
    have here := lineText_inj text
    have first : k = 0 := by omega
    rw [first] at found
    cases found
    exact genuine
  · intro genuine
    rw [reportsAfter, report_failure _ genuine, closes_failure _ genuine]
    rfl

/-- Reading fails inside the third line, whose beginning would be a document. -/
theorem failure_ends_inside_line :
    let before : Input := .ofBytes (Utf8.ofString "{}\n\nnull")
    let f : ReadFailure := ⟨false, "corrupt stream"⟩
    let after : Input := .ofBytes (Utf8.ofString "\n{}\n")
    isClosed ⟨true, 0⟩ (endedLines before) = false ∧
    ∀ calls, ((Source.openLines ⟨true, 0⟩ (before ++ .error f :: after)).after calls).next.1 =
      [.ok .emptyObject, .error (.io "line 3: corrupt stream")][calls]? := by
  intro before f after
  have opened : isClosed ⟨true, 0⟩ (endedLines before) = false := by decide
  have items : reports ⟨true, 0⟩ (endedLines before) = [.ok .emptyObject] := rfl
  have ends := (failure_ends_iff ⟨true, 0⟩ before f after opened).mpr rfl
  have number : (endedLines before).length + 1 = 3 := rfl
  have text : "line " ++ toString 3 ++ ": " ++ f.message = "line 3: corrupt stream" := rfl
  rw [items, number, text] at ends
  exact ⟨opened, ends⟩

/-- A failure that counts as undecodable text loses the beginning of the number `1234`, and its end
is handed out as a record. -/
theorem failure_taken_for_line :
    let before : Input := .ofBytes (Utf8.ofString "{}\n12")
    let f : ReadFailure := ⟨true, "corrupt stream"⟩
    let after : Input := .ofBytes (Utf8.ofString "34\n")
    let r := Source.openLines .default (before ++ .error f :: after)
    isClosed .default (endedLines before) = false ∧
    (∀ calls, (r.after calls).next.1 = [.ok .emptyObject, .ok (.number (.ofWord 34))][calls]?) ∧
    ¬ ∀ calls, (r.after calls).next.1 =
      [.ok .emptyObject, .error (.io "line 2: corrupt stream")][calls]? := by
  intro before f after r
  have portable : Value.Portable (.number (.ofWord 34)) := ⟨by decide, by decide, by decide⟩
  have text : Json.compact (.number (.ofWord 34)) = "34" := by decide
  have last := readLine_compact portable
  rw [text] at last
  have told : report .default [.ok "{}", .error f] (.ok "34") =
      some (.ok (.number (.ofWord 34))) := by rw [report_eq, last]
  have silent : report .default [.ok "{}"] (.error f) = none := rfl
  have stays : closes .default [.ok "{}"] (.error f) = false := rfl
  have items : reports .default [.ok "{}", .error f, .ok "34"] =
      [.ok .emptyObject, .ok (.number (.ofWord 34))] := by
    simp only [reports, reportsAfter, List.nil_append, List.cons_append, told, silent, stays,
      Option.toList_none, Bool.false_eq_true, if_false, ite_self]
    rfl
  have answers (calls : Nat) : (r.after calls).next.1 =
      [.ok .emptyObject, .ok (.number (.ofWord 34))][calls]? := by
    rw [← items]
    exact Reader.next_after .default _ calls
  refine ⟨by decide, answers, ?_⟩
  intro claimed
  have second := (answers 1).symm.trans (claimed 1)
  cases second

end RecordFlow.Jsonl
