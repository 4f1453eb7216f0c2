import RecordFlow.Jsonl.Reader
import RecordFlow.Jsonl.Writer
import RecordFlow.Proofs.Json.RoundTrip
import RecordFlow.Proofs.Text.Trim
import RecordFlow.Source.Open

/-!
# Reading back the lines that were written

A portable record is written as one line: its document holds no line end, is not blank and loses
nothing when it is trimmed. Reading the lines of any records gives those records in order.
-/
namespace RecordFlow

namespace Text

theorem isBlank_of_isVisible {c : Char} (h : Json.IsVisible c) : isBlank c = false := by
  obtain ⟨least, greatest⟩ := h
  simp only [isBlank, Bool.or_eq_false_iff, Bool.and_eq_false_iff, beq_eq_false_iff_ne,
    decide_eq_false_iff_not]
  omega

end Text

namespace Jsonl

/-! ## One line -/

theorem document_eq_encode (r : Record) : document r = Utf8.encode (Json.compactText r) := by
  rw [document, Json.compact, Utf8.ofString_ofList]

theorem document_printable {r : Record} (h : r.Portable) {b : UInt8} (member : b ∈ document r) :
    0x20 ≤ b.toNat := by
  rw [document_eq_encode] at member
  exact Utf8.le_of_mem_encode (by decide) (Json.compactText_printable r h.whole) member

theorem readLine_compact {r : Record} (h : r.Portable) :
    Reader.readLine (.ok (Json.compact r)) = .record r := by
  obtain ⟨c, after, first, here, -⟩ := Json.compactText_first h.whole
  obtain ⟨before, d, last, there⟩ := Json.compactText_last h.whole
  have trimmed : Text.trim (Json.compact r).toList = Json.compactText r := by
    rw [Json.compact, String.toList_ofList]
    exact Text.trim_of_ends first last (Text.isBlank_of_isVisible here)
      (Text.isBlank_of_isVisible there)
  have nonempty : (Json.compactText r).isEmpty = false := by rw [first]; rfl
  have parsed : Json.parse (String.ofList (Json.compactText r)) = .ok r := Json.parse_compact h
  simp only [Reader.readLine, trimmed, nonempty, Bool.false_eq_true, if_false, parsed]

theorem linesAfter_append {bytes : Bytes} (h : 0x0A ∉ bytes) (reversed : Bytes) (rest : Input) :
    linesAfter reversed (Input.ofBytes bytes ++ .ok 0x0A :: rest) =
      endedLine (bytes.reverse ++ reversed) :: linesAfter [] rest := by
  induction bytes generalizing reversed with
  | nil => rfl
  | cons b bytes ih =>
    rw [List.mem_cons, not_or] at h
    rw [Input.ofBytes, List.map_cons, List.cons_append, linesAfter, if_neg (Ne.symm h.1),
      ← Input.ofBytes, ih h.2, List.reverse_cons, List.append_assoc]
    rfl

theorem endedLine_reverse {bytes : Bytes} (h : 0x0D ∉ bytes) :
    endedLine bytes.reverse = decodeLine bytes := by
  rw [endedLine.eq_def]
  split
  · next carriage =>
    refine absurd ?_ h
    rw [← List.mem_reverse, carriage]
    exact List.mem_cons_self
  · rw [List.reverse_reverse]

/-- Every document and the line feed after it. -/
def text (records : List Record) : Bytes := records.flatMap fun r => document r ++ [0x0A]

theorem text_cons (r : Record) (records : List Record) :
    text (r :: records) = document r ++ 0x0A :: text records := by
  rw [text, List.flatMap_cons, List.append_assoc]
  rfl

theorem lines_text {records : List Record} (h : ∀ r ∈ records, r.Portable) :
    lines (Input.ofBytes (text records)) = records.map fun r => .ok (Json.compact r) := by
  induction records with
  | nil => rfl
  | cons r records ih =>
    obtain ⟨here, there⟩ := List.forall_mem_cons.mp h
    have free {b : UInt8} (control : b.toNat < 0x20) : b ∉ document r := fun member =>
      absurd (document_printable here member) (Nat.not_le.mpr control)
    have decoded : decodeLine (document r) = .ok (Json.compact r) := by
      rw [decodeLine, document, Utf8.toString?_ofString]
    have bytes : Input.ofBytes (text (r :: records)) =
        Input.ofBytes (document r) ++ .ok 0x0A :: Input.ofBytes (text records) := by
      rw [text_cons, Input.ofBytes, List.map_append]
      rfl
    rw [bytes, lines, linesAfter_append (free (by decide)), List.append_nil,
      endedLine_reverse (free (by decide)), decoded, ← lines, ih there]
    rfl

/-! ## Whole runs -/

/-- A reader over written lines hands out the record of each line and then ends. -/
theorem Reader.takeWithin_text {records : List Record} (h : ∀ r ∈ records, r.Portable)
    (reader : Reader) (lines : reader.lines = records.map fun r => .ok (Json.compact r))
    (ready : reader.isDone = false) {calls : Nat} (enough : records.length < calls) :
    reader.takeWithin calls = (records.map .ok,
      { reader with
        lines := []
        lineNumber := reader.lineNumber + records.length
        recordsRead := reader.recordsRead + records.length
        isDone := true }, []) := by
  induction records generalizing reader calls with
  | nil =>
    cases calls with
    | zero => cases enough
    | succ calls =>
      rw [Reader.takeWithin, Reader.next, ready, lines]
      rfl
  | cons r records ih =>
    cases calls with
    | zero => cases enough
    | succ calls =>
      obtain ⟨here, there⟩ := List.forall_mem_cons.mp h
      have read : reader.next = (some (.ok r),
          { reader with
            lines := records.map fun r => .ok (Json.compact r)
            lineNumber := reader.lineNumber + 1
            recordsRead := reader.recordsRead + 1 }, []) := by
        simp only [Reader.next, ready, Bool.false_eq_true, if_false, lines, List.map_cons,
          Reader.nextFrom, readLine_compact here]
      rw [Reader.takeWithin, read]
      have later := ih there { reader with
        lines := records.map fun r => .ok (Json.compact r)
        lineNumber := reader.lineNumber + 1
        recordsRead := reader.recordsRead + 1 } rfl ready (Nat.lt_of_succ_lt_succ enough)
      dsimp only
      rw [later]
      simp [Nat.add_assoc, Nat.add_comm 1]

theorem writeFrom_records (stats : Stats) (taken : Bytes) (records : List Record) :
    sink.writeFrom stats ⟨taken, none⟩ (records.map .ok) =
      ⟨.ok { stats with
          seen := stats.seen + records.length
          written := stats.written + records.length
          bytes := stats.bytes + (text records).length },
        ⟨taken ++ text records, none⟩, [], []⟩ := by
  induction records generalizing stats taken with
  | nil => simp [Sink.writeFrom, sink, text]
  | cons r records ih =>
    have wrote : sink.write r ⟨taken, none⟩ =
        (.ok (.written ((document r).length + 1) 0), ⟨taken ++ document r ++ [0x0A], none⟩, []) :=
      rfl
    rw [List.map_cons, Sink.writeFrom_cons wrote, ih, Stats.count, text_cons]
    simp [Nat.add_assoc, Nat.add_comm 1]

/-- Portable records are written, and their bytes counted, without fail; reading what was written
gives the same records in the same order and counts them, whatever faults would be put up with. -/
theorem readAll_writeAll (tolerance : Tolerance) (records : List Record)
    (h : ∀ r ∈ records, r.Portable) :
    let w := sink.writeAll (.start none) (records.map .ok)
    (∃ stats, w.result = .ok stats ∧ stats.bytes = w.state.taken.length ∧
      stats.seen = records.length ∧ stats.written = records.length) ∧
    ∃ last, (Source.openLines tolerance (.ofBytes w.state.taken)).readAll =
        (records.map .ok, last, []) ∧
      last.recordsRead = records.length ∧ last.errorCount = 0 ∧ last.isDone = true := by
  have wrote := writeFrom_records .zero [] records
  rw [← ByteSink.start, ← Sink.writeAll] at wrote
  intro w
  have written : w.state.taken = text records := by rw [show w = _ from wrote]; rfl
  refine ⟨⟨_, congrArg Written.result wrote, ?_, ?_, ?_⟩, ?_⟩
  · rw [written]; exact Nat.zero_add _
  · exact Nat.zero_add _
  · exact Nat.zero_add _
  · have opened : (Source.openLines tolerance (.ofBytes w.state.taken)).lines =
        records.map fun r => .ok (Json.compact r) := by
      rw [written]; exact lines_text h
    refine ⟨_, Reader.takeWithin_text h _ opened rfl (by simp [opened]), ?_, rfl, rfl⟩
    exact Nat.zero_add _

/-- The keys out of order, a line end and a quote inside a text, the least and the greatest whole
number, and records that are no mappings. -/
theorem readAll_writeAll_escapes :
    let records : List Record := [
      .object [("b", .string "one\n\"two\" \u2028\u0001"),
        ("a", .array [.number (.whole ⟨-9223372036854775808, by decide⟩),
          .number (.whole ⟨18446744073709551615, by decide⟩), .null]),
        ("", .emptyObject)],
      .string "  ", .null]
    let w := sink.writeAll (.start none) (records.map .ok)
    (∀ r ∈ records, r.Portable) ∧
    ∃ last, (Source.openLines ⟨false, 0⟩ (.ofBytes w.state.taken)).readAll =
        (records.map .ok, last, []) ∧
      last.recordsRead = 3 ∧ last.errorCount = 0 ∧ last.isDone = true := by
  intro records w
  have portable : ∀ r ∈ records, r.Portable := by decide
  exact ⟨portable, (readAll_writeAll ⟨false, 0⟩ records portable).2⟩

end Jsonl
end RecordFlow
