import RecordFlow.Proofs.Format.Sample
import RecordFlow.Source.Basic

/-!
# Opening a file that its name tells nothing about

The format of such a file is taken from a sample of its first bytes. A file of written mappings
gives them back for every sample that is long enough: one mapping is read as a document, more of
them line by line.
-/
namespace RecordFlow

/-! ## Items one after another -/

/-- Fewer calls give the beginning of what more calls give. -/
theorem Jsonl.Reader.take_takeWithin (r : Reader) (calls more : Nat) :
    (r.takeWithin (calls + more)).1.take calls = (r.takeWithin calls).1 := by
  induction calls generalizing r with
  | zero => rfl
  | succ calls ih =>
    rw [Nat.succ_add, takeWithin, takeWithin]
    rcases r.next with ⟨_ | item, r, log⟩
    · rfl
    · exact congrArg (item :: ·) (ih r)

namespace Source

theorem take_lines (reader : Jsonl.Reader) (calls : Nat) :
    ((lines reader).take calls).1 = (reader.takeWithin calls).1 := by
  induction calls generalizing reader with
  | zero => rfl
  | succ calls ih =>
    rw [take, next, Jsonl.Reader.takeWithin]
    rcases reader.next with ⟨_ | item, reader, log⟩
    · rfl
    · exact congrArg (item :: ·) (ih reader)

theorem take_items (rest : List Item) (calls : Nat) :
    ((items rest).take calls).1 = rest.take calls := by
  induction calls generalizing rest with
  | zero => rfl
  | succ calls ih =>
    cases rest with
    | nil => rfl
    | cons item rest => exact congrArg (item :: ·) (ih rest)

/-! ## Written records in either format -/

variable {records : List Record}

theorem take_openLines (tolerance : Jsonl.Tolerance) (portable : ∀ r ∈ records, r.Portable)
    (calls : Nat) : ((lines (openLines tolerance (.ofBytes (Jsonl.text records)))).take calls).1 =
      (records.map .ok).take calls := by
  have enough : records.length < calls + (records.length + 1) := by omega
  have all := Jsonl.Reader.takeWithin_text portable
    (openLines tolerance (.ofBytes (Jsonl.text records))) (Jsonl.lines_text portable) rfl enough
  rw [take_lines, ← Jsonl.Reader.take_takeWithin _ calls (records.length + 1), all]

theorem readDocument_text {r : Record} (h : r.Portable) :
    readDocument (.ofBytes (Jsonl.text [r])) = .ok r := by
  have line : Jsonl.text [r] = Utf8.encode (Json.compactText r) ++ [0x0A] := by
    rw [Jsonl.text_cons, Jsonl.document_eq_encode]
    rfl
  have read : Json.document (Utf8.encode (Json.compactText r) ++ [0x0A]) = .ok r :=
    Json.document_followed h ⟨by decide, by decide, by decide, by decide⟩ rfl
  simp only [readDocument, Input.readable_ofBytes, Input.failure?_ofBytes, line, read]

theorem ofInput_document (shown : String) (tolerance : Jsonl.Tolerance) {r : Record}
    (h : r.Portable) (mapping : r.isObject = true) :
    ofInput shown tolerance .json (.ofBytes (Jsonl.text [r])) = .ok (items [.ok r]) := by
  unfold ofInput
  rw [readDocument_text h]
  cases r with
  | object fields => rfl
  | _ => cases mapping

/-- A file with a name that tells nothing is read in the format of its sample. -/
theorem openAny_unnamed {v : Files.Volume} {path : String} {bytes : Bytes}
    (file : v.find? path = .ok (.file bytes)) (unnamed : Format.ofPath path = (.unknown, .none))
    (tolerance : Jsonl.Tolerance) (sampleSize : Nat) :
    ∃ log, openAny v path tolerance sampleSize =
      (ofInput (v.shown path) tolerance (.ofSample (bytes.take sampleSize)) (.ofBytes bytes),
        log) := by
  have noDirectory : JsonFiles.start v path =
      .error (.validation ("not a directory: " ++ v.shown path)) := by
    rw [JsonFiles.start, file]
  have opened : v.openFile path .none = .ok (.ofBytes bytes) := by
    rw [Files.Volume.openFile, file]
    rfl
  have sniffed : sniff sampleSize (.ofBytes bytes) = .ok (.ofSample (bytes.take sampleSize)) := by
    unfold sniff
    rw [Input.failure?_ofBytes, Input.readable_ofBytes]
  unfold openAny
  rw [noDirectory, unnamed]
  dsimp only
  rw [formatOf, opened, Except.bind, sniffed]
  refine ⟨_, congrArg (·, _) ?_⟩
  unfold openAs
  split
  · next unknown =>
    rw [unknown]
    rfl
  · rw [opened]
    rfl

/-- Mappings are written as lines to a file whose name tells neither a format nor a compression.
Whatever is put up with in lines, opening the file gives exactly these mappings in order, if the
sample has a byte and, where there are more lines than one, reaches into the second one. Memory is
taken to hold a sample of any size. -/
theorem openAny_written {v : Files.Volume} {path : String} {first : Record}
    {others : List Record} {sampleSize : Nat} (tolerance : Jsonl.Tolerance)
    (portable : ∀ r ∈ first :: others, r.Portable)
    (mappings : ∀ r ∈ first :: others, r.isObject = true)
    (file : v.find? path = .ok (.file
      (Jsonl.sink.writeAll (.start none) ((first :: others).map .ok)).state.taken))
    (unnamed : Format.ofPath path = (.unknown, .none))
    (enough : (if others = [] then 1 else (Jsonl.document first).length + 2) ≤ sampleSize) :
    ∃ source log, openAny v path tolerance sampleSize = (.ok source, log) ∧
      ∀ calls, (source.take calls).1 = ((first :: others).map .ok).take calls := by
  have written : (Jsonl.sink.writeAll (.start none) ((first :: others).map .ok)).state.taken =
      Jsonl.text (first :: others) :=
    congrArg (·.state.taken) (Jsonl.writeFrom_records .zero [] (first :: others))
  obtain ⟨log, opened⟩ := openAny_unnamed (written ▸ file) unnamed tolerance sampleSize
  rw [Format.ofSample_text portable mappings enough] at opened
  by_cases alone : others = []
  · subst alone
    have read := ofInput_document (v.shown path) tolerance
      (portable first List.mem_cons_self) (mappings first List.mem_cons_self)
    rw [if_pos rfl, read] at opened
    exact ⟨_, log, opened, take_items _⟩
  · rw [if_neg alone] at opened
    exact ⟨_, log, opened, take_openLines tolerance portable⟩

/-- A sample that ends inside a character of the second line. -/
theorem openAny_written_cut :
    let first : Record := .object [("a", .null)]
    let second : Record := .object [("é", .string "\n")]
    let bytes := (Jsonl.sink.writeAll (.start none) [.ok first, .ok second]).state.taken
    let v : Files.Volume := ⟨"", .directory [("records.txt", .file bytes)]⟩
    (∀ r ∈ [first, second], r.Portable ∧ r.isObject = true) ∧
    v.find? "records.txt" = .ok (.file bytes) ∧
    Format.ofPath "records.txt" = (.unknown, .none) ∧
    (Jsonl.document first).length + 2 ≤ 14 ∧ Utf8.toString? (bytes.take 14) = none ∧
    ∃ source log, openAny v "records.txt" ⟨false, 0⟩ 14 = (.ok source, log) ∧
      ∀ calls, (source.take calls).1 = [.ok first, .ok second].take calls := by
  intro first second bytes v
  have portable : ∀ r ∈ [first, second], r.Portable := by decide
  have mappings : ∀ r ∈ [first, second], r.isObject = true := by decide
  have file : v.find? "records.txt" = .ok (.file bytes) := by rfl
  have unnamed : Format.ofPath "records.txt" = (.unknown, .none) := by decide
  have enough : (Jsonl.document first).length + 2 ≤ 14 := by decide
  have cut : Utf8.toString? (bytes.take 14) = none := by decide
  exact ⟨fun r member => ⟨portable r member, mappings r member⟩, file, unnamed, enough, cut,
    openAny_written ⟨false, 0⟩ portable mappings file unnamed enough⟩

end Source
end RecordFlow
