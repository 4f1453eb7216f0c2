import RecordFlow.Format
import RecordFlow.Proofs.Jsonl.RoundTrip
import RecordFlow.Proofs.Text.Split
import RecordFlow.Proofs.Text.Trim

/-!
# The format told from the beginning of a file of lines

The beginning of a single line with a mapping looks like a document, however short it is. If more
lines follow, the beginning looks like a file of lines as soon as it reaches the first byte of the
second one, wherever it ends after that, be it inside a character.
-/
namespace RecordFlow

namespace Format

open Text (isBlank trim trimEnd dropEnding?)

/-! ## Lines of a text -/

theorem linesOf_of_notMem {cs : List Char} (h : '\n' ∉ cs) :
    linesOf cs = [(dropEnding? ['\r'] cs).getD cs] := by
  unfold linesOf
  rw [Text.splitOn_of_notMem h]
  rfl

theorem linesOf_append {cs : List Char} (h : '\n' ∉ cs) (rest : List Char) :
    linesOf (cs ++ '\n' :: rest) = (dropEnding? ['\r'] cs).getD cs :: linesOf rest := by
  unfold linesOf
  rw [Text.splitOn_append h]
  rfl

/-- A line that begins with a character that is not blank is not blank. -/
theorem linesOf_visible {c : Char} (visible : isBlank c = false) (cs : List Char) :
    ∃ line others, linesOf (c :: cs) = line :: others ∧ (trim line).isEmpty = false := by
  have notFeed : c ≠ '\n' := by
    rintro rfl
    exact absurd visible (by decide)
  obtain ⟨first, others, pieces⟩ := Text.splitOn_eq_cons ['\n'] cs
  unfold linesOf
  rw [Text.splitOn_cons_of_ne notFeed, pieces, Text.onFirst, List.map_cons]
  refine ⟨_, _, rfl, ?_⟩
  cases dropped : dropEnding? ['\r'] (c :: first) with
  | none =>
    rw [Option.getD_none, Text.trim_cons visible]
    rfl
  | some stem =>
    have whole := Text.dropEnding?_eq_some_iff.mp dropped
    cases stem with
    | nil =>
      cases whole
      exact absurd visible (by decide)
    | cons d stem =>
      obtain ⟨rfl, -⟩ := List.cons.inj whole
      rw [Option.getD_some, Text.trim_cons visible]
      rfl

/-! ## What a sample tells -/

variable {sample : Bytes} {cs first rest : List Char} {c : Char}

/-- A text that begins with a mapping holds lines or a document, by its lines that are not blank. -/
theorem ofSample_mapping (text : trim (Utf8.lossy sample) = '\x7b' :: cs) :
    ofSample sample =
      match (linesOf ('\x7b' :: cs)).filter fun line => !(trim line).isEmpty with
      | first :: _ :: _ => if isDocument first then jsonl else json
      | _ => json := by
  unfold ofSample
  rw [text]
  rfl

theorem ofSample_one_line (text : trim (Utf8.lossy sample) = '\x7b' :: cs)
    (oneLine : '\n' ∉ '\x7b' :: cs) : ofSample sample = json := by
  rw [ofSample_mapping text, linesOf_of_notMem oneLine]
  split
  · next lines =>
    have fewer := List.length_filter_le (fun line => !(trim line).isEmpty)
      [(dropEnding? ['\r'] ('\x7b' :: cs)).getD ('\x7b' :: cs)]
    rw [lines] at fewer
    exact absurd fewer (by simp)
  · rfl

theorem ofSample_more_lines (text : trim (Utf8.lossy sample) = '\x7b' :: (cs ++ '\n' :: c :: rest))
    (oneLine : '\n' ∉ '\x7b' :: cs) (whole : dropEnding? ['\r'] ('\x7b' :: cs) = none)
    (document : isDocument ('\x7b' :: cs) = true) (visible : isBlank c = false) :
    ofSample sample = jsonl := by
  obtain ⟨line, others, lines, shown⟩ := linesOf_visible visible rest
  have opens : (trim ('\x7b' :: cs)).isEmpty = false := by
    rw [Text.trim_cons (by decide)]
    rfl
  rw [ofSample_mapping text, ← List.cons_append, linesOf_append oneLine, whole, lines,
    Option.getD_none, List.filter_cons_of_pos (by simp [opens]),
    List.filter_cons_of_pos (by simp [shown])]
  exact if_pos document

/-! ## Samples of written records -/

section

open Jsonl (document document_eq_encode text)

variable {r : Record}

/-- The document of a mapping begins with its opening brace. -/
theorem document_mapping (mapping : r.isObject = true) :
    ∃ cs, Json.compactText r = '\x7b' :: cs ∧ document r = 0x7B :: Utf8.encode cs := by
  cases r with
  | object fields =>
    refine ⟨_, rfl, ?_⟩
    rw [document_eq_encode]
    rfl
  | _ => cases mapping

theorem notMem_compactText (h : r.Portable) {c : Char} (control : c.toNat < 0x20) :
    c ∉ Json.compactText r := by
  intro member
  exact absurd (Json.compactText_printable r h.whole c member) (Nat.not_le.mpr control)

theorem isDocument_compactText (h : r.Portable) : isDocument (Json.compactText r) = true := by
  have read : Json.parse (String.ofList (Json.compactText r)) = .ok r := Json.parse_compact h
  rw [isDocument, read]

theorem dropEnding?_compactText (h : r.Portable) :
    dropEnding? ['\r'] (Json.compactText r) = none := by
  rw [Option.eq_none_iff_forall_ne_some]
  intro stem dropped
  have ends := Text.dropEnding?_eq_some_iff.mp dropped
  apply notMem_compactText h (c := '\r') (by decide)
  rw [ends]
  exact List.mem_append_right stem (List.mem_singleton_self _)

/-- What is seen of a line cut anywhere after its first byte, or of the whole line and its end. -/
theorem trim_sample_alone (h : r.Portable) (mapping : r.isObject = true) {size : Nat}
    (enough : 1 ≤ size) :
    ∃ cs, trim (Utf8.lossy ((document r ++ [0x0A]).take size)) = '\x7b' :: trimEnd cs ∧
      '\n' ∉ cs := by
  obtain ⟨cs, written, opening⟩ := document_mapping mapping
  by_cases cut : size ≤ (document r).length
  · obtain ⟨size, rfl⟩ := Nat.exists_eq_add_of_le' enough
    have sample : (document r ++ [0x0A]).take (size + 1) =
        Utf8.encode ['\x7b'] ++ (Utf8.encode cs).take size := by
      rw [List.take_append_of_le_length cut, opening]
      rfl
    refine ⟨Utf8.lossy ((Utf8.encode cs).take size), ?_, ?_⟩
    · rw [sample, Utf8.lossy_encode_append]
      exact Text.trim_cons (by decide) _
    · intro member
      have feed := List.mem_of_mem_take (Utf8.mem_of_mem_lossy (by decide) member)
      have inside : 0x0A ∈ document r := opening ▸ List.mem_cons_of_mem _ feed
      exact absurd (Jsonl.document_printable h inside) (by decide)
  · have sample : (document r ++ [0x0A]).take size = Utf8.encode ('\x7b' :: (cs ++ ['\n'])) := by
      rw [List.take_of_length_le (by simp; omega), document_eq_encode, written,
        ← List.cons_append, Utf8.encode_append]
      rfl
    refine ⟨cs, ?_, ?_⟩
    · rw [sample, Utf8.lossy_encode, Text.trim_cons (by decide),
        Text.trimEnd_concat_blank (by decide)]
    · intro member
      exact notMem_compactText h (c := '\n') (by decide) (written ▸ List.mem_cons_of_mem _ member)

/-- The beginning of a single line tells a document. -/
theorem ofSample_alone (h : r.Portable) (mapping : r.isObject = true) {size : Nat}
    (enough : 1 ≤ size) : ofSample ((document r ++ [0x0A]).take size) = json := by
  obtain ⟨cs, seen, oneLine⟩ := trim_sample_alone h mapping enough
  apply ofSample_one_line seen
  intro member
  rcases List.mem_cons.mp member with same | inside
  · exact absurd same (by decide)
  · exact oneLine (Text.mem_of_mem_trimEnd inside)

/-- What is seen of a line, its end, the first byte of a second line and some bytes more. -/
theorem trim_sample_followed (mapping : r.isObject = true) (more : Bytes) (extra : Nat) :
    trim (Utf8.lossy ((document r ++ 0x0A :: 0x7B :: more).take
      ((document r).length + 2 + extra))) =
        Json.compactText r ++ '\n' :: '\x7b' :: trimEnd (Utf8.lossy (more.take extra)) := by
  obtain ⟨cs, written, -⟩ := document_mapping mapping
  have sample : (document r ++ 0x0A :: 0x7B :: more).take ((document r).length + 2 + extra) =
      Utf8.encode (Json.compactText r ++ ['\n', '\x7b']) ++ more.take extra := by
    rw [Nat.add_assoc, List.take_length_add_append, Nat.add_comm 2, Utf8.encode_append,
      ← document_eq_encode, List.append_assoc]
    rfl
  have visible := Text.trimEnd_append_cons (c := '\x7b') (by decide)
    (Json.compactText r ++ ['\n']) (Utf8.lossy (more.take extra))
  rw [List.append_assoc, List.append_assoc] at visible
  rw [sample, Utf8.lossy_encode_append, List.append_assoc, written, List.cons_append,
    Text.trim_eq_trimEnd (by decide), ← List.cons_append, ← written]
  exact visible

/-- The first byte of a second line tells a file of lines, whatever part of the rest is there. -/
theorem ofSample_followed (h : r.Portable) (mapping : r.isObject = true) (more : Bytes)
    {size : Nat} (enough : (document r).length + 2 ≤ size) :
    ofSample ((document r ++ 0x0A :: 0x7B :: more).take size) = jsonl := by
  obtain ⟨cs, written, -⟩ := document_mapping mapping
  obtain ⟨extra, rfl⟩ := Nat.exists_eq_add_of_le enough
  have seen := trim_sample_followed mapping more extra
  have oneLine := notMem_compactText h (c := '\n') (by decide)
  have noReturn := dropEnding?_compactText h
  have parsed := isDocument_compactText h
  rw [written] at seen oneLine noReturn parsed
  exact ofSample_more_lines seen oneLine noReturn parsed (by decide)

/-- Written mappings are told by enough of their beginning: a single one as a document, more as
lines. -/
theorem ofSample_text {others : List Record} (portable : ∀ r' ∈ r :: others, r'.Portable)
    (mappings : ∀ r' ∈ r :: others, r'.isObject = true) {size : Nat}
    (enough : (if others = [] then 1 else (document r).length + 2) ≤ size) :
    ofSample ((text (r :: others)).take size) = if others = [] then json else jsonl := by
  obtain ⟨here, there⟩ := List.forall_mem_cons.mp portable
  obtain ⟨mapping, mappings⟩ := List.forall_mem_cons.mp mappings
  cases others with
  | nil =>
    rw [if_pos rfl] at enough ⊢
    rw [Jsonl.text_cons]
    exact ofSample_alone here mapping enough
  | cons second others =>
    rw [if_neg (List.cons_ne_nil _ _)] at enough ⊢
    obtain ⟨cs, -, opening⟩ := document_mapping (mappings second List.mem_cons_self)
    rw [Jsonl.text_cons, Jsonl.text_cons, opening]
    exact ofSample_followed here mapping _ enough

end

end Format
end RecordFlow
