import RecordFlow.Filter.Expression
import RecordFlow.Proofs.Path.Spelling
import RecordFlow.Proofs.Value.Shape

/-!
# Values that spell a filter

A filter is spelled by an array of its tag and its operands or inner filters. An operand in one of
the path forms has to spell a path; any other value is a literal. A value is read as exactly the
filter that it spells, and one that spells none is refused with an expression error, wherever in it
the fault lies.
-/
namespace RecordFlow

namespace Operand

/-- The operands that stand for a path, each with the value that has to spell it: a list, what is
under the only key `path`, and a text with a dot or with both brackets. -/
inductive PathForm : Value → Value → Prop
  | list (items : List Value) : PathForm (.array items) (.array items)
  | keyed (v : Value) : PathForm (.object [("path", v)]) v
  | dotted {text : String} : '.' ∈ text.toList → PathForm (.string text) (.string text)
  | bracketed {text : String} : '[' ∈ text.toList → ']' ∈ text.toList →
      PathForm (.string text) (.string text)

inductive Spelling : Value → Operand → Prop
  | path {v written : Value} {p : Path} : PathForm v written → Path.Spelling written p →
      Spelling v (.path p)
  | wrapped (v : Value) : Spelling (.object [("value", v)]) (.literal v)
  | plain {v : Value} : (∀ written, ¬ PathForm v written) →
      (∀ inner, v ≠ .object [("value", inner)]) → Spelling v (.literal v)

theorem PathForm.only_key {key : String} {v written : Value}
    (h : PathForm (.object [(key, v)]) written) : key = "path" := by
  cases h
  rfl

theorem PathForm.unique {v written other : Value} (h : PathForm v written)
    (h' : PathForm v other) : written = other := by
  cases h <;> cases h' <;> rfl

theorem exists_spelling_iff {v : Value} :
    (∃ a, Spelling v a) ↔ ∀ written, PathForm v written → ∃ p, Path.Spelling written p := by
  constructor
  · rintro ⟨a, h⟩ written form
    cases h with
    | path form' spelled => exact form'.unique form ▸ ⟨_, spelled⟩
    | wrapped inner => exact absurd form.only_key (by decide)
    | plain noPath _ => exact absurd form (noPath written)
  · intro each
    by_cases pathLike : ∃ written, PathForm v written
    · obtain ⟨written, form⟩ := pathLike
      obtain ⟨p, spelled⟩ := each written form
      exact ⟨_, .path form spelled⟩
    · by_cases wrapped : ∃ inner, v = .object [("value", inner)]
      · obtain ⟨inner, rfl⟩ := wrapped
        exact ⟨_, .wrapped inner⟩
      · exact ⟨_, .plain (not_exists.mp pathLike) (not_exists.mp wrapped)⟩

theorem reads_pathOfValue {v written : Value} (form : PathForm v written) :
    Reads (Spelling v) (pathOfValue written) := by
  rw [pathOfValue]
  cases read : Path.ofValue written with
  | ok p => exact .read (.path form (Path.ofValue_eq_ok_iff.mp read))
  | error e => exact .refused _

theorem looksLikePath_eq_true_iff {text : String} : looksLikePath text = true ↔
    '.' ∈ text.toList ∨ ('[' ∈ text.toList ∧ ']' ∈ text.toList) := by
  simp [looksLikePath]

theorem pathForm_text_iff {text : String} {written : Value} :
    PathForm (.string text) written ↔ looksLikePath text = true ∧ written = .string text := by
  rw [looksLikePath_eq_true_iff]
  constructor
  · intro form
    cases form with
    | dotted dot => exact ⟨.inl dot, rfl⟩
    | bracketed opening closing => exact ⟨.inr ⟨opening, closing⟩, rfl⟩
  · rintro ⟨dot | ⟨opening, closing⟩, rfl⟩
    · exact .dotted dot
    · exact .bracketed opening closing

theorem reads_text (text : String) : Reads (Spelling (.string text)) (ofValue (.string text)) := by
  rw [ofValue]
  split
  · next pathLike => exact reads_pathOfValue (pathForm_text_iff.mpr ⟨pathLike, rfl⟩)
  · next plain =>
    refine .read (.plain ?_ nofun)
    intro written form
    exact plain (pathForm_text_iff.mp form).1

theorem reads_ofValue (v : Value) : Reads (Spelling v) (ofValue v) := by
  cases v with
  | array items => exact reads_pathOfValue (.list items)
  | string text => exact reads_text text
  | object fields =>
    rcases fields with _ | ⟨⟨key, v⟩, _ | ⟨second, others⟩⟩
    · exact .read (.plain nofun nofun)
    · rw [ofValue]
      split
      · next same => exact same ▸ reads_pathOfValue (.keyed v)
      · next unlike =>
        split
        · next same => exact same ▸ .read (.wrapped v)
        · next other =>
          refine .read (.plain ?_ ?_)
          · intro written form
            exact unlike form.only_key
          · rintro inner same
            cases same
            exact other rfl
    · exact .read (.plain nofun nofun)
  | _ => exact .read (.plain nofun nofun)

theorem ofValue_of_spelling {v : Value} {a : Operand} (h : Spelling v a) : ofValue v = .ok a := by
  cases h with
  | path form spelled =>
    have read := Path.ofValue_eq_ok_iff.mpr spelled
    suffices same : ∀ {v written}, PathForm v written → ofValue v = pathOfValue written by
      rw [same form, pathOfValue, read]
    intro v written form
    cases form with
    | list items => rfl
    | keyed v => rfl
    | dotted dot => exact if_pos (looksLikePath_eq_true_iff.mpr (.inl dot))
    | bracketed opening closing =>
      exact if_pos (looksLikePath_eq_true_iff.mpr (.inr ⟨opening, closing⟩))
  | wrapped v => rfl
  | plain noPath bare =>
    cases v with
    | array items => exact absurd (.list items) (noPath _)
    | string text =>
      apply if_neg
      intro pathLike
      exact noPath _ (pathForm_text_iff.mpr ⟨pathLike, rfl⟩)
    | object fields =>
      rcases fields with _ | ⟨⟨key, v⟩, _ | ⟨second, others⟩⟩
      · rfl
      · rw [ofValue, if_neg, if_neg]
        · rintro rfl
          exact bare v rfl
        · rintro rfl
          exact noPath v (.keyed v)
      · rfl
    | _ => rfl

end Operand

namespace Relation

theorem ofTag?_tag (r : Relation) : ofTag? r.tag = some r := by
  cases r <;> decide

/-- No relation has the tag of another kind of filter. -/
theorem tag_notMem (r : Relation) : r.tag ∉ ["true", "false", "exists", "not", "and", "or"] := by
  cases r <;> decide

theorem eq_tag_of_ofTag? {tag : String} {r : Relation} (h : ofTag? tag = some r) :
    tag = r.tag := by
  have found := List.find?_some h
  exact (beq_iff_eq.mp found).symm

end Relation

namespace Filter

/-- The ways to write a filter as a value: one of the thirteen tags, and after it as many operands
or inner filters as the tag takes. -/
inductive Spelling : Value → Filter → Prop
  | yes : Spelling (.array [.string "true"]) (constant true)
  | no : Spelling (.array [.string "false"]) (constant false)
  | relation (r : Relation) {a b : Value} {left right : Operand} : Operand.Spelling a left →
      Operand.Spelling b right →
      Spelling (.array [.string r.tag, a, b]) (relation r left right)
  | present {a : Value} {operand : Operand} : Operand.Spelling a operand →
      Spelling (.array [.string "exists", a]) (present operand)
  | negation {v : Value} {inner : Filter} : Spelling v inner →
      Spelling (.array [.string "not", v]) (negation inner)
  | all {vs : List Value} {parts : List Filter} : List.Forall₂ Spelling vs parts →
      Spelling (.array (.string "and" :: vs)) (all parts)
  | any {vs : List Value} {parts : List Filter} : List.Forall₂ Spelling vs parts →
      Spelling (.array (.string "or" :: vs)) (any parts)

/-! ## Reading one array -/

theorem ofValue_relation (r : Relation) (operands : List Value) :
    ofValue (.array (.string r.tag :: operands)) = relationOf r operands := by
  have other := r.tag_notMem
  simp only [List.mem_cons, List.not_mem_nil, or_false, not_or] at other
  obtain ⟨yes, no, presence, negated, all, any⟩ := other
  rw [ofValue.eq_def]
  dsimp only
  rw [if_neg yes, if_neg no, if_neg presence, if_neg negated, if_neg all, if_neg any,
    r.ofTag?_tag]

theorem ofValue_all (parts : List Value) :
    ofValue (.array (.string "and" :: parts)) = (ofValues parts).map all := by
  rw [ofValue.eq_def]
  rfl

theorem ofValue_any (parts : List Value) :
    ofValue (.array (.string "or" :: parts)) = (ofValues parts).map any := by
  rw [ofValue.eq_def]
  rfl

/-! ## What is read is spelled -/

theorem reads_relationOf (r : Relation) (operands : List Value) :
    Reads (Spelling (.array (.string r.tag :: operands))) (relationOf r operands) := by
  unfold relationOf
  split
  · next a b =>
    apply (Operand.reads_ofValue a).andThen
    intro left spelled
    apply (Operand.reads_ofValue b).andThen
    intro right spelled'
    exact .read (.relation r spelled spelled')
  · exact .refused _

theorem reads_presentOf (operands : List Value) :
    Reads (Spelling (.array (.string "exists" :: operands))) (presentOf operands) := by
  unfold presentOf
  split
  · next a => exact (Operand.reads_ofValue a).map fun operand spelled => .present spelled
  · exact .refused _

theorem reads_ofValues {vs : List Value} (each : ∀ v ∈ vs, Reads (Spelling v) (ofValue v)) :
    Reads (List.Forall₂ Spelling vs) (ofValues vs) :=
  .all ofValue ofValues rfl (fun _ _ => rfl) each

/-- An array is read by its tag, given that its operands are read as they should be. -/
theorem reads_tagged (tag : String) {operands : List Value}
    (each : ∀ v ∈ operands, Reads (Spelling v) (ofValue v)) :
    Reads (Spelling (.array (.string tag :: operands)))
      (ofValue (.array (.string tag :: operands))) := by
  rw [ofValue.eq_def]
  dsimp only
  split_ifs with yes no presence negated conjunction disjunction
  · subst yes
    cases operands with
    | nil => exact .read .yes
    | cons a others => exact .refused _
  · subst no
    cases operands with
    | nil => exact .read .no
    | cons a others => exact .refused _
  · subst presence
    exact reads_presentOf operands
  · subst negated
    split
    · next v => exact (each v List.mem_cons_self).map fun inner spelled => .negation spelled
    · exact .refused _
  · subst conjunction
    exact (reads_ofValues each).map fun parts spelled => .all spelled
  · subst disjunction
    exact (reads_ofValues each).map fun parts spelled => .any spelled
  · split
    · next r found =>
      obtain rfl := Relation.eq_tag_of_ofTag? found
      exact reads_relationOf r operands
    · exact .refused _

theorem reads_ofValue (v : Value) : Reads (Spelling v) (ofValue v) := by
  induction v using Value.induct with
  | array items ih =>
    cases items with
    | nil => exact .refused _
    | cons first operands =>
      obtain ⟨-, each⟩ := List.forall_mem_cons.mp ih
      cases first with
      | string tag => exact reads_tagged tag each
      | _ => exact .refused _
  | _ => exact .refused _

/-! ## What is spelled is read -/

theorem ofValue_of_spelling {v : Value} {f : Filter} (h : Spelling v f) : ofValue v = .ok f := by
  induction h using Spelling.rec
    (motive_2 := fun vs parts _ => ofValues vs = .ok parts) with
  | yes => rfl
  | no => rfl
  | relation r left right =>
    rw [ofValue_relation, relationOf, Operand.ofValue_of_spelling left,
      Operand.ofValue_of_spelling right]
    rfl
  | present spelled =>
    change (Operand.ofValue _).map Filter.present = _
    rw [Operand.ofValue_of_spelling spelled]
    rfl
  | negation _ ih =>
    change (ofValue _).map Filter.negation = _
    rw [ih]
    rfl
  | all _ ih =>
    rw [ofValue_all, ih]
    rfl
  | any _ ih =>
    rw [ofValue_any, ih]
    rfl
  | nil => rfl
  | cons _ _ ih later =>
    rw [ofValues, ih, later]
    rfl

/-- A value is read as the filter that it spells, and if it spells none, the reading is refused with
an expression error. Of the operands, those spell something that are in no path form or spell a path
there. -/
theorem filter_iff_spelled (v : Value) :
    (∀ f, ofValue v = .ok f ↔ Spelling v f) ∧
    ((∃ m, ofValue v = .error (.expression m)) ↔ ∀ f, ¬ Spelling v f) ∧
    ∀ a, (∃ operand, Operand.Spelling a operand) ↔
      ∀ written, Operand.PathForm a written → ∃ p, Path.Spelling written p := by
  obtain ⟨accepted, refused⟩ :=
    (reads_ofValue v).exact_of_complete fun _ spelled => ofValue_of_spelling spelled
  exact ⟨accepted, refused, fun a => Operand.exists_spelling_iff⟩

example : ofValue (.array [.string "not", .array [.string "exists", .object [("path", .null)]]]) =
    .error (.expression "path error: path must be a dotted string or a list, got null") := by rfl

/-! ## Texts as operands -/

theorem equal_text_iff {found : Option Value} {text : String} :
    Relation.equal found (some (.string text)) = true ↔ found = some (.string text) := by
  cases found with
  | none => simp [Relation.equal]
  | some v => cases v <;> simp [Relation.equal, Value.equals, Value.agree]

/-- A text that has no dot and does not end in a position is a literal unless it has both brackets,
and is refused if it has them. Compared with a path, a literal is equal to what the path leads to
exactly if that is the same text. -/
theorem text_literal_iff {text : String} (undotted : '.' ∉ text.toList)
    (unindexed : ¬ Path.EndsIndexed text.toList) :
    (Operand.ofValue (.string text) = .ok (.literal (.string text)) ↔
      ¬ ('[' ∈ text.toList ∧ ']' ∈ text.toList)) ∧
    ((∃ m, Operand.ofValue (.string text) = .error (.expression m)) ↔
      '[' ∈ text.toList ∧ ']' ∈ text.toList) ∧
    ∀ p : Path,
      (∃ f, ofValue (.array [.string "eq", p.toValue, .string text]) = .ok f ∧
        ∀ record, f.evaluate record = true ↔ p.resolve record = some (.string text)) ↔
      ¬ ('[' ∈ text.toList ∧ ']' ∈ text.toList) := by
  have compared (p : Path) : ofValue (.array [.string "eq", p.toValue, .string text]) =
      (Operand.ofValue (.string text)).map (relation .eq (.path p)) := by
    have operand : Operand.Spelling p.toValue (.path p) := .path (.list _) (.list p.segments)
    change relationOf .eq [p.toValue, .string text] = _
    rw [relationOf, Operand.ofValue_of_spelling operand]
    rfl
  by_cases brackets : '[' ∈ text.toList ∧ ']' ∈ text.toList
  · obtain ⟨m, refused⟩ : ∃ m, Operand.ofValue (.string text) = .error (.expression m) := by
      have pathLike := Operand.looksLikePath_eq_true_iff.mpr (.inr brackets)
      rw [Operand.ofValue, if_pos pathLike, Operand.pathOfValue]
      cases read : Path.ofValue (.string text) with
      | ok p => exact absurd (Path.endsIndexed_of_parse undotted brackets.1 read) unindexed
      | error e => exact ⟨_, rfl⟩
    rw [refused]
    refine ⟨⟨?_, fun free => absurd brackets free⟩, ⟨fun _ => brackets, fun _ => ⟨m, rfl⟩⟩, ?_⟩
    · intro read
      cases read
    · intro p
      rw [compared, refused]
      refine ⟨?_, fun free => absurd brackets free⟩
      rintro ⟨f, read, -⟩
      cases read
  · have literal : Operand.ofValue (.string text) = .ok (.literal (.string text)) := by
      apply if_neg
      rw [Operand.looksLikePath_eq_true_iff]
      rintro (dot | both)
      · exact undotted dot
      · exact brackets both
    rw [literal]
    refine ⟨⟨fun _ => brackets, fun _ => rfl⟩, ⟨?_, fun both => absurd both brackets⟩, ?_⟩
    · rintro ⟨m, refusal⟩
      cases refusal
    · intro p
      rw [compared, literal]
      refine ⟨fun _ => brackets, fun _ => ⟨_, rfl, ?_⟩⟩
      intro record
      exact equal_text_iff

/-- One bracket alone makes no path. -/
theorem text_literal_iff_open :
    ('.' ∉ "Notes [draft".toList ∧ ¬ Path.EndsIndexed "Notes [draft".toList) ∧
    Operand.ofValue (.string "Notes [draft") = .ok (.literal (.string "Notes [draft")) := by
  have undotted : '.' ∉ "Notes [draft".toList := by decide
  have unindexed : ¬ Path.EndsIndexed "Notes [draft".toList := by
    intro indexed
    obtain ⟨before, c, -, same⟩ := indexed.last_two
    have last : "Notes [draft".toList.getLast? = some ']' := by
      rw [same, List.getLast?_append]
      rfl
    exact absurd last (by decide)
  exact ⟨⟨undotted, unindexed⟩, (text_literal_iff undotted unindexed).1.mpr (by decide)⟩

/-- A remark in brackets is taken for a position and the text is refused. -/
theorem text_literal_refused :
    ('.' ∉ "Notes [draft]".toList ∧ ¬ Path.EndsIndexed "Notes [draft]".toList) ∧
    Operand.ofValue (.string "Notes [draft]") = .error (.expression
      "path error: malformed segment 'Notes [draft]' in path 'Notes [draft]'") := by
  refine ⟨⟨by decide, ?_⟩, by rfl⟩
  intro indexed
  obtain ⟨before, c, digit, same⟩ := indexed.last_two
  have last := congrArg List.reverse same
  rw [List.reverse_append] at last
  obtain ⟨-, last⟩ := List.cons.inj last
  obtain ⟨letter, -⟩ := List.cons.inj last
  exact absurd (letter ▸ digit) (by decide)

end Filter
end RecordFlow
