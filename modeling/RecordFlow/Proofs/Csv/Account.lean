import Mathlib.Algebra.GroupWithZero.Nat
import RecordFlow.Proofs.Csv.RoundTrip

/-!
# The bytes that a writer counts

A writer counts the texts of a row and one byte after each of them. What it writes has these bytes
and those of the quotes, so the count is the length of the output exactly if no row is quoted. This
holds of a sink with limited room as well, as long as the run succeeds: then everything has fitted,
and the writer has done what it does where there is room for everything.
-/
namespace RecordFlow

theorem ByteSink.taken_of_put {s t : ByteSink} {bytes : Bytes} (h : s.put bytes = (.ok (), t)) :
    t.taken = s.taken ++ bytes := by
  rw [put] at h
  split at h
  · cases h
    rfl
  · split at h
    · cases h
      rfl
    · cases h

namespace Csv

/-! ## Limited room -/

namespace Encoder

/-- The encoder in a sink with room for everything. -/
def loosened (e : Encoder) : Encoder := { e with out := ⟨e.out.taken, none⟩ }

/-- Whenever the action succeeds, it does the same in a sink with room for everything. -/
def Loosens (action : Action) : Prop :=
  ∀ e last : Encoder, action e = (.ok (), last) → action e.loosened = (.ok (), last.loosened)

theorem Loosens.change {f : Encoder → Encoder} (h : ∀ e : Encoder, f e.loosened = (f e).loosened) :
    Loosens fun e => (.ok (), f e) := by
  rintro e _ ⟨⟩
  exact congrArg (Prod.mk _) (h e)

theorem Loosens.done : Loosens Action.done := .change fun _ => rfl

theorem Loosens.andThen {first second : Action} (one : Loosens first) (two : Loosens second) :
    Loosens (first.andThen second) := by
  intro e last ran
  rw [Action.andThen] at ran
  split at ran
  · next between went =>
    rw [Action.andThen, one e between went]
    exact two between last ran
  · cases ran

/-- An action that is picked by something about the encoder that its sink has no part in. -/
theorem Loosens.pick {α : Type} {action : Action} (key : Encoder → α) (pick : α → Action)
    (same : ∀ e : Encoder, key e.loosened = key e) (each : ∀ a, Loosens (pick a))
    (acts : ∀ e : Encoder, action e = pick (key e) e) : Loosens action := by
  intro e last ran
  rw [acts, same]
  exact each _ e last (acts e ▸ ran)

theorem flush_loosened {e last : Encoder} (h : e.flush = (.ok (), last)) :
    e.loosened.flush = (.ok (), last.loosened) ∧ last.out.taken = e.view.text := by
  rw [flush] at h
  split at h
  · next out put =>
    cases h
    have taken := ByteSink.taken_of_put put
    refine ⟨?_, taken⟩
    rw [flush_unlimited rfl]
    simp only [loosened, view, taken]
  · cases h

theorem loosens_emit (piece : Bytes) : Loosens (emit piece) := by
  intro e last ran
  rw [emit] at ran
  split at ran
  · next fits =>
    cases ran
    exact if_pos fits
  · next full =>
    split at ran
    · next flushed went =>
      cases ran
      have full' : ¬ e.loosened.buffer.size + piece.length ≤ bufferSize := full
      rw [emit, if_neg full', (flush_loosened went).1]
      rfl
    · cases ran

theorem loosens_emitContent (quoting : Bool) (content : Bytes) :
    Loosens (emitContent quoting content) := by
  induction content with
  | nil => exact .done
  | cons b content ih => exact (loosens_emit _).andThen ih

theorem loosens_closeQuotes : Loosens closeQuotes := by
  apply Loosens.pick Encoder.quoting fun quoting => if quoting then (emit [0x22]).andThen fun e =>
    (.ok (), { e with inField := false, quoting := false }) else Action.done
  · exact fun _ => rfl
  · rintro (_ | _)
    · exact .done
    · exact (loosens_emit _).andThen (.change fun _ => rfl)
  · intro e
    rw [closeQuotes]
    split <;> rfl

theorem loosens_delimiter : Loosens delimiter :=
  loosens_closeQuotes.andThen <| (loosens_emit _).andThen <| .change fun _ => rfl

theorem loosens_openField (field : Bytes) : Loosens (openField field) := by
  let opened : Action := fun e => (.ok (), { e with inField := true })
  let start : Action := if needsQuotes field then (emit [0x22]).andThen opened else opened
  let outside : Action := fun e => start { e with quoting := needsQuotes field }
  have inside : Loosens opened := .change fun _ => rfl
  have started : Loosens start := by
    unfold start
    split
    · exact (loosens_emit _).andThen inside
    · exact inside
  have marked : Loosens outside := fun e last ran => started _ last ran
  apply Loosens.pick Encoder.inField fun inField => if inField then Action.done else outside
  · exact fun _ => rfl
  · rintro (_ | _)
    · exact marked
    · exact .done
  · intro e
    rw [openField]
    by_cases open' : e.inField = true
    · rw [if_pos open', if_pos open']
      rfl
    · rw [if_neg open', if_neg open']
      unfold outside start
      cases needsQuotes field <;> rfl

theorem loosens_writeField (field : Bytes) : Loosens (writeField field) := by
  have content : Loosens fun e => (emitContent e.quoting field).andThen
      (fun e => (.ok (), { e with fieldsWritten := e.fieldsWritten + 1 })) e :=
    .pick Encoder.quoting
      (fun quoting => (emitContent quoting field).andThen fun e =>
        (.ok (), { e with fieldsWritten := e.fieldsWritten + 1 }))
      (fun _ => rfl)
      (fun quoting => (loosens_emitContent quoting field).andThen (.change fun _ => rfl))
      (fun _ => rfl)
  have written := (loosens_openField field).andThen content
  apply Loosens.pick Encoder.fieldsWritten fun n =>
    (if 0 < n then delimiter else Action.done).andThen <| (openField field).andThen fun e =>
      (emitContent e.quoting field).andThen
        (fun e => (.ok (), { e with fieldsWritten := e.fieldsWritten + 1 })) e
  · exact fun _ => rfl
  · intro n
    apply Loosens.andThen _ written
    split
    · exact loosens_delimiter
    · exact .done
  · exact fun _ => rfl

theorem loosens_writeFields (fields : List Bytes) : Loosens (writeFields fields) := by
  induction fields with
  | nil => exact .done
  | cons field fields ih => exact (loosens_writeField field).andThen ih

theorem loosens_checkWidth : Loosens checkWidth := by
  intro e last ran
  rw [checkWidth] at ran ⊢
  split at ran
  · next width =>
    cases ran
    rw [show e.loosened.width = none from width]
    rfl
  · next expected width =>
    rw [show e.loosened.width = some expected from width]
    split at ran
    · next same =>
      cases ran
      exact if_pos same
    · cases ran

theorem loosens_markBlank : Loosens markBlank := by
  apply Loosens.pick Encoder.isBlank fun blank => if blank then emit [0x22, 0x22] else Action.done
  · exact fun _ => rfl
  · rintro (_ | _)
    · exact .done
    · exact loosens_emit _
  · intro e
    rw [markBlank]
    split <;> rfl

theorem loosens_writeRecord (fields : List Bytes) : Loosens (writeRecord fields) :=
  (loosens_writeFields fields).andThen <| loosens_checkWidth.andThen <|
    loosens_closeQuotes.andThen <| loosens_markBlank.andThen <| (loosens_emit _).andThen <|
    .change fun _ => rfl

/-- What an action leads to where there is room for everything is what it comes to if it succeeds
at all. -/
theorem Leads.view_eq {action : Action} {v w : View} (leads : Leads action v w)
    (loosens : Loosens action) {e last : Encoder} (ran : action e = (.ok (), last))
    (seen : e.view = v) : last.view = w := by
  obtain ⟨free, went, -, seen'⟩ := leads e.loosened rfl seen
  rw [loosens e last ran] at went
  cases went
  exact seen'

theorem leads_writeRecord_nil (text : Bytes) {width : Option Nat} (fits : width.getD 0 = 0) :
    Leads (writeRecord []) (.between text width) (.between (text ++ rowText [[]]) (some 0)) := by
  have ended := leads_endRecord (v := .between text width) fits
  simp only [View.between, quoteMark, Bool.false_eq_true, if_false, List.append_nil, Bool.not_false,
    Bool.and_true, if_true, List.append_assoc] at ended
  exact (Leads.done _).andThen ended

end Encoder

/-! ## Rows -/

/-- The characters for which a text is put in quotes. -/
def isSpecial (c : Char) : Bool := c = ',' || c = '"' || c = '\n' || c = '\r'

/-- The bytes that quoting adds to a text: a quote at both ends, and one for each quote in it. -/
def quotingLength (text : String) : Nat :=
  if text.toList.any isSpecial then text.toList.count '"' + 2 else 0

/-- The bytes of a row that are not counted. A row that would be an empty line is a pair of quotes
instead, and without columns the line end is not counted either. -/
def surplus (texts : List String) : Nat :=
  if texts = [] then 3
  else if texts = [""] then 2
  else (texts.map quotingLength).sum

/-- A row without quotes: it has content, and no text in it has to be quoted. -/
def IsBare (texts : List String) : Prop :=
  texts ≠ [] ∧ texts ≠ [""] ∧ ∀ text ∈ texts, ∀ c ∈ text.toList, isSpecial c = false

/-- The bytes of any row; one without texts is written as if it had an empty one. -/
def lineText (texts : List String) : Bytes := textRow (if texts = [] then [""] else texts)

theorem needsQuotes_ofString (text : String) :
    Encoder.needsQuotes (Utf8.ofString text) = text.toList.any isSpecial := by
  have byte (c : Char) (ascii : c.toNat < 0x80) :
      UInt8.ofNat c.toNat ∈ Utf8.ofString text ↔ c ∈ text.toList := Utf8.mem_encode_iff ascii
  have comma : 0x2C ∈ Utf8.ofString text ↔ ',' ∈ text.toList := byte ',' (by decide)
  have quote : 0x22 ∈ Utf8.ofString text ↔ '"' ∈ text.toList := byte '"' (by decide)
  have lineFeed : 0x0A ∈ Utf8.ofString text ↔ '\n' ∈ text.toList := byte '\n' (by decide)
  have carriageReturn : 0x0D ∈ Utf8.ofString text ↔ '\r' ∈ text.toList := byte '\r' (by decide)
  rw [Bool.eq_iff_iff, Encoder.needsQuotes]
  simp only [isSpecial, List.any_eq_true, Bool.or_eq_true, decide_eq_true_eq, and_or_left,
    exists_or, exists_eq_right, comma, quote, lineFeed, carriageReturn]

theorem length_contentText (field : Bytes) :
    (contentText true field).length = field.length + field.count 0x22 := by
  induction field with
  | nil => rfl
  | cons b field ih =>
    rw [contentText_cons, List.length_append, ih, List.length_cons, List.count_cons]
    by_cases quote : b = 0x22
    · have twice : (if true && b = 0x22 then [b, b] else [b]).length = 2 := by simp [quote]
      rw [twice, if_pos (beq_iff_eq.mpr quote)]
      omega
    · have once : (if true && b = 0x22 then [b, b] else [b]).length = 1 := by simp [quote]
      rw [once, if_neg (mt beq_iff_eq.mp quote)]
      omega

theorem length_fieldText (text : String) : (fieldText (Utf8.ofString text)).length =
    (Utf8.ofString text).length + quotingLength text := by
  rw [quotingLength, ← needsQuotes_ofString]
  cases quoting : Encoder.needsQuotes (Utf8.ofString text) with
  | false =>
    rw [fieldText_plain quoting]
    rfl
  | true =>
    have quotes : (Utf8.ofString text).count 0x22 = text.toList.count '"' :=
      Utf8.count_encode (c := '"') (by decide) text.toList
    rw [fieldText_quoted quoting, List.length_cons, List.length_append, length_contentText, quotes]
    rfl

theorem Writer.lineLength_cons (text : String) (texts : List String) :
    lineLength (text :: texts) = (Utf8.ofString text).length + 1 + lineLength texts :=
  rfl

theorem length_laterText (texts : List String) : (laterText (texts.map Utf8.ofString)).length =
    Writer.lineLength texts + (texts.map quotingLength).sum := by
  induction texts with
  | nil => rfl
  | cons text texts ih =>
    rw [List.map_cons, laterText_cons, List.length_cons, List.length_append, length_fieldText, ih,
      Writer.lineLength_cons, List.map_cons, List.sum_cons]
    omega

theorem length_lineText (texts : List String) :
    (lineText texts).length = Writer.lineLength texts + surplus texts := by
  cases texts with
  | nil => rfl
  | cons text later =>
    by_cases blank : text :: later = [""]
    · rw [blank]
      rfl
    · have filled : ¬ (Utf8.ofString text = [] ∧ later.map Utf8.ofString = []) := by
        rintro ⟨none, alone⟩
        rw [List.map_eq_nil_iff] at alone
        have text_eq : text = "" := by
          have read := Utf8.toString?_ofString text
          rw [none] at read
          exact (Option.some.inj read).symm
        exact blank (by rw [text_eq, alone])
      rw [lineText, surplus, if_neg (List.cons_ne_nil _ _), if_neg (List.cons_ne_nil _ _),
        if_neg blank, textRow, List.map_cons, rowText_cons filled, List.length_append,
        List.length_append, length_fieldText, length_laterText, Writer.lineLength_cons,
        List.map_cons, List.sum_cons, List.length_singleton]
      omega

theorem quotingLength_eq_zero_iff {text : String} :
    quotingLength text = 0 ↔ ∀ c ∈ text.toList, isSpecial c = false := by
  rw [quotingLength]
  cases quoted : text.toList.any isSpecial with
  | true =>
    obtain ⟨c, member, special⟩ := List.any_eq_true.mp quoted
    refine ⟨nofun, fun bare => ?_⟩
    rw [bare c member] at special
    cases special
  | false => exact ⟨fun _ => by simpa using quoted, fun _ => rfl⟩

theorem surplus_eq_zero_iff {texts : List String} : surplus texts = 0 ↔ IsBare texts := by
  rw [surplus, IsBare]
  by_cases empty : texts = []
  · rw [if_pos empty]
    exact ⟨nofun, fun bare => absurd empty bare.1⟩
  · by_cases blank : texts = [""]
    · rw [if_neg empty, if_pos blank]
      exact ⟨nofun, fun bare => absurd blank bare.2.1⟩
    · rw [if_neg empty, if_neg blank]
      simp only [List.sum_eq_zero_iff_forall_eq_nat, List.forall_mem_map,
        quotingLength_eq_zero_iff, ne_eq, empty, blank, not_false_eq_true, true_and]

instance : DecidablePred IsBare := fun _ => decidable_of_iff _ surplus_eq_zero_iff

theorem length_flatMap_lineText (lines : List (List String)) : (lines.flatMap lineText).length =
    (lines.map Writer.lineLength).sum + (lines.map surplus).sum := by
  induction lines with
  | nil => rfl
  | cons texts lines ih =>
    simp only [List.flatMap_cons, List.length_append, length_lineText, ih, List.map_cons,
      List.sum_cons]
    omega

/-! ## Runs -/

/-- The rows of some records: the header, with the columns of the layout or else those of the first
record, and a row for each record. -/
def rows (layout : Layout) : List Record → List (List String)
  | [] => []
  | first :: later =>
    let columns := layout.columns.getD (Writer.keysOf first)
    columns :: (first :: later).map fun r => columns.map (cell layout r)

namespace Writer

/-- A row that was encoded at all is added to what was given to the encoder before. -/
theorem encode_ok {w last : Writer} {texts : List String} {text : Bytes} {width : Option Nat}
    (ran : w.encode texts = (.ok (), last)) (seen : w.encoder.view = .between text width)
    (fits : width.getD texts.length = texts.length) :
    ∃ encoder : Encoder, last = { w with encoder } ∧
      encoder.view = .between (text ++ lineText texts) (some texts.length) := by
  rw [encode] at ran
  split at ran
  · next encoder went =>
    cases ran
    refine ⟨encoder, rfl, ?_⟩
    cases texts with
    | nil =>
      have led := Encoder.leads_writeRecord_nil text fits
      exact led.view_eq (Encoder.loosens_writeRecord _) went seen
    | cons first later =>
      have fits' : width.getD ((later.map Utf8.ofString).length + 1) =
          (later.map Utf8.ofString).length + 1 := by
        rw [List.length_map]
        exact fits
      have led := Encoder.leads_writeRecord text (Utf8.ofString first)
        (later.map Utf8.ofString) fits'
      have after := led.view_eq (Encoder.loosens_writeRecord _) went seen
      rw [List.length_map] at after
      exact after
  · cases ran

theorem cells_of_row {layout : Layout} {columns texts : List String} {r : Record}
    (h : row layout columns r = .ok texts) : texts = columns.map (cell layout r) := by
  rw [row_of_accepts (accepts_of_row h)] at h
  exact (Except.ok.inj h).symm

/-- A record that was written: its header, if it was due, and its row. -/
theorem writeRecord_ok {w last : Writer} {r : Record} {outcome : Outcome} {log : Log}
    (wrote : w.writeRecord r = (.ok outcome, last, log)) :
    let columns := w.columns.getD (keysOf r)
    let texts := columns.map (cell w.layout r)
    ∃ headerLength headed,
      { w with columns := some columns }.writeHeader columns = (.ok headerLength, headed) ∧
      headed.encode texts = (.ok (), last) ∧
      outcome = .written (headerLength + lineLength texts) 0 := by
  rw [writeRecord] at wrote
  dsimp only at wrote ⊢
  split at wrote
  · cases wrote
  · next fields checked =>
    obtain rfl := cells_of_row checked
    split at wrote
    · cases wrote
    · next headerLength headed header =>
      split at wrote
      · cases wrote
      · next last' encoded =>
        cases wrote
        exact ⟨headerLength, headed, header, encoded, rfl⟩

/-- The header stands in what was given to the encoder, which is between two records. -/
structure Produced (w : Writer) (layout : Layout) (columns : List String) (text : Bytes) :
    Prop where
  laidOut : w.layout = layout
  under : w.columns = some columns
  headed : w.headerWritten = true
  seen : w.encoder.view = .between text (some columns.length)

variable {layout : Layout} {columns : List String} {text : Bytes}

theorem Produced.encode {w last : Writer} (h : w.Produced layout columns text) {r : Record}
    (ran : w.encode (columns.map (cell layout r)) = (.ok (), last)) :
    last.Produced layout columns (text ++ lineText (columns.map (cell layout r))) := by
  obtain ⟨encoder, rfl, seen⟩ := encode_ok ran h.seen (by rw [List.length_map, Option.getD_some])
  rw [List.length_map] at seen
  exact ⟨h.laidOut, h.under, h.headed, seen⟩

theorem Produced.writeRecord {w last : Writer} (h : w.Produced layout columns text) {r : Record}
    {outcome : Outcome} {log : Log} (wrote : w.writeRecord r = (.ok outcome, last, log)) :
    last.Produced layout columns (text ++ lineText (columns.map (cell layout r))) ∧
    outcome = .written (lineLength (columns.map (cell layout r))) 0 := by
  obtain ⟨headerLength, headed, header, encoded, rfl⟩ := writeRecord_ok wrote
  have under : w.columns.getD (keysOf r) = columns := by rw [h.under, Option.getD_some]
  have same : { w with columns := some columns } = w := by rw [← h.under]
  rw [under] at header encoded ⊢
  rw [same, writeHeader, if_pos h.headed] at header
  cases header
  rw [h.laidOut] at encoded ⊢
  rw [Nat.zero_add]
  exact ⟨h.encode encoded, rfl⟩

theorem produced_first {out : ByteSink} {last : Writer} {r : Record} {outcome : Outcome} {log : Log}
    (under : layout.columns.getD (keysOf r) = columns)
    (wrote : (start layout out).writeRecord r = (.ok outcome, last, log)) :
    last.Produced layout columns
      (out.taken ++ lineText columns ++ lineText (columns.map (cell layout r))) ∧
    outcome = .written (lineLength columns + lineLength (columns.map (cell layout r))) 0 := by
  obtain ⟨headerLength, headed, header, encoded, rfl⟩ := writeRecord_ok wrote
  rw [show (start layout out).columns.getD (keysOf r) = columns from under] at header encoded ⊢
  have unheaded : ({ start layout out with columns := some columns } : Writer).headerWritten =
      false := rfl
  rw [writeHeader, unheaded, if_neg Bool.false_ne_true] at header
  split at header
  · next w went =>
    cases header
    have seen : (Encoder.start out).view = .between out.taken none := by
      rw [Encoder.view, Encoder.start, Encoder.View.between]
      simp
    obtain ⟨encoder, rfl, seen⟩ := encode_ok went seen rfl
    have after : Writer.Produced { start layout out with
        columns := some columns, encoder, headerWritten := true } layout columns
        (out.taken ++ lineText columns) := ⟨rfl, rfl, rfl, seen⟩
    exact ⟨after.encode encoded, rfl⟩
  · cases header

/-! A run that succeeds has taken records only, and has flushed at its end. -/

theorem writeFrom_nil {w : Writer} {stats total : Stats}
    (result : (sink.writeFrom stats w []).result = .ok total) :
    (sink.writeFrom stats w []).state.encoder.out.taken = w.encoder.view.text ∧ total = stats := by
  rw [Sink.writeFrom, show sink.finish w = w.flush from rfl, flush] at result ⊢
  cases flushed : w.encoder.flush with
  | mk ended encoder =>
    rw [flushed] at result
    cases ended with
    | error m => cases result
    | ok _ =>
      cases result
      exact ⟨(Encoder.flush_loosened flushed).2, rfl⟩

theorem writeFrom_produced {w : Writer} (h : w.Produced layout columns text) {source : List Item}
    {stats total : Stats} (result : (sink.writeFrom stats w source).result = .ok total) :
    ∃ records : List Record, source = records.map .ok ∧
      (sink.writeFrom stats w source).state.encoder.out.taken =
        text ++ records.flatMap (fun r => lineText (columns.map (cell layout r))) ∧
      total.bytes = stats.bytes +
        (records.map fun r => lineLength (columns.map (cell layout r))).sum := by
  induction source generalizing w text stats with
  | nil =>
    obtain ⟨taken, rfl⟩ := writeFrom_nil result
    refine ⟨[], rfl, ?_, rfl⟩
    rw [taken, h.seen, List.flatMap_nil, List.append_nil]
    rfl
  | cons item source ih =>
    cases item with
    | error e => cases result
    | ok r =>
      obtain ⟨outcome, next, log, wrote, rest⟩ := Sink.write_of_writeFrom_cons result
      obtain ⟨after, rfl⟩ := h.writeRecord wrote
      obtain ⟨records, rfl, taken, bytes⟩ := ih after rest
      refine ⟨r :: records, rfl, ?_, ?_⟩
      · rw [Sink.writeFrom_cons wrote, List.flatMap_cons, ← List.append_assoc]
        exact taken
      · rw [bytes, List.map_cons, List.sum_cons, ← Nat.add_assoc]
        rfl

/-- The output of a run that succeeds, and what it has counted. -/
theorem writeAll_produced (layout : Layout) (out : ByteSink) {source : List Item} {stats : Stats}
    (result : (sink.writeAll (.start layout out) source).result = .ok stats) :
    ∃ records : List Record, source = records.map .ok ∧
      (sink.writeAll (.start layout out) source).state.encoder.out.taken =
        out.taken ++ (rows layout records).flatMap lineText ∧
      stats.bytes = ((rows layout records).map lineLength).sum := by
  cases source with
  | nil =>
    obtain ⟨taken, rfl⟩ := writeFrom_nil result
    refine ⟨[], rfl, ?_, rfl⟩
    rw [Sink.writeAll, taken]
    rfl
  | cons item source =>
    cases item with
    | error e => cases result
    | ok first =>
      obtain ⟨outcome, next, log, wrote, rest⟩ := Sink.write_of_writeFrom_cons result
      obtain ⟨after, rfl⟩ := produced_first rfl wrote
      obtain ⟨later, rfl, taken, bytes⟩ := writeFrom_produced after rest
      refine ⟨first :: later, rfl, ?_, ?_⟩
      · rw [Sink.writeAll, Sink.writeFrom_cons wrote]
        simp only [taken, rows, List.flatMap_cons, List.map_cons, List.flatMap_map,
          List.append_assoc]
      · rw [bytes]
        simp only [Stats.count, Stats.zero, rows, List.map_cons, List.sum_cons, List.map_map,
          Nat.zero_add, Nat.add_assoc]
        rfl

/-- A run over records that are accepted, into a sink with room for everything. -/
theorem writeAll_counted {first : Record} {later : List Record}
    (under : layout.columns.getD (keysOf first) = columns) (nonempty : columns ≠ [])
    (accepted : ∀ r ∈ first :: later, layout.Accepts columns r) :
    let written := sink.writeAll (.start layout (.start none)) ((first :: later).map .ok)
    ∃ stats, written.result = .ok stats ∧
      stats.bytes = ((rows layout (first :: later)).map lineLength).sum ∧
      written.state.encoder.out.taken = (rows layout (first :: later)).flatMap lineText := by
  obtain ⟨⟨stats, result⟩, -⟩ := writeAll_accepted under nonempty accepted
  obtain ⟨records, same, taken, bytes⟩ := writeAll_produced layout (.start none) result
  obtain rfl : first :: later = records := (List.map_inj_right fun _ _ h => Except.ok.inj h).mp same
  exact ⟨stats, result, bytes, taken⟩

end Writer

/-- The output of a run that succeeds is longer than its count by what quoting adds to its rows. So
the count is exact if and only if no row has quotes. -/
theorem bytes_exact_iff (layout : Layout) (out : ByteSink) {source : List Item} {stats : Stats}
    (result : (sink.writeAll (.start layout out) source).result = .ok stats) :
    ∃ (records : List Record) (produced : Bytes), source = records.map .ok ∧
      (sink.writeAll (.start layout out) source).state.encoder.out.taken =
        out.taken ++ produced ∧
      produced.length = stats.bytes + ((rows layout records).map surplus).sum ∧
      (produced.length = stats.bytes ↔ ∀ texts ∈ rows layout records, IsBare texts) := by
  obtain ⟨records, same, taken, bytes⟩ := Writer.writeAll_produced layout out result
  have length := length_flatMap_lineText (rows layout records)
  rw [← bytes] at length
  refine ⟨records, _, same, taken, length, ?_⟩
  rw [length, Nat.add_eq_left, List.sum_eq_zero_iff_forall_eq_nat, List.forall_mem_map]
  simp only [surplus_eq_zero_iff]

/-- A text that is empty beside another one needs no quotes. -/
theorem bytes_exact_iff_bare :
    let record : Record := .object [("id", .string "7"), ("title", .null)]
    let written := sink.writeAll (.start .default (.start none)) ([record].map .ok)
    ∃ stats, written.result = .ok stats ∧
      written.state.encoder.out.taken.length = stats.bytes := by
  intro record
  have under : Layout.default.columns.getD (Writer.keysOf record) = ["id", "title"] := rfl
  have accepted : ∀ r ∈ [record], Layout.default.Accepts ["id", "title"] r := by
    simp only [List.forall_mem_singleton]
    exact ⟨_, rfl, nofun⟩
  have bare : ∀ texts ∈ rows .default [record], IsBare texts := by decide
  obtain ⟨stats, result, -⟩ := Writer.writeAll_counted under (List.cons_ne_nil _ _) accepted
  obtain ⟨records, produced, same, taken, -, exact_iff⟩ :=
    bytes_exact_iff .default (.start none) result
  obtain rfl : [record] = records := (List.map_inj_right fun _ _ h => Except.ok.inj h).mp same
  refine ⟨stats, result, ?_⟩
  rw [taken, List.length_append, exact_iff.mpr bare]
  exact Nat.zero_add _

/-- A comma has its text put in quotes, which are not counted. -/
theorem bytes_short_of_quotes :
    let record : Record := .object [("a", .string "x,y")]
    let written := sink.writeAll (.start .default (.start none)) ([record].map .ok)
    ∃ stats, written.result = .ok stats ∧ stats.bytes = 6 ∧
      written.state.encoder.out.taken = Utf8.ofString "a\n\"x,y\"\n" ∧
      written.state.encoder.out.taken.length ≠ stats.bytes := by
  intro record
  have under : Layout.default.columns.getD (Writer.keysOf record) = ["a"] := rfl
  have accepted : ∀ r ∈ [record], Layout.default.Accepts ["a"] r := by
    simp only [List.forall_mem_singleton]
    exact ⟨_, rfl, nofun⟩
  have count : ((rows .default [record]).map Writer.lineLength).sum = 6 := by decide
  have text : (rows .default [record]).flatMap lineText = Utf8.ofString "a\n\"x,y\"\n" := by
    decide
  obtain ⟨stats, result, bytes, taken⟩ :=
    Writer.writeAll_counted under (List.cons_ne_nil _ _) accepted
  refine ⟨stats, result, ?_, ?_, ?_⟩
  · rw [bytes, count]
  · rw [taken, text]
  · rw [taken, text, bytes, count]
    decide

end Csv
end RecordFlow
