import RecordFlow.Proofs.Csv.Rows

/-!
# Encoding rows

Where the buffer was handed on shows nowhere in what an encoder has been given. In a sink with room
for everything each action succeeds, and what it does is told on that view: whatever the buffer
holds, writing a record adds the text of its row.
-/
namespace RecordFlow.Csv.Encoder

/-- All that was given to the encoder, and where in a record it stands. -/
structure View where
  text : Bytes
  fieldsWritten : Nat
  inField : Bool
  quoting : Bool
  isBlank : Bool
  width : Option Nat

def view (e : Encoder) : View :=
  ⟨e.out.taken ++ e.buffer.toList, e.fieldsWritten, e.inField, e.quoting, e.isBlank, e.width⟩

/-- The view between two records. -/
def View.between (text : Bytes) (width : Option Nat) : View := ⟨text, 0, false, false, true, width⟩

/-- In a sink with room for everything the action succeeds and leads from one view to the other. -/
def Leads (action : Action) (v w : View) : Prop :=
  ∀ e : Encoder, e.out.room = none → e.view = v →
    ∃ last, action e = (.ok (), last) ∧ last.out.room = none ∧ last.view = w

theorem Leads.done (v : View) : Leads Action.done v v := by
  intro e room seen
  exact ⟨e, rfl, room, seen⟩

theorem Leads.andThen {first second : Action} {u v w : View} (one : Leads first u v)
    (two : Leads second v w) : Leads (first.andThen second) u w := by
  intro e room seen
  obtain ⟨between, ran, room, seen⟩ := one e room seen
  obtain ⟨last, went, room, seen⟩ := two between room seen
  exact ⟨last, by rw [Action.andThen, ran]; exact went, room, seen⟩

/-- An action that acts like another wherever the view is seen. -/
theorem Leads.congr {action other : Action} {v w : View} (h : Leads other v w)
    (same : ∀ e : Encoder, e.view = v → action e = other e) : Leads action v w := by
  intro e room seen
  obtain ⟨last, ran, rest⟩ := h e room seen
  exact ⟨last, (same e seen).trans ran, rest⟩

/-- A change of the state that hands nothing on. -/
theorem Leads.change (f : Encoder → Encoder) (g : View → View)
    (out : ∀ e : Encoder, (f e).out = e.out) (seen : ∀ e : Encoder, (f e).view = g e.view)
    (v : View) : Leads (fun e => (.ok (), f e)) v (g v) := by
  rintro e room rfl
  exact ⟨f e, rfl, (out e).symm ▸ room, seen e⟩

theorem flush_unlimited {e : Encoder} (room : e.out.room = none) :
    e.flush = (.ok (), { e with out := ⟨e.view.text, none⟩, buffer := #[] }) := by
  simp only [flush, ByteSink.put, room, view]

theorem leads_emit (piece : Bytes) (v : View) :
    Leads (emit piece) v { v with text := v.text ++ piece, isBlank := false } := by
  rintro e room rfl
  by_cases fits : e.buffer.size + piece.length ≤ bufferSize
  · refine ⟨{ e with buffer := e.buffer.appendList piece, isBlank := false }, ?_, room, ?_⟩
    · rw [emit, if_pos fits]
    · simp [view]
  · -- the buffer is handed on first, which the view does not show
    refine ⟨{ e with
      out := ⟨e.view.text, none⟩
      buffer := (#[] : Array UInt8).appendList piece
      isBlank := false }, ?_, rfl, ?_⟩
    · rw [emit, if_neg fits, flush_unlimited room]
    · simp [view]

theorem leads_emitContent (quoting : Bool) (content : Bytes) (v : View) :
    Leads (emitContent quoting content) v
      { v with
        text := v.text ++ contentText quoting content
        isBlank := v.isBlank && content.isEmpty } := by
  induction content generalizing v with
  | nil =>
    rw [contentText_nil, List.append_nil, List.isEmpty_nil, Bool.and_true]
    exact Leads.done v
  | cons b content ih =>
    have rest := ih { v with
      text := v.text ++ if quoting && b = 0x22 then [b, b] else [b]
      isBlank := false }
    rw [contentText_cons, ← List.append_assoc, List.isEmpty_cons, Bool.and_false]
    exact (leads_emit _ v).andThen rest

/-! ## Fields -/

theorem leads_closeQuotes (v : View) : Leads closeQuotes v
    { v with
      text := v.text ++ quoteMark v.quoting
      inField := v.inField && !v.quoting
      quoting := false
      isBlank := v.isBlank && !v.quoting } := by
  rcases v with ⟨text, fieldsWritten, inField, quoting, isBlank, width⟩
  cases quoting with
  | false =>
    simp only [quoteMark, Bool.false_eq_true, if_false, List.append_nil, Bool.not_false,
      Bool.and_true]
    apply (Leads.done _).congr
    intro e seen
    have unquoted : e.quoting = false := congrArg View.quoting seen
    exact if_neg (by rw [unquoted]; exact Bool.false_ne_true)
  | true =>
    simp only [quoteMark, if_true, Bool.not_true, Bool.and_false]
    apply Leads.congr <| (leads_emit [0x22] _).andThen <|
      Leads.change (fun e => { e with inField := false, quoting := false })
        (fun v => { v with inField := false, quoting := false }) (fun _ => rfl) (fun _ => rfl) _
    intro e seen
    exact if_pos (congrArg View.quoting seen)

theorem leads_delimiter (v : View) : Leads delimiter v
    { v with
      text := v.text ++ quoteMark v.quoting ++ [0x2C]
      inField := false
      quoting := false
      isBlank := false } :=
  (leads_closeQuotes v).andThen <| (leads_emit [0x2C] _).andThen <|
    Leads.change (fun e => { e with inField := false }) (fun v => { v with inField := false })
      (fun _ => rfl) (fun _ => rfl) _

theorem leads_openField (field : Bytes) {v : View} (closed : v.inField = false) :
    Leads (openField field) v
      { v with
        text := v.text ++ quoteMark (needsQuotes field)
        inField := true
        quoting := needsQuotes field
        isBlank := v.isBlank && !needsQuotes field } := by
  let opened : Action := fun e => (.ok (), { e with inField := true })
  have inside (v : View) : Leads opened v { v with inField := true } :=
    Leads.change (fun e => { e with inField := true }) (fun v => { v with inField := true })
      (fun _ => rfl) (fun _ => rfl) v
  have mark : Leads (fun e => (.ok (), { e with quoting := needsQuotes field })) v
      { v with quoting := needsQuotes field } :=
    Leads.change (fun e => { e with quoting := needsQuotes field })
      (fun v => { v with quoting := needsQuotes field }) (fun _ => rfl) (fun _ => rfl) v
  have split (e : Encoder) (seen : e.view = v) : openField field e =
      (if needsQuotes field then (emit [0x22]).andThen opened else opened)
        { e with quoting := needsQuotes field } := by
    have outside : e.inField = false := (congrArg View.inField seen).trans closed
    rw [openField, if_neg (by rw [outside]; exact Bool.false_ne_true)]
    cases needsQuotes field <;> rfl
  cases quoting : needsQuotes field with
  | false =>
    rw [quoting] at split mark
    simpa [quoteMark] using (mark.andThen (inside _)).congr split
  | true =>
    rw [quoting] at split mark
    simpa [quoteMark] using (mark.andThen ((leads_emit [0x22] _).andThen (inside _))).congr split

/-- The text that a field adds before its closing quote. -/
def openText (field : Bytes) : Bytes :=
  quoteMark (needsQuotes field) ++ contentText (needsQuotes field) field

theorem openText_close (field : Bytes) :
    openText field ++ quoteMark (needsQuotes field) = fieldText field := rfl

/-- A field that was opened is written out; it stays open until the next step closes it. -/
theorem leads_fieldContent (field : Bytes) {v : View} (closed : v.inField = false) :
    Leads ((openField field).andThen fun e => (emitContent e.quoting field).andThen
        (fun e => (.ok (), { e with fieldsWritten := e.fieldsWritten + 1 })) e) v
      { v with
        text := v.text ++ openText field
        fieldsWritten := v.fieldsWritten + 1
        inField := true
        quoting := needsQuotes field
        isBlank := v.isBlank && field.isEmpty } := by
  have blank : (v.isBlank && !needsQuotes field && field.isEmpty) =
      (v.isBlank && field.isEmpty) := by
    cases field with
    | nil => rw [needsQuotes, List.any_nil, Bool.not_false, Bool.and_true]
    | cons b field => rw [List.isEmpty_cons, Bool.and_false, Bool.and_false]
  have content (v : View) := (leads_emitContent (needsQuotes field) field v).andThen <|
    Leads.change (fun e => { e with fieldsWritten := e.fieldsWritten + 1 })
      (fun v => { v with fieldsWritten := v.fieldsWritten + 1 }) (fun _ => rfl) (fun _ => rfl) _
  rw [openText, ← List.append_assoc, ← blank]
  apply (leads_openField field closed).andThen
  apply (content _).congr
  intro e seen
  rw [show e.quoting = needsQuotes field from congrArg View.quoting seen]

theorem leads_writeField_first (field : Bytes) {v : View} (none : v.fieldsWritten = 0)
    (closed : v.inField = false) : Leads (writeField field) v
      { v with
        text := v.text ++ openText field
        fieldsWritten := 1
        inField := true
        quoting := needsQuotes field
        isBlank := v.isBlank && field.isEmpty } := by
  have content := (Leads.done v).andThen (leads_fieldContent field closed)
  rw [none] at content
  apply content.congr
  intro e seen
  have first : ¬ 0 < e.fieldsWritten := by
    rw [show e.fieldsWritten = 0 from (congrArg View.fieldsWritten seen).trans none]
    exact Nat.lt_irrefl 0
  rw [writeField, if_neg first]

theorem leads_writeField_later (field : Bytes) {v : View} (some : 0 < v.fieldsWritten) :
    Leads (writeField field) v
      { v with
        text := v.text ++ quoteMark v.quoting ++ 0x2C :: openText field
        fieldsWritten := v.fieldsWritten + 1
        inField := true
        quoting := needsQuotes field
        isBlank := false } := by
  have content := (leads_delimiter v).andThen (leads_fieldContent field rfl)
  simp only [List.append_assoc, List.singleton_append, Bool.false_and] at content
  rw [List.append_assoc]
  apply content.congr
  intro e seen
  have later : 0 < e.fieldsWritten := by
    rw [show e.fieldsWritten = v.fieldsWritten from congrArg View.fieldsWritten seen]
    exact some
  rw [writeField, if_pos later]

/-! ## Records -/

/-- Fields after the first leave the last of them open, which only its closing quote ends. -/
theorem leads_writeFields (fields : List Bytes) {v : View} (some : 0 < v.fieldsWritten) :
    ∃ w : View, Leads (writeFields fields) v w ∧
      w.text ++ quoteMark w.quoting = v.text ++ quoteMark v.quoting ++ laterText fields ∧
      w.fieldsWritten = v.fieldsWritten + fields.length ∧
      (w.isBlank && !w.quoting) = (v.isBlank && !v.quoting && fields.isEmpty) ∧
      w.width = v.width := by
  induction fields generalizing v with
  | nil => exact ⟨v, Leads.done v, (List.append_nil _).symm, rfl, (Bool.and_true _).symm, rfl⟩
  | cons field fields ih =>
    obtain ⟨w, led, text, count, blank, width⟩ := ih (v := { v with
      text := v.text ++ quoteMark v.quoting ++ 0x2C :: openText field
      fieldsWritten := v.fieldsWritten + 1
      inField := true
      quoting := needsQuotes field
      isBlank := false }) (Nat.succ_pos _)
    refine ⟨w, (leads_writeField_later field some).andThen led, ?_, ?_, ?_, width⟩
    · rw [text, laterText_cons, ← openText_close]
      simp only [List.append_assoc, List.cons_append]
    · rw [count, List.length_cons, Nat.add_assoc, Nat.add_comm 1]
    · rw [blank, List.isEmpty_cons, Bool.false_and, Bool.false_and, Bool.and_false]

theorem leads_checkWidth {v : View} (fits : v.width.getD v.fieldsWritten = v.fieldsWritten) :
    Leads checkWidth v { v with width := some v.fieldsWritten } := by
  rintro e room rfl
  cases width : e.width with
  | none =>
    exact ⟨{ e with width := some e.fieldsWritten }, by rw [checkWidth, width], room, rfl⟩
  | some expected =>
    have same : e.fieldsWritten = expected := by
      have fits := fits
      rw [show e.view.width = some expected from width] at fits
      exact fits.symm
    refine ⟨e, ?_, room, ?_⟩
    · rw [checkWidth, width]
      exact if_pos same
    · rw [View.mk.injEq]
      exact ⟨rfl, rfl, rfl, rfl, rfl, width.trans (congrArg some same.symm)⟩

theorem leads_markBlank (v : View) : Leads markBlank v
    { v with
      text := v.text ++ if v.isBlank then [0x22, 0x22] else []
      isBlank := false } := by
  rcases v with ⟨text, fieldsWritten, inField, quoting, isBlank, width⟩
  cases isBlank with
  | false =>
    simp only [Bool.false_eq_true, if_false, List.append_nil]
    apply (Leads.done _).congr
    intro e seen
    have filled : e.isBlank = false := congrArg View.isBlank seen
    exact if_neg (by rw [filled]; exact Bool.false_ne_true)
  | true =>
    apply (leads_emit [0x22, 0x22] _).congr
    intro e seen
    exact if_pos (congrArg View.isBlank seen)

theorem leads_endRecord {v : View} (fits : v.width.getD v.fieldsWritten = v.fieldsWritten) :
    Leads endRecord v (.between
      (v.text ++ quoteMark v.quoting ++
        (if v.isBlank && !v.quoting then [0x22, 0x22] else []) ++ [0x0A])
      (some v.fieldsWritten)) :=
  (leads_checkWidth fits).andThen <| (leads_closeQuotes _).andThen <| (leads_markBlank _).andThen <|
    (leads_emit [0x0A] _).andThen <|
    Leads.change (fun e => { e with fieldsWritten := 0, inField := false, isBlank := true })
      (fun v => { v with fieldsWritten := 0, inField := false, isBlank := true })
      (fun _ => rfl) (fun _ => rfl) _

/-- A record that is as wide as those before it is written as the text of its row. -/
theorem leads_writeRecord (text : Bytes) {width : Option Nat} (field : Bytes) (later : List Bytes)
    (fits : width.getD (later.length + 1) = later.length + 1) :
    Leads (writeRecord (field :: later)) (.between text width)
      (.between (text ++ rowText (field :: later)) (some (later.length + 1))) := by
  have first := leads_writeField_first field (v := .between text width) rfl rfl
  obtain ⟨w, led, written, count, blank, kept⟩ := leads_writeFields later (v := {
    View.between text width with
    text := text ++ openText field
    fieldsWritten := 1
    inField := true
    quoting := needsQuotes field
    isBlank := field.isEmpty }) Nat.one_pos
  have number : w.fieldsWritten = later.length + 1 := count.trans (Nat.add_comm 1 _)
  have closed : w.text ++ quoteMark w.quoting = text ++ (fieldText field ++ laterText later) := by
    rw [written, List.append_assoc text, openText_close, List.append_assoc]
  have ended := leads_endRecord (v := w) (by rw [number, kept]; exact fits)
  rw [closed, number, blank] at ended
  have row : text ++ (fieldText field ++ laterText later) ++
      (if field.isEmpty && !needsQuotes field && later.isEmpty then [0x22, 0x22] else []) ++
      [0x0A] = text ++ rowText (field :: later) := by
    -- nothing was written before the line end only if the row is one empty field
    by_cases blank : field = [] ∧ later = []
    · obtain ⟨rfl, rfl⟩ := blank
      simp [fieldText, laterText, needsQuotes, quoteMark, rowText]
    · have filled : (field.isEmpty && !needsQuotes field && later.isEmpty) = false := by
        cases field with
        | cons b field => rfl
        | nil =>
          cases later with
          | nil => exact absurd ⟨rfl, rfl⟩ blank
          | cons next later => exact Bool.and_false _
      rw [filled, rowText_cons blank, if_neg Bool.false_ne_true, List.append_nil,
        List.append_assoc text]
  rw [row] at ended
  exact (first.andThen led).andThen ended

end RecordFlow.Csv.Encoder
