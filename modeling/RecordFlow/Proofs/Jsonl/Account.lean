import RecordFlow.Proofs.Jsonl.Reports

/-!
# The account of a reader

After any number of calls a reader has read a beginning of its lines, has handed out what these come
to, and its counts are the numbers of lines and items of each kind. A reader that has ended stays as
it is.
-/
namespace RecordFlow.Jsonl.Reader

/-- The reader after some calls. -/
def after (r : Reader) : Nat → Reader
  | 0 => r
  | calls + 1 => (r.after calls).next.2.1

/-- The items that some calls hand out. -/
def handedOut (r : Reader) : Nat → List Item
  | 0 => []
  | calls + 1 => r.handedOut calls ++ (r.after calls).next.1.toList

/-- Where a reader stands that has read the lines `taken` and handed out `items`. -/
structure Stands (t : Tolerance) (lines taken : List Line) (items : List Item) (r : Reader) :
    Prop where
  under : r.tolerance = t
  split : taken ++ r.lines = lines
  heard : Heard t taken
  numbered : r.lineNumber = taken.length
  reported : items = reports t taken
  records : r.recordsRead = Item.records items
  faults : r.errorCount = rejections taken + failures taken
  closed : isClosed t taken = true → r.isDone = true
  done : r.isDone = true → isClosed t taken = true ∨ r.lines = []

variable {t : Tolerance} {lines taken : List Line} {items : List Item} {r : Reader}

theorem stands_start (t : Tolerance) (lines : List Line) :
    Stands t lines [] [] (start t lines) :=
  ⟨rfl, rfl, .start, rfl, rfl, rfl, rfl, nofun, nofun⟩

theorem Stands.opened (h : Stands t lines taken items r) (opened : r.isDone = false) :
    isClosed t taken = false := by
  cases closed : isClosed t taken with
  | false => rfl
  | true =>
    rw [h.closed closed] at opened
    cases opened

/-- A failure ends the reading, so a reader that reads on has counted rejected lines only. -/
theorem Stands.errorCount (h : Stands t lines taken items r) (opened : r.isDone = false) :
    r.errorCount = rejections taken := by
  rw [h.faults, failures_of_opened h.heard (h.opened opened), Nat.add_zero]

/-! ## One line -/

/-- The reader once it has read one more line. -/
def hear (r : Reader) (taken : List Line) (line : Line) (rest : List Line) : Reader where
  tolerance := r.tolerance
  lines := rest
  lineNumber := r.lineNumber + 1
  recordsRead := r.recordsRead + Item.records (report r.tolerance taken line).toList
  errorCount := r.errorCount + (isRejected line).toNat + (isFailure line).toNat
  isDone := closes r.tolerance taken line

theorem Stands.hear (h : Stands t lines taken items r) (opened : r.isDone = false) {line : Line}
    {rest : List Line} (next : r.lines = line :: rest) :
    Stands t lines (taken ++ [line]) (items ++ (report t taken line).toList)
      (r.hear taken line rest) := by
  have reading := h.opened opened
  have ends : isClosed t (taken ++ [line]) = closes t taken line := by
    rw [isClosed_concat, reading, Bool.false_or]
  refine ⟨h.under, ?_, .line line h.heard reading, ?_, ?_, ?_, ?_, ?_, ?_⟩
  · rw [List.append_assoc, ← h.split, next]
    rfl
  · rw [List.length_append, ← h.numbered]
    rfl
  · rw [reports_concat reading, h.reported]
  · rw [Item.records_append, ← h.records, ← h.under]
    rfl
  · rw [rejections_concat, failures_concat, Reader.hear, h.faults]
    dsimp only
    omega
  · intro closed
    rw [Reader.hear, h.under, ← ends, closed]
  · intro done
    rw [Reader.hear, h.under, ← ends] at done
    exact .inl done

/-- A call over some lines reads the first one, and goes on only if nothing is handed out for it. -/
theorem nextFrom_cons (h : Stands t lines taken items r) (opened : r.isDone = false) (line : Line)
    (rest : List Line) : (r.nextFrom (line :: rest)).1 =
        ((report t taken line).or ((r.hear taken line rest).nextFrom rest).1) ∧
      (r.nextFrom (line :: rest)).2.1 = if (report t taken line).isSome then
        r.hear taken line rest else ((r.hear taken line rest).nextFrom rest).2.1 := by
  have count := h.errorCount opened
  simp only [nextFrom, report_eq, complaint, hear, closes, reject, ← isRejected_readLine,
    ← isFailure_readLine, h.under, h.numbered, count, opened]
  cases readLine line with
  | blank => simp
  | record x => simp
  | failed m => simp
  | rejected m =>
    cases t.skipErrors with
    | false => simp
    | true =>
      -- the count is raised before it is compared
      simp only [Nat.lt_add_one_iff]
      by_cases spent : t.maxErrors ≤ rejections taken
      · simp [spent, Nat.not_lt.mpr spent]
      · simp [spent, Nat.not_le.mp spent]

/-! ## Calls -/

/-- The two ways in which a call ends: the item of the line that was read last, or the end. -/
inductive Called (t : Tolerance) (lines : List Line) (items : List Item) :
    Option Item → Reader → Prop
  | item {before : List Line} {line : Line} {out : Item} {r : Reader}
      (reported : report t before line = some out)
      (stands : Stands t lines (before ++ [line]) (items ++ [out]) r) :
      Called t lines items (some out) r
  | ended {taken : List Line} {r : Reader} (stands : Stands t lines taken items r)
      (done : r.isDone = true) : Called t lines items none r

theorem Called.stands {out : Option Item} (h : Called t lines items out r) :
    ∃ taken, Stands t lines taken (items ++ out.toList) r := by
  cases h with
  | item reported stands => exact ⟨_, stands⟩
  | ended stands done => exact ⟨_, by rwa [Option.toList_none, List.append_nil]⟩

/-- A call reads on to a line that something is handed out for, or else to the end. -/
theorem Stands.nextFrom (h : Stands t lines taken items r) (opened : r.isDone = false) :
    Called t lines items (r.nextFrom r.lines).1 (r.nextFrom r.lines).2.1 := by
  generalize left : r.lines = rest
  induction rest generalizing r taken with
  | nil =>
    rw [Reader.nextFrom]
    have final : Stands t lines taken items { r with lines := [], isDone := true } :=
      { h with split := left ▸ h.split, closed := fun _ => rfl, done := fun _ => .inr rfl }
    exact .ended final rfl
  | cons line rest ih =>
    have heard := h.hear opened left
    obtain ⟨item, last⟩ := nextFrom_cons h opened line rest
    cases reported : report t taken line with
    | some out =>
      rw [reported] at item last heard
      rw [item, last]
      exact .item reported heard
    | none =>
      rw [reported] at item last heard
      rw [item, last]
      rw [Option.toList_none, List.append_nil] at heard
      have still : (r.hear taken line rest).isDone = false := by
        rw [Reader.hear, h.under, Bool.eq_false_iff]
        intro ends
        have told := isSome_report_of_closes t ends
        rw [reported] at told
        cases told
      exact ih heard still rfl

theorem Stands.next (h : Stands t lines taken items r) :
    Called t lines items r.next.1 r.next.2.1 := by
  rw [Reader.next]
  by_cases done : r.isDone = true
  · rw [if_pos done]
    exact .ended h done
  · rw [if_neg done]
    exact h.nextFrom (Bool.eq_false_iff.mpr done)

theorem stands_after (t : Tolerance) (lines : List Line) (calls : Nat) :
    ∃ taken, Stands t lines taken ((start t lines).handedOut calls)
      ((start t lines).after calls) := by
  induction calls with
  | zero => exact ⟨[], stands_start t lines⟩
  | succ calls ih =>
    obtain ⟨taken, stands⟩ := ih
    exact stands.next.stands

/-- An error names the line that was read last, and the last error how many there were. -/
theorem Called.located {e : Error} (h : Called t lines items (some (.error e)) r) :
    Located r.errorCount r.lineNumber e := by
  cases h with
  | item reported stands =>
    obtain ⟨heard, opened⟩ := stands.heard.before
    rw [stands.faults, stands.numbered, rejections_concat, failures_concat,
      failures_of_opened heard opened, Nat.zero_add, List.length_append]
    exact located_report t reported

/-- The answer of a call is the next of the items that the lines come to. -/
theorem Called.answer {out : Option Item} (h : Called t lines items out r) :
    out = (reports t lines)[items.length]? := by
  have whole {taken : List Line} {told : List Item} (stands : Stands t lines taken told r) :
      reports t lines = told ++ if isClosed t taken then [] else reportsAfter t taken r.lines := by
    rw [stands.reported, ← stands.split]
    exact reportsAfter_append [] taken r.lines
  cases h with
  | item reported stands =>
    rw [whole stands, List.append_assoc, List.getElem?_append_right (Nat.le_refl _), Nat.sub_self]
    rfl
  | @ended taken r stands done =>
    have nothing : (if isClosed t taken then [] else reportsAfter t taken r.lines) = [] := by
      rcases stands.done done with closed | finished
      · exact if_pos closed
      · rw [finished, reportsAfter]
        exact ite_self []
    rw [whole stands, nothing, List.append_nil, List.getElem?_eq_none (Nat.le_refl _)]

theorem getElem?_length_take (items : List Item) (k : Nat) :
    items[(items.take k).length]? = items[k]? := by
  rw [List.length_take]
  rcases Nat.le_total k items.length with within | beyond
  · rw [Nat.min_eq_left within]
  · rw [Nat.min_eq_right beyond, List.getElem?_eq_none (Nat.le_refl _),
      List.getElem?_eq_none beyond]

/-- The calls hand out the items that the lines come to, one each. -/
theorem handedOut_eq (t : Tolerance) (lines : List Line) (calls : Nat) :
    (start t lines).handedOut calls = (reports t lines).take calls := by
  induction calls with
  | zero => rfl
  | succ calls ih =>
    obtain ⟨taken, stands⟩ := stands_after t lines calls
    rw [handedOut, stands.next.answer, ih, getElem?_length_take, List.take_add_one]

theorem next_after (t : Tolerance) (lines : List Line) (calls : Nat) :
    ((start t lines).after calls).next.1 = (reports t lines)[calls]? := by
  obtain ⟨taken, stands⟩ := stands_after t lines calls
  rw [stands.next.answer, handedOut_eq, getElem?_length_take]

/-! ## The end -/

theorem next_of_done (h : r.isDone = true) : r.next = (none, r, []) := if_pos h

theorem after_of_done (h : r.isDone = true) (calls : Nat) : r.after calls = r := by
  induction calls with
  | zero => rfl
  | succ calls ih => rw [after, ih, next_of_done h]

theorem after_add (r : Reader) (j k : Nat) : r.after (j + k) = (r.after j).after k := by
  induction k with
  | zero => rfl
  | succ k ih => rw [Nat.add_succ, after, after, ih]

/-- The end of the lines, a failure and giving up are all final. -/
theorem isDone_after {t : Tolerance} {lines : List Line} {calls : Nat}
    (ended : (∃ k < calls, ((start t lines).after k).next.1 = none) ∨
      0 < Item.errors "Io" ((start t lines).handedOut calls) ∨
      0 < Item.errors "Validation" ((start t lines).handedOut calls)) :
    ((start t lines).after calls).isDone = true := by
  rcases ended with ⟨k, earlier, none⟩ | told
  · obtain ⟨before, stood⟩ := stands_after t lines k
    obtain ⟨m, rfl⟩ := Nat.exists_eq_add_of_lt earlier
    have final : ((start t lines).after (k + 1)).isDone = true := by
      have called := stood.next
      rw [none] at called
      cases called with
      | ended stands done => exact done
    rw [Nat.add_right_comm, after_add, after_of_done final]
    exact final
  · obtain ⟨taken, stands⟩ := stands_after t lines calls
    rw [stands.reported] at told
    exact stands.closed (isClosed_of_errors stands.heard told)

/-- After any number of calls: the next answer is the next of the items that the lines come to, and
an error names the line it was told at; the lines split into those that were read and those to come,
and what was handed out, the number of the line and the counts are those of the lines that were
read; and after the end, a failure or giving up, no call changes anything. -/
theorem account (t : Tolerance) (lines : List Line) (calls : Nat) :
    let r := (start t lines).after calls
    let items := (start t lines).handedOut calls
    r.next.1 = (reports t lines)[calls]? ∧
    (∀ e, r.next.1 = some (.error e) → Located r.next.2.1.errorCount r.next.2.1.lineNumber e) ∧
    (∃ taken, taken ++ r.lines = lines ∧ items = reports t taken ∧
      r.lineNumber = taken.length ∧ r.recordsRead = Item.records items ∧
      r.errorCount = rejections taken + failures taken ∧
      failures taken ≤ 1 ∧ Item.errors "Io" items = failures taken ∧
      (t.skipErrors = true → rejections taken ≤ t.maxErrors + 1 ∧
        Item.errors "Validation" items = rejections taken - t.maxErrors ∧
        Item.errors "Serde" items = 0) ∧
      (t.skipErrors = false → Item.errors "Serde" items = rejections taken ∧
        Item.errors "Validation" items = 0)) ∧
    ((∃ k < calls, ((start t lines).after k).next.1 = none) ∨ 0 < Item.errors "Io" items ∨
        0 < Item.errors "Validation" items →
      r.next = (none, r, []) ∧ ∀ more, (start t lines).after (calls + more) = r) := by
  intro r items
  refine ⟨next_after t lines calls, ?_, ?_, ?_⟩
  · intro e told
    obtain ⟨taken, stands⟩ := stands_after t lines calls
    have called := stands.next
    rw [told] at called
    exact called.located
  · obtain ⟨taken, stands⟩ := stands_after t lines calls
    have once : (isClosed t taken).toNat ≤ 1 := Bool.toNat_le _
    obtain ⟨io, serde, validation⟩ := errors_reports stands.heard
    rw [← stands.reported] at io serde validation
    refine ⟨taken, stands.split, stands.reported, stands.numbered, stands.records, stands.faults,
      Nat.le_trans (failures_le stands.heard) once, io, ?_, ?_⟩
    · intro skips
      rw [skips] at serde validation
      exact ⟨Nat.le_trans (rejections_le skips stands.heard) (Nat.add_le_add_left once _),
        validation, serde⟩
    · intro strict
      rw [strict] at serde validation
      exact ⟨serde, validation⟩
  · intro ended
    have done : r.isDone = true := isDone_after ended
    refine ⟨next_of_done done, fun more => ?_⟩
    rw [after_add]
    exact after_of_done done more

end RecordFlow.Jsonl.Reader
