import RecordFlow.Text.Blank
import RecordFlow.Text.Split

/-!
# Pieces between separators

Text is split at the occurrences of a separator that is not empty. None of the pieces holds the
separator, and joined by it they are the text again. With a separator of one character, putting a
piece and a separator in front of a text puts that piece in front of the pieces. The words of a text
are the pieces between its blanks that are not empty.
-/
namespace RecordFlow.Text

/-! ## Any separator -/

section

variable {separator : List Char}

theorem splitFrom_drop (front rest : List Char) :
    splitFrom separator front.length (front ++ rest) = splitFrom separator 0 rest := by
  induction front with
  | nil => rfl
  | cons c front ih =>
    rw [List.length_cons, List.cons_append, splitFrom]
    exact ih

theorem splitOn_found (nonempty : separator ≠ []) (rest : List Char) :
    splitOn separator (separator ++ rest) = [] :: splitOn separator rest := by
  cases separator with
  | nil => exact absurd rfl nonempty
  | cons c separator =>
    have first : (c :: separator).isPrefixOf (c :: separator ++ rest) = true :=
      List.isPrefixOf_iff_prefix.mpr (List.prefix_append _ _)
    rw [List.cons_append] at first ⊢
    rw [splitOn, splitFrom, if_pos first]
    exact congrArg _ (splitFrom_drop separator rest)

theorem splitOn_other {c : Char} {rest : List Char} (apart : ¬ separator <+: c :: rest) :
    splitOn separator (c :: rest) = onFirst c (splitOn separator rest) := by
  rw [splitOn, splitFrom, if_neg (mt List.isPrefixOf_iff_prefix.mp apart)]
  rfl

/-- A text is empty, or begins with the separator, or with a character that is no part of an
occurrence to come. -/
theorem splitInduction (nonempty : separator ≠ []) {P : List Char → Prop} (nil : P [])
    (found : ∀ rest, P rest → P (separator ++ rest))
    (other : ∀ c rest, ¬ separator <+: c :: rest → P rest → P (c :: rest)) (text : List Char) :
    P text := by
  induction size : text.length using Nat.strongRecOn generalizing text with
  | ind n ih =>
    subst size
    cases text with
    | nil => exact nil
    | cons c text =>
      by_cases first : separator <+: c :: text
      · obtain ⟨rest, split⟩ := first
        rw [← split] at ih ⊢
        have shorter : rest.length < (separator ++ rest).length := by
          rw [List.length_append]
          have := List.length_pos_iff.mpr nonempty
          omega
        exact found rest (ih _ shorter rest rfl)
      · exact other c text first (ih _ (Nat.lt_succ_self _) text rfl)

theorem splitFrom_ne_nil (skip : Nat) (text : List Char) : splitFrom separator skip text ≠ [] := by
  induction text generalizing skip with
  | nil => cases skip <;> exact List.cons_ne_nil _ _
  | cons c text ih =>
    cases skip with
    | succ skip => exact ih skip
    | zero =>
      rw [splitFrom]
      split
      · exact List.cons_ne_nil _ _
      · cases splitFrom separator 0 text <;> exact List.cons_ne_nil _ _

/-- There is always a first piece. -/
theorem splitOn_eq_cons (separator text : List Char) :
    ∃ first others, splitOn separator text = first :: others := by
  cases pieces : splitOn separator text with
  | nil => exact absurd pieces (splitFrom_ne_nil 0 text)
  | cons first others => exact ⟨first, others, rfl⟩

theorem join_singleton (separator piece : List Char) : join separator [piece] = piece :=
  List.intercalate_singleton

theorem join_cons_cons (separator first second : List Char) (others : List (List Char)) :
    join separator (first :: second :: others) =
      first ++ separator ++ join separator (second :: others) := by
  rw [join, List.intercalate_cons_cons]
  rfl

theorem join_splitOn (nonempty : separator ≠ []) (text : List Char) :
    join separator (splitOn separator text) = text := by
  induction text using splitInduction nonempty with
  | nil => rfl
  | found rest ih =>
    obtain ⟨first, others, pieces⟩ := splitOn_eq_cons separator rest
    rw [pieces] at ih
    rw [splitOn_found nonempty, pieces, join_cons_cons, ih, List.nil_append]
  | other c rest apart ih =>
    obtain ⟨first, others, pieces⟩ := splitOn_eq_cons separator rest
    rw [pieces] at ih
    rw [splitOn_other apart, pieces, ← ih]
    cases others <;> simp [onFirst, join]

theorem first_prefix_of_splitOn (nonempty : separator ≠ []) {text first : List Char}
    {others : List (List Char)} (pieces : splitOn separator text = first :: others) :
    first <+: text := by
  have whole := join_splitOn nonempty text
  rw [pieces] at whole
  cases others with
  | nil =>
    rw [join_singleton] at whole
    exact ⟨[], by rw [List.append_nil, whole]⟩
  | cons second others =>
    rw [join_cons_cons, List.append_assoc] at whole
    exact ⟨_, whole⟩

theorem not_infix_of_mem_splitOn (nonempty : separator ≠ []) {text piece : List Char}
    (h : piece ∈ splitOn separator text) : ¬ separator <:+: piece := by
  induction text using splitInduction nonempty generalizing piece with
  | nil =>
    cases List.mem_singleton.mp h
    exact fun inside => nonempty (List.infix_nil.mp inside)
  | found rest ih =>
    rw [splitOn_found nonempty] at h
    rcases List.mem_cons.mp h with rfl | h
    · exact fun inside => nonempty (List.infix_nil.mp inside)
    · exact ih h
  | other c rest apart ih =>
    obtain ⟨first, others, pieces⟩ := splitOn_eq_cons separator rest
    rw [splitOn_other apart, pieces] at h
    rcases List.mem_cons.mp h with rfl | h
    · intro inside
      rcases List.infix_cons_iff.mp inside with here | later
      · have front := first_prefix_of_splitOn nonempty pieces
        exact apart (here.trans (List.cons_prefix_cons.mpr ⟨rfl, front⟩))
      · exact ih (pieces ▸ List.mem_cons_self) later
    · exact ih (pieces ▸ List.mem_cons_of_mem first h)

/-! ## Replacing -/

theorem length_join (separator : List Char) {pieces : List (List Char)} (some_piece : pieces ≠ []) :
    (join separator pieces).length =
      pieces.flatten.length + (pieces.length - 1) * separator.length := by
  induction pieces with
  | nil => exact absurd rfl some_piece
  | cons first others ih =>
    cases others with
    | nil => simp [join]
    | cons second others =>
      rw [join_cons_cons, List.length_append, List.length_append, ih (List.cons_ne_nil _ _)]
      simp only [List.flatten_cons, List.length_append, List.length_cons, Nat.add_sub_cancel,
        Nat.succ_mul]
      omega

/-- The separator between two pieces can be told from the joined text. -/
theorem join_inj {a b first second : List Char} {others : List (List Char)}
    (same : join a (first :: second :: others) = join b (first :: second :: others)) : a = b := by
  have size := congrArg List.length same
  rw [length_join a (List.cons_ne_nil _ _), length_join b (List.cons_ne_nil _ _),
    Nat.add_left_cancel_iff] at size
  have lengths : a.length = b.length :=
    Nat.eq_of_mul_eq_mul_left (by simp only [List.length_cons]; omega) size
  rw [join_cons_cons, join_cons_cons, List.append_assoc, List.append_assoc,
    List.append_cancel_left_eq] at same
  exact (List.append_inj same lengths).1

/-- Where the old text occurs, the new one can be told from the result. -/
theorem replace_inj {old a b text : List Char} (nonempty : old ≠ []) (occurs : old <:+: text)
    (same : replace old a text = replace old b text) : a = b := by
  rw [replace, replace] at same
  obtain ⟨first, others, pieces⟩ := splitOn_eq_cons old text
  rw [pieces] at same
  cases others with
  | cons second others => exact join_inj same
  | nil =>
    -- a single piece is the text itself, and pieces do not hold the old text
    have whole := join_splitOn nonempty text
    rw [pieces, join_singleton] at whole
    have piece : text ∈ splitOn old text := by
      rw [pieces, whole]
      exact List.mem_singleton_self text
    exact absurd occurs (not_infix_of_mem_splitOn nonempty piece)

end

/-! ## One character -/

variable {d : Char}

theorem splitOn_cons_self (d : Char) (rest : List Char) :
    splitOn [d] (d :: rest) = [] :: splitOn [d] rest := by
  simp [splitOn, splitFrom]

theorem splitOn_cons_of_ne {c : Char} (h : c ≠ d) (rest : List Char) :
    splitOn [d] (c :: rest) = onFirst c (splitOn [d] rest) := by
  simp [splitOn, splitFrom, h.symm]

theorem splitOn_of_notMem {cs : List Char} (h : d ∉ cs) : splitOn [d] cs = [cs] := by
  induction cs with
  | nil => rfl
  | cons c cs ih =>
    rw [List.mem_cons, not_or] at h
    rw [splitOn_cons_of_ne (Ne.symm h.1), ih h.2, onFirst]

theorem splitOn_append {cs : List Char} (h : d ∉ cs) (rest : List Char) :
    splitOn [d] (cs ++ d :: rest) = cs :: splitOn [d] rest := by
  induction cs with
  | nil => exact splitOn_cons_self d rest
  | cons c cs ih =>
    rw [List.mem_cons, not_or] at h
    rw [List.cons_append, splitOn_cons_of_ne (Ne.symm h.1), ih h.2, onFirst]

theorem notMem_of_mem_splitOn {cs piece : List Char} (h : piece ∈ splitOn [d] cs) : d ∉ piece := by
  intro member
  obtain ⟨before, behind, rfl⟩ := List.append_of_mem member
  refine not_infix_of_mem_splitOn (List.cons_ne_nil d []) h ⟨before, behind, ?_⟩
  rw [List.append_assoc, List.singleton_append]

theorem splitOn_eq (d : Char) (cs : List Char) : splitOn [d] cs = cs.splitOn d := by
  induction cs with
  | nil => exact (List.splitOn_nil d).symm
  | cons c cs ih =>
    rw [List.splitOn_cons_eq_if_modifyHead, ← ih]
    by_cases same : c = d
    · rw [if_pos (beq_iff_eq.mpr same), same, splitOn_cons_self]
    · rw [if_neg (mt beq_iff_eq.mp same), splitOn_cons_of_ne same]
      obtain ⟨first, others, pieces⟩ := splitOn_eq_cons [d] cs
      rw [pieces]
      rfl

/-! ## Words -/

theorem wordsFrom_eq (word text : List Char) :
    wordsFrom word text = (List.splitOnPPrepend isBlank text word).filter (!·.isEmpty) := by
  induction text generalizing word with
  | nil => cases word <;> simp [wordsFrom]
  | cons c rest ih =>
    rw [wordsFrom]
    split
    · next blank =>
      rw [ih, List.splitOnPPrepend_cons_pos blank, List.splitOnP]
      cases word <;> simp
    · next visible =>
      rw [ih, List.splitOnPPrepend_cons_neg (by simpa using visible)]

theorem words_eq (text : List Char) :
    words text = (text.splitOnP isBlank).filter (!·.isEmpty) := wordsFrom_eq [] text

end RecordFlow.Text
