import RecordFlow.Text.Blank
import RecordFlow.Text.Split

/-!
# Trimming

Up to its last character that is not blank a text survives trimming, and from its first such
character on. A text has an ending exactly if it is some text with that ending put after it.
-/
namespace RecordFlow.Text

variable {c : Char} {cs ending stem text : List Char}

theorem trimEnd_append_cons (visible : isBlank c = false) (front cs : List Char) :
    trimEnd (front ++ c :: cs) = front ++ c :: trimEnd cs := by
  unfold trimEnd
  rw [List.reverse_append, List.reverse_cons, List.append_assoc, List.dropWhile_append]
  split
  · next blank =>
    rw [List.isEmpty_iff.mp blank, List.singleton_append,
      List.dropWhile_cons_of_neg (by simp [visible])]
    simp
  · simp

theorem trimEnd_concat_blank (blank : isBlank c = true) (cs : List Char) :
    trimEnd (cs ++ [c]) = trimEnd cs := by
  unfold trimEnd
  rw [List.reverse_append, List.reverse_singleton, List.singleton_append,
    List.dropWhile_cons_of_pos blank]

theorem mem_of_mem_trimEnd (h : c ∈ trimEnd cs) : c ∈ cs := by
  rw [trimEnd, List.mem_reverse] at h
  exact List.mem_reverse.mp ((List.dropWhile_sublist isBlank).mem h)

theorem trim_eq_trimEnd (visible : isBlank c = false) (cs : List Char) :
    trim (c :: cs) = trimEnd (c :: cs) := by
  unfold trim
  rw [List.dropWhile_cons_of_neg (by simp [visible])]

theorem trim_cons (visible : isBlank c = false) (cs : List Char) :
    trim (c :: cs) = c :: trimEnd cs := by
  rw [trim_eq_trimEnd visible]
  exact trimEnd_append_cons visible [] cs

theorem trim_of_ends {d : Char} {after before : List Char} (first : cs = c :: after)
    (last : cs = before ++ [d]) (here : isBlank c = false) (there : isBlank d = false) :
    trim cs = cs := by
  rw [first, trim_eq_trimEnd here, ← first, last]
  exact trimEnd_append_cons there before []

theorem dropEnding?_eq_some_iff : dropEnding? ending text = some stem ↔ text = stem ++ ending := by
  unfold dropEnding?
  constructor
  · intro h
    split at h
    · next found =>
      obtain ⟨front, rfl⟩ := List.isSuffixOf_iff_suffix.mp found
      cases h
      simp
    · cases h
  · rintro rfl
    rw [if_pos (List.isSuffixOf_iff_suffix.mpr (List.suffix_append _ _))]
    simp

end RecordFlow.Text
