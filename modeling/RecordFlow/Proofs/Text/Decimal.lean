import RecordFlow.Json.Printer
import RecordFlow.Text.Digit

/-!
# Numbers in decimal digits

The text of a natural number has digits only and is not empty, and reading it from the left gives
the number back.
-/
namespace RecordFlow.Json

theorem isDigit_of_mem_naturalText {n : Nat} {c : Char} (h : c ∈ naturalText n) :
    c.isDigit = true :=
  Nat.isDigit_of_mem_toDigits (by decide) (by decide) h

theorem naturalText_ne_nil (n : Nat) : naturalText n ≠ [] := Nat.toDigits_ne_nil

theorem ofDigitChars_naturalText (n : Nat) : Nat.ofDigitChars 10 (naturalText n) 0 = n :=
  Nat.ofDigitChars_ten_toDigits

theorem naturalText_inj {m n : Nat} (h : naturalText m = naturalText n) : m = n := by
  rw [← ofDigitChars_naturalText m, h, ofDigitChars_naturalText]

/-- Only the text of zero begins with a zero. -/
theorem naturalText_eq_cons (n : Nat) :
    ∃ c cs, naturalText n = c :: cs ∧ (c = '0' → cs = []) := by
  induction n using Nat.strongRecOn with
  | ind n ih =>
    rw [naturalText, Nat.toDigits_eq_if (by decide)]
    split
    · exact ⟨_, _, rfl, fun _ => rfl⟩
    · obtain ⟨c, cs, text, alone⟩ := ih (n / 10) (by omega)
      rw [← naturalText, text]
      refine ⟨c, cs ++ [(n % 10).digitChar], rfl, fun zero => ?_⟩
      have value := ofDigitChars_naturalText (n / 10)
      rw [text, zero, alone zero] at value
      have : n / 10 = 0 := value.symm
      omega

/-- More digits never make a number smaller. -/
theorem le_ofDigitChars (cs : List Char) (n : Nat) : n ≤ Nat.ofDigitChars 10 cs n := by
  induction cs generalizing n with
  | nil => exact Nat.le_of_eq Nat.ofDigitChars_nil.symm
  | cons c cs ih =>
    rw [Nat.ofDigitChars_cons]
    exact Nat.le_trans (by omega) (ih _)

end RecordFlow.Json
