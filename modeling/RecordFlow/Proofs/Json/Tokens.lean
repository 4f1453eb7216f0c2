import RecordFlow.Json.Reader
import RecordFlow.Proofs.Text.Decimal
import RecordFlow.Proofs.Text.Utf8

/-!
# Reading back strings and whole numbers

A quoted text is read as the text, whatever its characters and whatever comes after it. The text of
a whole number is read as the number if no byte comes after it that could go on with a number.
-/
namespace RecordFlow.Json

open Utf8 (encode encode_cons)

/-! ## Strings -/

theorem stringBytes_plain {block s tail rest : Bytes}
    (plain : ∀ b ∈ block, b ≠ 0x22 ∧ b ≠ 0x5C ∧ ¬ b < 0x20)
    (h : stringBytes 0 s = .ok (tail, rest)) :
    stringBytes 0 (block ++ s) = .ok (block ++ tail, rest) := by
  induction block with
  | nil => exact h
  | cons b block ih =>
    obtain ⟨⟨quote, backslash, control⟩, others⟩ := List.forall_mem_cons.mp plain
    rw [List.cons_append, stringBytes, if_neg quote, if_neg backslash, if_neg control, ih others]
    rfl

/-- An escape that stands for `bytes` and takes the bytes `taken` after its backslash. -/
theorem stringBytes_escape (taken : Bytes) {bytes s tail rest : Bytes}
    (read : escapeBytes (taken ++ s) = .ok (bytes, taken.length))
    (h : stringBytes 0 s = .ok (tail, rest)) :
    stringBytes 0 (0x5C :: (taken ++ s)) = .ok (bytes ++ tail, rest) := by
  have skip : stringBytes taken.length (taken ++ s) = stringBytes 0 s := by
    clear read
    induction taken with
    | nil => rfl
    | cons b taken ih => exact ih
  rw [stringBytes, if_neg (by decide), if_pos rfl, read]
  simp only [bind, Except.bind, skip, h]
  rfl

theorem hexValue?_hexDigit {n : Nat} (h : n < 16) :
    hexValue? (UInt8.ofNat (hexDigit n).toNat) = some n := by
  have all : ∀ n < 16, hexValue? (UInt8.ofNat (hexDigit n).toNat) = some n := by decide
  exact all n h

theorem toNat_hexDigit_lt {n : Nat} (h : n < 16) : (hexDigit n).toNat < 0x80 := by
  have all : ∀ n < 16, (hexDigit n).toNat < 0x80 := by decide
  exact all n h

/-- What stands after the backslash in the escape of a control character by its code. -/
def controlBytes (n : Nat) : Bytes :=
  [0x75, 0x30, 0x30, UInt8.ofNat (hexDigit (n / 16)).toNat, UInt8.ofNat (hexDigit (n % 16)).toNat]

theorem encode_control {n : Nat} (h : n < 0x20) :
    encode ['\\', 'u', '0', '0', hexDigit (n / 16), hexDigit (n % 16)] =
      0x5C :: controlBytes n := by
  have high := toNat_hexDigit_lt (n := n / 16) (by omega)
  have low := toNat_hexDigit_lt (n := n % 16) (by omega)
  simp only [encode_cons, Utf8.encode_nil, Utf8.encodeChar_ascii high, Utf8.encodeChar_ascii low]
  rfl

theorem escapeBytes_control {c : Char} (h : c.toNat < 0x20) (s : Bytes) :
    escapeBytes (controlBytes c.toNat ++ s) = .ok (String.utf8EncodeChar c, 5) := by
  have high := hexValue?_hexDigit (n := c.toNat / 16) (by omega)
  have low := hexValue?_hexDigit (n := c.toNat % 16) (by omega)
  have zero : hexValue? 0x30 = some 0 := by decide
  have value : ((0 * 16 + 0) * 16 + c.toNat / 16) * 16 + c.toNat % 16 = c.toNat := by omega
  have scalar : Utf8.encode [Char.ofNat c.toNat] = String.utf8EncodeChar c := by
    rw [Char.ofNat_toNat, encode_cons, Utf8.encode_nil, List.append_nil]
  have notTrailing : isTrailing c.toNat = false := by simp [isTrailing]; omega
  have notLeading : isLeading c.toNat = false := by simp [isLeading]; omega
  simp only [controlBytes, List.cons_append, List.nil_append, escapeBytes, unicodeEscape, hex4,
    zero, high, low, value, bind, Except.bind, notTrailing, notLeading, scalar]
  rfl

/-- A character is escaped by one letter, by its code if it is another control, or not at all. -/
theorem escape_cases (c : Char) :
    (∃ e : Char, 0x20 ≤ e.toNat ∧ e.toNat < 0x80 ∧ escape c = ['\\', e] ∧
      ∀ s, escapeBytes (UInt8.ofNat e.toNat :: s) = .ok (String.utf8EncodeChar c, 1)) ∨
    (c.toNat < 0x20 ∧ escape c =
      ['\\', 'u', '0', '0', hexDigit (c.toNat / 16), hexDigit (c.toNat % 16)]) ∨
    (0x20 ≤ c.toNat ∧ c ≠ '"' ∧ c ≠ '\\' ∧ escape c = [c]) := by
  have letter (e : Char) (least : 0x20 ≤ e.toNat) (ascii : e.toNat < 0x80)
      (read : ∀ s, escapeBytes (UInt8.ofNat e.toNat :: s) = .ok (String.utf8EncodeChar c, 1)) :
      ∃ e' : Char, 0x20 ≤ e'.toNat ∧ e'.toNat < 0x80 ∧ ['\\', e] = ['\\', e'] ∧
        ∀ s, escapeBytes (UInt8.ofNat e'.toNat :: s) = .ok (String.utf8EncodeChar c, 1) :=
    ⟨e, least, ascii, rfl, read⟩
  rw [escape]
  split
  · next same => subst same; exact .inl (letter '"' (by decide) (by decide) fun _ => rfl)
  next quote =>
  split
  · next same => subst same; exact .inl (letter '\\' (by decide) (by decide) fun _ => rfl)
  next backslash =>
  split
  · next same => subst same; exact .inl (letter 'n' (by decide) (by decide) fun _ => rfl)
  split
  · next same => subst same; exact .inl (letter 'r' (by decide) (by decide) fun _ => rfl)
  split
  · next same => subst same; exact .inl (letter 't' (by decide) (by decide) fun _ => rfl)
  split
  · next same => subst same; exact .inl (letter 'b' (by decide) (by decide) fun _ => rfl)
  split
  · next same => subst same; exact .inl (letter 'f' (by decide) (by decide) fun _ => rfl)
  split
  · next control => exact .inr (.inl ⟨control, rfl⟩)
  · next printable => exact .inr (.inr ⟨Nat.not_lt.mp printable, quote, backslash, rfl⟩)

theorem encodeChar_plain {c : Char} (printable : 0x20 ≤ c.toNat) (quote : c ≠ '"')
    (backslash : c ≠ '\\') :
    ∀ b ∈ String.utf8EncodeChar c, b ≠ 0x22 ∧ b ≠ 0x5C ∧ ¬ b < 0x20 := by
  intro b member
  have at_least : ∀ k : Nat, k ≤ b.toNat → ∀ a : UInt8, a.toNat < k → b ≠ a := by
    rintro k least _ less rfl
    omega
  rw [UInt8.lt_iff_toNat_lt]
  by_cases ascii : c.toNat < 0x80
  · rw [Utf8.encodeChar_ascii ascii, List.mem_singleton] at member
    have code : b.toNat = c.toNat := by rw [member, Utf8.toNat_byte (by omega)]
    have other {d : Char} (h : c ≠ d) : b.toNat ≠ d.toNat := by
      rw [code]
      exact fun same => h (Char.toNat_inj.mp same)
    refine ⟨?_, ?_, ?_⟩
    · rintro rfl; exact other quote rfl
    · rintro rfl; exact other backslash rfl
    · rw [code]; exact Nat.not_lt.mpr printable
  · have high := Utf8.le_of_mem_encodeChar (Nat.not_lt.mp ascii) member
    refine ⟨at_least _ high _ (by decide), at_least _ high _ (by decide), ?_⟩
    exact Nat.not_lt.mpr (Nat.le_trans (by decide) high)

theorem stringBytes_escapeChar (c : Char) {s tail rest : Bytes}
    (h : stringBytes 0 s = .ok (tail, rest)) :
    stringBytes 0 (encode (escape c) ++ s) = .ok (String.utf8EncodeChar c ++ tail, rest) := by
  rcases escape_cases c with ⟨e, -, ascii, text, read⟩ | ⟨control, text⟩ |
    ⟨printable, quote, backslash, text⟩
  · have bytes : encode (escape c) = [0x5C, UInt8.ofNat e.toNat] := by
      rw [text, encode_cons, encode_cons, Utf8.encodeChar_ascii ascii]
      rfl
    rw [bytes]
    exact stringBytes_escape [UInt8.ofNat e.toNat] (read s) h
  · rw [text, encode_control control]
    exact stringBytes_escape _ (escapeBytes_control control s) h
  · rw [text, encode_cons, Utf8.encode_nil, List.append_nil]
    exact stringBytes_plain (encodeChar_plain printable quote backslash) h

theorem stringBytes_escaped (cs : List Char) (rest : Bytes) :
    stringBytes 0 (encode (cs.flatMap escape) ++ 0x22 :: rest) = .ok (encode cs, rest) := by
  induction cs with
  | nil => rfl
  | cons c cs ih =>
    rw [List.flatMap_cons, Utf8.encode_append, List.append_assoc, encode_cons]
    exact stringBytes_escapeChar c ih

theorem encode_quoted (s : String) (rest : Bytes) :
    encode (quoted s) ++ rest = 0x22 :: (encode (s.toList.flatMap escape) ++ 0x22 :: rest) := by
  rw [quoted, encode_cons, Utf8.encode_append, List.append_assoc, List.append_assoc]
  rfl

theorem stringBody_escaped (s : String) (rest : Bytes) :
    stringBody (encode (s.toList.flatMap escape) ++ 0x22 :: rest) = .ok (s, rest) := by
  have decoded := Utf8.toString?_ofString s
  rw [Utf8.ofString] at decoded
  rw [stringBody, stringBytes_escaped]
  simp only [bind, Except.bind, decoded]
  rfl

/-! ## Whole numbers -/

/-- No byte follows that could go on with a number. -/
def EndsNumber : Bytes → Prop
  | [] => True
  | b :: _ => isDigit b = false ∧ b ≠ 0x2E ∧ b ≠ 0x65 ∧ b ≠ 0x45

theorem toNat_of_isDigit {c : Char} (h : c.isDigit = true) : 48 ≤ c.toNat ∧ c.toNat ≤ 57 := by
  simp only [Char.isDigit, Bool.and_eq_true, decide_eq_true_eq] at h
  exact h

theorem encodeChar_digit {c : Char} (h : c.isDigit = true) :
    String.utf8EncodeChar c = [UInt8.ofNat c.toNat] ∧ isDigit (UInt8.ofNat c.toNat) = true ∧
      digit (UInt8.ofNat c.toNat) = c.toNat - '0'.toNat := by
  obtain ⟨least, greatest⟩ := toNat_of_isDigit h
  have code : (UInt8.ofNat c.toNat).toNat = c.toNat := Utf8.toNat_byte (by omega)
  refine ⟨Utf8.encodeChar_ascii (by omega), ?_, ?_⟩
  · simp only [isDigit, Bool.and_eq_true, decide_eq_true_eq, UInt8.le_iff_toNat_le, code]
    exact ⟨least, greatest⟩
  · rw [digit, code]
    rfl

theorem integerDigits_end (m : Significand) {rest : Bytes} (ends : EndsNumber rest) :
    integerDigits m rest = .ok (wholeNumber m, rest) := by
  cases rest with
  | nil => rfl
  | cons b rest =>
    obtain ⟨digit, point, small, capital⟩ := ends
    have exponent : startsWithExponent (b :: rest) = false := by
      simp [startsWithExponent, small, capital]
    rw [integerDigits, if_neg (by simp [digit]), if_neg point, if_neg (by simp [exponent])]

theorem integerDigits_chars {cs : List Char} (digits : ∀ c ∈ cs, c.isDigit = true)
    (m : Significand) (fits : Nat.ofDigitChars 10 cs m.digits < UInt64.size) {rest : Bytes}
    (ends : EndsNumber rest) :
    integerDigits m (encode cs ++ rest) =
      .ok (wholeNumber { m with digits := Nat.ofDigitChars 10 cs m.digits }, rest) := by
  induction cs generalizing m with
  | nil => exact integerDigits_end m ends
  | cons c cs ih =>
    obtain ⟨here, there⟩ := List.forall_mem_cons.mp digits
    obtain ⟨bytes, isDigit, value⟩ := encodeChar_digit here
    rw [Nat.ofDigitChars_cons, Nat.mul_comm, ← value] at fits ⊢
    have room : m.fits (digit (UInt8.ofNat c.toNat)) = true :=
      decide_eq_true (Nat.lt_of_le_of_lt (le_ofDigitChars cs _) fits)
    rw [encode_cons, bytes, List.singleton_append, List.cons_append, integerDigits,
      if_pos isDigit, if_pos room]
    exact ih there (m.push _) fits

theorem integerPart_naturalText (negative : Bool) {n : Nat} (h : n < UInt64.size) {rest : Bytes}
    (ends : EndsNumber rest) :
    integerPart negative (encode (naturalText n) ++ rest) =
      .ok (wholeNumber ⟨negative, n⟩, rest) := by
  obtain ⟨c, cs, text, zero⟩ := naturalText_eq_cons n
  have digits : ∀ d ∈ c :: cs, d.isDigit = true := by
    rw [← text]
    exact fun _ => isDigit_of_mem_naturalText
  obtain ⟨here, there⟩ := List.forall_mem_cons.mp digits
  obtain ⟨bytes, isDigit, value⟩ := encodeChar_digit here
  have read := ofDigitChars_naturalText n
  rw [text, Nat.ofDigitChars_cons, Nat.mul_zero, Nat.zero_add, ← value] at read
  have alone : ¬ (UInt8.ofNat c.toNat = 0x30 ∧ startsWithDigit (encode cs ++ rest) = true) := by
    rintro ⟨first, more⟩
    have code : c.toNat = 48 := by
      have := congrArg UInt8.toNat first
      rwa [Utf8.toNat_byte (by have := (toNat_of_isDigit here).2; omega)] at this
    rw [zero (Char.toNat_inj.mp code)] at more
    cases rest with
    | nil => cases more
    | cons b rest => exact absurd more (by simp [startsWithDigit, ends.1])
  rw [text, encode_cons, bytes, List.singleton_append, List.cons_append, integerPart,
    if_neg alone, if_pos isDigit, integerDigits_chars there _ (by rwa [read]) ends, read]

theorem wholeNumber_of_natAbs (i : Whole) :
    wholeNumber ⟨decide (i.val < 0), i.val.natAbs⟩ = .whole i := by
  have signed : (if decide (i.val < 0) = true then -(i.val.natAbs : Int) else i.val.natAbs) =
      i.val := by
    simp only [decide_eq_true_eq]
    split <;> omega
  have fits : Whole.ofInt? i.val = some i := dif_pos i.property
  have nonzero : ¬ (decide (i.val < 0) = true ∧ i.val.natAbs = 0) := by
    simp only [decide_eq_true_eq]
    omega
  rw [wholeNumber]
  simp only [signed, fits]
  exact if_neg nonzero

theorem number_wholeText (i : Whole) {rest : Bytes} (ends : EndsNumber rest) :
    number (encode (wholeText i.val) ++ rest) = .ok (.whole i, rest) := by
  have small : i.val.natAbs < UInt64.size := by
    have := i.property
    rw [UInt64.size]
    omega
  have whole := wholeNumber_of_natAbs i
  rw [wholeText]
  split
  · next negative =>
    rw [decide_eq_true negative] at whole
    rw [encode_cons, ← whole]
    exact integerPart_naturalText true small ends
  · next positive =>
    rw [decide_eq_false positive] at whole
    rw [← whole, ← integerPart_naturalText false small ends]
    obtain ⟨c, cs, text, -⟩ := naturalText_eq_cons i.val.natAbs
    have digit : c.isDigit = true :=
      isDigit_of_mem_naturalText (n := i.val.natAbs) (by rw [text]; exact List.mem_cons_self)
    rw [text, encode_cons, (encodeChar_digit digit).1, List.singleton_append, List.cons_append,
      number]
    intro rest' minus
    obtain ⟨least, greatest⟩ := toNat_of_isDigit digit
    have code := congrArg UInt8.toNat (List.cons.inj minus).1
    rw [Utf8.toNat_byte (by omega)] at code
    exact absurd code (Nat.ne_of_gt (Nat.lt_of_lt_of_le (by decide) least))

end RecordFlow.Json
