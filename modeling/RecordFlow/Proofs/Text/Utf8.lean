import RecordFlow.Text.Utf8

/-!
# Decoding what was encoded

Every scalar is read back from its bytes, so every text is read back from its bytes. An ASCII
character is one byte, and the bytes of any other character are no ASCII codes. Lossy reading of
bytes that were cut off somewhere gives the whole characters before the cut, and no ASCII character
that was not there.
-/
namespace RecordFlow.Utf8

theorem toNat_lt (c : Char) : c.toNat < 0x110000 := by
  have valid := c.valid
  simp only [UInt32.isValidChar, Nat.isValidChar] at valid
  change c.val.toNat < 0x110000
  omega

theorem toNat_byte {n : Nat} (h : n < 256) : (UInt8.ofNat n).toNat = n := by
  rw [UInt8.toNat_ofNat']
  exact Nat.mod_eq_of_lt h

theorem payload?_byte (n : Nat) : payload? (UInt8.ofNat (n % 64 + 0x80)) = some (n % 64) := by
  rw [payload?, toNat_byte (by omega), if_pos (by omega), Nat.add_sub_cancel]

theorem scalar?_toNat {c : Char} {least : Nat} (h : least ≤ c.toNat) :
    scalar? least c.toNat = some c := by
  rw [scalar?, if_pos ⟨h, c.valid⟩, Char.ofNat_toNat]

theorem guard_of {p : Prop} [Decidable p] (h : p) : (guard p : Option Unit) = some () := if_pos h

theorem guard_of_not {p : Prop} [Decidable p] (h : ¬ p) : (guard p : Option Unit) = none :=
  if_neg h

/-! ## The sequences of each length -/

theorem one?_byte {c : Char} (h : c.toNat ≤ 0x7F) : one? (UInt8.ofNat c.toNat) = some c := by
  rw [one?, toNat_byte (by omega), if_pos (by omega), Char.ofNat_toNat]

theorem one?_eq_none {a : UInt8} (h : 0x80 ≤ a.toNat) : one? a = none := if_neg (by omega)

theorem two?_bytes {c : Char} (low : 0x80 ≤ c.toNat) (high : c.toNat ≤ 0x7FF) :
    two? (UInt8.ofNat (c.toNat / 64 % 0x20 + 0xC0)) (UInt8.ofNat (c.toNat % 64 + 0x80)) =
      some c := by
  have whole : (c.toNat / 64 % 0x20 + 0xC0 - 0xC0) * 64 + c.toNat % 64 = c.toNat := by omega
  rw [two?, toNat_byte (by omega), payload?_byte,
    guard_of (by omega)]
  change scalar? 0x80 _ = _
  rw [whole, scalar?_toNat low]

theorem two?_eq_none {a b : UInt8} (h : 0xE0 ≤ a.toNat) : two? a b = none := by
  rw [two?, guard_of_not (by omega)]
  rfl

theorem three?_bytes {c : Char} (low : 0x800 ≤ c.toNat) (high : c.toNat ≤ 0xFFFF) :
    three? (UInt8.ofNat (c.toNat / 4096 % 0x10 + 0xE0))
      (UInt8.ofNat (c.toNat / 64 % 64 + 0x80)) (UInt8.ofNat (c.toNat % 64 + 0x80)) = some c := by
  have whole : ((c.toNat / 4096 % 0x10 + 0xE0 - 0xE0) * 64 + c.toNat / 64 % 64) * 64 +
      c.toNat % 64 = c.toNat := by omega
  rw [three?, toNat_byte (by omega), payload?_byte, payload?_byte,
    guard_of (by omega)]
  change scalar? 0x800 _ = _
  rw [whole, scalar?_toNat low]

theorem three?_eq_none {a b c : UInt8} (h : 0xF0 ≤ a.toNat) : three? a b c = none := by
  rw [three?, guard_of_not (by omega)]
  rfl

theorem four?_bytes {c : Char} (low : 0x10000 ≤ c.toNat) :
    four? (UInt8.ofNat (c.toNat / 262144 % 8 + 0xF0)) (UInt8.ofNat (c.toNat / 4096 % 64 + 0x80))
      (UInt8.ofNat (c.toNat / 64 % 64 + 0x80)) (UInt8.ofNat (c.toNat % 64 + 0x80)) = some c := by
  have limit := toNat_lt c
  have whole : (((c.toNat / 262144 % 8 + 0xF0 - 0xF0) * 64 + c.toNat / 4096 % 64) * 64 +
      c.toNat / 64 % 64) * 64 + c.toNat % 64 = c.toNat := by omega
  rw [four?, toNat_byte (by omega), payload?_byte, payload?_byte, payload?_byte,
    guard_of (by omega)]
  change scalar? 0x10000 _ = _
  rw [whole, scalar?_toNat low]

/-! ## Texts -/

theorem pieces_char (c : Char) (s : Bytes) :
    pieces (String.utf8EncodeChar c ++ s) = .scalar c :: pieces s := by
  have value : c.val.toNat = c.toNat := rfl
  rw [String.utf8EncodeChar]
  simp only [value]
  split
  · next h =>
    rw [List.singleton_append, pieces.eq_def]
    simp only [one?_byte h]
  · split
    · next low high =>
      have first : (UInt8.ofNat (c.toNat / 64 % 32 + 192)).toNat = c.toNat / 64 % 32 + 192 :=
        toNat_byte (by omega)
      rw [List.cons_append, List.singleton_append, pieces.eq_def]
      simp only [one?_eq_none (a := UInt8.ofNat (c.toNat / 64 % 32 + 192)) (by omega),
        two?_bytes (c := c) (by omega) high]
    · split
      · next low high =>
        have first : (UInt8.ofNat (c.toNat / 4096 % 16 + 224)).toNat =
            c.toNat / 4096 % 16 + 224 := toNat_byte (by omega)
        rw [List.cons_append, List.cons_append, List.singleton_append, pieces.eq_def]
        simp only [one?_eq_none (a := UInt8.ofNat (c.toNat / 4096 % 16 + 224)) (by omega),
          two?_eq_none (a := UInt8.ofNat (c.toNat / 4096 % 16 + 224)) (by omega),
          three?_bytes (c := c) (by omega) high]
      · next low =>
        have first : (UInt8.ofNat (c.toNat / 262144 % 8 + 240)).toNat =
            c.toNat / 262144 % 8 + 240 := toNat_byte (by omega)
        rw [List.cons_append, List.cons_append, List.cons_append, List.singleton_append,
          pieces.eq_def]
        simp only [one?_eq_none (a := UInt8.ofNat (c.toNat / 262144 % 8 + 240)) (by omega),
          two?_eq_none (a := UInt8.ofNat (c.toNat / 262144 % 8 + 240)) (by omega),
          three?_eq_none (a := UInt8.ofNat (c.toNat / 262144 % 8 + 240)) (by omega),
          four?_bytes (c := c) (by omega)]

theorem eq_of_char_append {c d : Char} {s t : Bytes}
    (h : String.utf8EncodeChar c ++ s = String.utf8EncodeChar d ++ t) : c = d := by
  have first := congrArg pieces h
  rw [pieces_char, pieces_char] at first
  exact Piece.scalar.inj (List.cons.inj first).1

@[simp] theorem encode_nil : encode [] = [] := rfl

theorem encode_cons (c : Char) (cs : List Char) :
    encode (c :: cs) = String.utf8EncodeChar c ++ encode cs := List.flatMap_cons

@[simp] theorem encode_append (cs ds : List Char) : encode (cs ++ ds) = encode cs ++ encode ds :=
  List.flatMap_append

theorem decode?_encode (cs : List Char) : decode? (encode cs) = some cs := by
  rw [decode?]
  induction cs with
  | nil => rfl
  | cons c cs ih => rw [encode_cons, pieces_char, scalars?, ih, Option.map_some]

theorem toString?_ofString (s : String) : toString? (ofString s) = some s := by
  rw [toString?, ofString, decode?_encode, Option.map_some, String.ofList_toList]

theorem ofString_ofList (cs : List Char) : ofString (String.ofList cs) = encode cs := by
  rw [ofString, String.toList_ofList]

/-! ## ASCII -/

theorem encodeChar_ascii {c : Char} (h : c.toNat < 0x80) :
    String.utf8EncodeChar c = [UInt8.ofNat c.toNat] := by
  rw [String.utf8EncodeChar]
  exact if_pos (Nat.le_of_lt_succ h)

theorem le_of_mem_encodeChar {c : Char} (h : 0x80 ≤ c.toNat) {b : UInt8}
    (member : b ∈ String.utf8EncodeChar c) : 0x80 ≤ b.toNat := by
  have value : c.val.toNat = c.toNat := rfl
  rw [String.utf8EncodeChar] at member
  simp only [value] at member
  split at member
  · omega
  · split at member
    · simp only [List.mem_cons, List.not_mem_nil, or_false] at member
      rcases member with rfl | rfl <;> rw [toNat_byte (by omega)] <;> omega
    · split at member
      · simp only [List.mem_cons, List.not_mem_nil, or_false] at member
        rcases member with rfl | rfl | rfl <;> rw [toNat_byte (by omega)] <;> omega
      · simp only [List.mem_cons, List.not_mem_nil, or_false] at member
        rcases member with rfl | rfl | rfl | rfl <;> rw [toNat_byte (by omega)] <;> omega

/-- A bound on the characters up to the end of ASCII is a bound on the bytes. -/
theorem le_of_mem_encode {least : Nat} (ascii : least ≤ 0x80) {cs : List Char}
    (h : ∀ c ∈ cs, least ≤ c.toNat) {b : UInt8} (member : b ∈ encode cs) : least ≤ b.toNat := by
  obtain ⟨c, inside, member⟩ := List.mem_flatMap.mp member
  by_cases small : c.toNat < 0x80
  · rw [encodeChar_ascii small, List.mem_singleton] at member
    rw [member, toNat_byte (by omega)]
    exact h c inside
  · exact Nat.le_trans ascii (le_of_mem_encodeChar (Nat.not_lt.mp small) member)

/-- The byte of an ASCII character stands in the bytes of a text once for each time that the
character stands in the text. -/
theorem count_encode {c : Char} (ascii : c.toNat < 0x80) (cs : List Char) :
    (encode cs).count (UInt8.ofNat c.toNat) = cs.count c := by
  induction cs with
  | nil => rfl
  | cons d cs ih =>
    have first : (String.utf8EncodeChar d).count (UInt8.ofNat c.toNat) =
        if d == c then 1 else 0 := by
      by_cases small : d.toNat < 0x80
      · have same : UInt8.ofNat d.toNat = UInt8.ofNat c.toNat ↔ d = c := by
          constructor
          · intro bytes
            have numbers := congrArg UInt8.toNat bytes
            rw [toNat_byte (by omega), toNat_byte (by omega)] at numbers
            exact Char.toNat_inj.mp numbers
          · exact fun h => h ▸ rfl
        rw [encodeChar_ascii small, List.count_singleton]
        simp only [beq_iff_eq, same]
      · rw [List.count_eq_zero.mpr, if_neg]
        · rintro same
          exact small (beq_iff_eq.mp same ▸ ascii)
        · intro member
          have high := le_of_mem_encodeChar (Nat.not_lt.mp small) member
          rw [toNat_byte (by omega)] at high
          omega
    rw [encode_cons, List.count_append, first, ih, List.count_cons, Nat.add_comm]

theorem mem_encode_iff {c : Char} (ascii : c.toNat < 0x80) {cs : List Char} :
    UInt8.ofNat c.toNat ∈ encode cs ↔ c ∈ cs := by
  rw [← List.count_pos_iff, count_encode ascii, List.count_pos_iff]

/-! ## Lossy reading -/

theorem pieces_encode (cs : List Char) (s : Bytes) :
    pieces (encode cs ++ s) = cs.map .scalar ++ pieces s := by
  induction cs with
  | nil => rfl
  | cons c cs ih =>
    rw [encode_cons, List.append_assoc, pieces_char, ih]
    rfl

/-- What was encoded is read as it was, whatever comes after it. -/
theorem lossy_encode_append (cs : List Char) (s : Bytes) :
    lossy (encode cs ++ s) = cs ++ lossy s := by
  unfold lossy
  rw [pieces_encode]
  induction cs with
  | nil => rfl
  | cons c cs ih => exact congrArg (c :: ·) ih

theorem lossy_encode (cs : List Char) : lossy (encode cs) = cs := by
  have alone := lossy_encode_append cs []
  rwa [List.append_nil, show lossy [] = [] from rfl, List.append_nil] at alone

theorem mem_of_mem_replaceStrays {c : Char} {cut : Bytes} {ps : List Piece}
    (h : c ∈ replaceStrays cut ps) : c = '\uFFFD' ∨ .scalar c ∈ ps := by
  fun_induction replaceStrays cut ps with
  | case1 => cases h
  | case2 cut d rest ih =>
    rcases List.mem_cons.mp h with rfl | later
    · exact .inr List.mem_cons_self
    · exact (ih later).imp_right (List.mem_cons_of_mem _)
  | case3 cut b rest goesOn ih => exact (ih h).imp_right (List.mem_cons_of_mem _)
  | case4 cut b rest ends ih =>
    rcases List.mem_cons.mp h with same | later
    · exact .inl same
    · exact (ih later).imp_right (List.mem_cons_of_mem _)

theorem toNat_ofNat {n : Nat} (valid : n.isValidChar) : (Char.ofNat n).toNat = n := by
  rw [Char.ofNat, dif_pos valid]
  rfl

theorem ofNat_of_one? {a : UInt8} {c : Char} (h : one? a = some c) : UInt8.ofNat c.toNat = a := by
  unfold one? at h
  split at h
  · next ascii =>
    cases h
    rw [toNat_ofNat (.inl (by omega)), UInt8.ofNat_toNat]
  · cases h

theorem le_of_scalar? {least n : Nat} {c : Char} (h : scalar? least n = some c) :
    least ≤ c.toNat := by
  unfold scalar? at h
  split at h
  · next fits =>
    cases h
    rw [toNat_ofNat fits.2]
    exact fits.1
  · cases h

theorem le_of_two? {a b : UInt8} {c : Char} (h : two? a b = some c) : 0x80 ≤ c.toNat := by
  unfold two? at h
  obtain ⟨_, _, h⟩ := Option.bind_eq_some_iff.mp h
  obtain ⟨_, _, read⟩ := Option.bind_eq_some_iff.mp h
  exact le_of_scalar? read

theorem le_of_three? {a b d : UInt8} {c : Char} (h : three? a b d = some c) : 0x80 ≤ c.toNat := by
  unfold three? at h
  obtain ⟨_, _, h⟩ := Option.bind_eq_some_iff.mp h
  obtain ⟨_, _, h⟩ := Option.bind_eq_some_iff.mp h
  obtain ⟨_, _, read⟩ := Option.bind_eq_some_iff.mp h
  exact Nat.le_trans (by decide) (le_of_scalar? read)

theorem le_of_four? {a b d e : UInt8} {c : Char} (h : four? a b d e = some c) :
    0x80 ≤ c.toNat := by
  unfold four? at h
  obtain ⟨_, _, h⟩ := Option.bind_eq_some_iff.mp h
  obtain ⟨_, _, h⟩ := Option.bind_eq_some_iff.mp h
  obtain ⟨_, _, h⟩ := Option.bind_eq_some_iff.mp h
  obtain ⟨_, _, read⟩ := Option.bind_eq_some_iff.mp h
  exact Nat.le_trans (by decide) (le_of_scalar? read)

/-- An ASCII character is read from its own byte only. -/
theorem mem_of_mem_pieces {c : Char} (ascii : c.toNat < 0x80) {s : Bytes}
    (h : .scalar c ∈ pieces s) : UInt8.ofNat c.toNat ∈ s := by
  have after_stray {b : UInt8} {ps : List Piece} (h : .scalar c ∈ .stray b :: ps) :
      .scalar c ∈ ps := by
    rcases List.mem_cons.mp h with same | later
    · cases same
    · exact later
  have after_long {d : Char} {ps : List Piece} (long : 0x80 ≤ d.toNat)
      (h : .scalar c ∈ .scalar d :: ps) : .scalar c ∈ ps := by
    rcases List.mem_cons.mp h with same | later
    · cases same
      exact absurd ascii (Nat.not_lt.mpr long)
    · exact later
  fun_induction pieces s with
  | case1 => cases h
  | case2 a s d one ih =>
    rcases List.mem_cons.mp h with same | later
    · cases same
      rw [ofNat_of_one? one]
      exact List.mem_cons_self
    · exact List.mem_cons_of_mem _ (ih later)
  | case3 a => cases after_stray h
  | case4 a _ b s d two ih =>
    have later := ih (after_long (le_of_two? two) h)
    exact List.mem_cons_of_mem _ (List.mem_cons_of_mem _ later)
  | case5 a _ b _ ih => exact List.mem_cons_of_mem _ (ih (after_stray h))
  | case6 a _ b _ d s e three ih =>
    have later := ih (after_long (le_of_three? three) h)
    exact List.mem_cons_of_mem _ (List.mem_cons_of_mem _ (List.mem_cons_of_mem _ later))
  | case7 a _ b _ d _ ih => exact List.mem_cons_of_mem _ (ih (after_stray h))
  | case8 a _ b _ d _ e s f four ih =>
    have later := ih (after_long (le_of_four? four) h)
    exact List.mem_cons_of_mem _ (List.mem_cons_of_mem _ (List.mem_cons_of_mem _
      (List.mem_cons_of_mem _ later)))
  | case9 a _ b _ d _ e s _ ih => exact List.mem_cons_of_mem _ (ih (after_stray h))

theorem mem_of_mem_lossy {c : Char} (ascii : c.toNat < 0x80) {s : Bytes} (h : c ∈ lossy s) :
    UInt8.ofNat c.toNat ∈ s := by
  rcases mem_of_mem_replaceStrays h with rfl | read
  · exact absurd ascii (by decide)
  · exact mem_of_mem_pieces ascii read

end RecordFlow.Utf8
