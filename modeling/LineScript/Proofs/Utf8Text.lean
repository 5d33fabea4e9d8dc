
import LineScript.Value.Convert

/-!
# Bytes of a text

What is stored as bytes is read back: the bytes of a character are read as that character and no more of them, whatever
follows, so a text is read from its bytes, and from no others (`decode_eq_ok_iff`).
-/

namespace LineScript.Text

open List

/-! ## Single bytes -/

theorem toNat_byte {n : Nat} (small : n < 256) : (UInt8.ofNat n).toNat = n := by
  rw [UInt8.toNat_ofNat']
  omega

theorem leadLength_eq (b : UInt8) : leadLength b = if b.toNat < 0x80 then some 1
      else if 0xc2 ≤ b.toNat ∧ b.toNat < 0xe0 then some 2 else if 0xe0 ≤ b.toNat ∧ b.toNat < 0xf0 then some 3
      else if 0xf0 ≤ b.toNat ∧ b.toNat < 0xf5 then some 4 else none := by
  unfold leadLength
  simp only [Bool.and_eq_true, decide_eq_true_eq]
  rfl

theorem isContinuation_byte {n : Nat} (small : n < 64) : isContinuation (UInt8.ofNat (0x80 + n)) := by
  unfold isContinuation
  rw [toNat_byte (by omega)]
  exact decide_eq_true (by omega)

theorem payload_byte {n : Nat} (small : n < 64) : payload (UInt8.ofNat (0x80 + n)) = n := by
  unfold payload
  rw [toNat_byte (by omega)]
  omega

theorem secondFits_eq (lead second : UInt8) : secondFits lead second = (isContinuation second &&
        (if lead.toNat = 0xe0 then decide (0xa0 ≤ second.toNat) else if lead.toNat = 0xed then decide (second.toNat < 0xa0)
        else if lead.toNat = 0xf0 then decide (0x90 ≤ second.toNat)
        else if lead.toNat = 0xf4 then decide (second.toNat < 0x90) else true)) := by
  unfold secondFits
  simp only [← UInt8.toNat_inj]
  rfl

theorem secondFits_byte {lead second : Nat} (small : lead < 256) (continues : second < 64)
    (long : lead = 0xe0 → 0x20 ≤ second) (surrogate : lead = 0xed → second < 0x20) (longer : lead = 0xf0 → 0x10 ≤ second)
    (last : lead = 0xf4 → second < 0x10) : secondFits (UInt8.ofNat lead) (UInt8.ofNat (0x80 + second)) := by
  rw [secondFits_eq, isContinuation_byte continues, toNat_byte small, toNat_byte (by omega)]
  split
  · exact decide_eq_true (by omega)
  split
  · exact decide_eq_true (by omega)
  split
  · exact decide_eq_true (by omega)
  split
  · exact decide_eq_true (by omega)
  · rfl

/-! ## Characters -/

section

variable {a b c d : UInt8} (rest : Bytes)

theorem decodeChar_one (lead : leadLength a = some 1) : decodeChar (a :: rest) = .ok (Char.ofNat a.toNat, 1) := by
  unfold decodeChar
  simp only [lead]

theorem decodeChar_two (lead : leadLength a = some 2) (second : secondFits a b) :
    decodeChar (a :: b :: rest) = .ok (Char.ofNat (a.toNat % 32 * 64 + payload b), 2) := by
  unfold decodeChar
  simp only [lead, second, if_true]

theorem decodeChar_three (lead : leadLength a = some 3) (second : secondFits a b) (third : isContinuation c) :
    decodeChar (a :: b :: c :: rest) = .ok (Char.ofNat (a.toNat % 16 * 4096 + payload b * 64 + payload c), 3) := by
  unfold decodeChar
  simp only [lead, second, third, Bool.not_true, Bool.false_eq_true, if_false]

theorem decodeChar_four (lead : leadLength a = some 4) (second : secondFits a b) (third : isContinuation c)
    (fourth : isContinuation d) : decodeChar (a :: b :: c :: d :: rest) =
      .ok (Char.ofNat (a.toNat % 8 * 262144 + payload b * 4096 + payload c * 64 + payload d), 4) := by
  unfold decodeChar
  simp only [lead, second, third, fourth, Bool.not_true, Bool.false_eq_true, if_false]

end

theorem toNat_range (c : Char) : c.toNat < 0xd800 ∨ 0xdfff < c.toNat ∧ c.toNat < 0x110000 := c.valid

theorem decodeChar_encodeChar (c : Char) (bs : Bytes) :
    decodeChar (encodeChar c ++ bs) = .ok (c, (encodeChar c).length) := by
  have range := toNat_range c
  have whole := Char.ofNat_toNat c
  have tail : ∀ n : Nat, n % 64 < 64 := fun n => Nat.mod_lt n (by decide)
  unfold encodeChar
  dsimp only
  generalize c.toNat = n at range whole
  split
  · have lead : leadLength (UInt8.ofNat n) = some 1 := by
      rw [leadLength_eq, toNat_byte (by omega), if_pos (by omega)]
    have read := decodeChar_one bs lead
    rw [toNat_byte (by omega), whole] at read
    exact read
  split
  · have lead : leadLength (UInt8.ofNat (0xc0 + n / 64)) = some 2 := by
      rw [leadLength_eq, toNat_byte (by omega), if_neg (by omega), if_pos (by omega)]
    have second : secondFits (UInt8.ofNat (0xc0 + n / 64)) (UInt8.ofNat (0x80 + n % 64)) :=
      secondFits_byte (by omega) (by omega) (by omega) (by omega) (by omega) (by omega)
    have number : (0xc0 + n / 64) % 32 * 64 + n % 64 = n := by omega
    have read := decodeChar_two bs lead second
    rw [toNat_byte (by omega), payload_byte (tail _), number, whole] at read
    exact read
  split
  · have lead : leadLength (UInt8.ofNat (0xe0 + n / 4096)) = some 3 := by
      rw [leadLength_eq, toNat_byte (by omega), if_neg (by omega), if_neg (by omega), if_pos (by omega)]
    have second : secondFits (UInt8.ofNat (0xe0 + n / 4096)) (UInt8.ofNat (0x80 + n / 64 % 64)) :=
      secondFits_byte (by omega) (by omega) (by omega) (by omega) (by omega) (by omega)
    have number : (0xe0 + n / 4096) % 16 * 4096 + n / 64 % 64 * 64 + n % 64 = n := by omega
    have read := decodeChar_three bs lead second (isContinuation_byte (tail n))
    rw [toNat_byte (by omega), payload_byte (tail _), payload_byte (tail _), number, whole] at read
    exact read
  · have lead : leadLength (UInt8.ofNat (0xf0 + n / 262144)) = some 4 := by
      rw [leadLength_eq, toNat_byte (by omega), if_neg (by omega), if_neg (by omega), if_neg (by omega), if_pos (by omega)]
    have second : secondFits (UInt8.ofNat (0xf0 + n / 262144)) (UInt8.ofNat (0x80 + n / 4096 % 64)) :=
      secondFits_byte (by omega) (by omega) (by omega) (by omega) (by omega) (by omega)
    have number : (0xf0 + n / 262144) % 8 * 262144 + n / 4096 % 64 * 4096 + n / 64 % 64 * 64 + n % 64 = n := by omega
    have read := decodeChar_four bs lead second (isContinuation_byte (tail (n / 64))) (isContinuation_byte (tail n))
    rw [toNat_byte (by omega), payload_byte (tail _), payload_byte (tail _), payload_byte (tail _), number, whole] at read
    exact read

/-! ## Texts -/

/-- Bytes that belong to a character already read are passed over. -/
theorem decodeFrom_skip (front bs : Bytes) (position : Nat) :
    decodeFrom front.length position (front ++ bs) = decodeFrom 0 (position + front.length) bs := by
  induction front generalizing position with
  | nil => rfl
  | cons b front ih =>
    rw [cons_append, length_cons, decodeFrom, ih]
    congr 1
    omega

theorem encodeChar_ne_nil (c : Char) : encodeChar c ≠ [] := by
  unfold encodeChar
  dsimp only
  repeat' split
  all_goals exact cons_ne_nil _ _

theorem decodeFrom_encodeChar (c : Char) {position : Nat} {bs : Bytes} {cs : List Char}
    (rest : decodeFrom 0 (position + (encodeChar c).length) bs = .ok cs) :
    decodeFrom 0 position (encodeChar c ++ bs) = .ok (c :: cs) := by
  have read := decodeChar_encodeChar c bs
  obtain ⟨b, front, shape⟩ := exists_cons_of_ne_nil (encodeChar_ne_nil c)
  rw [shape] at read rest ⊢
  rw [length_cons, Nat.add_left_comm, Nat.add_comm] at rest
  rw [cons_append] at read ⊢
  rw [decodeFrom, read]
  dsimp only
  rw [length_cons, Nat.add_sub_cancel, decodeFrom_skip, rest]

theorem decode_encode (s : List Char) : decode (encode s) = .ok s := by
  -- the characters before one only shift the position that a fault would name
  have anywhere : ∀ position, decodeFrom 0 position (encode s) = .ok s := by
    induction s with
    | nil => exact fun _ => rfl
    | cons c s ih => exact fun position => decodeFrom_encodeChar c (ih _)
  exact anywhere 0

/-! ## Nothing else is read -/

section

variable {a b : UInt8} {bs : Bytes} {c : Char} {n : Nat} {cs : List Char}

theorem leadLength_eq_some (lead : leadLength a = some n) :
    n = 1 ∧ a.toNat < 0x80 ∨ n = 2 ∧ 0xc2 ≤ a.toNat ∧ a.toNat < 0xe0 ∨ n = 3 ∧ 0xe0 ≤ a.toNat ∧ a.toNat < 0xf0 ∨
      n = 4 ∧ 0xf0 ≤ a.toNat ∧ a.toNat < 0xf5 := by
  rw [leadLength_eq] at lead
  repeat' split at lead
  all_goals cases lead <;> omega

theorem range_of_secondFits (fits : secondFits a b) :
    b.toNat / 64 = 2 ∧ (a.toNat = 0xe0 → 0xa0 ≤ b.toNat) ∧ (a.toNat = 0xed → b.toNat < 0xa0) ∧
      (a.toNat = 0xf0 → 0x90 ≤ b.toNat) ∧ (a.toNat = 0xf4 → b.toNat < 0x90) := by
  rw [secondFits_eq, Bool.and_eq_true] at fits
  refine ⟨of_decide_eq_true fits.1, ?_⟩
  have range := fits.2
  repeat' split at range
  all_goals simp at range <;> omega

theorem toNat_ofNat (valid : n.isValidChar) : (Char.ofNat n).toNat = n := by
  unfold Char.ofNat
  rw [dif_pos valid]
  rfl

theorem ofNat_eq (same : n = b.toNat) : UInt8.ofNat n = b := by rw [same, UInt8.ofNat_toNat]

theorem toNat_of_div (high : b.toNat / 64 = 2) : b.toNat = 0x80 + payload b ∧ payload b < 64 := by
  unfold payload
  omega

/-- Only the bytes of a character are read as it. -/
theorem exists_append_of_decodeChar (read : decodeChar bs = .ok (c, n)) :
    ∃ rest, bs = encodeChar c ++ rest ∧ n = (encodeChar c).length := by
  revert read
  unfold encodeChar
  fun_cases decodeChar bs
  all_goals rintro ⟨⟩
  case case3 a rest lead =>
    have range := leadLength_eq_some lead
    rw [toNat_ofNat (.inl (by omega))]
    dsimp only
    rw [if_pos (by omega), UInt8.ofNat_toNat]
    exact ⟨rest, rfl, rfl⟩
  case case5 a b rest lead fits =>
    have first : 0xc2 ≤ a.toNat ∧ a.toNat < 0xe0 := by
      have range := leadLength_eq_some lead
      omega
    have second := toNat_of_div (range_of_secondFits fits).1
    generalize number : a.toNat % 32 * 64 + payload b = n
    rw [toNat_ofNat (.inl (by omega))]
    dsimp only
    rw [if_neg (by omega), if_pos (by omega), ofNat_eq (b := a) (by omega), ofNat_eq (b := b) (by omega)]
    exact ⟨rest, rfl, rfl⟩
  case case12 a b c rest lead fits third =>
    have first : 0xe0 ≤ a.toNat ∧ a.toNat < 0xf0 := by
      have range := leadLength_eq_some lead
      omega
    obtain ⟨high, overlong, surrogate, -⟩ := range_of_secondFits (a := a) (b := b) (by simpa using fits)
    have second := toNat_of_div high
    have third := toNat_of_div (b := c) (by simpa [isContinuation] using third)
    generalize number : a.toNat % 16 * 4096 + payload b * 64 + payload c = n
    rw [toNat_ofNat (by unfold Nat.isValidChar; omega)]
    dsimp only
    rw [if_neg (by omega), if_neg (by omega), if_pos (by omega), ofNat_eq (b := a) (by omega), ofNat_eq (b := b) (by omega),
      ofNat_eq (b := c) (by omega)]
    exact ⟨rest, rfl, rfl⟩
  case case22 a n b c d rest one two three lead fits third fourth =>
    have first : 0xf0 ≤ a.toNat ∧ a.toNat < 0xf5 := by
      have four : n ≠ 1 ∧ n ≠ 2 ∧ n ≠ 3 := ⟨one, two, three⟩
      have range := leadLength_eq_some lead
      omega
    obtain ⟨high, -, -, overlong, past⟩ := range_of_secondFits (a := a) (b := b) (by simpa using fits)
    have second := toNat_of_div high
    have third := toNat_of_div (b := c) (by simpa [isContinuation] using third)
    have fourth := toNat_of_div (b := d) (by simpa [isContinuation] using fourth)
    generalize number : a.toNat % 8 * 262144 + payload b * 4096 + payload c * 64 + payload d = m
    rw [toNat_ofNat (.inr ⟨by omega, by omega⟩)]
    dsimp only
    rw [if_neg (by omega), if_neg (by omega), if_neg (by omega), ofNat_eq (b := a) (by omega), ofNat_eq (b := b) (by omega),
      ofNat_eq (b := c) (by omega), ofNat_eq (b := d) (by omega)]
    exact ⟨rest, rfl, rfl⟩

theorem eq_encode_of_decodeFrom {position : Nat} (read : decodeFrom 0 position bs = .ok cs) : bs = encode cs := by
  induction cs generalizing bs position with
  | nil =>
    cases bs with
    | nil => rfl
    | cons b bs =>
      rw [decodeFrom] at read
      repeat' split at read
      all_goals cases read
  | cons c cs ih =>
    rcases bs with _ | ⟨b, bs⟩
    · cases read
    rw [decodeFrom] at read
    split at read
    · rename_i n first
      split at read
      · rename_i more
        cases read
        obtain ⟨rest, shape, rfl⟩ := exists_append_of_decodeChar first
        obtain ⟨x, xs, filled⟩ := exists_cons_of_ne_nil (encodeChar_ne_nil c)
        rw [filled, cons_append] at shape
        obtain ⟨rfl, rfl⟩ := cons.inj shape
        rw [filled, length_cons, Nat.add_sub_cancel, decodeFrom_skip] at more
        rw [ih more, encode, encode, flatMap_cons, filled]
        rfl
      · cases read
    · cases read

theorem decode_eq_ok_iff : decode bs = .ok cs ↔ bs = encode cs :=
  ⟨eq_encode_of_decodeFrom, fun same => same ▸ decode_encode cs⟩

end

theorem universalNewlines_eq_self {s : List Char} (none : '\r' ∉ s) : universalNewlines s = s := by
  induction s with
  | nil => rfl
  | cons c s ih =>
    obtain ⟨other, rest⟩ := ne_and_not_mem_of_not_mem_cons none
    rw [universalNewlines, ih rest, if_neg other.symm]
    intro cs same
    exact absurd same.symm other

end LineScript.Text

namespace LineScript.Value

theorem decodeUtf8_encode (text : List Char) : decodeUtf8 (Text.encode text) = .ok text := by
  unfold decodeUtf8
  rw [Text.decode_encode]

theorem decodeUtf8_eq_ok_iff {bs : Text.Bytes} {text : List Char} : decodeUtf8 bs = .ok text ↔ bs = Text.encode text := by
  rw [← Text.decode_eq_ok_iff]
  unfold decodeUtf8
  cases Text.decode bs <;> simp

end LineScript.Value
