import RosettaMq.ToMathlib.PrefixCode

/-!
# Well-formed UTF-8

The bytes of the characters are a prefix code (`Utf8.isPrefixCode_charCode`), and they are the
sequences of the table of well-formed UTF-8 in the Unicode standard (`Utf8.mem_charCode_iff`): a
lead byte that tells the length, and trailing bytes, the first of which is bounded where the
sequence would be overlong, a surrogate, or beyond the last character.
-/

open Computability

namespace Utf8

/-- The UTF-8 encodings of the characters. -/
def charCode : Language UInt8 := Set.range String.utf8EncodeChar

/-- The bytes of a text. -/
def IsText (bytes : List UInt8) : Prop := bytes ∈ charCode∗

/-- A trailing byte. -/
def IsTrail (b : UInt8) : Prop := 0x80 ≤ b ∧ b ≤ 0xBF

/-- A well-formed sequence of one character. -/
inductive WellFormed : List UInt8 → Prop
  | one {b₀ : UInt8} (hlead : b₀ < 0x80) : WellFormed [b₀]
  | two {b₀ b₁ : UInt8} (hlead : 0xC2 ≤ b₀ ∧ b₀ ≤ 0xDF) (h₁ : IsTrail b₁) :
      WellFormed [b₀, b₁]
  | three {b₀ b₁ b₂ : UInt8} (hlead : 0xE0 ≤ b₀ ∧ b₀ ≤ 0xEF) (h₁ : IsTrail b₁)
      (hlow : b₀ = 0xE0 → 0xA0 ≤ b₁) (hsurrogate : b₀ = 0xED → b₁ ≤ 0x9F) (h₂ : IsTrail b₂) :
      WellFormed [b₀, b₁, b₂]
  | four {b₀ b₁ b₂ b₃ : UInt8} (hlead : 0xF0 ≤ b₀ ∧ b₀ ≤ 0xF4) (h₁ : IsTrail b₁)
      (hlow : b₀ = 0xF0 → 0x90 ≤ b₁) (hhigh : b₀ = 0xF4 → b₁ ≤ 0x8F) (h₂ : IsTrail b₂)
      (h₃ : IsTrail b₃) : WellFormed [b₀, b₁, b₂, b₃]

/-! ## The encodings are the well-formed sequences -/

/-- A trailing byte by its number. -/
theorem isTrail_iff {b : UInt8} : IsTrail b ↔ 128 ≤ b.toNat ∧ b.toNat ≤ 191 := by
  simp [IsTrail, UInt8.le_iff_toNat_le]

/-- The character of a scalar value. -/
theorem toNat_val_ofNat {v : ℕ} (h : v.isValidChar) : (Char.ofNat v).val.toNat = v := by
  rw [Char.ofNat, dif_pos h]
  rfl

/-- A number is written as the byte that has it. -/
theorem ofNat_eq_of_eq_toNat {b : UInt8} {n : ℕ} (h : n = b.toNat) : UInt8.ofNat n = b := by
  rw [h, UInt8.ofNat_toNat]

/-- Every well-formed sequence encodes a character. -/
theorem WellFormed.mem_charCode {bytes : List UInt8} (h : WellFormed bytes) :
    bytes ∈ charCode := by
  cases h with
  | @one b₀ hlead =>
    simp only [UInt8.lt_iff_toNat_lt, UInt8.reduceToNat] at hlead
    have hval : (Char.ofNat b₀.toNat).val.toNat = b₀.toNat :=
      toNat_val_ofNat (Or.inl (by omega))
    refine ⟨Char.ofNat b₀.toNat, ?_⟩
    simp only [String.utf8EncodeChar, hval]
    rw [if_pos (by omega), UInt8.ofNat_toNat]
  | @two b₀ b₁ hlead h₁ =>
    simp only [isTrail_iff, UInt8.le_iff_toNat_le, UInt8.reduceToNat] at hlead h₁
    obtain ⟨v, hv⟩ : ∃ v, v = (b₀.toNat - 192) * 64 + (b₁.toNat - 128) := ⟨_, rfl⟩
    have hval : (Char.ofNat v).val.toNat = v := toNat_val_ofNat (Or.inl (by omega))
    refine ⟨Char.ofNat v, ?_⟩
    simp only [String.utf8EncodeChar, hval]
    rw [if_neg (by omega), if_pos (by omega), ofNat_eq_of_eq_toNat (b := b₀) (by omega),
      ofNat_eq_of_eq_toNat (b := b₁) (by omega)]
  | @three b₀ b₁ b₂ hlead h₁ hlow hsurrogate h₂ =>
    simp only [isTrail_iff, UInt8.le_iff_toNat_le, ← UInt8.toNat_inj, UInt8.reduceToNat]
      at hlead h₁ hlow hsurrogate h₂
    obtain ⟨v, hv⟩ : ∃ v, v =
      (b₀.toNat - 224) * 4096 + (b₁.toNat - 128) * 64 + (b₂.toNat - 128) := ⟨_, rfl⟩
    have hvalid : v.isValidChar := by unfold Nat.isValidChar; omega
    have hval : (Char.ofNat v).val.toNat = v := toNat_val_ofNat hvalid
    refine ⟨Char.ofNat v, ?_⟩
    simp only [String.utf8EncodeChar, hval]
    rw [if_neg (by omega), if_neg (by omega), if_pos (by omega),
      ofNat_eq_of_eq_toNat (b := b₀) (by omega), ofNat_eq_of_eq_toNat (b := b₁) (by omega),
      ofNat_eq_of_eq_toNat (b := b₂) (by omega)]
  | @four b₀ b₁ b₂ b₃ hlead h₁ hlow hhigh h₂ h₃ =>
    simp only [isTrail_iff, UInt8.le_iff_toNat_le, ← UInt8.toNat_inj, UInt8.reduceToNat]
      at hlead h₁ hlow hhigh h₂ h₃
    obtain ⟨v, hv⟩ : ∃ v, v = (b₀.toNat - 240) * 262144 + (b₁.toNat - 128) * 4096 +
      (b₂.toNat - 128) * 64 + (b₃.toNat - 128) := ⟨_, rfl⟩
    have hvalid : v.isValidChar := by unfold Nat.isValidChar; omega
    have hval : (Char.ofNat v).val.toNat = v := toNat_val_ofNat hvalid
    refine ⟨Char.ofNat v, ?_⟩
    simp only [String.utf8EncodeChar, hval]
    rw [if_neg (by omega), if_neg (by omega), if_neg (by omega),
      ofNat_eq_of_eq_toNat (b := b₀) (by omega), ofNat_eq_of_eq_toNat (b := b₁) (by omega),
      ofNat_eq_of_eq_toNat (b := b₂) (by omega), ofNat_eq_of_eq_toNat (b := b₃) (by omega)]

/-- The encoding of every character is well formed. -/
theorem wellFormed_utf8EncodeChar (c : Char) : WellFormed (String.utf8EncodeChar c) := by
  have hvalid := c.valid
  obtain ⟨v, hv⟩ : ∃ v, v = c.val.toNat := ⟨_, rfl⟩
  simp only [UInt32.isValidChar, Nat.isValidChar, ← hv] at hvalid
  simp only [String.utf8EncodeChar, ← hv]
  split_ifs with h₁ h₂ h₃
  · refine .one ?_
    simp [UInt8.lt_iff_toNat_lt]; omega
  · refine .two ?_ ?_ <;> simp [isTrail_iff, UInt8.le_iff_toNat_le] <;> omega
  · refine .three ?_ ?_ ?_ ?_ ?_ <;>
      simp [isTrail_iff, UInt8.le_iff_toNat_le, ← UInt8.toNat_inj] <;> omega
  · refine .four ?_ ?_ ?_ ?_ ?_ ?_ <;>
      simp [isTrail_iff, UInt8.le_iff_toNat_le, ← UInt8.toNat_inj] <;> omega

theorem mem_charCode_iff {bytes : List UInt8} : bytes ∈ charCode ↔ WellFormed bytes := by
  refine ⟨?_, WellFormed.mem_charCode⟩
  rintro ⟨c, rfl⟩
  exact wellFormed_utf8EncodeChar c

/-! ## The encodings are a prefix code -/

theorem isPrefixCode_charCode : charCode.IsPrefixCode where
  nil_notMem := by
    rintro ⟨c, hc⟩
    exact String.utf8EncodeChar_ne_nil hc
  eq_of_isPrefix := by
    rintro _ _ ⟨c, rfl⟩ ⟨d, rfl⟩ ⟨t, ht⟩
    -- what is decoded at the front is both characters
    have hc := ByteArray.utf8DecodeChar?_utf8EncodeChar_append (b := t.toByteArray) (c := c)
    have hd := ByteArray.utf8DecodeChar?_utf8EncodeChar_append (b := ByteArray.empty) (c := d)
    rw [← List.toByteArray_append, ht] at hc
    rw [ByteArray.append_empty, hc, Option.some_inj] at hd
    rw [hd]

/-- The bytes of the characters of a string are a text, and every text is that. -/
theorem isText_iff {bytes : List UInt8} :
    IsText bytes ↔ ∃ cs : List Char, bytes = cs.flatMap String.utf8EncodeChar := by
  constructor
  · rintro ⟨ws, rfl, hws⟩
    induction ws with
    | nil => exact ⟨[], rfl⟩
    | cons w ws ih =>
      rw [List.forall_mem_cons] at hws
      obtain ⟨c, rfl⟩ := hws.1
      obtain ⟨cs, hcs⟩ := ih hws.2
      exact ⟨c :: cs, by rw [List.flatten_cons, hcs, List.flatMap_cons]⟩
  · rintro ⟨cs, rfl⟩
    refine ⟨cs.map String.utf8EncodeChar, List.flatMap_def, ?_⟩
    intro w hw
    obtain ⟨c, -, rfl⟩ := List.mem_map.mp hw
    exact ⟨c, rfl⟩

end Utf8
