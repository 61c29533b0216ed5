import RosettaMq.Client.Packet
import RosettaMq.ToMathlib.Utf8

/-!
# Text in payloads

What `from_utf8` says about a payload, and with it what the UTF-8 decoder publishes for every
message (`utf8_outputs`): the payload itself if it is a text, else an error that tells how long the
longest text at its front is, and whether the payload can still be completed to a text.
-/

open Computability Utf8

namespace RosettaMq

/-- Some character begins with these bytes. -/
def BeginsChar (bytes : List UInt8) : Prop := ∃ w ∈ charCode, bytes <+: w

/-- What `error_len` tells about the bytes from `valid_up_to` on: they begin a character, or the
first `n` of them are as many as begin one, and at least one. -/
def Utf8Error.Describes (errorLen : Option ℕ) (rest : List UInt8) : Prop :=
  match errorLen with
  | none => BeginsChar rest
  | some n => 1 ≤ n ∧ (n = 1 ∨ BeginsChar (rest.take n)) ∧ ¬ BeginsChar (rest.take (n + 1))

theorem BeginsChar.of_isPrefix {bytes start : List UInt8} (h : BeginsChar bytes)
    (hpre : start <+: bytes) : BeginsChar start := by
  obtain ⟨w, hw, hbytes⟩ := h
  exact ⟨w, hw, hpre.trans hbytes⟩

theorem Utf8Error.Describes.eq_none_iff {len : Option ℕ} {rest : List UInt8}
    (h : Describes len rest) : len = none ↔ BeginsChar rest := by
  cases len with
  | none => exact iff_of_true rfl h
  | some n =>
    obtain ⟨-, -, hmore⟩ := h
    exact iff_of_false nofun fun hrest => hmore (hrest.of_isPrefix (List.take_prefix _ _))

/-! ## Sequences by their lead byte -/

variable {b₀ b₁ b₂ b₃ : UInt8} {bytes rest : List UInt8}

theorem isContinuation_iff {b : UInt8} : isContinuation b = true ↔ IsTrail b := by
  simp [isContinuation, IsTrail]

theorem isSecondOfThree_iff : isSecondOfThree b₀ b₁ = true ↔
    IsTrail b₁ ∧ (b₀ = 0xE0 → 0xA0 ≤ b₁) ∧ (b₀ = 0xED → b₁ ≤ 0x9F) := by
  unfold isSecondOfThree
  simp only [← isContinuation_iff, isContinuation]
  grind

theorem isSecondOfFour_iff : isSecondOfFour b₀ b₁ = true ↔
    IsTrail b₁ ∧ (b₀ = 0xF0 → 0x90 ≤ b₁) ∧ (b₀ = 0xF4 → b₁ ≤ 0x8F) := by
  unfold isSecondOfFour
  simp only [← isContinuation_iff, isContinuation]
  grind

/-- A byte that leads no sequence. -/
theorem clashes_lead (h₁ : ¬ b₀ < 0x80) (h₂ : ¬ (0xC2 ≤ b₀ ∧ b₀ ≤ 0xDF))
    (h₃ : ¬ (0xE0 ≤ b₀ ∧ b₀ ≤ 0xEF)) (h₄ : ¬ (0xF0 ≤ b₀ ∧ b₀ ≤ 0xF4)) :
    charCode.Clashes [b₀] := by
  intro w hw
  rw [mem_charCode_iff] at hw
  cases hw <;> simp only [List.cons_prefix_cons] <;> grind

/-- A second byte that does not follow the lead byte of two. -/
theorem clashes_two (hlead : 0xC2 ≤ b₀ ∧ b₀ ≤ 0xDF) (h₁ : ¬ IsTrail b₁) :
    charCode.Clashes [b₀, b₁] := by
  intro w hw
  rw [mem_charCode_iff] at hw
  cases hw <;> simp only [List.cons_prefix_cons] <;> grind

/-- A second byte that does not follow the lead byte of three. -/
theorem clashes_three (hlead : 0xE0 ≤ b₀ ∧ b₀ ≤ 0xEF) (h₁ : ¬ isSecondOfThree b₀ b₁ = true) :
    charCode.Clashes [b₀, b₁] := by
  intro w hw
  rw [mem_charCode_iff] at hw
  rw [isSecondOfThree_iff] at h₁
  cases hw <;> simp only [List.cons_prefix_cons] <;> grind

/-- A third byte that does not trail. -/
theorem clashes_three_last (hlead : 0xE0 ≤ b₀ ∧ b₀ ≤ 0xEF) (h₂ : ¬ IsTrail b₂) :
    charCode.Clashes [b₀, b₁, b₂] := by
  intro w hw
  rw [mem_charCode_iff] at hw
  cases hw <;> simp only [List.cons_prefix_cons] <;> grind

/-- A second byte that does not follow the lead byte of four. -/
theorem clashes_four (hlead : 0xF0 ≤ b₀ ∧ b₀ ≤ 0xF4) (h₁ : ¬ isSecondOfFour b₀ b₁ = true) :
    charCode.Clashes [b₀, b₁] := by
  intro w hw
  rw [mem_charCode_iff] at hw
  rw [isSecondOfFour_iff] at h₁
  cases hw <;> simp only [List.cons_prefix_cons] <;> grind

/-- A third byte that does not trail. -/
theorem clashes_four_third (hlead : 0xF0 ≤ b₀ ∧ b₀ ≤ 0xF4) (h₂ : ¬ IsTrail b₂) :
    charCode.Clashes [b₀, b₁, b₂] := by
  intro w hw
  rw [mem_charCode_iff] at hw
  cases hw <;> simp only [List.cons_prefix_cons] <;> grind

/-- A fourth byte that does not trail. -/
theorem clashes_four_last (hlead : 0xF0 ≤ b₀ ∧ b₀ ≤ 0xF4) (h₃ : ¬ IsTrail b₃) :
    charCode.Clashes [b₀, b₁, b₂, b₃] := by
  intro w hw
  rw [mem_charCode_iff] at hw
  cases hw <;> simp only [List.cons_prefix_cons] <;> grind

/-- A lead byte of three has a second byte. -/
theorem exists_isSecondOfThree (b₀ : UInt8) : ∃ b₁, isSecondOfThree b₀ b₁ = true := by
  by_cases h : b₀ = 0xE0
  · exact ⟨0xA0, by rw [h]; decide⟩
  · refine ⟨0x80, ?_⟩
    rw [isSecondOfThree_iff]
    exact ⟨⟨by decide, by decide⟩, fun h' => absurd h' h, fun _ => by decide⟩

/-- A lead byte of four has a second byte. -/
theorem exists_isSecondOfFour (b₀ : UInt8) : ∃ b₁, isSecondOfFour b₀ b₁ = true := by
  by_cases h : b₀ = 0xF0
  · exact ⟨0x90, by rw [h]; decide⟩
  · refine ⟨0x80, ?_⟩
    rw [isSecondOfFour_iff]
    exact ⟨⟨by decide, by decide⟩, fun h' => absurd h' h, fun _ => by decide⟩

theorem isTrail_first : IsTrail 0x80 := ⟨by decide, by decide⟩

/-- Three bytes are a character if the code accepts them. -/
theorem three_mem (hlead : 0xE0 ≤ b₀ ∧ b₀ ≤ 0xEF) (h₁ : isSecondOfThree b₀ b₁ = true)
    (h₂ : IsTrail b₂) : [b₀, b₁, b₂] ∈ charCode := by
  obtain ⟨htrail, hlow, hsurrogate⟩ := isSecondOfThree_iff.mp h₁
  exact mem_charCode_iff.mpr (.three hlead htrail hlow hsurrogate h₂)

/-- Four bytes are a character if the code accepts them. -/
theorem four_mem (hlead : 0xF0 ≤ b₀ ∧ b₀ ≤ 0xF4) (h₁ : isSecondOfFour b₀ b₁ = true)
    (h₂ : IsTrail b₂) (h₃ : IsTrail b₃) : [b₀, b₁, b₂, b₃] ∈ charCode := by
  obtain ⟨htrail, hlow, hhigh⟩ := isSecondOfFour_iff.mp h₁
  exact mem_charCode_iff.mpr (.four hlead htrail hlow hhigh h₂ h₃)

/-! ## The validation -/

/-- What is reported for these bytes, as the result at index `i`. -/
def Reports (i : ℕ) (result : Except Utf8Error Unit) (rest : List UInt8) : Prop :=
  ∃ len, result = .error ⟨i, len⟩ ∧ charCode.Stuck rest ∧ Utf8Error.Describes len rest

/-- The bytes end inside a character. -/
theorem reports_none {i : ℕ} {t : List UInt8} (hw : bytes ++ t ∈ charCode) (ht : t ≠ []) :
    Reports i (.error ⟨i, none⟩) bytes := by
  have hpre : bytes <+: bytes ++ t := List.prefix_append bytes t
  have hne : bytes ≠ bytes ++ t := fun h => ht (List.self_eq_append_right.mp h)
  exact ⟨none, rfl, isPrefixCode_charCode.stuck_of_isPrefix hw hpre hne, _, hw, hpre⟩

/-- The first bytes clash with all characters, and the last of them is the one to blame. -/
theorem reports_some {i n : ℕ} (hclash : charCode.Clashes bytes) (hn : 1 ≤ n)
    (hlen : bytes.length ≤ n + 1) (hbegins : n = 1 ∨ BeginsChar ((bytes ++ rest).take n)) :
    Reports i (.error ⟨i, some n⟩) (bytes ++ rest) := by
  refine ⟨some n, rfl, hclash.stuck rest, hn, hbegins, ?_⟩
  rintro ⟨w, hw, hpre⟩
  have hle : bytes <+: (bytes ++ rest).take (n + 1) :=
    List.prefix_take_iff.mpr ⟨List.prefix_append bytes rest, hlen⟩
  exact (hclash w hw).2 (hle.trans hpre)

/-- What the validation does at the front of the input: it goes on behind a character, or it
reports the bytes that are left. -/
def Front (i : ℕ) (bytes : List UInt8) : Prop :=
  (∃ w ∈ charCode, ∃ rest, bytes = w ++ rest ∧
    runUtf8Validation i bytes = runUtf8Validation (i + w.length) rest) ∨
  Reports i (runUtf8Validation i bytes) bytes

theorem front_one {i : ℕ} (h₁ : b₀ < 0x80) : Front i (b₀ :: rest) := by
  refine Or.inl ⟨[b₀], mem_charCode_iff.mpr (.one h₁), rest, rfl, ?_⟩
  rw [runUtf8Validation.eq_def]
  exact if_pos h₁

theorem front_two {i : ℕ} (h₁ : ¬ b₀ < 0x80) (h₂ : 0xC2 ≤ b₀ ∧ b₀ ≤ 0xDF) :
    Front i (b₀ :: rest) := by
  cases rest with
  | nil =>
    have heq : runUtf8Validation i [b₀] = .error ⟨i, none⟩ := by
      simp [runUtf8Validation.eq_def, h₁, h₂]
    right
    rw [heq]
    exact reports_none (mem_charCode_iff.mpr (.two h₂ isTrail_first)) (by simp)
  | cons b₁ rest =>
    by_cases hb₁ : IsTrail b₁
    · refine Or.inl ⟨[b₀, b₁], mem_charCode_iff.mpr (.two h₂ hb₁), rest, rfl, ?_⟩
      rw [runUtf8Validation.eq_def]
      simp [h₁, h₂, isContinuation_iff, hb₁]
    · have heq : runUtf8Validation i (b₀ :: b₁ :: rest) = .error ⟨i, some 1⟩ := by
        rw [runUtf8Validation.eq_def]
        simp [h₁, h₂, isContinuation_iff, hb₁]
      right
      rw [heq]
      exact reports_some (clashes_two h₂ hb₁) le_rfl le_rfl (Or.inl rfl)

theorem front_three {i : ℕ} (h₁ : ¬ b₀ < 0x80) (h₂ : ¬ (0xC2 ≤ b₀ ∧ b₀ ≤ 0xDF))
    (h₃ : 0xE0 ≤ b₀ ∧ b₀ ≤ 0xEF) : Front i (b₀ :: rest) := by
  cases rest with
  | nil =>
    obtain ⟨b, hb⟩ := exists_isSecondOfThree b₀
    have heq : runUtf8Validation i [b₀] = .error ⟨i, none⟩ := by
      simp [runUtf8Validation.eq_def, h₁, h₂, h₃]
    right
    rw [heq]
    exact reports_none (t := [b, 0x80]) (three_mem h₃ hb isTrail_first) (by simp)
  | cons b₁ rest =>
    by_cases hb₁ : isSecondOfThree b₀ b₁ = true
    · cases rest with
      | nil =>
        have heq : runUtf8Validation i [b₀, b₁] = .error ⟨i, none⟩ := by
          rw [runUtf8Validation.eq_def]
          simp [h₁, h₂, h₃, hb₁]
        right
        rw [heq]
        exact reports_none (t := [0x80]) (three_mem h₃ hb₁ isTrail_first) (by simp)
      | cons b₂ rest =>
        by_cases hb₂ : IsTrail b₂
        · refine Or.inl ⟨[b₀, b₁, b₂], three_mem h₃ hb₁ hb₂, rest, rfl, ?_⟩
          rw [runUtf8Validation.eq_def]
          simp [h₁, h₂, h₃, hb₁, isContinuation_iff, hb₂]
        · have heq : runUtf8Validation i (b₀ :: b₁ :: b₂ :: rest) = .error ⟨i, some 2⟩ := by
            rw [runUtf8Validation.eq_def]
            simp [h₁, h₂, h₃, hb₁, isContinuation_iff, hb₂]
          right
          rw [heq]
          -- the first two bytes begin a character, whatever the third is
          refine reports_some (clashes_three_last h₃ hb₂) (by decide) le_rfl (Or.inr ?_)
          exact ⟨_, three_mem h₃ hb₁ isTrail_first, [0x80], rfl⟩
    · have heq : runUtf8Validation i (b₀ :: b₁ :: rest) = .error ⟨i, some 1⟩ := by
        rw [runUtf8Validation.eq_def]
        simp [h₁, h₂, h₃, hb₁]
      right
      rw [heq]
      exact reports_some (clashes_three h₃ hb₁) le_rfl le_rfl (Or.inl rfl)

theorem front_four {i : ℕ} (h₁ : ¬ b₀ < 0x80) (h₂ : ¬ (0xC2 ≤ b₀ ∧ b₀ ≤ 0xDF))
    (h₃ : ¬ (0xE0 ≤ b₀ ∧ b₀ ≤ 0xEF)) (h₄ : 0xF0 ≤ b₀ ∧ b₀ ≤ 0xF4) : Front i (b₀ :: rest) := by
  cases rest with
  | nil =>
    obtain ⟨b, hb⟩ := exists_isSecondOfFour b₀
    have heq : runUtf8Validation i [b₀] = .error ⟨i, none⟩ := by
      simp [runUtf8Validation.eq_def, h₁, h₂, h₃, h₄]
    right
    rw [heq]
    exact reports_none (t := [b, 0x80, 0x80]) (four_mem h₄ hb isTrail_first isTrail_first)
      (by simp)
  | cons b₁ rest =>
    by_cases hb₁ : isSecondOfFour b₀ b₁ = true
    · cases rest with
      | nil =>
        have heq : runUtf8Validation i [b₀, b₁] = .error ⟨i, none⟩ := by
          rw [runUtf8Validation.eq_def]
          simp [h₁, h₂, h₃, h₄, hb₁]
        right
        rw [heq]
        exact reports_none (t := [0x80, 0x80]) (four_mem h₄ hb₁ isTrail_first isTrail_first)
          (by simp)
      | cons b₂ rest =>
        by_cases hb₂ : IsTrail b₂
        · cases rest with
          | nil =>
            have heq : runUtf8Validation i [b₀, b₁, b₂] = .error ⟨i, none⟩ := by
              rw [runUtf8Validation.eq_def]
              simp [h₁, h₂, h₃, h₄, hb₁, isContinuation_iff, hb₂]
            right
            rw [heq]
            exact reports_none (t := [0x80]) (four_mem h₄ hb₁ hb₂ isTrail_first) (by simp)
          | cons b₃ rest =>
            by_cases hb₃ : IsTrail b₃
            · refine Or.inl ⟨[b₀, b₁, b₂, b₃], four_mem h₄ hb₁ hb₂ hb₃, rest, rfl, ?_⟩
              rw [runUtf8Validation.eq_def]
              simp [h₁, h₂, h₃, h₄, hb₁, isContinuation_iff, hb₂, hb₃]
            · have heq : runUtf8Validation i (b₀ :: b₁ :: b₂ :: b₃ :: rest) =
                  .error ⟨i, some 3⟩ := by
                rw [runUtf8Validation.eq_def]
                simp [h₁, h₂, h₃, h₄, hb₁, isContinuation_iff, hb₂, hb₃]
              right
              rw [heq]
              refine reports_some (clashes_four_last h₄ hb₃) (by decide) le_rfl (Or.inr ?_)
              exact ⟨_, four_mem h₄ hb₁ hb₂ isTrail_first, [0x80], rfl⟩
        · have heq : runUtf8Validation i (b₀ :: b₁ :: b₂ :: rest) = .error ⟨i, some 2⟩ := by
            rw [runUtf8Validation.eq_def]
            simp [h₁, h₂, h₃, h₄, hb₁, isContinuation_iff, hb₂]
          right
          rw [heq]
          refine reports_some (clashes_four_third h₄ hb₂) (by decide) le_rfl (Or.inr ?_)
          exact ⟨_, four_mem h₄ hb₁ isTrail_first isTrail_first, [0x80, 0x80], rfl⟩
    · have heq : runUtf8Validation i (b₀ :: b₁ :: rest) = .error ⟨i, some 1⟩ := by
        rw [runUtf8Validation.eq_def]
        simp [h₁, h₂, h₃, h₄, hb₁]
      right
      rw [heq]
      exact reports_some (clashes_four h₄ hb₁) le_rfl le_rfl (Or.inl rfl)

theorem front_cons (i : ℕ) (b₀ : UInt8) (rest : List UInt8) : Front i (b₀ :: rest) := by
  by_cases h₁ : b₀ < 0x80
  · exact front_one h₁
  by_cases h₂ : 0xC2 ≤ b₀ ∧ b₀ ≤ 0xDF
  · exact front_two h₁ h₂
  by_cases h₃ : 0xE0 ≤ b₀ ∧ b₀ ≤ 0xEF
  · exact front_three h₁ h₂ h₃
  by_cases h₄ : 0xF0 ≤ b₀ ∧ b₀ ≤ 0xF4
  · exact front_four h₁ h₂ h₃ h₄
  · -- no sequence has this byte in front
    have heq : runUtf8Validation i (b₀ :: rest) = .error ⟨i, some 1⟩ := by
      rw [runUtf8Validation.eq_def]
      simp [h₁, h₂, h₃, h₄]
    right
    rw [heq, ← List.singleton_append]
    exact reports_some (clashes_lead h₁ h₂ h₃ h₄) le_rfl (by simp) (Or.inl rfl)

/-- The validation from index `i` on accepts a text, and otherwise reports what follows the texts
at the front. -/
theorem runUtf8Validation_spec (i : ℕ) (bytes : List UInt8) :
    (IsText bytes ∧ runUtf8Validation i bytes = .ok ()) ∨
    ∃ text rest, bytes = text ++ rest ∧ IsText text ∧ rest ≠ [] ∧
      Reports (i + text.length) (runUtf8Validation i bytes) rest := by
  induction hn : bytes.length using Nat.strongRecOn generalizing i bytes with
  | _ n ih =>
    cases bytes with
    | nil => exact Or.inl ⟨Language.nil_mem_kstar _, rfl⟩
    | cons b₀ bs =>
      rcases front_cons i b₀ bs with ⟨w, hw, rest, hbytes, heq⟩ | hreports
      · -- a character is passed, so fewer bytes are left
        have hpos : 0 < w.length := by
          refine List.length_pos_iff.mpr fun hnil => ?_
          rw [hnil] at hw
          exact isPrefixCode_charCode.nil_notMem hw
        have hlt : rest.length < n := by
          rw [← hn, hbytes, List.length_append]
          omega
        rw [heq, hbytes]
        rcases ih rest.length hlt (i + w.length) rest rfl with
          ⟨htext, hok⟩ | ⟨text, r, rfl, htext, hne, hreports⟩
        · exact Or.inl ⟨Language.append_mem_kstar hw htext, hok⟩
        · refine Or.inr ⟨w ++ text, r, (List.append_assoc ..).symm,
            Language.append_mem_kstar hw htext, hne, ?_⟩
          rwa [List.length_append, ← Nat.add_assoc]
      · exact Or.inr ⟨[], b₀ :: bs, rfl, Language.nil_mem_kstar _, by simp, hreports⟩

/-! ## Texts and strings -/

/-- A text is the bytes of a string. -/
theorem isText_iff_exists_string : IsText bytes ↔ ∃ s : String, intoBytes s = bytes := by
  rw [isText_iff]
  constructor
  · rintro ⟨cs, rfl⟩
    exact ⟨String.ofList cs, by simp [intoBytes, String.toUTF8_eq_toByteArray, List.utf8Encode]⟩
  · rintro ⟨s, rfl⟩
    refine ⟨s.toList, ?_⟩
    rw [intoBytes, String.toUTF8_eq_toByteArray, ← String.utf8Encode_toList, List.utf8Encode]
    simp

theorem isText_intoBytes (s : String) : IsText (intoBytes s) :=
  isText_iff_exists_string.mpr ⟨s, rfl⟩

/-! ## `from_utf8` -/

/-- The validation stops where it cannot go on, so it never rejects a text. -/
theorem fromUtf8_eq_ok_iff {text : List UInt8} :
    fromUtf8 bytes = .ok text ↔ text = bytes ∧ IsText bytes := by
  rcases runUtf8Validation_spec 0 bytes with
    ⟨htext, hok⟩ | ⟨front, rest, hbytes, hfront, hne, hrep⟩
  · rw [fromUtf8, hok]
    exact ⟨fun h => ⟨(Except.ok.inj h).symm, htext⟩, fun h => by rw [h.1]⟩
  · obtain ⟨len, herr, hstuck, -⟩ := hrep
    rw [fromUtf8, herr]
    refine ⟨nofun, fun h => ?_⟩
    -- the rest would be a text in which no character begins
    have hrest : IsText rest :=
      (isPrefixCode_charCode.append_mem_kstar_iff hfront).mp (hbytes ▸ h.2)
    rcases Language.mem_kstar_cases hrest with hnil | ⟨w, hw, r, -, rfl⟩
    · exact absurd hnil hne
    · exact absurd (List.prefix_append w r) (hstuck w hw)

/-- What the error says: the longest text at the front, and about the rest whether more bytes could
complete it. -/
theorem fromUtf8_error {e : Utf8Error} (h : fromUtf8 bytes = .error e) :
    ∃ text rest, bytes = text ++ rest ∧ IsText text ∧ rest ≠ [] ∧ e.validUpTo = text.length ∧
      (∀ z, IsText z → z <+: bytes → z <+: text) ∧
      (BeginsChar rest ↔ ∃ z, IsText (bytes ++ z)) ∧ Utf8Error.Describes e.errorLen rest := by
  rcases runUtf8Validation_spec 0 bytes with ⟨-, hok⟩ | ⟨text, rest, hbytes, htext, hne, hrep⟩
  · rw [fromUtf8, hok] at h
    cases h
  · obtain ⟨len, herr, hstuck, hlen⟩ := hrep
    rw [fromUtf8, herr, Nat.zero_add] at h
    obtain rfl := Except.error.inj h
    refine ⟨text, rest, hbytes, htext, hne, rfl, fun z hz hpre => ?_, ?_, hlen⟩
    · exact isPrefixCode_charCode.isPrefix_of_stuck htext hstuck hz (hbytes ▸ hpre)
    · rw [hbytes]
      exact (isPrefixCode_charCode.exists_append_mem_kstar_iff htext hstuck hne).symm

/-! ## The UTF-8 decoder -/

/-- What the UTF-8 decoder makes of every message. If the payload is the bytes of a string, it is
published as it is. Otherwise an error is published, and its text has the length of the longest
string at the front of the payload. It says that the bytes are incomplete exactly if more bytes
would make them a string; else it has the number of the bytes behind that string that are invalid,
which are as many as begin a character, and at least one. -/
theorem utf8_outputs (m : Publish) :
    (∃ s : String, intoBytes s = m.payload ∧
      ErasedDecoder.outputs ⟨Utf8Decoder.decode⟩ m =
        [⟨m.topic ++ "/decoded", m.qos, m.retain, m.payload⟩]) ∨
    ∃ (s : String) (rest : List UInt8) (e : Utf8Error),
      m.payload = intoBytes s ++ rest ∧ rest ≠ [] ∧
      (∀ s' : String, intoBytes s' <+: m.payload → intoBytes s' <+: intoBytes s) ∧
      ErasedDecoder.outputs ⟨Utf8Decoder.decode⟩ m =
        [(errorPublish (.decode e.display) m).resolve m] ∧
      e.validUpTo = (intoBytes s).length ∧
      (e.errorLen = none ↔ ∃ s' : String, m.payload <+: intoBytes s') ∧
      ∀ n, e.errorLen = some n → 1 ≤ n ∧ (n = 1 ∨ BeginsChar (rest.take n)) ∧
        ¬ BeginsChar (rest.take (n + 1)) := by
  cases hval : fromUtf8 m.payload with
  | ok text =>
    obtain ⟨rfl, htext⟩ := fromUtf8_eq_ok_iff.mp hval
    obtain ⟨s, hs⟩ := isText_iff_exists_string.mp htext
    refine Or.inl ⟨s, hs, outputs_of_sendOne ?_⟩
    simp only [Utf8Decoder.decode, hval]
  | error e =>
    obtain ⟨text, rest, hpayload, htext, hne, hvalid, hlongest, hcomplete, hlen⟩ :=
      fromUtf8_error hval
    obtain ⟨s, rfl⟩ := isText_iff_exists_string.mp htext
    have hout : ErasedDecoder.outputs ⟨Utf8Decoder.decode⟩ m =
        [(errorPublish (.decode e.display) m).resolve m] := by
      refine outputs_of_fail ?_
      simp only [Utf8Decoder.decode, hval]
    refine Or.inr ⟨s, rest, e, hpayload, hne, fun s' => hlongest _ (isText_intoBytes s'), hout,
      hvalid, ?_, fun n hn => ?_⟩
    · rw [hlen.eq_none_iff, hcomplete]
      constructor
      · rintro ⟨z, hz⟩
        obtain ⟨s', hs'⟩ := isText_iff_exists_string.mp hz
        exact ⟨s', hs' ▸ List.prefix_append _ z⟩
      · rintro ⟨s', z, hz⟩
        exact ⟨z, hz ▸ isText_intoBytes s'⟩
    · rw [hn] at hlen
      exact hlen

/-! ## Built-in decoders -/

variable {Message Json : Type}

/-- What the serializer of JSON writes is text. -/
def ProtobufDecoder.WritesText (self : ProtobufDecoder Message) : Prop :=
  ∀ message buf, self.serialize message = .ok buf → ∃ s : String, intoBytes s = buf

/-- The decoder serializes to text, if it is one that serializes. -/
def BuiltinDecoder.WritesText : BuiltinDecoder Message Json → Prop
  | .protobuf decoder => decoder.WritesText
  | .hexdump | .utf8 | .template _ => True

/-- A built-in decoder sends text. -/
theorem BuiltinDecoder.decode_text (d : BuiltinDecoder Message Json) (hd : d.WritesText)
    (m : Publish) :
    (∃ s : String, d.erase.decode m = .sendOne (intoBytes s)) ∨
      ∃ e, d.erase.decode m = .fail e := by
  cases d with
  | hexdump => exact Or.inl ⟨_, rfl⟩
  | utf8 =>
    simp only [BuiltinDecoder.erase, Utf8Decoder.decode]
    cases hval : fromUtf8 m.payload with
    | error e => exact Or.inr ⟨_, rfl⟩
    | ok payload =>
      obtain ⟨rfl, htext⟩ := fromUtf8_eq_ok_iff.mp hval
      obtain ⟨s, hs⟩ := isText_iff_exists_string.mp htext
      exact Or.inl ⟨s, by rw [hs]⟩
  | protobuf decoder =>
    simp only [BuiltinDecoder.erase, ProtobufDecoder.decode]
    cases decoder.decodeMessage m.payload with
    | error e => exact Or.inr ⟨_, rfl⟩
    | ok message =>
      cases hser : decoder.serialize message with
      | error e => exact Or.inr ⟨_, by simp only [hser]; rfl⟩
      | ok buf =>
        obtain ⟨s, rfl⟩ := hd message buf hser
        exact Or.inl ⟨s, by simp only [hser]⟩
  | template decoder =>
    simp only [BuiltinDecoder.erase, TemplateDecoder.decode]
    split
    · exact Or.inr ⟨_, rfl⟩
    · exact Or.inl ⟨_, rfl⟩

/-- Whatever the payload of a message, what a built-in decoder makes of it is text. -/
theorem BuiltinDecoder.exists_payload_eq (d : BuiltinDecoder Message Json) (hd : d.WritesText)
    {m : Publish} {r : ResolvedDecodePublish} (hr : r ∈ d.erase.outputs m) :
    ∃ s : String, intoBytes s = r.payload := by
  rcases d.decode_text hd m with ⟨s, h⟩ | ⟨e, h⟩
  · rw [outputs_of_sendOne h, List.mem_singleton] at hr
    rw [hr]
    exact ⟨s, rfl⟩
  · rw [outputs_of_fail h, List.mem_singleton] at hr
    rw [hr]
    exact ⟨_, rfl⟩

end RosettaMq
