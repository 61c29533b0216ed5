import Mathlib.Data.Nat.Log

/-!
# Standard library functions

The functions of the Rust standard library, and `hex::encode`, that the decoders and the engine
call, with their documented behavior: `str::ends_with`, the bytes of a string, `str::from_utf8`
with its error, and lower-case hexadecimal text.
-/

namespace RosettaMq

/-- `s.ends_with(suffix)`. -/
def endsWith (s suffix : String) : Bool := suffix.toList.isSuffixOf s.toList

theorem endsWith_iff {s suffix : String} :
    endsWith s suffix = true ↔ suffix.toList <:+ s.toList :=
  List.isSuffixOf_iff_suffix

@[simp] theorem endsWith_append (s suffix : String) : endsWith (s ++ suffix) suffix = true := by
  rw [endsWith_iff, String.toList_append]
  exact List.suffix_append _ _

/-- `s.into_bytes()`: the UTF-8 bytes of a string. -/
def intoBytes (s : String) : List UInt8 := s.toUTF8.data.toList

@[simp] theorem length_intoBytes (s : String) : (intoBytes s).length = s.utf8ByteSize := rfl

@[simp] theorem intoBytes_append (s t : String) :
    intoBytes (s ++ t) = intoBytes s ++ intoBytes t := by
  simp [intoBytes, String.toUTF8_eq_toByteArray]

/-! ## `hex::encode` -/

/-- The two lower-case hexadecimal digits of a byte. -/
def hexDigits (b : UInt8) : List Char :=
  [Nat.digitChar (b.toNat / 16), Nat.digitChar (b.toNat % 16)]

/-- `hex::encode(bytes)`. -/
def hexEncode (bytes : List UInt8) : String := String.ofList (bytes.flatMap hexDigits)

/-- A digit character of a number below 16 takes one byte. -/
theorem utf8Size_digitChar {n : ℕ} (h : n < 16) : (Nat.digitChar n).utf8Size = 1 := by
  have hall : ∀ m < 16, (Nat.digitChar m).utf8Size = 1 := by decide
  exact hall n h

/-- Every byte takes two characters of one byte each. -/
theorem utf8ByteSize_hexEncode (bytes : List UInt8) :
    (hexEncode bytes).utf8ByteSize = 2 * bytes.length := by
  unfold hexEncode
  induction bytes with
  | nil => rfl
  | cons b bs ih =>
    have hhi : (Nat.digitChar (b.toNat / 16)).utf8Size = 1 :=
      utf8Size_digitChar (by have := b.toNat_lt; omega)
    have hlo : (Nat.digitChar (b.toNat % 16)).utf8Size = 1 :=
      utf8Size_digitChar (by omega)
    -- both digits of `b` are ASCII characters
    rw [List.flatMap_cons, String.ofList_append, String.utf8ByteSize_append, ih]
    simp [hexDigits, hhi, hlo]
    omega

/-- A number is displayed with as many characters, of one byte each, as it has decimal digits. -/
theorem utf8ByteSize_toString (n : ℕ) : (toString n).utf8ByteSize = Nat.log 10 n + 1 := by
  rw [Nat.toString_eq_repr]
  induction n using Nat.strongRecOn with
  | _ n ih =>
    rcases Nat.lt_or_ge n 10 with hlt | hge
    · rw [Nat.repr_of_lt hlt, String.utf8ByteSize_singleton, utf8Size_digitChar (by omega),
        Nat.log_of_lt hlt]
    · rw [Nat.repr_of_ge hge, String.utf8ByteSize_append, String.utf8ByteSize_singleton,
        utf8Size_digitChar (by omega), ih (n / 10) (by omega),
        Nat.log_of_one_lt_of_le (by decide) hge]

/-! ## `str::from_utf8` -/

/-- `Utf8Error`: how far the bytes are valid, and the length of the invalid sequence there, or
`none` when the input ends inside a sequence. -/
structure Utf8Error where
  validUpTo : ℕ
  errorLen : Option ℕ
  deriving DecidableEq, Repr

/-- `Display` of `Utf8Error`. -/
def Utf8Error.display (e : Utf8Error) : String :=
  match e.errorLen with
  | some len => "invalid utf-8 sequence of " ++ toString len ++ " bytes from index " ++
      toString e.validUpTo
  | none => "incomplete utf-8 byte sequence from index " ++ toString e.validUpTo

/-- A continuation byte. -/
def isContinuation (b : UInt8) : Bool := 0x80 ≤ b && b ≤ 0xBF

/-- The second byte a three-byte sequence with this first byte may have. -/
def isSecondOfThree (b₀ b₁ : UInt8) : Bool :=
  if b₀ = 0xE0 then 0xA0 ≤ b₁ && b₁ ≤ 0xBF
  else if b₀ = 0xED then 0x80 ≤ b₁ && b₁ ≤ 0x9F
  else isContinuation b₁

/-- The second byte a four-byte sequence with this first byte may have. -/
def isSecondOfFour (b₀ b₁ : UInt8) : Bool :=
  if b₀ = 0xF0 then 0x90 ≤ b₁ && b₁ ≤ 0xBF
  else if b₀ = 0xF4 then 0x80 ≤ b₁ && b₁ ≤ 0x8F
  else isContinuation b₁

/-- The validation loop of `from_utf8`, at index `i` of the input. -/
def runUtf8Validation : ℕ → List UInt8 → Except Utf8Error Unit
  | _, [] => .ok ()
  | i, b₀ :: rest =>
      if b₀ < 0x80 then runUtf8Validation (i + 1) rest
      -- 0xC0 and 0xC1 would only start overlong sequences, so two bytes start at 0xC2
      else if 0xC2 ≤ b₀ ∧ b₀ ≤ 0xDF then
        match rest with
        | [] => .error ⟨i, none⟩
        | b₁ :: rest =>
            if isContinuation b₁ then runUtf8Validation (i + 2) rest
            else .error ⟨i, some 1⟩
      else if 0xE0 ≤ b₀ ∧ b₀ ≤ 0xEF then
        match rest with
        | [] => .error ⟨i, none⟩
        | b₁ :: rest =>
            if isSecondOfThree b₀ b₁ then
              match rest with
              | [] => .error ⟨i, none⟩
              | b₂ :: rest =>
                  if isContinuation b₂ then runUtf8Validation (i + 3) rest
                  else .error ⟨i, some 2⟩
            else .error ⟨i, some 1⟩
      else if 0xF0 ≤ b₀ ∧ b₀ ≤ 0xF4 then
        match rest with
        | [] => .error ⟨i, none⟩
        | b₁ :: rest =>
            if isSecondOfFour b₀ b₁ then
              match rest with
              | [] => .error ⟨i, none⟩
              | b₂ :: rest =>
                  if isContinuation b₂ then
                    match rest with
                    | [] => .error ⟨i, none⟩
                    | b₃ :: rest =>
                        if isContinuation b₃ then runUtf8Validation (i + 4) rest
                        else .error ⟨i, some 3⟩
                  else .error ⟨i, some 2⟩
            else .error ⟨i, some 1⟩
      -- a continuation byte, or one that never occurs
      else .error ⟨i, some 1⟩

/-- `str::from_utf8(bytes)`. The text it returns is a view of the same bytes. -/
def fromUtf8 (bytes : List UInt8) : Except Utf8Error (List UInt8) :=
  match runUtf8Validation 0 bytes with
  | .error e => .error e
  | .ok () => .ok bytes

/-- Validation does not change the bytes. -/
theorem fromUtf8_eq_ok {bytes text : List UInt8} (h : fromUtf8 bytes = .ok text) :
    text = bytes := by
  unfold fromUtf8 at h
  split at h <;> cases h
  rfl

example : fromUtf8 [0xFF, 0xFE] = .error ⟨0, some 1⟩ := by decide

example : fromUtf8 [0x68, 0xC3, 0xA9] = .ok [0x68, 0xC3, 0xA9] := by decide

end RosettaMq
