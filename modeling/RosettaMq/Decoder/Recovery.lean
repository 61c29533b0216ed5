import Mathlib.Data.List.DropRight
import RosettaMq.Decoder.Builtin

/-!
# What is published tells the incoming message

The topic and the payload of an incoming message can be read back from the message published for
it: if it was decoded by the UTF-8 or the hex dump decoder, and if any decoder fails on it before it
has sent anything (`recover_outputs`). The error text may be anything, since the hexadecimal digits
are read from the end.
-/

namespace RosettaMq

/-! ## Reading hexadecimal text -/

/-- The ASCII code of a hexadecimal digit. -/
def hexByte (n : ℕ) : UInt8 := UInt8.ofNat (if n < 10 then 0x30 + n else 0x57 + n)

/-- A lower-case hexadecimal digit. -/
def isHexDigit (b : UInt8) : Bool := (0x30 ≤ b && b ≤ 0x39) || (0x61 ≤ b && b ≤ 0x66)

/-- The number of a hexadecimal digit. -/
def hexValue (b : UInt8) : ℕ := if b ≤ 0x39 then b.toNat - 0x30 else b.toNat - 0x57

/-- The bytes that these digits write, two for each. -/
def hexDecode : List UInt8 → List UInt8
  | hi :: lo :: rest => UInt8.ofNat (16 * hexValue hi + hexValue lo) :: hexDecode rest
  | [_] | [] => []

theorem isHexDigit_hexByte {n : ℕ} (h : n < 16) : isHexDigit (hexByte n) = true := by
  have hall : ∀ m < 16, isHexDigit (hexByte m) = true := by decide
  exact hall n h

theorem hexValue_hexByte {n : ℕ} (h : n < 16) : hexValue (hexByte n) = n := by
  have hall : ∀ m < 16, hexValue (hexByte m) = m := by decide
  exact hall n h

theorem intoBytes_digitChar {n : ℕ} (h : n < 16) :
    intoBytes (String.singleton (Nat.digitChar n)) = [hexByte n] := by
  have hall : ∀ m < 16, intoBytes (String.singleton (Nat.digitChar m)) = [hexByte m] := by decide
  exact hall n h

/-- Every byte is written as its two digits. -/
theorem intoBytes_hexEncode (bytes : List UInt8) :
    intoBytes (hexEncode bytes) =
      bytes.flatMap fun b => [hexByte (b.toNat / 16), hexByte (b.toNat % 16)] := by
  unfold hexEncode
  induction bytes with
  | nil => rfl
  | cons b bs ih =>
    have hhi := intoBytes_digitChar (n := b.toNat / 16) (by have := b.toNat_lt; omega)
    have hlo := intoBytes_digitChar (n := b.toNat % 16) (by omega)
    rw [List.flatMap_cons, List.flatMap_cons, String.ofList_append, intoBytes_append, ih, hexDigits,
      String.ofList_cons, intoBytes_append, hhi, String.ofList_cons, intoBytes_append, hlo]
    rfl

/-- Nothing but digits is written. -/
theorem isHexDigit_of_mem {bytes : List UInt8} {b : UInt8}
    (hb : b ∈ intoBytes (hexEncode bytes)) : isHexDigit b = true := by
  rw [intoBytes_hexEncode, List.mem_flatMap] at hb
  obtain ⟨a, -, hb⟩ := hb
  have ha := a.toNat_lt
  rcases List.mem_pair.mp hb with rfl | rfl
  · exact isHexDigit_hexByte (by omega)
  · exact isHexDigit_hexByte (by omega)

/-- The digits of some bytes read back as these bytes. -/
theorem hexDecode_hexEncode (bytes : List UInt8) :
    hexDecode (intoBytes (hexEncode bytes)) = bytes := by
  rw [intoBytes_hexEncode]
  induction bytes with
  | nil => rfl
  | cons b bs ih =>
    have hb := b.toNat_lt
    have hsum : 16 * hexValue (hexByte (b.toNat / 16)) + hexValue (hexByte (b.toNat % 16)) =
        b.toNat := by
      rw [hexValue_hexByte (by omega), hexValue_hexByte (by omega)]
      omega
    rw [List.flatMap_cons]
    show UInt8.ofNat _ :: hexDecode (bs.flatMap _) = _
    rw [ih, hsum, UInt8.ofNat_toNat]

/-! ## Recovering the incoming message -/

/-- How a decoder writes the payloads that it decodes. -/
inductive Rendering where
  | text
  | hexdump
  deriving DecidableEq, Repr

/-- The payload that a decoder wrote like this. -/
def recoverDecoded (rendering : Rendering) (payload : List UInt8) : List UInt8 :=
  match rendering with
  | .text => payload
  -- the digits end at the blank before the length
  | .hexdump => hexDecode (payload.takeWhile isHexDigit)

/-- The payload in the message of an error: the digits at its end, which a blank precedes. -/
def recoverFailed (payload : List UInt8) : List UInt8 :=
  hexDecode (payload.rtakeWhile isHexDigit)

/-- The text without this end, if it has it. -/
def stripSuffix (s suffix : String) : Option String :=
  if endsWith s suffix then
    some (String.ofList (s.toList.take (s.toList.length - suffix.toList.length)))
  else none

/-- The incoming topic and payload, from what was published. -/
def recover (rendering : Rendering) (topic : String) (payload : List UInt8) :
    Option (String × List UInt8) :=
  match stripSuffix topic "/decode_error" with
  | some incoming => some (incoming, recoverFailed payload)
  | none => (stripSuffix topic "/decoded").map fun incoming =>
      (incoming, recoverDecoded rendering payload)

theorem stripSuffix_append (s suffix : String) : stripSuffix (s ++ suffix) suffix = some s := by
  simp [stripSuffix]

/-- The topics of decoded messages are not those of errors. -/
theorem stripSuffix_decoded (s : String) :
    stripSuffix (s ++ "/decoded") "/decode_error" = none := by
  rw [stripSuffix, if_neg]
  intro h
  have hdecoded := endsWith_iff.mp (endsWith_append s "/decoded")
  have hshort : "/decoded".toList <:+ "/decode_error".toList :=
    List.suffix_of_suffix_length_le hdecoded (endsWith_iff.mp h) (by decide)
  exact absurd hshort (by decide)

theorem recover_decoded (rendering : Rendering) (t : String) (payload : List UInt8) :
    recover rendering (t ++ "/decoded") payload = some (t, recoverDecoded rendering payload) := by
  rw [recover, stripSuffix_decoded, stripSuffix_append]
  rfl

theorem recover_failed (rendering : Rendering) (t : String) (payload : List UInt8) :
    recover rendering (t ++ "/decode_error") payload = some (t, recoverFailed payload) := by
  rw [recover, stripSuffix_append]

/-- A hex dump tells the payload. -/
theorem recoverDecoded_hexdump (payload : List UInt8) :
    recoverDecoded .hexdump (intoBytes (HexDumpDecoder.text payload)) = payload := by
  have hblank : intoBytes " (" = [0x20, 0x28] := by decide
  rw [recoverDecoded, HexDumpDecoder.text, intoBytes_append, intoBytes_append, intoBytes_append,
    hblank, List.append_assoc, List.append_assoc,
    List.takeWhile_append_of_pos fun b hb => isHexDigit_of_mem hb]
  -- the blank is not a digit
  rw [List.cons_append, List.cons_append, List.takeWhile_cons_of_neg (by decide),
    List.append_nil, hexDecode_hexEncode]

/-- The message of an error tells the payload, whatever the text of the error. -/
theorem recoverFailed_errorPublish (err : DecodeError) (m : Publish) :
    recoverFailed (errorPublish err m).payload = m.payload := by
  -- the digits are read from the end, so the text of the error does not matter
  have hlabel : intoBytes "\nraw_hex: " = intoBytes "\nraw_hex:" ++ [0x20] := by decide
  rw [recoverFailed, errorPublish]
  dsimp only
  rw [intoBytes_append, intoBytes_append _ "\nraw_hex: ", hlabel, ← List.append_assoc,
    List.rtakeWhile, List.reverse_append, List.takeWhile_append_of_pos, List.reverse_concat,
    List.takeWhile_cons_of_neg (by decide), List.append_nil, List.reverse_reverse,
    hexDecode_hexEncode]
  intro b hb
  exact isHexDigit_of_mem (List.mem_reverse.mp hb)

/-- One message is published for `m`, and it tells the topic and the payload of `m`. -/
def Recoverable (rendering : Rendering) (d : ErasedDecoder) (m : Publish) : Prop :=
  ∃ r, d.outputs m = [r] ∧ recover rendering r.topic r.payload = some (m.topic, m.payload)

variable {d : ErasedDecoder} {m m' : Publish} {rendering : Rendering}

theorem recoverable_of_fail {e : String} (h : d.decode m = .fail e) :
    Recoverable rendering d m := by
  refine ⟨(errorPublish (.decode e) m).resolve m, ?_, ?_⟩
  · rw [ErasedDecoder.outputs, h]
    rfl
  · show recover rendering (m.topic ++ "/decode_error") (errorPublish (.decode e) m).payload = _
    rw [recover_failed, recoverFailed_errorPublish]

theorem recoverable_of_sendOne {payload : List UInt8} (h : d.decode m = .sendOne payload)
    (hpayload : recoverDecoded rendering payload = m.payload) : Recoverable rendering d m := by
  refine ⟨DecodePublish.resolve { payload := payload } m, ?_, ?_⟩
  · rw [ErasedDecoder.outputs, h]
    rfl
  · show recover rendering (m.topic ++ "/decoded") payload = _
    rw [recover_decoded, hpayload]

theorem recoverable_utf8 (m : Publish) : Recoverable .text ⟨Utf8Decoder.decode⟩ m := by
  cases h : fromUtf8 m.payload with
  | error e =>
    apply recoverable_of_fail
    show Utf8Decoder.decode m = .fail e.display
    rw [Utf8Decoder.decode, h]
  | ok text =>
    refine recoverable_of_sendOne ?_ (fromUtf8_eq_ok h)
    show Utf8Decoder.decode m = .sendOne text
    rw [Utf8Decoder.decode, h]

theorem recoverable_hexdump (m : Publish) : Recoverable .hexdump ⟨HexDumpDecoder.decode⟩ m :=
  recoverable_of_sendOne rfl (recoverDecoded_hexdump m.payload)

/-- Messages for which the same is published have the same topic and payload. -/
theorem Recoverable.eq (h : Recoverable rendering d m) (h' : Recoverable rendering d m')
    {r r' : ResolvedDecodePublish} (hr : d.outputs m = [r]) (hr' : d.outputs m' = [r'])
    (htopic : r.topic = r'.topic) (hpayload : r.payload = r'.payload) :
    (m.topic, m.payload) = (m'.topic, m'.payload) := by
  obtain ⟨r₁, hr₁, hrecover⟩ := h
  obtain ⟨r₁', hr₁', hrecover'⟩ := h'
  obtain rfl := List.singleton_inj.mp (hr₁.symm.trans hr)
  obtain rfl := List.singleton_inj.mp (hr₁'.symm.trans hr')
  rw [htopic, hpayload, hrecover'] at hrecover
  exact (Option.some.inj hrecover).symm

/-- What is published for a message by the UTF-8 decoder, by the hex dump decoder, or by any decoder
that fails on it before it has sent anything, tells its topic and payload. So none of these
publishes the same for messages that differ in one of them. -/
theorem recover_outputs :
    (∀ m, Recoverable .text ⟨Utf8Decoder.decode⟩ m) ∧
    (∀ m, Recoverable .hexdump ⟨HexDumpDecoder.decode⟩ m) ∧
    (∀ (d : ErasedDecoder) (m : Publish) (e : String), d.decode m = .fail e →
      ∀ rendering, Recoverable rendering d m) ∧
    (∀ (d : ErasedDecoder) (m m' : Publish),
      d = ⟨Utf8Decoder.decode⟩ ∨ d = ⟨HexDumpDecoder.decode⟩ ∨
        ((∃ e, d.decode m = .fail e) ∧ ∃ e, d.decode m' = .fail e) →
      ∀ r r', d.outputs m = [r] → d.outputs m' = [r'] → r.topic = r'.topic →
        r.payload = r'.payload → m.topic = m'.topic ∧ m.payload = m'.payload) := by
  refine ⟨recoverable_utf8, recoverable_hexdump, fun d m e h rendering => recoverable_of_fail h,
    fun d m m' hd r r' hr hr' htopic hpayload => Prod.mk.inj ?_⟩
  rcases hd with rfl | rfl | ⟨⟨e, he⟩, ⟨e', he'⟩⟩
  · exact (recoverable_utf8 m).eq (recoverable_utf8 m') hr hr' htopic hpayload
  · exact (recoverable_hexdump m).eq (recoverable_hexdump m') hr hr' htopic hpayload
  · have h : Recoverable .text d m := recoverable_of_fail he
    exact h.eq (recoverable_of_fail he') hr hr' htopic hpayload

-- the rendering has to be known: the same is published for different messages by the two decoders
example : (⟨HexDumpDecoder.decode⟩ : ErasedDecoder).outputs
      ⟨false, .atMostOnce, false, "machine", 0, [0x31]⟩ =
    (⟨Utf8Decoder.decode⟩ : ErasedDecoder).outputs
      ⟨false, .atMostOnce, false, "machine", 0, intoBytes "31 (1 bytes)"⟩ := by decide

end RosettaMq
