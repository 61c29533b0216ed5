import RosettaMq.Decoder.Builtin

/-!
# Packet sizes

The client library refuses packets above its size limit, which holds in both directions. A message
and what is published for it are compared by the sizes of their PUBLISH packets
(`mirrored_fits_iff`): the output is larger than its input, and a hexadecimal one is about twice as
large.
-/

namespace RosettaMq

/-- The bytes of the variable-length field that holds a remaining length of `n`. -/
def remainingLengthSize (n : ℕ) : ℕ :=
  if n < 128 then 1 else if n < 16384 then 2 else if n < 2097152 then 3 else 4

/-- The bytes of the packet id, which only packets with acknowledgement have. -/
def QoS.pkidSize : QoS → ℕ
  | .atMostOnce => 0
  | .atLeastOnce | .exactlyOnce => 2

/-- The bytes of a PUBLISH packet with a topic and a payload of these lengths. -/
def packetSize (topic : ℕ) (qos : QoS) (payload : ℕ) : ℕ :=
  let remaining := 2 + topic + qos.pkidSize + payload
  1 + remainingLengthSize remaining + remaining

/-- The bytes of the packet of an incoming message. -/
def Publish.encodedSize (m : Publish) : ℕ :=
  packetSize m.topic.utf8ByteSize m.qos m.payload.length

/-- The bytes of the packet of a published message. -/
def ResolvedDecodePublish.encodedSize (r : ResolvedDecodePublish) : ℕ :=
  packetSize r.topic.utf8ByteSize r.qos r.payload.length

/-- The packet of a message that sets nothing but its payload. -/
theorem encodedSize_resolve (payload : List UInt8) (m : Publish) :
    (DecodePublish.resolve { payload := payload } m).encodedSize =
      packetSize (m.topic.utf8ByteSize + 8) m.qos payload.length := by
  simp only [ResolvedDecodePublish.encodedSize, DecodePublish.resolve, Option.getD_none,
    String.utf8ByteSize_append]
  rfl

/-- The packet of an error message. -/
theorem encodedSize_errorPublish (e : DecodeError) (m : Publish) :
    ((errorPublish e m).resolve m).encodedSize =
      packetSize (m.topic.utf8ByteSize + 13) m.qos
        (17 + e.display.utf8ByteSize + 2 * m.payload.length) := by
  have htopic : "/decode_error".utf8ByteSize = 13 := rfl
  have herror : "error: ".utf8ByteSize = 7 := rfl
  have hraw : "\nraw_hex: ".utf8ByteSize = 10 := rfl
  have hpayload : 7 + e.display.utf8ByteSize + 10 + 2 * m.payload.length =
      17 + e.display.utf8ByteSize + 2 * m.payload.length := by omega
  simp only [ResolvedDecodePublish.encodedSize, DecodePublish.resolve, errorPublish,
    Option.getD_some, Option.getD_none, length_intoBytes, String.utf8ByteSize_append,
    utf8ByteSize_hexEncode, htopic, herror, hraw, hpayload]

/-- The text of the hexdump decoder. -/
theorem length_hexdumpText (payload : List UInt8) :
    (intoBytes (HexDumpDecoder.text payload)).length =
      2 * payload.length + 10 + Nat.log 10 payload.length := by
  have hopen : " (".utf8ByteSize = 2 := rfl
  have hclose : " bytes)".utf8ByteSize = 7 := rfl
  rw [length_intoBytes, HexDumpDecoder.text, String.utf8ByteSize_append,
    String.utf8ByteSize_append, String.utf8ByteSize_append, utf8ByteSize_hexEncode,
    utf8ByteSize_toString, hopen, hclose]
  omega

variable {m : Publish}

theorem outputs_of_sendOne {d : ErasedDecoder} {payload : List UInt8}
    (h : d.decode m = .sendOne payload) :
    d.outputs m = [DecodePublish.resolve { payload := payload } m] := by
  rw [ErasedDecoder.outputs, h]
  rfl

theorem outputs_of_fail {d : ErasedDecoder} {e : String} (h : d.decode m = .fail e) :
    d.outputs m = [(errorPublish (.decode e) m).resolve m] := by
  rw [ErasedDecoder.outputs, h]
  rfl

/-- Every packet that is published for a message which fits into `limit` fits into `limit`. -/
def MirroredFits (limit : ℕ) (d : ErasedDecoder) (m : Publish) : Prop :=
  m.encodedSize ≤ limit → ∀ r ∈ d.outputs m, r.encodedSize ≤ limit

theorem mirroredFits_of_outputs {limit : ℕ} {d : ErasedDecoder} {r : ResolvedDecodePublish}
    (h : d.outputs m = [r]) :
    MirroredFits limit d m ↔ (m.encodedSize ≤ limit → r.encodedSize ≤ limit) := by
  rw [MirroredFits, h]
  simp

/-- When what is published for a message that fits into the limit fits as well: the output of the
UTF-8 decoder, that of the hexdump decoder, and the error message of any decoder. -/
theorem mirrored_fits_iff (limit : ℕ) (m : Publish) :
    (∀ text, fromUtf8 m.payload = .ok text →
      (MirroredFits limit ⟨Utf8Decoder.decode⟩ m ↔ (m.encodedSize ≤ limit →
        packetSize (m.topic.utf8ByteSize + 8) m.qos m.payload.length ≤ limit))) ∧
    (MirroredFits limit ⟨HexDumpDecoder.decode⟩ m ↔ (m.encodedSize ≤ limit →
      packetSize (m.topic.utf8ByteSize + 8) m.qos
        (2 * m.payload.length + 10 + Nat.log 10 m.payload.length) ≤ limit)) ∧
    ∀ (d : ErasedDecoder) (e : String), d.decode m = .fail e →
      (MirroredFits limit d m ↔ (m.encodedSize ≤ limit →
        packetSize (m.topic.utf8ByteSize + 13) m.qos
          (17 + e.utf8ByteSize + 2 * m.payload.length) ≤ limit)) := by
  refine ⟨fun text htext => ?_, ?_, fun d e he => ?_⟩
  · -- the text is the payload itself
    have hdecode : Utf8Decoder.decode m = .sendOne m.payload := by
      rw [Utf8Decoder.decode, htext, fromUtf8_eq_ok htext]
    rw [mirroredFits_of_outputs (outputs_of_sendOne hdecode), encodedSize_resolve]
  · have hdecode : HexDumpDecoder.decode m =
        .sendOne (intoBytes (HexDumpDecoder.text m.payload)) := rfl
    rw [mirroredFits_of_outputs (outputs_of_sendOne hdecode), encodedSize_resolve,
      length_hexdumpText]
  · rw [mirroredFits_of_outputs (outputs_of_fail he), encodedSize_errorPublish]
    rfl

theorem mirrored_fits_short :
    MirroredFits 10240 ⟨Utf8Decoder.decode⟩ ⟨false, .atLeastOnce, false, "a/b", 1, [0x68, 0x69]⟩ ∧
      MirroredFits 10240 ⟨Utf8Decoder.decode⟩ ⟨false, .atLeastOnce, false, "a/b", 1, [0xFF]⟩ :=
  ⟨((mirrored_fits_iff 10240 _).1 _ rfl).mpr fun _ => by decide,
    ((mirrored_fits_iff 10240 _).2.2 _ (Utf8Error.display ⟨0, some 1⟩) rfl).mpr fun _ => by decide⟩

/-- A message of 6000 bytes. -/
def longMessage : Publish := ⟨false, .atMostOnce, false, "a", 0, List.replicate 6000 0⟩

/-- The packet of that message fits into 10 KiB, the packet of its hexdump does not. -/
theorem hexdump_exceeds_limit :
    longMessage.encodedSize ≤ 10240 ∧
      (∃ r ∈ (⟨HexDumpDecoder.decode⟩ : ErasedDecoder).outputs longMessage,
        10240 < r.encodedSize) ∧
      ¬ MirroredFits 10240 ⟨HexDumpDecoder.decode⟩ longMessage := by
  have hdecode : (⟨HexDumpDecoder.decode⟩ : ErasedDecoder).decode longMessage =
      .sendOne (intoBytes (HexDumpDecoder.text longMessage.payload)) := rfl
  have hlen : longMessage.payload.length = 6000 := List.length_replicate
  have hin : longMessage.encodedSize ≤ 10240 := by
    rw [Publish.encodedSize, hlen]
    decide
  have hout : 10240 <
      (DecodePublish.resolve { payload := intoBytes (HexDumpDecoder.text longMessage.payload) }
        longMessage).encodedSize := by
    rw [encodedSize_resolve, length_hexdumpText, hlen]
    simp only [packetSize]
    omega
  -- 12013 bytes of text, with their topic `a/decoded`
  have hmem := outputs_of_sendOne hdecode
  refine ⟨hin, ⟨_, by rw [hmem]; exact List.mem_singleton_self _, hout⟩, fun hfits => ?_⟩
  exact absurd ((mirroredFits_of_outputs hmem).mp hfits hin) (Nat.not_le_of_lt hout)

end RosettaMq
