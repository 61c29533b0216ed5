import RosettaMq.Decoder.Registry

/-!
# Built-in decoders

The four decoders of `src/decoder/`. What the Protobuf and template decoders call in third-party
crates (`prost-reflect`, `serde_json`, `minijinja`) is a parameter: arbitrary functions that return
a value or an error.

Each of them sends exactly one message and returns `Ok`, or sends nothing and returns an error
(`BuiltinDecoder.decode_cases`).
-/

namespace RosettaMq

/-- One message sent, then `Ok`. -/
def DecodeRun.sendOne (payload : List UInt8) : DecodeRun := ⟨[{ payload := payload }], .ok⟩

/-- An error before anything is sent. -/
def DecodeRun.fail (display : String) : DecodeRun := ⟨[], .err display⟩

/-- `Utf8Decoder::decode`. -/
def Utf8Decoder.decode (publish : Publish) : DecodeRun :=
  match fromUtf8 publish.payload with
  | .error e => .fail e.display
  | .ok payload => .sendOne payload

/-- The text of `HexDumpDecoder`: the payload as hex and its length. -/
def HexDumpDecoder.text (payload : List UInt8) : String :=
  hexEncode payload ++ " (" ++ toString payload.length ++ " bytes)"

/-- `HexDumpDecoder::decode`. -/
def HexDumpDecoder.decode (publish : Publish) : DecodeRun :=
  .sendOne (intoBytes (HexDumpDecoder.text publish.payload))

/-- `ProtobufDecoder`: decoding against the compiled descriptor and serializing the dynamic
message to JSON, each with the text of its error. -/
structure ProtobufDecoder (Message : Type) where
  decodeMessage : List UInt8 → Except String Message
  serialize : Message → Except String (List UInt8)

/-- `ProtobufDecoder::decode`. -/
def ProtobufDecoder.decode {Message : Type} (self : ProtobufDecoder Message) (publish : Publish) :
    DecodeRun :=
  match self.decodeMessage publish.payload with
  | .error e => .fail ("failed to decode protobuf payload against schema: " ++ e)
  | .ok message =>
      match self.serialize message with
      | .error e => .fail ("Failed to serialize into JSON: " ++ e)
      | .ok buf => .sendOne buf

/-- `Debug` of `QoS`. -/
def QoS.debug : QoS → String
  | .atMostOnce => "AtMostOnce"
  | .atLeastOnce => "AtLeastOnce"
  | .exactlyOnce => "ExactlyOnce"

/-- The `payload` value of a template's context. -/
inductive PayloadValue (Json : Type) where
  | json (value : Json)
  | text (bytes : List UInt8)
  | hex (digits : String)

/-- The context a template is rendered with. -/
structure TemplateContext (Json : Type) where
  topic : String
  qos : String
  retain : Bool
  dup : Bool
  pkid : ℕ
  payload : PayloadValue Json

/-- `TemplateDecoder`: JSON parsing of a text and rendering of the registered template. -/
structure TemplateDecoder (Json : Type) where
  fromJson : List UInt8 → Option Json
  render : TemplateContext Json → Except String String

/-- `payload_value`: JSON if the payload is UTF-8 and JSON, else text if it is UTF-8, else hex. -/
def TemplateDecoder.payloadValue {Json : Type} (self : TemplateDecoder Json)
    (payload : List UInt8) : PayloadValue Json :=
  match fromUtf8 payload with
  | .ok text =>
      match self.fromJson text with
      | some json => .json json
      | none => .text text
  | .error _ => .hex (hexEncode payload)

/-- `TemplateDecoder::decode`. -/
def TemplateDecoder.decode {Json : Type} (self : TemplateDecoder Json) (publish : Publish) :
    DecodeRun :=
  let ctx : TemplateContext Json :=
    { topic := publish.topic, qos := publish.qos.debug, retain := publish.retain,
      dup := publish.dup, pkid := publish.pkid, payload := self.payloadValue publish.payload }
  match self.render ctx with
  | .error e => .fail ("template render failed: " ++ e)
  | .ok rendered => .sendOne (intoBytes rendered)

/-- The decoders that `DecoderConfig::build` can make. -/
inductive BuiltinDecoder (Message Json : Type) where
  | hexdump
  | utf8
  | protobuf (decoder : ProtobufDecoder Message)
  | template (decoder : TemplateDecoder Json)

variable {Message Json : Type}

/-- The decoder as a trait object. -/
def BuiltinDecoder.erase : BuiltinDecoder Message Json → ErasedDecoder
  | .hexdump => ⟨HexDumpDecoder.decode⟩
  | .utf8 => ⟨Utf8Decoder.decode⟩
  | .protobuf decoder => ⟨decoder.decode⟩
  | .template decoder => ⟨decoder.decode⟩

/-- A built-in decoder sends one message and succeeds, or sends nothing and fails. -/
theorem BuiltinDecoder.decode_cases (d : BuiltinDecoder Message Json) (m : Publish) :
    (∃ payload, d.erase.decode m = .sendOne payload) ∨ ∃ e, d.erase.decode m = .fail e := by
  cases d with
  | hexdump =>
    -- the only one that cannot fail
    exact Or.inl ⟨_, rfl⟩
  | utf8 =>
    simp only [BuiltinDecoder.erase, Utf8Decoder.decode]
    cases fromUtf8 m.payload with
    | error e => exact Or.inr ⟨_, rfl⟩
    | ok payload => exact Or.inl ⟨_, rfl⟩
  | protobuf decoder =>
    simp only [BuiltinDecoder.erase, ProtobufDecoder.decode]
    cases decoder.decodeMessage m.payload with
    | error e => exact Or.inr ⟨_, rfl⟩
    | ok message =>
      cases hser : decoder.serialize message with
      | error e => exact Or.inr ⟨_, by simp only [hser]; rfl⟩
      | ok buf => exact Or.inl ⟨_, by simp only [hser]; rfl⟩
  | template decoder =>
    simp only [BuiltinDecoder.erase, TemplateDecoder.decode]
    split
    · exact Or.inr ⟨_, rfl⟩
    · exact Or.inl ⟨_, rfl⟩

/-- A built-in decoder always returns. -/
theorem BuiltinDecoder.returns (d : BuiltinDecoder Message Json) : d.erase.Returns := by
  intro m
  rcases d.decode_cases m with ⟨payload, h⟩ | ⟨e, h⟩ <;> rw [h] <;> exact ⟨nofun, nofun⟩

/-- A built-in decoder makes one message: on `/decoded` if it succeeds, on `/decode_error` if it
fails. -/
theorem BuiltinDecoder.exists_outputs_eq (d : BuiltinDecoder Message Json) (m : Publish) :
    ∃ r, d.erase.outputs m = [r] ∧
      ((d.erase.decode m).ending = .ok → r.topic = m.topic ++ "/decoded") ∧
      ((d.erase.decode m).ending ≠ .ok → r.topic = m.topic ++ "/decode_error") := by
  rcases d.decode_cases m with ⟨payload, h⟩ | ⟨e, h⟩
  · refine ⟨DecodePublish.resolve { payload := payload } m, ?_, fun _ => rfl, fun hne => ?_⟩
    · rw [ErasedDecoder.outputs, h]
      rfl
    · rw [h] at hne
      exact absurd rfl hne
  · -- the error message names its topic, so `resolve` does not replace it
    refine ⟨(errorPublish (.decode e) m).resolve m, ?_, fun hok => ?_, fun _ => rfl⟩
    · rw [ErasedDecoder.outputs, h]
      rfl
    · rw [h] at hok
      cases hok

theorem BuiltinDecoder.length_outputs (d : BuiltinDecoder Message Json) (m : Publish) :
    (d.erase.outputs m).length = 1 := by
  obtain ⟨r, houtputs, -⟩ := d.exists_outputs_eq m
  rw [houtputs]
  rfl

/-! ## Registries of decoders that return -/

namespace DecoderRegistry

/-- All decoders of the registry return on every message. -/
def Returns (registry : DecoderRegistry) : Prop := ∀ e ∈ registry.entries, e.decoder.Returns

/-- All decoders of the registry return or panic on every message. -/
def Terminates (registry : DecoderRegistry) : Prop :=
  ∀ e ∈ registry.entries, ∀ m, (e.decoder.decode m).ending ≠ .hang

theorem Returns.terminates {registry : DecoderRegistry} (h : registry.Returns) :
    registry.Terminates := fun e he m => (h e he m).2

variable (Message Json) in
/-- All decoders of the registry are built-in ones. -/
def Builtin (registry : DecoderRegistry) : Prop :=
  ∀ e ∈ registry.entries, ∃ d : BuiltinDecoder Message Json, e.decoder = d.erase

theorem Builtin.returns {registry : DecoderRegistry} (h : registry.Builtin Message Json) :
    registry.Returns := by
  intro e he
  obtain ⟨d, hd⟩ := h e he
  rw [hd]
  exact d.returns

end DecoderRegistry

end RosettaMq
