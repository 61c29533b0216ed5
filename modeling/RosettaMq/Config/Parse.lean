import RosettaMq.Config.Defs
import RosettaMq.Serde

/-!
# Reading the configuration

`Config::parse` of `src/config.rs` and the `Deserialize` implementations that the types of the
configuration derive. It starts from the document, after the syntax of TOML.
-/

namespace RosettaMq

/-! ## Authentication -/

/-- `PasswordSource`, untagged: the first variant that the value fits. -/
def PasswordSource.deserialize (v : Value) : Option PasswordSource :=
  (v.asTable.bind fun t => PasswordSource.env <$> Table.required t "env" Value.asString) <|>
    PasswordSource.literal <$> v.asString

/-- `MtlsConfig`. -/
def MtlsConfig.deserialize (v : Value) : Option AuthConfig :=
  (v.fields ["ca_file", "cert_file", "key_file"] 3).bind fun t =>
    AuthConfig.mtls <$> t.required "ca_file" Value.asString
      <*> t.required "cert_file" Value.asString
      <*> t.required "key_file" Value.asString

/-- `UserPassConfig`. -/
def UserPassConfig.deserialize (v : Value) : Option AuthConfig :=
  (v.fields ["username", "password"] 2).bind fun t =>
    AuthConfig.userPass <$> t.required "username" Value.asString
      <*> t.required "password" PasswordSource.deserialize

/-- The variants of `AuthConfig`. -/
def AuthConfig.variant (method : String) (content : Value) : Option AuthConfig :=
  if method = "mtls" then MtlsConfig.deserialize content
  else if method = "userpass" then UserPassConfig.deserialize content
  else none

/-- `AuthConfig`, with the tag `method`. -/
def AuthConfig.deserialize (v : Value) : Option AuthConfig :=
  (v.tagged "method").bind fun e => AuthConfig.variant e.1 e.2

/-! ## Connection -/

/-- `WebsocketConfig`. -/
def WebsocketConfig.deserialize (v : Value) : Option WebsocketConfig :=
  (v.fields ["path"] 0).bind fun t =>
    WebsocketConfig.mk <$> t.defaulted "path" Value.asString "/ws"

/-- The variants of `Protocol`. -/
def Protocol.variant (protocol : String) (content : Value) : Option Protocol :=
  -- `mqtt` ignores whatever else there is, a `path` too
  if protocol = "mqtt" then (fun _ => .mqtt) <$> content.asUnit
  else if protocol = "ws" then Protocol.ws <$> WebsocketConfig.deserialize content
  else none

/-- `Protocol`, with the tag `protocol`. -/
def Protocol.deserialize (v : Value) : Option Protocol :=
  (v.tagged "protocol").bind fun e => Protocol.variant e.1 e.2

/-- The fields of `ConnectionConfig` without the flattened one. -/
def ConnectionConfig.names : List String :=
  ["host", "port", "client_id", "auth", "tls", "allow_self_signed_certs"]

/-- `ConnectionConfig`. The flattened `Protocol` is read from the entries that are no field. -/
def ConnectionConfig.deserialize (v : Value) : Option ConnectionConfig :=
  v.asTable.bind fun t =>
    ConnectionConfig.mk <$> t.required "host" Value.asString
      <*> t.required "port" Value.asU16
      <*> t.required "client_id" Value.asString
      <*> t.optional "auth" AuthConfig.deserialize
      <*> t.required "tls" Value.asBool
      -- `default` has no effect on a flattened field
      <*> Protocol.deserialize (.table (t.without ConnectionConfig.names))
      <*> t.defaulted "allow_self_signed_certs" Value.asBool false

/-! ## Decoders -/

/-- `ProtobufConfig`. -/
def ProtobufConfig.deserialize (v : Value) : Option ProtobufConfig :=
  (v.fields ["proto_file", "message_type", "include_paths"] 2).bind fun t =>
    ProtobufConfig.mk <$> t.required "proto_file" Value.asString
      <*> t.required "message_type" Value.asString
      <*> t.defaulted "include_paths" Value.asStrings []

/-- The variants of `UndefinedBehavior`. -/
def UndefinedBehavior.variant (name : String) : Option UndefinedBehavior :=
  if name = "lenient" then some .lenient
  else if name = "chainable" then some .chainable
  else if name = "semi_strict" then some .semiStrict
  else if name = "strict" then some .strict
  else none

/-- `UndefinedBehavior`. -/
def UndefinedBehavior.deserialize (v : Value) : Option UndefinedBehavior :=
  v.unitVariant.bind UndefinedBehavior.variant

/-- `TemplateConfig`. -/
def TemplateConfig.deserialize (v : Value) : Option TemplateConfig :=
  (v.fields ["template", "undefined_behavior"] 1).bind fun t =>
    TemplateConfig.mk <$> t.required "template" Value.asString
      <*> t.defaulted "undefined_behavior" UndefinedBehavior.deserialize .strict

/-- The variants of `DecoderConfig`. -/
def DecoderConfig.variant (decoder : String) (content : Value) : Option DecoderConfig :=
  if decoder = "hexdump" then (fun _ => .hexdump) <$> content.asUnit
  else if decoder = "utf8" then (fun _ => .utf8) <$> content.asUnit
  else if decoder = "protobuf" then DecoderConfig.protobuf <$> ProtobufConfig.deserialize content
  else if decoder = "template" then DecoderConfig.template <$> TemplateConfig.deserialize content
  else none

/-- `DecoderConfig`, with the tag `decoder`. -/
def DecoderConfig.deserialize (v : Value) : Option DecoderConfig :=
  (v.tagged "decoder").bind fun e => DecoderConfig.variant e.1 e.2

/-! ## The document -/

/-- `RefOr`, untagged: a string is a reference. -/
def RefOr.deserialize {α : Type} (deserialize : Value → Option α) (v : Value) : Option (RefOr α) :=
  -- a string is never tried as a literal, even if it names nothing
  RefOr.ref <$> v.asString <|> RefOr.literal <$> deserialize v

/-- `TopicMapping`. -/
def TopicMapping.deserialize (v : Value) : Option TopicMapping :=
  -- without `#[serde(default)]` an array has to hold the decoder
  (v.fields ["topic_filter", "decoder"] 2).bind fun t =>
    TopicMapping.mk <$> t.required "topic_filter" Value.asString
      <*> t.optional "decoder" (RefOr.deserialize DecoderConfig.deserialize)

/-- `EngineConfig`. -/
def EngineConfig.deserialize (v : Value) : Option EngineConfig :=
  (v.fields ["max_concurrent_decodes"] 0).bind fun t =>
    EngineConfig.mk <$> t.defaulted "max_concurrent_decodes" Value.asUsize 100

namespace Config

/-- The list of `[[topic]]` blocks. -/
def deserializeTopics (v : Value) : Option (List TopicMapping) :=
  v.asArray.bind fun values => values.mapM TopicMapping.deserialize

/-- The map of `[decoder.NAME]` tables. -/
def deserializeDecoders (v : Value) : Option (List (String × DecoderConfig)) :=
  v.asTable.bind fun t => t.mapM fun e => (DecoderConfig.deserialize e.2).map (e.1, ·)

/-- `Config`. -/
def deserialize (doc : Table) : Option Config :=
  Config.mk <$> doc.required "connection" ConnectionConfig.deserialize
    <*> doc.defaulted "topic" deserializeTopics []
    <*> doc.defaulted "decoder" deserializeDecoders []
    <*> doc.defaulted "engine" EngineConfig.deserialize {}

/-- `connection.entry("protocol").or_insert_with(..)`, if `connection` is a table. -/
def injectProtocol : Value → Value
  | .table t => .table (Table.orInsert t "protocol" (.string "mqtt"))
  | v => v

/-- The document that is deserialized: a `connection` table without `protocol` gets one. -/
def inject (doc : Table) : Table :=
  doc.map fun e => (e.1, if e.1 = "connection" then injectProtocol e.2 else e.2)

/-- The errors of `parse`. -/
inductive ParseError where
  /-- `ConfigError::Parse`, whose text comes from the `toml` crate. -/
  | parse
  | invalid (source : ConfigError)
  deriving DecidableEq, Repr

/-- `Config::parse`. -/
def parse (doc : Table) : Except ParseError Config :=
  match deserialize (inject doc) with
  | none => .error .parse
  | some config =>
      match config.validate with
      | .error e => .error (.invalid e)
      | .ok () => .ok config.normalize

end Config

end RosettaMq
