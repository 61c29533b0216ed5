import RosettaMq.Decoder.Builtin

/-!
# Configuration

The values of `src/config.rs` and of the types it is made of, what `Config::validate` checks of
them, and the loop of `src/main.rs` that builds the decoder registry.

Compiling a Protobuf schema and a template is left to third-party crates, so a `Toolchain` stands
for them.
-/

namespace RosettaMq

/-! ## The configuration file -/

/-- `WebsocketConfig`. -/
structure WebsocketConfig where
  path : String
  deriving DecidableEq, Repr

/-- `Protocol`. -/
inductive Protocol where
  | mqtt
  | ws (config : WebsocketConfig)
  deriving DecidableEq, Repr

/-- `PasswordSource`. -/
inductive PasswordSource where
  | env (env : String)
  | literal (password : String)
  deriving DecidableEq, Repr

/-- `AuthConfig`. -/
inductive AuthConfig where
  | mtls (caFile certFile keyFile : String)
  | userPass (username : String) (password : PasswordSource)
  deriving DecidableEq, Repr

/-- `ConnectionConfig`. -/
structure ConnectionConfig where
  host : String
  port : UInt16
  clientId : String
  auth : Option AuthConfig
  tls : Bool
  protocol : Protocol
  allowSelfSignedCerts : Bool
  deriving DecidableEq, Repr

/-- `ProtobufConfig`. -/
structure ProtobufConfig where
  protoFile : String
  messageType : String
  includePaths : List String
  deriving DecidableEq, Repr

/-- `UndefinedBehavior`. -/
inductive UndefinedBehavior where
  | lenient
  | chainable
  | semiStrict
  | strict
  deriving DecidableEq, Repr

/-- `TemplateConfig`. -/
structure TemplateConfig where
  template : String
  undefinedBehavior : UndefinedBehavior
  deriving DecidableEq, Repr

/-- `DecoderConfig`. -/
inductive DecoderConfig where
  | hexdump
  | utf8
  | protobuf (config : ProtobufConfig)
  | template (config : TemplateConfig)
  deriving DecidableEq, Repr

/-- `RefOr`: the name of a shared definition, or the definition itself. -/
inductive RefOr (α : Type) where
  | ref (name : String)
  | literal (value : α)
  deriving DecidableEq, Repr

/-- `TopicMapping`: a `[[topic]]` block. Without a decoder it is only subscribed to. -/
structure TopicMapping where
  topicFilter : String
  decoder : Option (RefOr DecoderConfig)
  deriving DecidableEq, Repr

/-- `EngineConfig`. -/
structure EngineConfig where
  maxConcurrentDecodes : ℕ := 100
  deriving DecidableEq, Repr

/-- `Config`. -/
structure Config where
  connection : ConnectionConfig
  topics : List TopicMapping
  /-- The `[decoder.NAME]` tables by their names. -/
  decoders : List (String × DecoderConfig)
  engine : EngineConfig
  deriving DecidableEq, Repr

/-- `ConfigError`, as far as `validate` returns it. -/
inductive ConfigError where
  | invalidTopicFilter (topicFilter : String) (source : TopicError)
  | invalidEngineConfig
  | unknownDecoderRef (topicFilter decoderRef : String)
  deriving DecidableEq, Repr

/-- `RefOr::resolve`. -/
def RefOr.resolve {α : Type} (self : RefOr α) (source : List (String × α)) : Option α :=
  match self with
  | .ref name => source.lookup name
  | .literal value => some value

namespace Config

/-- The loop body of `validate`. -/
def validateTopic (self : Config) (mapping : TopicMapping) : Except ConfigError Unit :=
  match TopicFilter.parse mapping.topicFilter with
  | .error source => .error (.invalidTopicFilter mapping.topicFilter source)
  | .ok _ =>
      -- the filter is checked for blocks without decoder too, they are subscribed to
      match mapping.decoder with
      | some (.ref name) =>
          if (self.decoders.lookup name).isSome then .ok ()
          else .error (.unknownDecoderRef mapping.topicFilter name)
      | some (.literal _) | none => .ok ()

/-- The loop of `validate`. It returns at the first block that fails. -/
def validateTopics (self : Config) : List TopicMapping → Except ConfigError Unit
  | [] => .ok ()
  | mapping :: mappings =>
      match self.validateTopic mapping with
      | .error e => .error e
      | .ok () => self.validateTopics mappings

/-- `Config::validate`. -/
def validate (self : Config) : Except ConfigError Unit :=
  match self.validateTopics self.topics with
  | .error e => .error e
  | .ok () => if self.engine.maxConcurrentDecodes = 0 then .error .invalidEngineConfig else .ok ()

end Config

/-- `WebsocketConfig::normalize`: a leading `/` unless the path is empty. -/
def WebsocketConfig.normalize (self : WebsocketConfig) : WebsocketConfig :=
  if self.path ≠ "" ∧ self.path.toList.head? ≠ some '/' then { path := "/" ++ self.path }
  else self

/-- `Config::normalize`. -/
def Config.normalize (self : Config) : Config :=
  match self.connection.protocol with
  | .ws ws => { self with connection := { self.connection with protocol := .ws ws.normalize } }
  | .mqtt => self

/-! ## Building the registry -/

/-- `BuildDecoderError`, with the text of its source. -/
inductive BuildDecoderError where
  | protobuf (display : String)
  | template (display : String)
  deriving DecidableEq, Repr

/-- What compiles schemas, relative to the directory of the configuration file, and templates. -/
structure Toolchain (Message Json : Type) where
  protobuf : String → ProtobufConfig → Except String (ProtobufDecoder Message)
  template : TemplateConfig → Except String (TemplateDecoder Json)

variable {Message Json : Type} (toolchain : Toolchain Message Json) (baseDir : String)

/-- `DecoderConfig::build`. -/
def DecoderConfig.build (self : DecoderConfig) : Except BuildDecoderError ErasedDecoder :=
  match self with
  | .hexdump => .ok (BuiltinDecoder.hexdump : BuiltinDecoder Message Json).erase
  | .utf8 => .ok (BuiltinDecoder.utf8 : BuiltinDecoder Message Json).erase
  | .protobuf config =>
      match toolchain.protobuf baseDir config with
      | .error e => .error (.protobuf e)
      | .ok decoder => .ok (BuiltinDecoder.protobuf decoder : BuiltinDecoder Message Json).erase
  | .template config =>
      match toolchain.template config with
      | .error e => .error (.template e)
      | .ok decoder => .ok (BuiltinDecoder.template decoder : BuiltinDecoder Message Json).erase

/-- How `main` ends when it does not get past the loop: with an error in a context that names the
filter, or with a panic. -/
inductive StartupError where
  | buildingDecoder (topicFilter : String) (source : BuildDecoderError)
  | invalidTopicFilter (topicFilter : String) (source : TopicError)
  | registeringTopicFilter (topicFilter : String) (source : RegistryError)
  | panic (message : String)
  deriving DecidableEq, Repr

namespace Config

/-- The loop body of `main`: build and register the decoder of a block, if it has one. -/
def registerTopic (config : Config) (mapping : TopicMapping) (builder : DecoderRegistryBuilder) :
    Except StartupError DecoderRegistryBuilder :=
  match mapping.decoder with
  -- `continue`: the block is subscribed to, but the registry does not learn of it
  | none => .ok builder
  | some decoderRef =>
      match decoderRef.resolve config.decoders with
      | none => .error (.panic "decoder reference validated at config load")
      | some decoderConfig =>
          match decoderConfig.build toolchain baseDir with
          | .error e => .error (.buildingDecoder mapping.topicFilter e)
          | .ok decoder =>
              match TopicFilter.parse mapping.topicFilter with
              | .error e => .error (.invalidTopicFilter mapping.topicFilter e)
              | .ok filter =>
                  match builder.register filter decoder with
                  | .error e => .error (.registeringTopicFilter mapping.topicFilter e)
                  | .ok builder => .ok builder

/-- The loop of `main` over the blocks. -/
def registerTopics (config : Config) : List TopicMapping → DecoderRegistryBuilder →
    Except StartupError DecoderRegistryBuilder
  | [], builder => .ok builder
  | mapping :: mappings, builder =>
      match config.registerTopic toolchain baseDir mapping builder with
      | .error e => .error e
      | .ok builder => config.registerTopics mappings builder

/-- The registry that `main` builds. -/
def buildRegistry (config : Config) : Except StartupError DecoderRegistry :=
  match config.registerTopics toolchain baseDir config.topics .new with
  | .error e => .error e
  | .ok builder => .ok builder.build

end Config

end RosettaMq
