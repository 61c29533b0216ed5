import RosettaMq.Client.Options
import RosettaMq.Config.Parse
import RosettaMq.ToMathlib.UnixPath

/-!
# The setup of `main`

What `src/main.rs` does before it subscribes: it loads the configuration, builds the decoder
registry, resolves the authentication and makes the options of the connection. With it come
`resolve_path` of `src/util.rs`, `AuthConfig::build` of `src/auth.rs`, and the paths that
`ProtobufDecoder::from_config` compiles.

The files, the environment variables and the third-party crates are those of a `Host`.
-/

namespace RosettaMq

/-- `resolve_path`. -/
def resolvePath (baseDir path : String) : String :=
  if UnixPath.isAbsolute path then path else UnixPath.join baseDir path

/-- What a process finds on the machine it runs on, and what the third-party crates make of it. An
error is the text of its source. -/
structure Host (FileDescriptorSet Message Json Certificate PrivateKey : Type) where
  /-- Reading the file that a path leads to. -/
  files : UnixPath.Lookup → Except String (List UInt8)
  /-- `std::env::var`. -/
  var : String → Except String String
  /-- `toml::from_str`, for the text of a document. -/
  toml : List UInt8 → Option Table
  /-- `protox::compile` of a file with these include paths, in a working directory. -/
  compile : String → String → List String → Except String FileDescriptorSet
  /-- The messages by name of `DescriptorPool::from_file_descriptor_set`. -/
  messages : FileDescriptorSet → Except String (String → Option (ProtobufDecoder Message))
  /-- `Environment::add_template_owned`. -/
  addTemplate : TemplateConfig → Except String (TemplateDecoder Json)
  /-- `Debug` of a text or a path. -/
  debug : String → String
  rustls : Rustls Certificate PrivateKey

variable {FileDescriptorSet Message Json Certificate PrivateKey : Type}
  (host : Host FileDescriptorSet Message Json Certificate PrivateKey) (cwd baseDir : String)

/-- `std::fs::read` in the working directory `cwd`. -/
def Host.read (path : String) : Except String (List UInt8) := host.files (UnixPath.lookup cwd path)

/-! ## Authentication -/

/-- `AuthError`. -/
inductive AuthError where
  | io (path source : String)
  | envVar (name source : String)
  deriving DecidableEq, Repr

/-- `read` of `src/auth.rs`. -/
def AuthConfig.read (file : String) : Except AuthError (List UInt8) :=
  let path := resolvePath baseDir file
  match host.read cwd path with
  | .error source => .error (.io path source)
  | .ok bytes => .ok bytes

/-- The password that `AuthConfig::build` uses. -/
def PasswordSource.resolve (self : PasswordSource) : Except AuthError String :=
  match self with
  | .literal password => .ok password
  | .env name =>
      match host.var name with
      | .error source => .error (.envVar name source)
      | .ok password => .ok password

/-- `AuthConfig::build`. -/
def AuthConfig.build (self : AuthConfig) : Except AuthError ResolvedAuth :=
  match self with
  | .mtls caFile certFile keyFile =>
      match AuthConfig.read host cwd baseDir caFile with
      | .error e => .error e
      | .ok ca =>
          match AuthConfig.read host cwd baseDir certFile with
          | .error e => .error e
          | .ok cert =>
              match AuthConfig.read host cwd baseDir keyFile with
              | .error e => .error e
              | .ok key => .ok (.mtls ca cert key)
  | .userPass username password =>
      match password.resolve host with
      | .error e => .error e
      | .ok password => .ok (.userPass username password)

/-- The authentication that `main` resolves. -/
def resolveAuth (auth : Option AuthConfig) : Except AuthError ResolvedAuth :=
  match auth with
  | some authCfg => authCfg.build host cwd baseDir
  | none => .ok .none

/-! ## Schemas and templates -/

/-- `ProtobufDecoderError`, as far as `from_config` returns it. -/
inductive ProtobufDecoderError where
  | compile (protoFile source : String)
  | descriptor (source : String)
  | unknownMessageType (messageType : String)
  deriving DecidableEq, Repr

/-- `Display` of `ProtobufDecoderError`. -/
def ProtobufDecoderError.display (debug : String → String) : ProtobufDecoderError → String
  | .compile protoFile source => "failed to compile " ++ debug protoFile ++ ": " ++ source
  | .descriptor source => "failed to build descriptor pool: " ++ source
  | .unknownMessageType messageType =>
      "message type " ++ debug messageType ++ " not found in compiled schema"

/-- The include paths of `ProtobufDecoder::from_config`: the directory of the schema comes first. -/
def ProtobufConfig.includes (cfg : ProtobufConfig) : List String :=
  (UnixPath.parent (resolvePath baseDir cfg.protoFile)).getD baseDir ::
    cfg.includePaths.map (resolvePath baseDir)

/-- `ProtobufDecoder::from_config`. -/
def ProtobufDecoder.fromConfig (cfg : ProtobufConfig) :
    Except ProtobufDecoderError (ProtobufDecoder Message) :=
  let protoFile := resolvePath baseDir cfg.protoFile
  match host.compile cwd protoFile (cfg.includes baseDir) with
  | .error source => .error (.compile protoFile source)
  | .ok fileDescriptorSet =>
      match host.messages fileDescriptorSet with
      | .error source => .error (.descriptor source)
      | .ok messages =>
          match messages cfg.messageType with
          | none => .error (.unknownMessageType cfg.messageType)
          | some descriptor => .ok descriptor

/-- `TemplateDecoder::from_config`, with the text of its error. -/
def TemplateDecoder.fromConfig (cfg : TemplateConfig) : Except String (TemplateDecoder Json) :=
  match host.addTemplate cfg with
  | .error source => .error ("invalid template syntax: " ++ source)
  | .ok env => .ok env

/-- What `DecoderConfig::build` compiles on this host. -/
def Host.toolchain : Toolchain Message Json where
  protobuf baseDir cfg :=
    match ProtobufDecoder.fromConfig host cwd baseDir cfg with
    | .error e => .error (e.display host.debug)
    | .ok decoder => .ok decoder
  template := TemplateDecoder.fromConfig host

/-! ## `main` -/

/-- `ConfigError`, as `Config::load` returns it. -/
inductive LoadError where
  | io (path source : String)
  | parse (source : Config.ParseError)
  deriving DecidableEq, Repr

/-- `Config::load`. -/
def Config.load (path : String) : Except LoadError Config :=
  match host.read cwd path with
  | .error source => .error (.io path source)
  | .ok bytes =>
      match fromUtf8 bytes with
      | .error _ => .error (.io path "stream did not contain valid UTF-8")
      | .ok raw =>
          match host.toml raw with
          | none => .error (.parse .parse)
          | some doc =>
              match Config.parse doc with
              | .error e => .error (.parse e)
              | .ok config => .ok config

/-- The directory that relative paths of the configuration are resolved in. -/
def baseDirOf (configPath : String) : String := (UnixPath.parent configPath).getD "."

/-- How `main` ends when it does not come to subscribe, with the context of the error. -/
inductive SetupError where
  | loadingConfig (path : String) (source : LoadError)
  | buildingRegistry (source : StartupError)
  | resolvingAuth (source : AuthError)
  | connecting (source : ClientInitError)
  deriving DecidableEq, Repr

/-- What `main` goes on with. -/
structure Session (Certificate PrivateKey : Type) where
  config : Config
  registry : DecoderRegistry
  auth : ResolvedAuth
  options : MqttOptions Certificate PrivateKey

/-- `main` up to `Client::connect`, with the path that it is given on the command line. -/
def setup (configPath : String) : Except SetupError (Session Certificate PrivateKey) :=
  match Config.load host cwd configPath with
  | .error e => .error (.loadingConfig configPath e)
  | .ok config =>
      match config.buildRegistry (host.toolchain cwd) (baseDirOf configPath) with
      | .error e => .error (.buildingRegistry e)
      | .ok registry =>
          match resolveAuth host cwd (baseDirOf configPath) config.connection.auth with
          | .error e => .error (.resolvingAuth e)
          | .ok auth =>
              match buildOptions host.rustls config.connection auth with
              | .error e => .error (.connecting e)
              | .ok options => .ok ⟨config, registry, auth, options⟩

end RosettaMq
