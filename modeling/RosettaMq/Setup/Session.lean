import RosettaMq.Config.Validation
import RosettaMq.Setup.Defs

/-!
# What `main` is set up with

The documentation of the configuration as relations: the decoders of the topics, the credentials,
and how the connection is secured. `main` is set up with a session exactly if the session is the one
these relations describe (`setup_eq_ok_iff`).
-/

namespace RosettaMq

variable {FileDescriptorSet Message Json Certificate PrivateKey : Type}

/-! ## The connection -/

/-- The TLS configuration of a transport, if it has one. -/
def Transport.tlsConfig : Transport Certificate PrivateKey →
    Option (TlsConfiguration Certificate PrivateKey)
  | .tcp | .ws => none
  | .tls config | .wss config => some config

/-- Whether the transport is a websocket. -/
def Transport.isWebsocket : Transport Certificate PrivateKey → Bool
  | .tcp | .tls _ => false
  | .ws | .wss _ => true

/-- A transport is determined by these two. -/
theorem Transport.ext_iff {t t' : Transport Certificate PrivateKey} :
    t = t' ↔ t.tlsConfig = t'.tlsConfig ∧ t.isWebsocket = t'.isWebsocket := by
  cases t <;> cases t' <;> simp [tlsConfig, isWebsocket]

/-- The address of the broker. -/
def ConnectionConfig.address (config : ConnectionConfig) (tls : Bool) : String :=
  match config.protocol with
  | .mqtt => config.host
  | .ws ws => websocketUrl config ws tls

/-- The user name and the password, if these authenticate the client. -/
def ResolvedAuth.credentials : ResolvedAuth → Option (String × String)
  | .userPass username password => some (username, password)
  | .none | .mtls .. => .none

variable {rustls : Rustls Certificate PrivateKey} {config : ConnectionConfig} {auth : ResolvedAuth}
  {roots : Option (List Certificate)} {tls : TlsConfiguration Certificate PrivateKey}
  {options : MqttOptions Certificate PrivateKey}

/-- The certificates that the server is verified with: none for self-signed ones, else those of the
configured authority if the client has a certificate too, else those of the platform. -/
def Trusts (rustls : Rustls Certificate PrivateKey) (config : ConnectionConfig)
    (auth : ResolvedAuth) (roots : Option (List Certificate)) : Prop :=
  (config.allowSelfSignedCerts = true ∧ roots = none) ∨
  config.allowSelfSignedCerts = false ∧
    ((∃ ca cert key certs, auth = .mtls ca cert key ∧ rustls.certs ca = .ok certs ∧
        roots = some (certs.filter rustls.parsable)) ∨
      (auth.isMtls = false ∧ rustls.loadNativeCerts.2 = [] ∧
        roots = some (rustls.loadNativeCerts.1.filter rustls.parsable)))

/-- The certificate and the key that the client shows: those of mTLS, else none. -/
def Shows (rustls : Rustls Certificate PrivateKey) (auth : ResolvedAuth)
    (clientAuth : Option (List Certificate × PrivateKey)) : Prop :=
  (∃ ca cert key chain keyDer, auth = .mtls ca cert key ∧ rustls.certs cert = .ok chain ∧
    rustls.privateKey key = .ok (some keyDer) ∧ rustls.checkClientAuthCert chain keyDer = .ok () ∧
    clientAuth = some (chain, keyDer)) ∨
  (auth.isMtls = false ∧ clientAuth = none)

/-- The connection that is configured. -/
structure ConnectsTo (rustls : Rustls Certificate PrivateKey) (config : ConnectionConfig)
    (auth : ResolvedAuth) (options : MqttOptions Certificate PrivateKey) : Prop where
  clientId : options.clientId = config.clientId
  address : options.brokerAddr = config.address (config.tls || auth.isMtls)
  port : options.port = config.port
  keepAlive : options.keepAlive = 30
  websocket : options.transport.isWebsocket = true ↔ ∃ ws, config.protocol = .ws ws
  /-- A client certificate is never used without TLS. -/
  plain : options.transport.tlsConfig = none ↔ config.tls = false ∧ auth.isMtls = false
  secured : ∀ tls, options.transport.tlsConfig = some tls →
    Trusts rustls config auth tls.roots ∧ Shows rustls auth tls.clientAuth
  credentials : options.credentials = auth.credentials

theorem useTls_eq : useTls config auth = (config.tls || auth.isMtls) := by
  unfold useTls
  cases config.tls <;> cases auth.isMtls <;> rfl

theorem parsePemCerts_eq_ok_iff {pem : List UInt8} {context : String} {certs : List Certificate} :
    parsePemCerts rustls pem context = .ok certs ↔ rustls.certs pem = .ok certs := by
  unfold parsePemCerts
  cases rustls.certs pem <;> simp

theorem parsePemPrivateKey_eq_ok_iff {pem : List UInt8} {key : PrivateKey} :
    parsePemPrivateKey rustls pem = .ok key ↔ rustls.privateKey pem = .ok (some key) := by
  unfold parsePemPrivateKey
  cases rustls.privateKey pem with
  | error => simp
  | ok key' => cases key' <;> simp

theorem buildRoots_eq_ok_iff : buildRoots rustls config auth = .ok roots ↔
    Trusts rustls config auth roots := by
  unfold buildRoots Trusts
  cases config.allowSelfSignedCerts with
  | true => simp [@eq_comm _ none roots]
  | false =>
    cases auth with
    | mtls ca cert key =>
      simp only [← @parsePemCerts_eq_ok_iff _ _ rustls _ "CA certificate"]
      cases hca : parsePemCerts rustls ca "CA certificate" with
      | error e => simp [hca, ResolvedAuth.isMtls]
      | ok certs =>
        simp [hca, ResolvedAuth.isMtls, @eq_comm _ (some _) roots]
    | none | userPass =>
      by_cases hnative : rustls.loadNativeCerts.2 = [] <;>
        simp [hnative, ResolvedAuth.isMtls, @eq_comm _ (some _) roots]

theorem buildTlsConfig_eq_ok_iff : buildTlsConfig rustls config auth = .ok tls ↔
    Trusts rustls config auth tls.roots ∧ Shows rustls auth tls.clientAuth := by
  obtain ⟨roots, clientAuth⟩ := tls
  simp only [← buildRoots_eq_ok_iff, buildTlsConfig, Shows]
  cases hroots : buildRoots rustls config auth with
  | error e => simp
  | ok roots' =>
    cases auth with
    | mtls ca cert key =>
      simp only [← @parsePemCerts_eq_ok_iff _ _ rustls _ "client certificate",
        ← parsePemPrivateKey_eq_ok_iff]
      cases hcert : parsePemCerts rustls cert "client certificate" with
      | error e => simp [hcert, ResolvedAuth.isMtls]
      | ok chain =>
        cases hkey : parsePemPrivateKey rustls key with
        | error e => simp [hkey, ResolvedAuth.isMtls]
        | ok keyDer =>
          cases hcheck : rustls.checkClientAuthCert chain keyDer with
          | error e => simp [hcert, hkey, hcheck, ResolvedAuth.isMtls]
          | ok _ =>
            simp [hcert, hkey, hcheck, ResolvedAuth.isMtls, @eq_comm _ (some _) clientAuth]
    | none | userPass => simp [ResolvedAuth.isMtls, @eq_comm _ none clientAuth]

/-- The transport for a protocol. -/
def Protocol.transport (protocol : Protocol)
    (tls : Option (TlsConfiguration Certificate PrivateKey)) :
    Transport Certificate PrivateKey :=
  match protocol, tls with
  | .mqtt, none => .tcp
  | .mqtt, some tls => .tls tls
  | .ws _, none => .ws
  | .ws _, some tls => .wss tls

@[simp] theorem tlsConfig_transport {protocol : Protocol}
    {tls : Option (TlsConfiguration Certificate PrivateKey)} :
    (protocol.transport tls).tlsConfig = tls := by
  cases protocol <;> cases tls <;> rfl

theorem isWebsocket_transport {protocol : Protocol}
    {tls : Option (TlsConfiguration Certificate PrivateKey)} :
    (protocol.transport tls).isWebsocket = true ↔ ∃ ws, protocol = .ws ws := by
  cases protocol <;> cases tls <;> simp [Protocol.transport, Transport.isWebsocket]

/-- The options with this TLS configuration. -/
def ConnectionConfig.toOptions (config : ConnectionConfig) (auth : ResolvedAuth)
    (tls : Option (TlsConfiguration Certificate PrivateKey)) :
    MqttOptions Certificate PrivateKey where
  clientId := config.clientId
  brokerAddr := config.address (useTls config auth)
  port := config.port
  keepAlive := 30
  transport := config.protocol.transport tls
  credentials := auth.credentials

theorem buildOptions_eq :
    buildOptions rustls config auth =
      if useTls config auth then
        (buildTlsConfig rustls config auth).map fun tls => config.toOptions auth (some tls)
      else .ok (config.toOptions auth none) := by
  unfold buildOptions ConnectionConfig.toOptions ConnectionConfig.address
  cases config.protocol <;> cases useTls config auth <;>
    cases buildTlsConfig rustls config auth <;> cases auth <;> rfl

theorem transport_toOptions {tls : Option (TlsConfiguration Certificate PrivateKey)} :
    (config.toOptions auth tls).transport = config.protocol.transport tls := rfl

theorem connectsTo_toOptions {tls : Option (TlsConfiguration Certificate PrivateKey)}
    (hplain : tls = none ↔ useTls config auth = false)
    (hsecured : ∀ t, tls = some t →
      Trusts rustls config auth t.roots ∧ Shows rustls auth t.clientAuth) :
    ConnectsTo rustls config auth (config.toOptions auth tls) where
  clientId := rfl
  address := by
    rw [← useTls_eq]
    rfl
  port := rfl
  keepAlive := rfl
  websocket := isWebsocket_transport
  plain := by
    rw [transport_toOptions, tlsConfig_transport, hplain, useTls_eq, Bool.or_eq_false_iff]
  secured := by
    intro t ht
    rw [transport_toOptions, tlsConfig_transport] at ht
    exact hsecured t ht
  credentials := rfl

/-- Nothing is left open but the TLS configuration. -/
theorem ConnectsTo.eq_toOptions (h : ConnectsTo rustls config auth options) :
    options = config.toOptions auth options.transport.tlsConfig := by
  obtain ⟨clientId, brokerAddr, port, keepAlive, transport, credentials⟩ := options
  obtain ⟨hclientId, haddress, hport, hkeepAlive, hwebsocket, -, -, hcredentials⟩ := h
  have htransport : transport = config.protocol.transport transport.tlsConfig := by
    rw [Transport.ext_iff, tlsConfig_transport, Bool.eq_iff_iff, isWebsocket_transport]
    exact ⟨rfl, hwebsocket⟩
  dsimp only at hclientId haddress hport hkeepAlive hcredentials
  rw [← useTls_eq] at haddress
  rw [hclientId, haddress, hport, hkeepAlive, hcredentials, ConnectionConfig.toOptions,
    ← htransport]

/-- `build_options` succeeds exactly with the options of the connection that is configured. -/
theorem buildOptions_eq_ok_iff : buildOptions rustls config auth = .ok options ↔
    ConnectsTo rustls config auth options := by
  rw [buildOptions_eq]
  constructor
  · intro h
    split_ifs at h with htls
    · cases hbuild : buildTlsConfig rustls config auth with
      | error e =>
        rw [hbuild] at h
        cases h
      | ok tls =>
        rw [hbuild] at h
        obtain rfl := Except.ok.inj h
        refine connectsTo_toOptions (by simp [htls]) fun t ht => ?_
        rw [← Option.some.inj ht]
        exact buildTlsConfig_eq_ok_iff.mp hbuild
    · obtain rfl := Except.ok.inj h
      exact connectsTo_toOptions (by simp [htls]) (by simp)
  · intro h
    have heq := h.eq_toOptions
    cases htls : options.transport.tlsConfig with
    | none =>
      have huse : useTls config auth = false := by
        rw [useTls_eq, Bool.or_eq_false_iff]
        exact h.plain.mp htls
      rw [huse, heq, htls]
      rfl
    | some tls =>
      have huse : useTls config auth = true := by
        by_contra hnot
        rw [useTls_eq, Bool.not_eq_true, Bool.or_eq_false_iff] at hnot
        rw [h.plain.mpr hnot] at htls
        cases htls
      rw [if_pos huse, buildTlsConfig_eq_ok_iff.mpr (h.secured tls htls), heq, htls]
      simp [Except.map, ConnectionConfig.toOptions]

/-! ## The registry -/

section Registry

variable {toolchain : Toolchain Message Json} {baseDir : String} {config : Config}
  {registry : DecoderRegistry}

/-- The loop goes through if the entries of the blocks with a decoder are given and distinct. -/
theorem Config.exists_registerTopics : ∀ {mappings : List TopicMapping} {es : List RegistryEntry}
    {builder : DecoderRegistryBuilder},
    List.Forall₂ (config.EntryOf toolchain baseDir) (mappings.filter (·.decoder.isSome)) es →
    ((builder.entries ++ es).map (·.filter.raw)).Nodup →
    ∃ b, config.registerTopics toolchain baseDir mappings builder = .ok b ∧
      b.entries = builder.entries ++ es
  | [], es, builder, hall, _ => by
      cases hall
      exact ⟨builder, rfl, (List.append_nil _).symm⟩
  | mapping :: mappings, es, builder, hall, hnodup => by
      cases hdec : mapping.decoder with
      | none =>
        rw [List.filter_cons, if_neg (by simp [hdec])] at hall
        obtain ⟨b, hb, hentries⟩ := exists_registerTopics hall hnodup
        exact ⟨b, by rw [registerTopics, registerTopic, hdec]; exact hb, hentries⟩
      | some decoderRef =>
        rw [List.filter_cons, if_pos (by simp [hdec])] at hall
        obtain - | ⟨hentry, hall⟩ := hall
        rename_i e es
        obtain ⟨hraw, decoderRef', decoderConfig, hdec', hres, hbuild⟩ := hentry
        obtain rfl := Option.some.inj (hdec.symm.trans hdec')
        have hparse := TopicFilter.parse_eq_ok_iff.mpr hraw
        -- the text of the block is none of those that are registered
        cases hreg : builder.register e.filter e.decoder with
        | error err =>
          obtain ⟨-, e', he', heq⟩ := DecoderRegistryBuilder.register_eq_error_iff.mp hreg
          rw [List.map_append, List.map_cons, List.nodup_append] at hnodup
          exact absurd heq (hnodup.2.2 _ (List.mem_map_of_mem he') _ List.mem_cons_self)
        | ok b =>
          have hb := DecoderRegistryBuilder.register_eq_ok hreg
          rw [List.append_cons, ← hb] at hnodup
          obtain ⟨b', hb', hentries⟩ := exists_registerTopics hall hnodup
          refine ⟨b', ?_, by rw [hentries, hb, List.append_assoc]; rfl⟩
          simp only [registerTopics, registerTopic, hdec, hres, hbuild, hparse, hreg]
          exact hb'

/-- `main` builds exactly the registry that pairs the filters of the blocks with their decoders. -/
theorem Config.buildRegistry_eq_ok_iff : config.buildRegistry toolchain baseDir = .ok registry ↔
    List.Forall₂ (config.EntryOf toolchain baseDir) (config.topics.filter (·.decoder.isSome))
      registry.entries := by
  refine ⟨forall₂_entries, fun hall => ?_⟩
  obtain ⟨b, hb, hentries⟩ : ∃ b,
      config.registerTopics toolchain baseDir config.topics .new = .ok b ∧
        b.entries = registry.entries := exists_registerTopics hall registry.nodup
  obtain ⟨entries, nodup⟩ := registry
  obtain ⟨entries', nodup'⟩ := b
  obtain rfl : entries' = entries := hentries
  simp only [buildRegistry, hb]
  rfl

end Registry

/-! ## The result -/

variable {host : Host FileDescriptorSet Message Json Certificate PrivateKey}
  {cwd dir configPath : String} {session : Session Certificate PrivateKey}

/-- What the configured authentication comes to: the contents of the three files, or the user name
with the password or the value of the variable. -/
def AuthenticatesBy (host : Host FileDescriptorSet Message Json Certificate PrivateKey)
    (cwd dir : String) (auth : ResolvedAuth) : Option AuthConfig → Prop
  | none => auth = .none
  | some (.mtls caFile certFile keyFile) => ∃ ca cert key,
      host.read cwd (resolvePath dir caFile) = .ok ca ∧
      host.read cwd (resolvePath dir certFile) = .ok cert ∧
      host.read cwd (resolvePath dir keyFile) = .ok key ∧ auth = .mtls ca cert key
  | some (.userPass username (.literal password)) => auth = .userPass username password
  | some (.userPass username (.env name)) => ∃ password,
      host.var name = .ok password ∧ auth = .userPass username password

theorem authRead_eq_ok_iff {file : String} {bytes : List UInt8} :
    AuthConfig.read host cwd dir file = .ok bytes ↔
      host.read cwd (resolvePath dir file) = .ok bytes := by
  simp only [AuthConfig.read]
  cases host.read cwd (resolvePath dir file) <;> simp

theorem resolveAuth_eq_ok_iff {authCfg : Option AuthConfig} {auth : ResolvedAuth} :
    resolveAuth host cwd dir authCfg = .ok auth ↔ AuthenticatesBy host cwd dir auth authCfg := by
  cases authCfg with
  | none => simp [resolveAuth, AuthenticatesBy, eq_comm]
  | some authCfg =>
    cases authCfg with
    | mtls caFile certFile keyFile =>
      simp only [resolveAuth, AuthConfig.build, AuthenticatesBy, ← authRead_eq_ok_iff]
      cases AuthConfig.read host cwd dir caFile with
      | error => simp
      | ok ca =>
        cases AuthConfig.read host cwd dir certFile with
        | error => simp
        | ok cert => cases AuthConfig.read host cwd dir keyFile <;> simp [@eq_comm _ _ auth]
    | userPass username password =>
      cases password with
      | literal password =>
        simp [resolveAuth, AuthConfig.build, PasswordSource.resolve, AuthenticatesBy,
          @eq_comm _ _ auth]
      | env name =>
        simp only [resolveAuth, AuthConfig.build, PasswordSource.resolve, AuthenticatesBy]
        cases host.var name <;> simp [@eq_comm _ _ auth]

/-- The configuration is that of a readable document. -/
theorem load_eq_ok_iff {config : Config} : Config.load host cwd configPath = .ok config ↔
    ∃ raw doc, host.read cwd configPath = .ok raw ∧ fromUtf8 raw = .ok raw ∧
      host.toml raw = some doc ∧ Config.parse doc = .ok config := by
  unfold Config.load
  cases host.read cwd configPath with
  | error => simp
  | ok raw =>
    dsimp only
    cases hutf8 : fromUtf8 raw with
    | error => simp [hutf8]
    | ok text =>
      obtain rfl := fromUtf8_eq_ok hutf8
      cases htoml : host.toml text with
      | none => simp [hutf8, htoml]
      | some doc => cases hparse : Config.parse doc <;> simp [hutf8, htoml, hparse]

/-- The session that the configuration describes. -/
structure Session.Configured (host : Host FileDescriptorSet Message Json Certificate PrivateKey)
    (cwd configPath : String) (session : Session Certificate PrivateKey) : Prop where
  config : ∃ raw doc, host.read cwd configPath = .ok raw ∧ fromUtf8 raw = .ok raw ∧
    host.toml raw = some doc ∧ Config.parse doc = .ok session.config
  registry : List.Forall₂
    (session.config.EntryOf (host.toolchain cwd) (baseDirOf configPath))
    (session.config.topics.filter (·.decoder.isSome)) session.registry.entries
  auth : AuthenticatesBy host cwd (baseDirOf configPath) session.auth
    session.config.connection.auth
  options : ConnectsTo host.rustls session.config.connection session.auth session.options

/-- `main` comes to subscribe exactly with the session that the configuration describes. The
document parses, the filters of the blocks with a decoder are distinct and their decoders can be
built, and the files and variables that the authentication names can be read. The client shows a
certificate exactly for mTLS, and then the connection has TLS; the server is verified unless
self-signed certificates are allowed. -/
theorem setup_eq_ok_iff : setup host cwd configPath = .ok session ↔
    session.Configured host cwd configPath := by
  obtain ⟨config, registry, auth, options⟩ := session
  constructor
  · intro h
    unfold setup at h
    split at h
    · cases h
    · rename_i config' hload
      split at h
      · cases h
      · rename_i registry' hregistry
        split at h
        · cases h
        · rename_i auth' hauth
          split at h
          · cases h
          · rename_i options' hoptions
            cases h
            exact ⟨load_eq_ok_iff.mp hload, Config.buildRegistry_eq_ok_iff.mp hregistry,
              resolveAuth_eq_ok_iff.mp hauth, buildOptions_eq_ok_iff.mp hoptions⟩
  · rintro ⟨hload, hregistry, hauth, hoptions⟩
    rw [setup, load_eq_ok_iff.mpr hload]
    dsimp only at hregistry hauth hoptions ⊢
    rw [Config.buildRegistry_eq_ok_iff.mpr hregistry]
    dsimp only
    rw [resolveAuth_eq_ok_iff.mpr hauth]
    dsimp only
    rw [buildOptions_eq_ok_iff.mpr hoptions]

end RosettaMq
