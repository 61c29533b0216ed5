import RosettaMq.Config.Defs
import RosettaMq.ToMathlib.Uri

/-!
# Connection options

`build_options` and `build_tls_config` of `src/client.rs`. With a websocket the address of the
broker is a URL, which splits into the configured host, port and path exactly if the host is no IPv6
address (`websocket_url_denotes_broker_iff`).

What `rustls` and its companions do with certificates and keys is a parameter.
-/

namespace RosettaMq

/-- `ResolvedAuth`. -/
inductive ResolvedAuth where
  | none
  | mtls (ca cert key : List UInt8)
  | userPass (username password : String)
  deriving DecidableEq, Repr

/-- `matches!(auth, ResolvedAuth::Mtls { .. })`. -/
def ResolvedAuth.isMtls : ResolvedAuth → Bool
  | .mtls .. => true
  | .none | .userPass .. => false

/-- `ClientInitError`, with the texts of its sources. -/
inductive ClientInitError where
  | pemParse (context source : String)
  | missingPrivateKey
  | nativeCerts (errors : List String)
  | invalidClientCert (source : String)
  deriving DecidableEq, Repr

/-- What is used of `rustls`, `rustls-pemfile` and `rustls-native-certs`. -/
structure Rustls (Certificate PrivateKey : Type) where
  /-- The certificates in a PEM file. -/
  certs : List UInt8 → Except String (List Certificate)
  /-- The first private key in a PEM file. -/
  privateKey : List UInt8 → Except String (Option PrivateKey)
  /-- The root certificates of the platform, and what went wrong. -/
  loadNativeCerts : List Certificate × List String
  /-- Whether a certificate is kept as a root. -/
  parsable : Certificate → Bool
  checkClientAuthCert : List Certificate → PrivateKey → Except String Unit

/-- `TlsConfiguration`. -/
structure TlsConfiguration (Certificate PrivateKey : Type) where
  /-- The roots for the certificate of the server, or none if it is not verified. -/
  roots : Option (List Certificate)
  clientAuth : Option (List Certificate × PrivateKey)

variable {Certificate PrivateKey : Type} (rustls : Rustls Certificate PrivateKey)

/-- `parse_pem_certs`. -/
def parsePemCerts (pem : List UInt8) (context : String) :
    Except ClientInitError (List Certificate) :=
  match rustls.certs pem with
  | .error source => .error (.pemParse context source)
  | .ok certs => .ok certs

/-- `parse_pem_private_key`. -/
def parsePemPrivateKey (pem : List UInt8) : Except ClientInitError PrivateKey :=
  match rustls.privateKey pem with
  | .error source => .error (.pemParse "client private key" source)
  | .ok none => .error .missingPrivateKey
  | .ok (some key) => .ok key

/-- How `build_tls_config` verifies the server. -/
def buildRoots (config : ConnectionConfig) (auth : ResolvedAuth) :
    Except ClientInitError (Option (List Certificate)) :=
  if config.allowSelfSignedCerts then .ok none
  else
    match auth with
    | .mtls ca _ _ =>
        match parsePemCerts rustls ca "CA certificate" with
        | .error e => .error e
        | .ok certs => .ok (some (certs.filter rustls.parsable))
    | .none | .userPass .. =>
        if rustls.loadNativeCerts.2 ≠ [] then .error (.nativeCerts rustls.loadNativeCerts.2)
        else .ok (some (rustls.loadNativeCerts.1.filter rustls.parsable))

/-- `build_tls_config`. -/
def buildTlsConfig (config : ConnectionConfig) (auth : ResolvedAuth) :
    Except ClientInitError (TlsConfiguration Certificate PrivateKey) :=
  match buildRoots rustls config auth with
  | .error e => .error e
  | .ok roots =>
      match auth with
      | .mtls _ cert key =>
          match parsePemCerts rustls cert "client certificate" with
          | .error e => .error e
          | .ok certChain =>
              match parsePemPrivateKey rustls key with
              | .error e => .error e
              | .ok keyDer =>
                  match rustls.checkClientAuthCert certChain keyDer with
                  | .error source => .error (.invalidClientCert source)
                  | .ok () => .ok ⟨roots, some (certChain, keyDer)⟩
      -- user name and password are not part of the TLS configuration
      | .none | .userPass .. => .ok ⟨roots, none⟩

/-- `Transport`. -/
inductive Transport (Certificate PrivateKey : Type) where
  | tcp
  | tls (config : TlsConfiguration Certificate PrivateKey)
  | ws
  | wss (config : TlsConfiguration Certificate PrivateKey)

/-- What is set of `MqttOptions`. -/
structure MqttOptions (Certificate PrivateKey : Type) where
  clientId : String
  brokerAddr : String
  port : UInt16
  /-- In seconds. -/
  keepAlive : ℕ
  transport : Transport Certificate PrivateKey
  credentials : Option (String × String)

/-- `MqttOptions::new`. -/
def MqttOptions.new (clientId brokerAddr : String) (port : UInt16) :
    MqttOptions Certificate PrivateKey :=
  ⟨clientId, brokerAddr, port, 60, .tcp, none⟩

/-- The URL that `build_options` passes as the address of the broker. -/
def websocketUrl (config : ConnectionConfig) (ws : WebsocketConfig) (tls : Bool) : String :=
  let scheme := if tls then "wss" else "ws"
  scheme ++ "://" ++ config.host ++ ":" ++ toString config.port.toNat ++ ws.path

/-- Whether `build_options` uses TLS: mTLS does in any case. -/
def useTls (config : ConnectionConfig) (auth : ResolvedAuth) : Bool :=
  if !config.tls && auth.isMtls then true else config.tls

/-- The last step of `build_options`. -/
def MqttOptions.withCredentials (self : MqttOptions Certificate PrivateKey) (auth : ResolvedAuth) :
    MqttOptions Certificate PrivateKey :=
  match auth with
  | .userPass username password => { self with credentials := some (username, password) }
  | .none | .mtls .. => self

/-- `build_options`. -/
def buildOptions (config : ConnectionConfig) (auth : ResolvedAuth) :
    Except ClientInitError (MqttOptions Certificate PrivateKey) :=
  let tls := useTls config auth
  let options : MqttOptions Certificate PrivateKey :=
    match config.protocol with
    | .mqtt => .new config.clientId config.host config.port
    -- the port argument is ignored, it is taken from the URL
    | .ws ws => .new config.clientId (websocketUrl config ws tls) config.port
  let options := { options with keepAlive := 30 }
  if tls then
    match buildTlsConfig rustls config auth with
    | .error e => .error e
    | .ok tlsConfig =>
        let transport :=
          match config.protocol with
          | .mqtt => .tls tlsConfig
          | .ws _ => .wss tlsConfig
        .ok ({ options with transport := transport }.withCredentials auth)
  else
    match config.protocol with
    | .ws _ => .ok ({ options with transport := .ws }.withCredentials auth)
    | .mqtt => .ok (options.withCredentials auth)

variable {rustls} {config : ConnectionConfig} {ws : WebsocketConfig} {auth : ResolvedAuth}
  {options : MqttOptions Certificate PrivateKey}

@[simp] theorem brokerAddr_withCredentials :
    (options.withCredentials auth).brokerAddr = options.brokerAddr := by
  cases auth <;> rfl

@[simp] theorem transport_withCredentials :
    (options.withCredentials auth).transport = options.transport := by
  cases auth <;> rfl

/-- With a websocket the address is a URL, and its scheme tells the transport. -/
theorem buildOptions_ws (hws : config.protocol = .ws ws)
    (h : buildOptions rustls config auth = .ok options) :
    options.brokerAddr = websocketUrl config ws (useTls config auth) ∧
      if useTls config auth then ∃ tlsConfig, options.transport = .wss tlsConfig
      else options.transport = .ws := by
  unfold buildOptions at h
  simp only [hws] at h
  cases htls : useTls config auth with
  | true =>
    -- only here can `build_options` fail
    rw [htls] at h
    cases hbuild : buildTlsConfig rustls config auth with
    | error e => simp [hbuild] at h
    | ok tlsConfig =>
      simp only [hbuild, if_true, Except.ok.injEq] at h
      subst h
      exact ⟨by simp [MqttOptions.new], tlsConfig, by simp⟩
  | false =>
    rw [htls] at h
    simp only [Bool.false_eq_true, if_false, Except.ok.injEq] at h
    subst h
    exact ⟨by simp [MqttOptions.new], by simp⟩

/-- The path that is configured, with a leading `/` unless it is empty. -/
theorem path_normalize (path : String) :
    (WebsocketConfig.normalize ⟨path⟩).path =
      if path = "" ∨ path.toList.head? = some '/' then path else "/" ++ path := by
  unfold WebsocketConfig.normalize
  by_cases h : path = "" ∨ path.toList.head? = some '/'
  · rw [if_pos h, if_neg]
    tauto
  · rw [if_neg h, if_pos]
    tauto

/-- The URL that `build_options` passes for a configuration with a websocket, after `parse` has
normalized it, splits into the configured host and port, the path with a leading `/`, and a scheme
that tells the transport, exactly if the host is no IPv6 address. -/
theorem websocket_url_denotes_broker_iff (rustls : Rustls Certificate PrivateKey) (raw : Config)
    (path : String) (auth : ResolvedAuth) (options : MqttOptions Certificate PrivateKey)
    (hws : raw.connection.protocol = .ws ⟨path⟩)
    (hpath : '?' ∉ path.toList ∧ '#' ∉ path.toList)
    (hhost : Uri.IsDnsName raw.connection.host ∨ Uri.IsIPv4 raw.connection.host ∨
      Uri.IsIPv6 raw.connection.host)
    (hok : buildOptions rustls raw.normalize.connection auth = .ok options) :
    (∃ scheme, Uri.split options.brokerAddr = some
        { scheme := scheme
          host := raw.connection.host
          port := some raw.connection.port.toNat
          path := if path = "" ∨ path.toList.head? = some '/' then path else "/" ++ path } ∧
      (scheme = "wss" ↔ ∃ tlsConfig, options.transport = .wss tlsConfig) ∧
      (scheme = "ws" ↔ options.transport = .ws)) ↔
    ¬ Uri.IsIPv6 raw.connection.host := by
  have hnormal : raw.normalize.connection =
      { raw.connection with protocol := .ws (WebsocketConfig.normalize ⟨path⟩) } := by
    rw [Config.normalize, hws]
  rw [hnormal] at hok
  obtain ⟨haddr, htransport⟩ := buildOptions_ws rfl hok
  generalize useTls _ auth = tls at haddr htransport
  rw [websocketUrl, path_normalize] at haddr
  dsimp only at haddr
  generalize hscheme : (if tls = true then "wss" else "ws") = scheme at haddr
  have hcolon : ':' ∉ scheme.toList := by
    rw [← hscheme]
    cases tls <;> decide
  rw [haddr]
  constructor
  · rintro ⟨scheme', hsplit, -⟩ hipv6
    -- without brackets the host splits into one without colons
    obtain ⟨hmem, c, hhead, hbracket, hdelim⟩ := hipv6.colon
    rw [String.append_assoc, String.append_assoc] at hsplit
    exact Uri.not_mem_host_of_split hcolon hhead hbracket hdelim hsplit hmem
  · -- a name has nothing in it that splitting stops at
    intro hipv6
    have hname : Uri.IsDnsName raw.connection.host ∨ Uri.IsIPv4 raw.connection.host := by tauto
    refine ⟨scheme, Uri.split_compose hcolon ?_ ?_ ?_ ?_ ?_, ?_⟩
    · exact fun hmem => (Uri.plain_of_name hname hmem).1 rfl
    · intro hhead
      exact (Uri.plain_of_name hname (List.mem_of_mem_head? hhead)).2.1 rfl
    · exact fun c hc => (Uri.plain_of_name hname hc).2.2
    · split_ifs with h
      · exact h
      · right
        simp
    · split_ifs
      · exact hpath
      · simpa using hpath
    · -- the scheme and the transport are chosen by the same flag
      rw [← hscheme]
      cases tls with
      | true =>
        obtain ⟨tlsConfig, htls⟩ := htransport
        simp [htls]
      | false =>
        have hwsTransport : options.transport = .ws := htransport
        simp [hwsTransport]

/-- A configuration for a broker on this host, by a websocket without TLS. -/
def websocketConfig (host path : String) : Config where
  connection := ⟨host, 8083, "rosetta-mq", none, false, .ws ⟨path⟩, false⟩
  topics := []
  decoders := []
  engine := {}

/-- Without TLS there is nothing to parse. -/
def noRustls : Rustls Unit Unit :=
  ⟨fun _ => .ok [], fun _ => .ok none, ([], []), fun _ => true, fun _ _ => .ok ()⟩

theorem websocket_url_denotes_broker_local :
    ∃ scheme, Uri.split "ws://broker.local:8083/mqtt" =
      some ⟨scheme, "broker.local", some 8083, "/mqtt"⟩ := by
  have hname : Uri.IsDnsName "broker.local" := ⟨by decide, by simp⟩
  have hipv6 : ¬ Uri.IsIPv6 "broker.local" := fun h => absurd h.colon.1 (by decide)
  obtain ⟨scheme, hsplit, -⟩ :=
    (websocket_url_denotes_broker_iff noRustls (websocketConfig "broker.local" "mqtt") "mqtt" .none
      _ rfl (by decide) (Or.inl hname) rfl).mpr hipv6
  exact ⟨scheme, hsplit⟩

/-- The URL for an IPv6 address has no brackets, so it does not even split. -/
theorem ipv6_url_does_not_split :
    Uri.IsIPv6 (websocketConfig "::1" "/ws").connection.host ∧
      ∃ options, buildOptions noRustls (websocketConfig "::1" "/ws").normalize.connection .none =
          .ok options ∧
        options.brokerAddr = "ws://::1:8083/ws" ∧ Uri.split options.brokerAddr = none := by
  have hone : Uri.IsHexGroup "1" := ⟨by decide, by decide, by simp⟩
  have hipv6 : Uri.IsIPv6 "::1" := @Uri.IsIPv6.compressed [] ["1"] 1 nofun (.group hone .nil)
    (by decide)
  exact ⟨hipv6, _, rfl, by decide, by decide⟩

end RosettaMq
