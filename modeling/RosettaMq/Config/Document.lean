import Mathlib.Algebra.Group.Int.Defs
import Mathlib.Algebra.Group.Nat.Defs
import RosettaMq.Config.Acceptance

/-!
# Which configurations can be written down

A configuration is written as a document the way the documentation does, with every field
(`Config.document`). What `Config::parse` returns is always valid, normalized and within the range
of TOML's integers, and `parse` reads every such configuration back from its document
(`Config.parse_document_iff`).
-/

namespace RosettaMq

/-! ## TOML -/

/-- What a TOML document can hold: the keys of a table are different, and an integer has 64 bits. -/
inductive Value.IsToml : Value → Prop
  | string (s : String) : IsToml (.string s)
  | boolean (b : Bool) : IsToml (.boolean b)
  | integer {n : ℤ} (hmin : -2 ^ 63 ≤ n) (hmax : n < 2 ^ 63) : IsToml (.integer n)
  | array {values : List Value} (h : ∀ v ∈ values, IsToml v) : IsToml (.array values)
  | table {entries : Table} (hkeys : (entries.map (·.1)).Nodup) (h : ∀ e ∈ entries, IsToml e.2) :
      IsToml (.table entries)

namespace Value

@[simp] theorem isToml_string (s : String) : (string s).IsToml := .string s

@[simp] theorem isToml_boolean (b : Bool) : (boolean b).IsToml := .boolean b

@[simp] theorem isToml_table {entries : Table} : (table entries).IsToml ↔
    (entries.map (·.1)).Nodup ∧ ∀ e ∈ entries, e.2.IsToml := by
  refine ⟨fun h => ?_, fun h => .table h.1 h.2⟩
  cases h with
  | table hkeys hvalues => exact ⟨hkeys, hvalues⟩

/-- A number of the program fits if it has no more than 63 bits. -/
theorem isToml_ofNat {n : ℕ} (h : n < 2 ^ 63) : (integer n).IsToml :=
  .integer (by omega) (by omega)

end Value

/-! ## Writing -/

/-- An array of strings. -/
def Value.ofStrings (l : List String) : Value := .array (l.map .string)

def PasswordSource.value : PasswordSource → Value
  | .env name => .table [("env", .string name)]
  | .literal password => .string password

def AuthConfig.value : AuthConfig → Value
  | .mtls caFile certFile keyFile => .table [("method", .string "mtls"),
      ("ca_file", .string caFile), ("cert_file", .string certFile), ("key_file", .string keyFile)]
  | .userPass username password => .table [("method", .string "userpass"),
      ("username", .string username), ("password", password.value)]

/-- The entries that stand beside those of the connection. -/
def Protocol.entries : Protocol → Table
  | .mqtt => [("protocol", .string "mqtt")]
  | .ws config => [("protocol", .string "ws"), ("path", .string config.path)]

def ConnectionConfig.value (self : ConnectionConfig) : Value :=
  .table ([("host", .string self.host), ("port", .integer self.port.toNat),
      ("client_id", .string self.clientId)] ++
    (self.auth.map fun auth => ("auth", auth.value)).toList ++
    [("tls", .boolean self.tls)] ++ self.protocol.entries ++
    [("allow_self_signed_certs", .boolean self.allowSelfSignedCerts)])

/-- The name of the variant. -/
def UndefinedBehavior.name : UndefinedBehavior → String
  | .lenient => "lenient"
  | .chainable => "chainable"
  | .semiStrict => "semi_strict"
  | .strict => "strict"

def DecoderConfig.value : DecoderConfig → Value
  | .hexdump => .table [("decoder", .string "hexdump")]
  | .utf8 => .table [("decoder", .string "utf8")]
  | .protobuf config => .table [("decoder", .string "protobuf"),
      ("proto_file", .string config.protoFile), ("message_type", .string config.messageType),
      ("include_paths", .ofStrings config.includePaths)]
  | .template config => .table [("decoder", .string "template"),
      ("template", .string config.template),
      ("undefined_behavior", .string config.undefinedBehavior.name)]

def RefOr.value {α : Type} (value : α → Value) : RefOr α → Value
  | .ref name => .string name
  | .literal a => value a

def TopicMapping.value (self : TopicMapping) : Value :=
  .table (("topic_filter", .string self.topicFilter) ::
    (self.decoder.map fun decoder => ("decoder", decoder.value DecoderConfig.value)).toList)

def EngineConfig.value (self : EngineConfig) : Value :=
  .table [("max_concurrent_decodes", .integer self.maxConcurrentDecodes)]

/-- The document of a configuration. -/
def Config.document (self : Config) : Table :=
  [("connection", self.connection.value), ("topic", .array (self.topics.map (·.value))),
    ("decoder", .table (self.decoders.map fun e => (e.1, e.2.value))),
    ("engine", self.engine.value)]

/-! ## What is written is TOML -/

theorem Value.isToml_ofStrings (l : List String) : (ofStrings l).IsToml := by
  refine .array fun v hv => ?_
  obtain ⟨s, -, rfl⟩ := List.mem_map.mp hv
  exact .string s

theorem AuthConfig.isToml_value (auth : AuthConfig) : auth.value.IsToml := by
  cases auth with
  | mtls => simp [value]
  | userPass username password => cases password <;> simp [value, PasswordSource.value]

theorem ConnectionConfig.isToml_value (connection : ConnectionConfig) :
    connection.value.IsToml := by
  have hport : (Value.integer connection.port.toNat).IsToml :=
    Value.isToml_ofNat (by have := connection.port.toNat_lt; omega)
  cases hauth : connection.auth <;> cases hprotocol : connection.protocol <;>
    simp [value, hauth, hprotocol, Protocol.entries, hport, AuthConfig.isToml_value]

theorem DecoderConfig.isToml_value (decoder : DecoderConfig) : decoder.value.IsToml := by
  cases decoder <;> simp [value, Value.isToml_ofStrings]

theorem TopicMapping.isToml_value (mapping : TopicMapping) : mapping.value.IsToml := by
  obtain ⟨topicFilter, decoder⟩ := mapping
  rcases decoder with _ | (name | decoder) <;>
    simp [value, RefOr.value, DecoderConfig.isToml_value]

/-! ## Reading back -/

@[simp] theorem PasswordSource.deserialize_value (p : PasswordSource) :
    deserialize p.value = some p := by
  cases p <;> rfl

@[simp] theorem AuthConfig.deserialize_value (auth : AuthConfig) :
    deserialize auth.value = some auth := by
  cases auth with
  | mtls => rfl
  | userPass username password => cases password <;> rfl

/-- A list is read back if its elements are. -/
theorem mapM_map_eq_some {α β : Type} {read : β → Option α} {write : α → β}
    (h : ∀ a, read (write a) = some a) (l : List α) : (l.map write).mapM read = some l := by
  rw [List.mapM_eq_some_iff, List.forall₂_map_left_iff]
  exact List.forall₂_same.mpr fun a _ => h a

theorem Value.asStrings_ofStrings (l : List String) : (ofStrings l).asStrings = some l := by
  exact @mapM_map_eq_some _ _ asString string (fun _ => rfl) l

@[simp] theorem DecoderConfig.deserialize_value (decoder : DecoderConfig) :
    deserialize decoder.value = some decoder := by
  cases decoder with
  | hexdump => rfl
  | utf8 => rfl
  | protobuf config =>
    have hpaths := Value.asStrings_ofStrings config.includePaths
    show (DecoderConfig.protobuf <$> (ProtobufConfig.mk <$> some _ <*> some _ <*>
      (Value.ofStrings config.includePaths).asStrings)) = _
    rw [hpaths]
    rfl
  | template config =>
    obtain ⟨template, behavior⟩ := config
    cases behavior <;> rfl

/-- A definition is not mistaken for a reference. -/
theorem RefOr.deserialize_value {α : Type} {read : Value → Option α} {write : α → Value}
    (hread : ∀ a, read (write a) = some a) (hwrite : ∀ a, (write a).asString = none)
    (r : RefOr α) : deserialize read (r.value write) = some r := by
  cases r with
  | ref name => rfl
  | literal a =>
    rw [deserialize, value, hwrite, hread]
    rfl

theorem TopicMapping.deserialize_value (mapping : TopicMapping) :
    deserialize mapping.value = some mapping := by
  obtain ⟨topicFilter, decoder⟩ := mapping
  cases decoder with
  | none => rfl
  | some decoder =>
    have hdecoder := RefOr.deserialize_value DecoderConfig.deserialize_value
      (fun d => by cases d <;> rfl) decoder
    show TopicMapping.mk <$> some topicFilter <*>
      (RefOr.deserialize DecoderConfig.deserialize (decoder.value DecoderConfig.value)).map some = _
    rw [hdecoder]
    rfl

theorem EngineConfig.deserialize_value (engine : EngineConfig) :
    deserialize engine.value = some engine := by
  have hn : (Value.integer engine.maxConcurrentDecodes).asUsize =
      some engine.maxConcurrentDecodes := by
    simp [Value.asUsize]
  show EngineConfig.mk <$> (Value.integer engine.maxConcurrentDecodes).asUsize = _
  rw [hn]
  rfl

theorem Value.asU16_ofNat (n : UInt16) : (Value.integer n.toNat).asU16 = some n := by
  have hn := n.toNat_lt
  simp [asU16]
  omega

/-- The connection is read field by field. -/
theorem ConnectionConfig.deserialize_table {t : Table} {c : ConnectionConfig}
    (hhost : t.required "host" Value.asString = some c.host)
    (hport : t.required "port" Value.asU16 = some c.port)
    (hclientId : t.required "client_id" Value.asString = some c.clientId)
    (hauth : t.optional "auth" AuthConfig.deserialize = some c.auth)
    (htls : t.required "tls" Value.asBool = some c.tls)
    (hprotocol : Protocol.deserialize (.table (t.without ConnectionConfig.names)) =
      some c.protocol)
    (hallow : t.defaulted "allow_self_signed_certs" Value.asBool false =
      some c.allowSelfSignedCerts) : deserialize (.table t) = some c := by
  rw [deserialize, Value.asTable, Option.bind_some, hhost, hport, hclientId, hauth, htls,
    hprotocol, hallow]
  rfl

/-- The flattened protocol is what is left of the connection without its fields. -/
theorem ConnectionConfig.deserialize_value (connection : ConnectionConfig) :
    deserialize connection.value = some connection := by
  obtain ⟨host, port, clientId, auth, tls, protocol, allow⟩ := connection
  refine deserialize_table ?_ ?_ ?_ ?_ ?_ ?_ ?_
  · rfl
  · exact Value.asU16_ofNat port
  · rfl
  · cases auth with
    | none => cases protocol <;> rfl
    | some auth => exact congrArg (Option.map some) auth.deserialize_value
  · cases auth <;> rfl
  · cases auth <;> cases protocol <;> rfl
  · cases auth <;> cases protocol <;> rfl

/-- A path that was normalized is empty or begins with a slash. -/
theorem WebsocketConfig.normalize_normalize (ws : WebsocketConfig) :
    ws.normalize.normalize = ws.normalize := by
  unfold normalize
  split_ifs with h hslash
  · simp at hslash
  · rfl
  · rfl

/-- The values of the fields of a struct are values of the document. -/
theorem Value.IsToml.of_fields {v : Value} {names : List String} {minimum : ℕ} {t : Table}
    (hv : v.IsToml) (h : v.fields names minimum = some t) : ∀ e ∈ t, e.2.IsToml := by
  cases hv with
  | table hkeys hvalues =>
    obtain rfl := Option.some.inj h
    exact hvalues
  | @array values hvalues =>
    rw [fields] at h
    split_ifs at h
    obtain rfl := Option.some.inj h
    intro e he
    exact hvalues e.2 (List.of_mem_zip he).2
  | string | boolean | integer => cases h

/-- What is read with a default is the default or comes from a value of the document. -/
theorem Table.defaulted_cases {α : Type} {t : Table} {name : String} {read : Value → Option α}
    {default a : α} (ht : ∀ e ∈ t, e.2.IsToml) (h : t.defaulted name read default = some a) :
    a = default ∨ ∃ v : Value, v.IsToml ∧ read v = some a := by
  unfold defaulted at h
  cases hlookup : t.lookup name with
  | none =>
    rw [hlookup] at h
    exact Or.inl (Option.some.inj h).symm
  | some v =>
    rw [hlookup] at h
    obtain ⟨l₁, l₂, heq, -⟩ := List.lookup_eq_some_iff.mp hlookup
    exact Or.inr ⟨v, ht (name, v) (by rw [heq]; simp), h⟩

namespace Config

/-- The connection has a `protocol`, so none is inserted. -/
theorem inject_document (config : Config) : inject config.document = config.document := by
  obtain ⟨⟨host, port, clientId, auth, tls, protocol, allow⟩, topics, decoders, engine⟩ := config
  cases auth <;> cases protocol <;> rfl

theorem deserialize_document (config : Config) : deserialize config.document = some config := by
  have htopics : deserializeTopics (.array (config.topics.map (·.value))) =
      some config.topics := mapM_map_eq_some TopicMapping.deserialize_value config.topics
  have hdecoders : deserializeDecoders (.table (config.decoders.map fun e => (e.1, e.2.value))) =
      some config.decoders := by
    refine mapM_map_eq_some (fun e => ?_) config.decoders
    rw [DecoderConfig.deserialize_value]
    rfl
  show Config.mk <$> ConnectionConfig.deserialize config.connection.value <*>
    deserializeTopics (.array (config.topics.map (·.value))) <*>
    deserializeDecoders (.table (config.decoders.map fun e => (e.1, e.2.value))) <*>
    EngineConfig.deserialize config.engine.value = _
  rw [ConnectionConfig.deserialize_value, htopics, hdecoders, EngineConfig.deserialize_value]
  rfl

/-- A configuration is read back from its document if it is valid, up to the slash. -/
theorem parse_document {config : Config} (hvalid : config.validate = .ok ())
    (hnormal : config.normalize = config) : parse config.document = .ok config := by
  refine Grammar.parse_eq_ok_iff.mpr ⟨config, ?_, hvalid, hnormal⟩
  rw [inject_document, deserialize_document]

/-! ## What `parse` returns -/

/-- Only the protocol is normalized. -/
theorem normalize_eq (config : Config) : config.normalize.topics = config.topics ∧
    config.normalize.decoders = config.decoders ∧ config.normalize.engine = config.engine := by
  unfold normalize
  split <;> exact ⟨rfl, rfl, rfl⟩

theorem validate_normalize {config : Config} :
    config.normalize.validate = .ok () ↔ config.validate = .ok () := by
  obtain ⟨htopics, hdecoders, hengine⟩ := config.normalize_eq
  rw [validate_eq_ok_iff, validate_eq_ok_iff, htopics, hdecoders, hengine]

theorem normalize_normalize (config : Config) : config.normalize.normalize = config.normalize := by
  cases hp : config.connection.protocol with
  | mqtt => simp [normalize, hp]
  | ws ws => simp [normalize, hp, WebsocketConfig.normalize_normalize]

/-- The names of the decoders are the keys of a table. -/
theorem nodup_decoders {doc : Table} {decoders : List (String × DecoderConfig)}
    (hdoc : ∀ e ∈ doc, e.2.IsToml)
    (h : doc.defaulted "decoder" deserializeDecoders [] = some decoders) :
    (decoders.map (·.1)).Nodup := by
  rcases Table.defaulted_cases hdoc h with rfl | ⟨v, hv, hread⟩
  · exact List.nodup_nil
  · obtain ⟨t, ht, hmap⟩ := Option.bind_eq_some_iff.mp hread
    cases hv with
    | @table entries hkeys =>
      obtain rfl := Option.some.inj ht
      have hsame : List.Forall₂ (fun e d => e.1 = d.1) entries decoders := by
        refine (List.mapM_eq_some_iff.mp hmap).imp fun e d hd => ?_
        obtain ⟨decoder, -, rfl⟩ := Option.map_eq_some_iff.mp hd
        rfl
      have hkeysEq : entries.map (·.1) = decoders.map (·.1) := by
        rw [← List.forall₂_eq_eq_eq, List.forall₂_map_left_iff, List.forall₂_map_right_iff]
        exact hsame
      rw [← hkeysEq]
      exact hkeys
    | string | boolean | integer | array => cases ht

/-- The number in a document has 64 bits. -/
theorem lt_of_engine {doc : Table} {engine : EngineConfig} (hdoc : ∀ e ∈ doc, e.2.IsToml)
    (h : doc.defaulted "engine" EngineConfig.deserialize {} = some engine) :
    engine.maxConcurrentDecodes < 2 ^ 63 := by
  rcases Table.defaulted_cases hdoc h with rfl | ⟨v, hv, hread⟩
  · decide
  · obtain ⟨t, ht, hmap⟩ := Option.bind_eq_some_iff.mp hread
    obtain ⟨n, hn, rfl⟩ := Option.map_eq_some_iff.mp hmap
    rcases Table.defaulted_cases (hv.of_fields ht) hn with rfl | ⟨w, hw, hread⟩
    · decide
    · cases hw with
      | @integer n hmin hmax =>
        rw [Value.asUsize] at hread
        split_ifs at hread
        obtain rfl := Option.some.inj hread
        dsimp only
        omega
      | string | boolean | array | table => cases hread

/-! ## The result -/

/-- A valid and normalized configuration that TOML has the keys and the numbers for. -/
structure Denotable (config : Config) : Prop where
  valid : config.validate = .ok ()
  normal : config.normalize = config
  nodup : (config.decoders.map (·.1)).Nodup
  lt : config.engine.maxConcurrentDecodes < 2 ^ 63

theorem Denotable.isToml_document {config : Config} (h : config.Denotable) :
    (Value.table config.document).IsToml := by
  have hkeys : (config.document.map (·.1)).Nodup := by simp [document]
  refine .table hkeys fun e he => ?_
  simp only [document, List.mem_cons, List.not_mem_nil, or_false] at he
  rcases he with rfl | rfl | rfl | rfl
  · exact config.connection.isToml_value
  · refine .array fun v hv => ?_
    obtain ⟨mapping, -, rfl⟩ := List.mem_map.mp hv
    exact mapping.isToml_value
  · refine .table ?_ fun e he => ?_
    · rw [List.map_map]
      exact h.nodup
    · obtain ⟨decoder, -, rfl⟩ := List.mem_map.mp he
      exact decoder.2.isToml_value
  · simpa [EngineConfig.value] using Value.isToml_ofNat h.lt

/-- `parse` returns exactly the valid and normalized configurations within the limits of TOML, and
it reads each of these back from the document that is written for it. -/
theorem parse_document_iff (config : Config) :
    ((∃ doc, (Value.table doc).IsToml ∧ parse doc = .ok config) ↔ config.Denotable) ∧
      (config.Denotable ↔
        (Value.table config.document).IsToml ∧ parse config.document = .ok config) := by
  have hdoc : config.Denotable →
      (Value.table config.document).IsToml ∧ parse config.document = .ok config :=
    fun h => ⟨h.isToml_document, parse_document h.valid h.normal⟩
  have hparse : ∀ doc, (Value.table doc).IsToml → parse doc = .ok config → config.Denotable := by
    intro doc htoml hparse
    obtain ⟨c, hc, hvalid, rfl⟩ := Grammar.parse_eq_ok_iff.mp hparse
    obtain ⟨-, -, hdecoders, hengine⟩ := Grammar.deserialize_inject_eq_some_iff.mp hc
    obtain ⟨-, hdecodersEq, hengineEq⟩ := c.normalize_eq
    have hvalues := (Value.isToml_table.mp htoml).2
    refine ⟨validate_normalize.mpr hvalid, normalize_normalize c, ?_, ?_⟩
    · rw [hdecodersEq]
      exact nodup_decoders hvalues hdecoders
    · rw [hengineEq]
      exact lt_of_engine hvalues hengine
  exact ⟨⟨fun ⟨doc, htoml, h⟩ => hparse doc htoml h, fun h => ⟨_, hdoc h⟩⟩,
    hdoc, fun h => hparse _ h.1 h.2⟩

end Config

end RosettaMq
