import RosettaMq.Config.Parse

/-!
# The grammar of the configuration file

Which documents the documentation describes (`Grammar.Documented`), and which values of each type
the derived code accepts. They are those of the same grammar, but with arrays in the place of
tables.
-/

namespace RosettaMq

namespace Grammar

variable (arrays : Prop)

/-! ## The grammar

`arrays` says whether an array may stand for a table. The documentation knows tables only. -/

def IsPassword (v : Value) : Prop :=
  v.IsString ∨ ∃ t, v = .table t ∧ Table.Has t "env" Value.IsString

def IsMtls (v : Value) : Prop :=
  v.IsStruct arrays ["ca_file", "cert_file", "key_file"] 3 fun t =>
    t.Has "ca_file" Value.IsString ∧ t.Has "cert_file" Value.IsString ∧
      t.Has "key_file" Value.IsString

def IsUserPass (v : Value) : Prop :=
  v.IsStruct arrays ["username", "password"] 2 fun t =>
    t.Has "username" Value.IsString ∧ t.Has "password" IsPassword

/-- The table `auth`. -/
def IsAuth (v : Value) : Prop :=
  v.IsEnum arrays "method" fun method content =>
    method = "mtls" ∧ IsMtls arrays content ∨ method = "userpass" ∧ IsUserPass arrays content

/-- The fields of `connection` that belong to the protocol. -/
def HasProtocol (t : Table) : Prop :=
  t.May "protocol" fun v => v = .string "mqtt" ∨ v = .string "ws" ∧ t.May "path" Value.IsString

/-- The table `connection`. -/
def IsConnection (v : Value) : Prop :=
  ∃ t, v = .table t ∧ Table.Has t "host" Value.IsString ∧ Table.Has t "port" Value.IsU16 ∧
    Table.Has t "client_id" Value.IsString ∧ Table.May t "auth" (IsAuth arrays) ∧
    Table.Has t "tls" Value.IsBool ∧ HasProtocol t ∧
    Table.May t "allow_self_signed_certs" Value.IsBool

def IsProtobuf (v : Value) : Prop :=
  v.IsStruct arrays ["proto_file", "message_type", "include_paths"] 2 fun t =>
    t.Has "proto_file" Value.IsString ∧ t.Has "message_type" Value.IsString ∧
      t.May "include_paths" Value.IsStrings

def IsTemplate (v : Value) : Prop :=
  v.IsStruct arrays ["template", "undefined_behavior"] 1 fun t =>
    t.Has "template" Value.IsString ∧ t.May "undefined_behavior" fun w =>
      w.IsUnitVariant arrays fun s =>
        s = "lenient" ∨ s = "chainable" ∨ s = "semi_strict" ∨ s = "strict"

/-- A decoder, in a table `[decoder.NAME]` or inline. -/
def IsDecoder (v : Value) : Prop :=
  v.IsEnum arrays "decoder" fun decoder content =>
    (decoder = "hexdump" ∨ decoder = "utf8") ∧ content.IsUnit arrays ∨
      decoder = "protobuf" ∧ IsProtobuf arrays content ∨
      decoder = "template" ∧ IsTemplate arrays content

/-- A `[[topic]]` block, where `decoders` are the `[decoder.NAME]` tables. -/
def IsTopic (decoders : Table) (v : Value) : Prop :=
  v.IsStruct arrays ["topic_filter", "decoder"] 2 fun t =>
    (t.Has "topic_filter" fun w => ∃ s, w = .string s ∧ ∃ f, TopicFilter.parse s = .ok f) ∧
      t.May "decoder" fun w =>
        (∃ name, w = .string name ∧ (decoders.lookup name).isSome = true) ∨ IsDecoder arrays w

/-- The table `engine`. -/
def IsEngine (v : Value) : Prop :=
  v.IsStruct arrays ["max_concurrent_decodes"] 0 fun t =>
    t.May "max_concurrent_decodes" fun w => ∃ n, w = .integer n ∧ 1 ≤ n

/-- The `[decoder.NAME]` tables of a document. -/
def decodersOf (doc : Table) : Table := ((doc.lookup "decoder").bind Value.asTable).getD []

/-- The whole document, without the rule on `path`. -/
def IsDocument (doc : Table) : Prop :=
  doc.Has "connection" (IsConnection arrays) ∧
    (doc.May "topic" fun v => ∃ values, v = .array values ∧
      ∀ w ∈ values, IsTopic arrays (decodersOf doc) w) ∧
    (doc.May "decoder" fun v => ∃ t, v = .table t ∧ ∀ e ∈ t, IsDecoder arrays e.2) ∧
    doc.May "engine" (IsEngine arrays)

/-- A `path` in `connection` that no websocket uses. -/
def StrayPath (doc : Table) : Prop :=
  doc.Has "connection" fun v => ∃ t, v = .table t ∧
    (List.lookup "path" t).isSome = true ∧ List.lookup "protocol" t ≠ some (.string "ws")

/-- The documents that the documentation describes. -/
def Documented (doc : Table) : Prop := IsDocument False doc ∧ ¬ StrayPath doc

/-- The protocol of a `connection` table, when no `protocol` means `mqtt`, no `path` means `/ws`
and the path gets its leading `/`. -/
def ProtocolIs (t : Table) (protocol : Protocol) : Prop :=
  (t.lookup "protocol" = none ∨ t.lookup "protocol" = some (.string "mqtt")) ∧ protocol = .mqtt ∨
    t.lookup "protocol" = some (.string "ws") ∧ ∃ path,
      (t.lookup "path" = none ∧ path = "/ws" ∨ t.lookup "path" = some (.string path)) ∧
      protocol = .ws (WebsocketConfig.normalize { path })

/-! ## What the derived code accepts -/

variable {v : Value} {t : Table} {doc : Table}

theorem isSome_password : (PasswordSource.deserialize v).isSome = true ↔ IsPassword v := by
  simp [PasswordSource.deserialize, Value.isSome_asTable_bind, IsPassword, or_comm]

theorem isSome_authVariant {method : String} :
    (AuthConfig.variant method v).isSome = true ↔
      method = "mtls" ∧ IsMtls True v ∨ method = "userpass" ∧ IsUserPass True v := by
  unfold AuthConfig.variant
  split_ifs with hmtls huserpass
  · simp [hmtls, MtlsConfig.deserialize, Value.isSome_fields_bind, Option.isSome_seq, IsMtls,
      and_assoc]
  · simp [huserpass, UserPassConfig.deserialize, Value.isSome_fields_bind, Option.isSome_seq,
      isSome_password, IsUserPass]
  · simp [hmtls, huserpass]

theorem isSome_auth : (AuthConfig.deserialize v).isSome = true ↔ IsAuth True v := by
  rw [AuthConfig.deserialize, Value.isSome_tagged_bind]
  · simp only [isSome_authVariant, IsAuth]
  · -- no variant has a field `method`
    intro method t
    rw [Bool.eq_iff_iff, isSome_authVariant, isSome_authVariant]
    simp [IsMtls, IsUserPass, Value.IsStruct, Table.Has, Table.lookup_without]

theorem isSome_protocolVariant {protocol : String} :
    (Protocol.variant protocol v).isSome = true ↔
      protocol = "mqtt" ∧ v.IsUnit True ∨
        protocol = "ws" ∧ v.IsStruct True ["path"] 0 fun t => t.May "path" Value.IsString := by
  unfold Protocol.variant
  split_ifs with hmqtt hws
  · simp [hmqtt]
  · simp [hws, WebsocketConfig.deserialize, Value.isSome_fields_bind]
  · simp [hmqtt, hws]

theorem isSome_behaviorVariant {name : String} :
    (UndefinedBehavior.variant name).isSome = true ↔
      name = "lenient" ∨ name = "chainable" ∨ name = "semi_strict" ∨ name = "strict" := by
  unfold UndefinedBehavior.variant
  split_ifs with hlenient hchainable hsemiStrict hstrict
  · simp [hlenient]
  · simp [hchainable]
  · simp [hsemiStrict]
  · simp [hstrict]
  · simp [hlenient, hchainable, hsemiStrict, hstrict]

theorem isSome_decoderVariant {decoder : String} :
    (DecoderConfig.variant decoder v).isSome = true ↔
      (decoder = "hexdump" ∨ decoder = "utf8") ∧ v.IsUnit True ∨
        decoder = "protobuf" ∧ IsProtobuf True v ∨ decoder = "template" ∧ IsTemplate True v := by
  unfold DecoderConfig.variant
  split_ifs with hhexdump hutf8 hprotobuf htemplate
  · simp [hhexdump]
  · simp [hutf8]
  · simp [hprotobuf, ProtobufConfig.deserialize, Value.isSome_fields_bind, Option.isSome_seq,
      IsProtobuf, and_assoc]
  · simp [htemplate, TemplateConfig.deserialize, Value.isSome_fields_bind, Option.isSome_seq,
      UndefinedBehavior.deserialize, Value.isSome_unitVariant_bind, isSome_behaviorVariant,
      IsTemplate]
  · simp [hhexdump, hutf8, hprotobuf, htemplate]

theorem isSome_decoder : (DecoderConfig.deserialize v).isSome = true ↔ IsDecoder True v := by
  rw [DecoderConfig.deserialize, Value.isSome_tagged_bind]
  · simp only [isSome_decoderVariant, IsDecoder]
  · -- no variant has a field `decoder`
    intro decoder t
    rw [Bool.eq_iff_iff, isSome_decoderVariant, isSome_decoderVariant]
    simp [IsProtobuf, IsTemplate, Value.IsStruct, Value.IsUnit, Table.Has, Table.May,
      Table.lookup_without]

theorem lookup_unknown {name : String} (hname : name ∉ ConnectionConfig.names) :
    (Table.without (Table.orInsert t "protocol" (.string "mqtt")) ConnectionConfig.names).lookup
        name =
      if name = "protocol" then some ((t.lookup "protocol").getD (.string "mqtt"))
      else t.lookup name := by
  rw [Table.lookup_without, if_neg hname, Table.lookup_orInsert]

theorem isSome_protocol :
    (Protocol.deserialize (.table (Table.without (t.orInsert "protocol" (.string "mqtt"))
      ConnectionConfig.names))).isSome = true ↔ HasProtocol t := by
  have hpath := @lookup_unknown t "path" (by decide)
  have hprotocol := @lookup_unknown t "protocol" (by decide)
  rw [Protocol.deserialize, Value.isSome_tagged_bind]
  · simp only [isSome_protocolVariant, Value.IsEnum, Value.IsStruct, Value.IsUnit, Table.Has,
      Table.May, HasProtocol, hpath, hprotocol]
    -- without a tag it is the one that was inserted
    cases h : t.lookup "protocol" with
    | none => simp
    | some w => cases w <;> simp
  · -- no variant has a field `protocol`
    intro protocol t
    rw [Bool.eq_iff_iff, isSome_protocolVariant, isSome_protocolVariant]
    simp [Value.IsStruct, Value.IsUnit, Table.May, Table.lookup_without]

theorem isSome_connection :
    (ConnectionConfig.deserialize (Config.injectProtocol v)).isSome = true ↔
      IsConnection True v := by
  cases v with
  | table t =>
    rw [ConnectionConfig.deserialize, Value.isSome_asTable_bind]
    simp only [Config.injectProtocol, Value.table.injEq, exists_eq_left', Option.isSome_seq,
      isSome_protocol, Table.isSome_required, Table.isSome_optional, Table.isSome_defaulted,
      isSome_auth, Value.isSome_asString, Value.isSome_asBool, Value.isSome_asU16,
      Option.isSome_map, Option.map_eq_map]
    simp [IsConnection, Table.Has, Table.May, Table.lookup_orInsert, and_assoc]
  | _ =>
    simp [ConnectionConfig.deserialize, Config.injectProtocol, Value.asTable, IsConnection]

theorem exists_engine :
    (∃ engine, EngineConfig.deserialize v = some engine ∧ engine.maxConcurrentDecodes ≠ 0) ↔
      IsEngine True v := by
  have hpositive : ∀ w : Value, (∃ n, w.asUsize = some n ∧ n ≠ 0) ↔
      ∃ n, w = .integer n ∧ 1 ≤ n := by
    intro w
    cases w with
    | integer n =>
      by_cases hn : 0 ≤ n
      · simp [Value.asUsize, hn]
        omega
      · simp [Value.asUsize, hn]
        omega
    | _ => simp [Value.asUsize]
  have hfields : ∀ t : Table, (∃ engine : EngineConfig,
      EngineConfig.mk <$> t.defaulted "max_concurrent_decodes" Value.asUsize 100 = some engine ∧
        engine.maxConcurrentDecodes ≠ 0) ↔
      t.May "max_concurrent_decodes" fun w => ∃ n, w = .integer n ∧ 1 ≤ n := by
    intro t
    simp only [← hpositive]
    rw [← Table.exists_defaulted (d := 100) (by decide)]
    simp
  refine (Value.exists_fields_bind fun engine : EngineConfig =>
    engine.maxConcurrentDecodes ≠ 0).trans ?_
  simp only [hfields, IsEngine]

theorem exists_decoderRef {p : String → Prop} :
    (∃ d, RefOr.deserialize DecoderConfig.deserialize v = some d ∧ ∀ name, d = .ref name → p name) ↔
      (∃ name, v = .string name ∧ p name) ∨ IsDecoder True v := by
  rw [← isSome_decoder, Option.isSome_iff_exists]
  unfold RefOr.deserialize
  cases v with
  -- no decoder is written as a string
  | string s => simp [Value.asString, DecoderConfig.deserialize, Value.tagged]
  | _ => simp [Value.asString]

/-- What `validate` asks of a block: its filter parses, and its reference names a decoder. -/
def IsValid (decoders : List (String × DecoderConfig)) (mapping : TopicMapping) : Prop :=
  (∃ f, TopicFilter.parse mapping.topicFilter = .ok f) ∧
    ∀ name, mapping.decoder = some (.ref name) → (decoders.lookup name).isSome = true

theorem exists_topic {decoders : Table} {decs : List (String × DecoderConfig)}
    (hkeys : ∀ name, (decs.lookup name).isSome = (decoders.lookup name).isSome) :
    (∃ mapping, TopicMapping.deserialize v = some mapping ∧ IsValid decs mapping) ↔
      IsTopic True decoders v := by
  have hmk : ∀ x y (mapping : TopicMapping), TopicMapping.mk <$> x <*> y = some mapping ↔
      x = some mapping.topicFilter ∧ y = some mapping.decoder := by
    intro x y mapping
    obtain ⟨topicFilter, decoder⟩ := mapping
    cases x <;> cases y <;> simp [Seq.seq]
  have hfields : ∀ t : Table, (∃ mapping : TopicMapping,
      TopicMapping.mk <$> t.required "topic_filter" Value.asString
        <*> t.optional "decoder" (RefOr.deserialize DecoderConfig.deserialize) = some mapping ∧
      IsValid decs mapping) ↔
      (t.Has "topic_filter" fun w => ∃ s, w = .string s ∧ ∃ f, TopicFilter.parse s = .ok f) ∧
        t.May "decoder" fun w =>
          (∃ name, w = .string name ∧ (decoders.lookup name).isSome = true) ∨
            IsDecoder True w := by
    intro t
    have hfilter : (∃ s, t.required "topic_filter" Value.asString = some s ∧
        ∃ f, TopicFilter.parse s = .ok f) ↔
        t.Has "topic_filter" fun w => ∃ s, w = .string s ∧ ∃ f, TopicFilter.parse s = .ok f := by
      simp only [Table.exists_required, Value.asString_eq_some_iff]
    have hdecoder : (∃ d, t.optional "decoder" (RefOr.deserialize DecoderConfig.deserialize) =
        some d ∧ ∀ name, d = some (.ref name) → (decs.lookup name).isSome = true) ↔
        t.May "decoder" fun w =>
          (∃ name, w = .string name ∧ (decoders.lookup name).isSome = true) ∨
            IsDecoder True w := by
      rw [Table.exists_optional (by simp)]
      simp only [Option.some.injEq, exists_decoderRef, hkeys]
    rw [← hfilter, ← hdecoder]
    simp only [hmk]
    -- a block succeeds if both of its fields do
    constructor
    · rintro ⟨mapping, ⟨hs, hd⟩, hparse, href⟩
      exact ⟨⟨_, hs, hparse⟩, _, hd, href⟩
    · rintro ⟨⟨s, hs, hparse⟩, d, hd, href⟩
      exact ⟨⟨s, d⟩, ⟨hs, hd⟩, hparse, href⟩
  refine (Value.exists_fields_bind (IsValid decs)).trans ?_
  simp only [hfields, IsTopic]

end Grammar

end RosettaMq
