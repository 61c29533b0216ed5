import RosettaMq.Config.Grammar
import RosettaMq.Config.Validation

/-!
# Which documents are accepted

`Config::parse` accepts all documents that the documentation describes. It accepts others too: those
with a `path` that no websocket uses, and those that write the values of a struct as an array
(`Grammar.parse_accepts_documented_iff`).
-/

namespace RosettaMq

namespace Grammar

variable {v : Value} {t : Table} {doc : Table}

/-! ## What `parse` accepts -/

theorem lookup_inject {name : String} : (Config.inject doc).lookup name =
    (doc.lookup name).map fun v =>
      if name = "connection" then Config.injectProtocol v else v :=
  List.lookup_map_snd (fun key v => if key = "connection" then Config.injectProtocol v else v) doc
    name

theorem defaulted_inject {α : Type} {name : String} {f : Value → Option α} {d : α}
    (hname : name ≠ "connection") :
    (Config.inject doc).defaulted name f d = doc.defaulted name f d := by
  unfold Table.defaulted
  rw [lookup_inject]
  cases doc.lookup name <;> simp [hname]

theorem deserialize_inject_eq_some_iff {config : Config} :
    Config.deserialize (Config.inject doc) = some config ↔
      (Config.inject doc).required "connection" ConnectionConfig.deserialize =
        some config.connection ∧
      doc.defaulted "topic" Config.deserializeTopics [] = some config.topics ∧
      doc.defaulted "decoder" Config.deserializeDecoders [] = some config.decoders ∧
      doc.defaulted "engine" EngineConfig.deserialize {} = some config.engine := by
  have hmk : ∀ w x y z, Config.mk <$> w <*> x <*> y <*> z = some config ↔
      w = some config.connection ∧ x = some config.topics ∧ y = some config.decoders ∧
        z = some config.engine := by
    intro w x y z
    obtain ⟨connection, topics, decoders, engine⟩ := config
    cases w <;> cases x <;> cases y <;> cases z <;> simp [Seq.seq]
  rw [Config.deserialize, hmk, defaulted_inject (by decide), defaulted_inject (by decide),
    defaulted_inject (by decide)]

/-- `parse` succeeds if the document deserializes to a valid configuration. -/
theorem parse_eq_ok_iff {config : Config} :
    Config.parse doc = .ok config ↔ ∃ c, Config.deserialize (Config.inject doc) = some c ∧
      c.validate = .ok () ∧ c.normalize = config := by
  unfold Config.parse
  cases Config.deserialize (Config.inject doc) with
  | none => simp
  | some c => cases h : c.validate <;> simp [h]

theorem exists_connection :
    (∃ connection, (Config.inject doc).required "connection" ConnectionConfig.deserialize =
      some connection) ↔ doc.Has "connection" (IsConnection True) := by
  rw [← Option.isSome_iff_exists, Table.isSome_required]
  unfold Table.Has
  rw [lookup_inject]
  simp [isSome_connection]

theorem exists_decoders :
    (∃ decoders, doc.defaulted "decoder" Config.deserializeDecoders [] = some decoders) ↔
      doc.May "decoder" fun v => ∃ t, v = .table t ∧ ∀ e ∈ t, IsDecoder True e.2 := by
  rw [← Option.isSome_iff_exists, Table.isSome_defaulted]
  simp only [Config.deserializeDecoders, Value.isSome_asTable_bind, List.isSome_mapM,
    Option.isSome_map, isSome_decoder]

/-- The names of the decoders are the keys of their tables. -/
theorem lookup_decoders {decoders : List (String × DecoderConfig)}
    (h : doc.defaulted "decoder" Config.deserializeDecoders [] = some decoders) (name : String) :
    (decoders.lookup name).isSome = ((decodersOf doc).lookup name).isSome := by
  unfold Table.defaulted at h
  unfold decodersOf
  cases hdoc : doc.lookup "decoder" with
  | none =>
    -- no table at all
    rw [hdoc] at h
    obtain rfl := Option.some.inj h
    rfl
  | some v =>
    rw [hdoc] at h
    obtain ⟨t, ht, hmap⟩ := Option.bind_eq_some_iff.mp h
    have hkeys : List.Forall₂ (fun e d => e.1 = d.1) t decoders := by
      refine (List.mapM_eq_some_iff.mp hmap).imp fun e d hd => ?_
      obtain ⟨decoderConfig, -, rfl⟩ := Option.map_eq_some_iff.mp hd
      rfl
    rw [Option.bind_some, ht, Option.getD_some]
    exact (List.lookup_isSome_of_forall₂ hkeys name).symm

theorem exists_topics {decoders : List (String × DecoderConfig)}
    (h : doc.defaulted "decoder" Config.deserializeDecoders [] = some decoders) :
    (∃ topics, doc.defaulted "topic" Config.deserializeTopics [] = some topics ∧
      ∀ mapping ∈ topics, IsValid decoders mapping) ↔
      doc.May "topic" fun v => ∃ values, v = .array values ∧
        ∀ w ∈ values, IsTopic True (decodersOf doc) w := by
  have hblocks : ∀ v, (∃ topics, Config.deserializeTopics v = some topics ∧
      ∀ mapping ∈ topics, IsValid decoders mapping) ↔
      ∃ values, v = .array values ∧ ∀ w ∈ values, IsTopic True (decodersOf doc) w := by
    intro v
    constructor
    · rintro ⟨topics, htopics, hvalid⟩
      obtain ⟨values, hv, hmap⟩ := Option.bind_eq_some_iff.mp htopics
      have hall := (List.exists_mapM_iff _).mp ⟨topics, hmap, hvalid⟩
      exact ⟨values, Value.asArray_eq_some_iff.mp hv, fun w hw =>
        (exists_topic (lookup_decoders h)).mp (hall w hw)⟩
    · rintro ⟨values, rfl, hall⟩
      obtain ⟨topics, hmap, hvalid⟩ := (List.exists_mapM_iff _).mpr fun w hw =>
        (exists_topic (lookup_decoders h)).mpr (hall w hw)
      exact ⟨topics, hmap, hvalid⟩
  rw [Table.exists_defaulted (by simp)]
  simp only [hblocks]

/-- `parse` accepts the documents of the grammar, with arrays, and a `path` anywhere. -/
theorem exists_parse_eq_ok_iff :
    (∃ config, Config.parse doc = .ok config) ↔ IsDocument True doc := by
  simp only [parse_eq_ok_iff, deserialize_inject_eq_some_iff, Config.validate_eq_ok_iff]
  have hengines : (∃ engine, doc.defaulted "engine" EngineConfig.deserialize {} = some engine ∧
      engine.maxConcurrentDecodes ≠ 0) ↔ doc.May "engine" (IsEngine True) := by
    rw [Table.exists_defaulted (by decide)]
    simp only [exists_engine]
  rw [IsDocument, ← exists_connection, ← exists_decoders, ← hengines]
  constructor
  · rintro ⟨_, config, ⟨hconnection, htopics, hdecoders, hengine⟩, ⟨hvalid, hpositive⟩, -⟩
    exact ⟨⟨_, hconnection⟩, (exists_topics hdecoders).mp ⟨_, htopics, hvalid⟩, ⟨_, hdecoders⟩,
      _, hengine, hpositive⟩
  · rintro ⟨⟨connection, hconnection⟩, htopics, ⟨decoders, hdecoders⟩, engine, hengine, hpositive⟩
    -- the blocks are checked against the decoders that were deserialized
    obtain ⟨topics, htopics, hvalid⟩ := (exists_topics hdecoders).mpr htopics
    exact ⟨_, ⟨connection, topics, decoders, engine⟩, ⟨hconnection, htopics, hdecoders, hengine⟩,
      ⟨hvalid, hpositive⟩, rfl⟩

/-! ## The protocol -/

theorem protocolVariant_table {protocol : String} {p : Protocol} :
    Protocol.variant protocol (.table t) = some p ↔
      protocol = "mqtt" ∧ p = .mqtt ∨
        protocol = "ws" ∧ ∃ path, t.defaulted "path" Value.asString "/ws" = some path ∧
          p = .ws { path } := by
  unfold Protocol.variant
  split_ifs with hmqtt hws
  · simp [hmqtt, Value.asUnit, eq_comm]
  · simp [hws, WebsocketConfig.deserialize, Value.fields, eq_comm]
  · simp [hmqtt, hws]

/-- What `normalize` makes of the protocol. -/
theorem normalize_protocol {config : Config} :
    config.normalize.connection.protocol = match config.connection.protocol with
      | .mqtt => .mqtt
      | .ws ws => .ws ws.normalize := by
  unfold Config.normalize
  cases h : config.connection.protocol with
  | mqtt => exact h
  | ws ws => rfl

theorem protocolIs_normalize {config : Config}
    (h : Protocol.deserialize (.table (Table.without (t.orInsert "protocol" (.string "mqtt"))
      ConnectionConfig.names)) = some config.connection.protocol) :
    ProtocolIs t config.normalize.connection.protocol := by
  obtain ⟨⟨protocol, content⟩, htag, hvariant⟩ := Option.bind_eq_some_iff.mp h
  obtain ⟨hlookup, rfl⟩ := Value.tagged_table_eq_some_iff.mp htag
  rw [lookup_unknown (by decide), if_pos rfl, Option.some.injEq] at hlookup
  rw [normalize_protocol]
  rcases protocolVariant_table.mp hvariant with ⟨rfl, hp⟩ | ⟨rfl, path, hpath, hp⟩
  · -- the tag is there, or it was inserted
    refine Or.inl ⟨?_, by rw [hp]⟩
    cases hdoc : t.lookup "protocol" with
    | none => exact Or.inl rfl
    | some v =>
      rw [hdoc, Option.getD_some] at hlookup
      exact Or.inr (congrArg some hlookup)
  · refine Or.inr ⟨?_, path, ?_, by rw [hp]⟩
    · -- what is inserted is not `ws`
      cases hdoc : t.lookup "protocol" with
      | none => simp [hdoc] at hlookup
      | some v =>
        rw [hdoc, Option.getD_some] at hlookup
        exact congrArg some hlookup
    · -- `path` is no field of the connection, so the variant reads it
      rw [Table.defaulted, Table.lookup_without, if_neg (by decide), lookup_unknown (by decide),
        if_neg (by decide)] at hpath
      cases hdoc : t.lookup "path" with
      | none =>
        rw [hdoc] at hpath
        exact Or.inl ⟨rfl, (Option.some.inj hpath).symm⟩
      | some v =>
        rw [hdoc] at hpath
        exact Or.inr (congrArg some (Value.asString_eq_some_iff.mp hpath))

/-- The protocol that `parse` returns. -/
theorem protocolIs_of_parse {config : Config} (h : Config.parse doc = .ok config)
    (hdoc : doc.lookup "connection" = some (.table t)) :
    ProtocolIs t config.connection.protocol := by
  obtain ⟨c, hc, -, rfl⟩ := parse_eq_ok_iff.mp h
  have hconnection := (deserialize_inject_eq_some_iff.mp hc).1
  rw [Table.required, lookup_inject, hdoc] at hconnection
  simp only [Option.map_some, if_true, Config.injectProtocol, Option.bind_some,
    ConnectionConfig.deserialize, Value.asTable, Option.seq_eq_some_iff, Option.map_eq_map,
    Option.map_eq_some_iff] at hconnection
  -- one level for each field
  obtain ⟨_, _, ⟨_, protocol, ⟨_, _, ⟨_, _, ⟨_, _, ⟨_, _, ⟨_, -, rfl⟩, -, rfl⟩, -, rfl⟩, -, rfl⟩,
    -, rfl⟩, hprotocol, rfl⟩, -, hconnection⟩ := hconnection
  apply protocolIs_normalize
  rw [← hconnection]
  exact hprotocol

example : (·.connection.protocol) <$> Config.parse [("connection", .table [("host", .string "h"),
    ("port", .integer 1883), ("client_id", .string "x"), ("tls", .boolean false),
    ("protocol", .string "ws"), ("path", .string "mqtt")])] = .ok (.ws { path := "/mqtt" }) := rfl

/-! ## Arrays in the place of tables -/

/-- A decoder that is written as a table, and a template's `undefined_behavior` as a string. -/
def PlainDecoder (v : Value) : Prop :=
  ¬ v.IsArray ∧ ∀ t, v = .table t → List.lookup "decoder" t = some (.string "template") →
    Table.May t "undefined_behavior" fun w => ¬ w.IsTable

/-- The document uses an array or a table only where the documentation does. -/
def Plain (doc : Table) : Prop :=
  (doc.May "connection" fun v => ∀ t, v = .table t →
    Table.May t "auth" fun w => ¬ w.IsArray) ∧
  (doc.May "topic" fun v => ∀ values, v = .array values → ∀ w ∈ values,
    ¬ w.IsArray ∧ ∀ t, w = .table t → Table.May t "decoder" PlainDecoder) ∧
  (doc.May "decoder" fun v => ∀ t, v = .table t → ∀ e ∈ t, PlainDecoder e.2) ∧
  doc.May "engine" fun v => ¬ v.IsArray

theorem isAuth_false_iff : IsAuth False v ↔ IsAuth True v ∧ ¬ v.IsArray := by
  cases v <;> simp [IsAuth, Value.IsEnum, IsMtls, IsUserPass, Value.IsStruct, Value.IsArray]

theorem isEngine_false_iff : IsEngine False v ↔ IsEngine True v ∧ ¬ v.IsArray := by
  cases v <;> simp [IsEngine, Value.IsStruct, Value.IsArray]

/-- Only a template has more than one form as a table. -/
theorem isDecoder_false_iff : IsDecoder False v ↔ IsDecoder True v ∧ PlainDecoder v := by
  have hbehavior : ∀ p (w : Value), w.IsUnitVariant False p ↔
      w.IsUnitVariant True p ∧ ¬ w.IsTable := by
    intro p w
    cases w <;> simp [Value.IsUnitVariant, Value.IsTable]
  cases v with
  | table t =>
    -- the two grammars differ in `undefined_behavior` alone
    have htemplate : IsTemplate False (.table t) ↔ IsTemplate True (.table t) ∧
        Table.May t "undefined_behavior" fun w => ¬ w.IsTable := by
      simp only [IsTemplate, Value.IsStruct]
      rw [Table.may_iff_and (hbehavior _), and_assoc]
    have hprotobuf : IsProtobuf False (.table t) ↔ IsProtobuf True (.table t) := Iff.rfl
    simp only [IsDecoder, Value.IsEnum, Table.Has, PlainDecoder, Value.IsUnit, htemplate, hprotobuf]
    cases hdecoder : List.lookup "decoder" t with
    | none => simp
    | some w =>
      cases w with
      | string s => by_cases hs : s = "template" <;> simp [hs, hdecoder, Value.IsArray]
      | _ => simp
  | array values => simp [IsDecoder, Value.IsEnum, PlainDecoder, Value.IsArray]
  | _ => simp [IsDecoder, Value.IsEnum]

theorem isTopic_false_iff {decoders : Table} : IsTopic False decoders v ↔
    IsTopic True decoders v ∧ ¬ v.IsArray ∧
      ∀ t, v = .table t → Table.May t "decoder" PlainDecoder := by
  -- a reference is plain
  have hplain : ∀ w, ((∃ name, w = .string name ∧ (decoders.lookup name).isSome = true) ∨
      IsDecoder False w) ↔
      ((∃ name, w = .string name ∧ (decoders.lookup name).isSome = true) ∨ IsDecoder True w) ∧
        PlainDecoder w := by
    intro w
    rw [isDecoder_false_iff, or_and_right]
    refine or_congr_left (and_iff_left_of_imp ?_).symm
    rintro ⟨name, rfl, -⟩
    simp [PlainDecoder, Value.IsArray]
  cases v with
  | table t =>
    simp only [IsTopic, Value.IsStruct]
    rw [Table.may_iff_and hplain, ← and_assoc]
    simp [Value.IsArray]
  | array values => simp [IsTopic, Value.IsStruct, Value.IsArray]
  | _ => simp [IsTopic, Value.IsStruct]

theorem isConnection_false_iff : IsConnection False v ↔ IsConnection True v ∧
    ∀ t, v = .table t → Table.May t "auth" fun w => ¬ w.IsArray := by
  cases v with
  | table t =>
    simp only [IsConnection, Value.table.injEq, exists_eq_left', forall_eq']
    rw [Table.may_iff_and fun w => isAuth_false_iff]
    tauto
  | _ => simp [IsConnection]

theorem isDocument_false_iff : IsDocument False doc ↔ IsDocument True doc ∧ Plain doc := by
  have htopics : ∀ v : Value, (∃ values, v = .array values ∧
      ∀ w ∈ values, IsTopic False (decodersOf doc) w) ↔
      (∃ values, v = .array values ∧ ∀ w ∈ values, IsTopic True (decodersOf doc) w) ∧
        ∀ values, v = .array values → ∀ w ∈ values,
          ¬ w.IsArray ∧ ∀ t, w = .table t → Table.May t "decoder" PlainDecoder := by
    intro v
    cases v <;> simp [isTopic_false_iff, imp_and, forall_and]
  have hdecoders : ∀ v : Value, (∃ t, v = .table t ∧ ∀ e ∈ t, IsDecoder False e.2) ↔
      (∃ t, v = .table t ∧ ∀ e ∈ t, IsDecoder True e.2) ∧
        ∀ t, v = .table t → ∀ e ∈ t, PlainDecoder e.2 := by
    intro v
    cases v <;> simp [isDecoder_false_iff, imp_and, forall_and]
  unfold IsDocument Plain
  rw [Table.has_iff_and fun v => isConnection_false_iff, Table.may_iff_and htopics,
    Table.may_iff_and hdecoders, Table.may_iff_and fun v => isEngine_false_iff]
  tauto

/-- `parse` accepts exactly the documented documents, and gives each its protocol, unless the
document is well formed but for a stray `path` or for arrays that stand for tables. -/
theorem parse_accepts_documented_iff (doc : Table) :
    (((∃ config, Config.parse doc = .ok config) ↔ Documented doc) ∧
      ∀ config t, Config.parse doc = .ok config → doc.lookup "connection" = some (.table t) →
        ProtocolIs t config.connection.protocol) ↔
      (IsDocument True doc → ¬ StrayPath doc ∧ Plain doc) := by
  rw [exists_parse_eq_ok_iff, Documented, isDocument_false_iff]
  constructor
  · rintro ⟨haccept, -⟩ hdoc
    obtain ⟨⟨-, hplain⟩, hpath⟩ := haccept.mp hdoc
    exact ⟨hpath, hplain⟩
  · intro hdoc
    refine ⟨⟨fun h => ⟨⟨h, (hdoc h).2⟩, (hdoc h).1⟩, fun h => h.1.1⟩, fun config t h hlookup => ?_⟩
    exact protocolIs_of_parse h hlookup

/-- A `path` without a websocket. -/
def strayPath : Table :=
  [("connection", .table [("host", .string "127.0.0.1"), ("port", .integer 1883),
    ("client_id", .string "rosetta-mq"), ("tls", .boolean false), ("path", .string "/mqtt")])]

theorem stray_path_is_accepted :
    ¬ ((∃ config, Config.parse strayPath = .ok config) ↔ Documented strayPath) := by
  intro h
  obtain ⟨-, hpath⟩ := h.mp ⟨_, rfl⟩
  apply hpath
  refine ⟨_, rfl, _, rfl, rfl, ?_⟩
  show (none : Option Value) ≠ some (.string "ws")
  simp

end Grammar

end RosettaMq
