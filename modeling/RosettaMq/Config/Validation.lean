import RosettaMq.Decoder.Registration
import RosettaMq.Config.Routing

/-!
# What `Config::validate` guarantees

After `validate` the loop of `main` that fills the registry can stop for two reasons only: a decoder
does not build, or two blocks with a decoder have the same filter
(`Config.validate_complete_for_routing`).
-/

namespace RosettaMq

variable {Message Json : Type} {toolchain : Toolchain Message Json} {baseDir : String}
  {config : Config} {mapping : TopicMapping} {mappings : List TopicMapping}

namespace Config

/-! ## Validation -/

theorem validateTopic_eq_ok_iff :
    config.validateTopic mapping = .ok () ↔
      (∃ f, TopicFilter.parse mapping.topicFilter = .ok f) ∧
        ∀ name, mapping.decoder = some (.ref name) →
          (config.decoders.lookup name).isSome = true := by
  unfold validateTopic
  cases hparse : TopicFilter.parse mapping.topicFilter with
  | error e => simp
  | ok f =>
    rcases mapping.decoder with _ | (name | decoderConfig)
    · simp
    · by_cases hname : (config.decoders.lookup name).isSome = true <;>
        simp [-List.lookup_isSome_iff, hname]
    · simp

theorem validateTopics_eq_ok_iff :
    config.validateTopics mappings = .ok () ↔
      ∀ mapping ∈ mappings, config.validateTopic mapping = .ok () := by
  induction mappings with
  | nil => simp [validateTopics]
  | cons mapping mappings ih =>
    rw [validateTopics, List.forall_mem_cons, ← ih]
    cases config.validateTopic mapping with
    | error e => simp
    | ok => simp

/-- `validate` accepts exactly the configurations in which each filter parses, each reference names
a table, and decodes are allowed at all. -/
theorem validate_eq_ok_iff :
    config.validate = .ok () ↔
      (∀ mapping ∈ config.topics, (∃ f, TopicFilter.parse mapping.topicFilter = .ok f) ∧
        ∀ name, mapping.decoder = some (.ref name) →
          (config.decoders.lookup name).isSome = true) ∧
      config.engine.maxConcurrentDecodes ≠ 0 := by
  have htopics : config.validateTopics config.topics = .ok () ↔
      ∀ mapping ∈ config.topics, (∃ f, TopicFilter.parse mapping.topicFilter = .ok f) ∧
        ∀ name, mapping.decoder = some (.ref name) →
          (config.decoders.lookup name).isSome = true := by
    simp only [validateTopics_eq_ok_iff, validateTopic_eq_ok_iff]
  rw [validate, ← htopics]
  cases config.validateTopics config.topics with
  | error e => simp
  | ok => simp

/-- What `validate` rejects. -/
theorem validate_eq_error_iff :
    (∃ e, config.validate = .error e) ↔
      (∃ mapping ∈ config.topics, ∃ e, TopicFilter.parse mapping.topicFilter = .error e) ∨
      (∃ mapping ∈ config.topics, ∃ name, mapping.decoder = some (.ref name) ∧
        config.decoders.lookup name = none) ∨
      config.engine.maxConcurrentDecodes = 0 := by
  have hparse : ∀ raw : String, (¬ ∃ f, TopicFilter.parse raw = .ok f) ↔
      ∃ e, TopicFilter.parse raw = .error e := by
    intro raw
    cases TopicFilter.parse raw <;> simp
  have herror : (∃ e, config.validate = .error e) ↔ ¬ config.validate = .ok () := by
    cases config.validate <;> simp
  rw [herror, validate_eq_ok_iff, not_and_or, not_ne_iff, ← or_assoc]
  refine or_congr_left ?_
  simp only [not_forall, not_and_or, hparse, Bool.not_eq_true, Option.isSome_eq_false_iff,
    Option.isNone_iff_eq_none, exists_prop]
  constructor
  · rintro ⟨mapping, hmem, he | hname⟩
    · exact Or.inl ⟨mapping, hmem, he⟩
    · exact Or.inr ⟨mapping, hmem, hname⟩
  · rintro (⟨mapping, hmem, he⟩ | ⟨mapping, hmem, hname⟩)
    · exact ⟨mapping, hmem, Or.inl he⟩
    · exact ⟨mapping, hmem, Or.inr hname⟩

/-! ## The loop of `main` after validation -/

/-- The decoder of the block does not build. -/
def FailsToBuild (toolchain : Toolchain Message Json) (baseDir : String) (config : Config)
    (mapping : TopicMapping) (err : BuildDecoderError) : Prop :=
  ∃ decoderRef decoderConfig, mapping.decoder = some decoderRef ∧
    decoderRef.resolve config.decoders = some decoderConfig ∧
    decoderConfig.build toolchain baseDir = .error err

/-- A block whose decoder does not build has no decoder. -/
theorem FailsToBuild.not_decoderOf {err : BuildDecoderError} {decoder : ErasedDecoder}
    (h : config.FailsToBuild toolchain baseDir mapping err) :
    ¬ config.DecoderOf toolchain baseDir mapping decoder := by
  obtain ⟨decoderRef, decoderConfig, hdec, hres, hbuild⟩ := h
  rintro ⟨decoderRef', decoderConfig', hdec', hres', hbuild'⟩
  obtain rfl := Option.some.inj (hdec.symm.trans hdec')
  obtain rfl := Option.some.inj (hres.symm.trans hres')
  rw [hbuild] at hbuild'
  cases hbuild'

/-- On a valid block the loop goes on, or fails to build its decoder, or meets its text again. -/
theorem registerTopic_cases (hvalid : config.validateTopic mapping = .ok ())
    (builder : DecoderRegistryBuilder) :
    (∃ b, config.registerTopic toolchain baseDir mapping builder = .ok b) ∨
    (∃ err, config.registerTopic toolchain baseDir mapping builder =
        .error (.buildingDecoder mapping.topicFilter err) ∧
      config.FailsToBuild toolchain baseDir mapping err) ∨
    (config.registerTopic toolchain baseDir mapping builder =
        .error (.registeringTopicFilter mapping.topicFilter
          (.duplicateFilter mapping.topicFilter)) ∧
      mapping.decoder.isSome = true ∧
      ∃ e ∈ builder.entries, e.filter.raw = mapping.topicFilter) := by
  obtain ⟨⟨filter, hparse⟩, href⟩ := validateTopic_eq_ok_iff.mp hvalid
  cases hdec : mapping.decoder with
  | none => exact Or.inl ⟨builder, by rw [registerTopic, hdec]⟩
  | some decoderRef =>
    -- a reference names a table, so `expect` does not panic
    obtain ⟨decoderConfig, hres⟩ : ∃ decoderConfig,
        decoderRef.resolve config.decoders = some decoderConfig := by
      cases decoderRef with
      | ref name => exact Option.isSome_iff_exists.mp (href name hdec)
      | literal value => exact ⟨value, rfl⟩
    cases hbuild : decoderConfig.build toolchain baseDir with
    | error err =>
      refine Or.inr (Or.inl ⟨err, ?_, decoderRef, decoderConfig, hdec, hres, hbuild⟩)
      simp only [registerTopic, hdec, hres, hbuild]
    | ok decoder =>
      cases hreg : builder.register filter decoder with
      | ok b => exact Or.inl ⟨b, by simp only [registerTopic, hdec, hres, hbuild, hparse, hreg]⟩
      | error e =>
        rw [← TopicFilter.parse_eq_ok_iff.mp hparse]
        obtain ⟨rfl, hdup⟩ := DecoderRegistryBuilder.register_eq_error_iff.mp hreg
        refine Or.inr (Or.inr ⟨?_, rfl, hdup⟩)
        simp only [registerTopic, hdec, hres, hbuild, hparse, hreg,
          TopicFilter.parse_eq_ok_iff.mp hparse]

/-- Why the loop stops with an error: the block `mapping`, which comes after the blocks `earlier`,
does not build its decoder or has the text of one of them. -/
def StopsAt (toolchain : Toolchain Message Json) (baseDir : String) (config : Config)
    (earlier : List TopicMapping) (mapping : TopicMapping) (e : StartupError) : Prop :=
  (∃ err, e = .buildingDecoder mapping.topicFilter err ∧
    config.FailsToBuild toolchain baseDir mapping err) ∨
  (e = .registeringTopicFilter mapping.topicFilter (.duplicateFilter mapping.topicFilter) ∧
    mapping.decoder.isSome = true ∧
    ∃ m ∈ earlier, m.decoder.isSome = true ∧ m.topicFilter = mapping.topicFilter)

/-- The loop over valid blocks fails only for these reasons. The blocks `done` have been
registered. -/
theorem registerTopics_eq_error {e : StartupError} : ∀ {mappings done : List TopicMapping}
    {builder : DecoderRegistryBuilder},
    (∀ mapping ∈ mappings, config.validateTopic mapping = .ok ()) →
    List.Forall₂ (config.EntryOf toolchain baseDir) (done.filter (·.decoder.isSome))
      builder.entries →
    config.registerTopics toolchain baseDir mappings builder = .error e →
    ∃ earlier mapping later, mappings = earlier ++ mapping :: later ∧
      config.StopsAt toolchain baseDir (done ++ earlier) mapping e
  | [], _, _, _, _, h => by cases h
  | mapping :: mappings, done, builder, hvalid, hdone, h => by
      obtain ⟨hmapping, hvalid⟩ := List.forall_mem_cons.mp hvalid
      rw [registerTopics] at h
      rcases @registerTopic_cases _ _ toolchain baseDir config mapping hmapping builder with
        ⟨b, hb⟩ | ⟨err, herr, hfails⟩ | ⟨hdup, hsome, entry, hentry, hraw⟩
      · -- the block is registered, and the loop fails later
        rw [hb] at h
        have hdone' : List.Forall₂ (config.EntryOf toolchain baseDir)
            ((done ++ [mapping]).filter (·.decoder.isSome)) b.entries := by
          rw [List.filter_append]
          rcases registerTopic_eq_ok hb with ⟨hnone, rfl⟩ | ⟨entry, hentry, hentries⟩
          · simpa [hnone] using hdone
          · have hsome : mapping.decoder.isSome = true := by
              obtain ⟨-, decoderRef, -, hdec, -⟩ := hentry
              rw [hdec]
              rfl
            rw [hentries, List.filter_cons, if_pos hsome]
            exact List.rel_append hdone (.cons hentry .nil)
        obtain ⟨earlier, mapping', later, rfl, hstops⟩ :=
          registerTopics_eq_error hvalid hdone' h
        refine ⟨mapping :: earlier, mapping', later, rfl, ?_⟩
        rwa [List.append_assoc] at hstops
      · rw [herr] at h
        obtain rfl := Except.error.inj h
        exact ⟨[], mapping, mappings, rfl, Or.inl ⟨err, rfl, hfails⟩⟩
      · rw [hdup] at h
        obtain rfl := Except.error.inj h
        obtain ⟨m, hm, hraw', -⟩ := hdone.exists_of_mem_right hentry
        obtain ⟨hm, hdec⟩ := List.mem_filter.mp hm
        refine ⟨[], mapping, mappings, rfl, Or.inr ⟨rfl, hsome, m, ?_, hdec, ?_⟩⟩
        · rw [List.append_nil]
          exact hm
        · exact hraw'.symm.trans hraw

/-- The texts of the blocks with a decoder are those of the entries. -/
theorem map_topicFilter_eq {registry : DecoderRegistry}
    (h : config.buildRegistry toolchain baseDir = .ok registry) :
    (config.topics.filter (·.decoder.isSome)).map (·.topicFilter) =
      registry.entries.map (·.filter.raw) := by
  have hall : List.Forall₂ (fun mapping e => mapping.topicFilter = e.filter.raw)
      (config.topics.filter (·.decoder.isSome)) registry.entries :=
    (forall₂_entries h).imp fun _ _ hentry => hentry.1.symm
  rwa [← List.forall₂_eq_eq_eq, List.forall₂_map_left_iff, List.forall₂_map_right_iff]

/-- When the registry is built, there is no such reason. -/
theorem not_stopsAt {registry : DecoderRegistry} {earlier later : List TopicMapping}
    {e : StartupError} (h : config.buildRegistry toolchain baseDir = .ok registry)
    (htopics : config.topics = earlier ++ mapping :: later) :
    ¬ config.StopsAt toolchain baseDir earlier mapping e := by
  rintro (⟨err, -, hfails⟩ | ⟨-, hdec, m, hm, hmdec, hsame⟩)
  · have hmem : mapping ∈ config.topics := by rw [htopics]; simp
    have hsome : mapping.decoder.isSome = true := by
      obtain ⟨decoderRef, -, hdec, -⟩ := hfails
      rw [hdec]
      rfl
    obtain ⟨_, -, -, hd⟩ := exists_entry h hmem hsome
    exact hfails.not_decoderOf hd
  · -- the texts of the entries are distinct
    have hnodup := registry.nodup
    rw [← map_topicFilter_eq h, htopics, List.filter_append, List.map_append, List.filter_cons,
      if_pos hdec, List.map_cons, List.nodup_append] at hnodup
    refine hnodup.2.2 mapping.topicFilter ?_ mapping.topicFilter List.mem_cons_self rfl
    exact List.mem_map.mpr ⟨m, List.mem_filter.mpr ⟨hm, hmdec⟩, hsame⟩

/-- When `validate` returns `Ok`, the loop of `main` neither panics nor fails to parse a filter. It
stops with an error exactly if some block does not build its decoder or has the filter of an earlier
block, both with a decoder. Otherwise the registry pairs the filter of each block with its decoder,
in order. And `validate` returns an error exactly if some filter does not parse, some reference
names no table, or no decodes are allowed. -/
theorem validate_complete_for_routing (toolchain : Toolchain Message Json) (baseDir : String)
    (config : Config) :
    (config.validate = .ok () →
      (∀ message, config.buildRegistry toolchain baseDir ≠ .error (.panic message)) ∧
      (∀ topicFilter source, config.buildRegistry toolchain baseDir ≠
        .error (.invalidTopicFilter topicFilter source)) ∧
      ((∃ e, config.buildRegistry toolchain baseDir = .error e) ↔
        ∃ earlier mapping later, config.topics = earlier ++ mapping :: later ∧
          ((∃ err, config.FailsToBuild toolchain baseDir mapping err) ∨
            mapping.decoder.isSome = true ∧ ∃ m ∈ earlier, m.decoder.isSome = true ∧
              m.topicFilter = mapping.topicFilter)) ∧
      ∀ registry, config.buildRegistry toolchain baseDir = .ok registry →
        List.Forall₂ (config.EntryOf toolchain baseDir)
          (config.topics.filter (·.decoder.isSome)) registry.entries) ∧
    ((∃ e, config.validate = .error e) ↔
      (∃ mapping ∈ config.topics, ∃ e, TopicFilter.parse mapping.topicFilter = .error e) ∨
      (∃ mapping ∈ config.topics, ∃ name, mapping.decoder = some (.ref name) ∧
        config.decoders.lookup name = none) ∨
      config.engine.maxConcurrentDecodes = 0) := by
  refine ⟨fun hvalidate => ?_, validate_eq_error_iff⟩
  have hvalid : ∀ mapping ∈ config.topics, config.validateTopic mapping = .ok () := by
    intro mapping hmem
    exact validateTopic_eq_ok_iff.mpr ((validate_eq_ok_iff.mp hvalidate).1 mapping hmem)
  have hstops : ∀ e, config.buildRegistry toolchain baseDir = .error e →
      ∃ earlier mapping later, config.topics = earlier ++ mapping :: later ∧
        config.StopsAt toolchain baseDir earlier mapping e := by
    intro e h
    unfold buildRegistry at h
    split at h
    · rename_i e' he'
      obtain rfl := Except.error.inj h
      have hnew : List.Forall₂ (config.EntryOf toolchain baseDir)
          (([] : List TopicMapping).filter (·.decoder.isSome)) DecoderRegistryBuilder.new.entries :=
        .nil
      exact registerTopics_eq_error hvalid hnew he'
    · cases h
  refine ⟨fun message h => ?_, fun topicFilter source h => ?_, ⟨?_, ?_⟩,
    fun registry h => forall₂_entries h⟩
  · obtain ⟨_, _, _, -, ⟨_, he, -⟩ | ⟨he, -⟩⟩ := hstops _ h <;> cases he
  · obtain ⟨_, _, _, -, ⟨_, he, -⟩ | ⟨he, -⟩⟩ := hstops _ h <;> cases he
  · rintro ⟨e, h⟩
    obtain ⟨earlier, mapping, later, htopics, ⟨err, -, hfails⟩ | ⟨-, hdup⟩⟩ := hstops e h
    · exact ⟨earlier, mapping, later, htopics, Or.inl ⟨err, hfails⟩⟩
    · exact ⟨earlier, mapping, later, htopics, Or.inr hdup⟩
  · rintro ⟨earlier, mapping, later, htopics, hwhy⟩
    cases h : config.buildRegistry toolchain baseDir with
    | error e => exact ⟨e, rfl⟩
    | ok registry =>
      rcases hwhy with ⟨err, hfails⟩ | hdup
      · exact absurd (Or.inl ⟨err, rfl, hfails⟩) (not_stopsAt h htopics)
      · exact absurd (Or.inr ⟨rfl, hdup⟩) (not_stopsAt h htopics)

theorem validate_complete_devicesConfig :
    devicesConfig.buildRegistry noToolchain "." ≠
      .error (.panic "decoder reference validated at config load") :=
  ((validate_complete_for_routing noToolchain "." devicesConfig).1 rfl).1 _

end Config

end RosettaMq
