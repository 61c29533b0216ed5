import RosettaMq.Config.Defs
import RosettaMq.Decoder.Precedence
import RosettaMq.Engine.Run

/-!
# Routing by the configured topics

What the registry that `main` builds knows of the `[[topic]]` blocks: an entry for each block with a
decoder, and nothing of the others (`Config.forall₂_entries`).

* `Config.mostSpecificDecides_iff`: when a more specific block without decoder keeps a topic
  unmirrored.
* `Config.agrees_iff`: when the registry routes what the broker delivers for the subscriptions.
-/

open Wildcard

namespace List.Forall₂

variable {α β : Type*} {R : α → β → Prop} {as : List α} {bs : List β}

/-- Each entry of the first list has a related one in the second. -/
theorem exists_of_mem_left (h : Forall₂ R as bs) {a : α} (ha : a ∈ as) : ∃ b ∈ bs, R a b := by
  induction h with
  | nil => cases ha
  | cons hab _ ih =>
    rcases mem_cons.mp ha with rfl | ha
    · exact ⟨_, mem_cons_self, hab⟩
    · obtain ⟨b, hb, hR⟩ := ih ha
      exact ⟨b, mem_cons_of_mem _ hb, hR⟩

/-- Each entry of the second list has a related one in the first. -/
theorem exists_of_mem_right (h : Forall₂ R as bs) {b : β} (hb : b ∈ bs) : ∃ a ∈ as, R a b :=
  h.flip.exists_of_mem_left hb

end List.Forall₂

namespace RosettaMq

variable {Message Json : Type} {toolchain : Toolchain Message Json} {baseDir : String}
  {config : Config} {registry : DecoderRegistry}

namespace Config

/-- The decoder of a block, as `main` builds it. -/
def DecoderOf (toolchain : Toolchain Message Json) (baseDir : String) (config : Config)
    (mapping : TopicMapping) (decoder : ErasedDecoder) : Prop :=
  ∃ decoderRef decoderConfig, mapping.decoder = some decoderRef ∧
    decoderRef.resolve config.decoders = some decoderConfig ∧
    decoderConfig.build toolchain baseDir = .ok decoder

/-- The entry pairs the filter of a block with its decoder. -/
def EntryOf (toolchain : Toolchain Message Json) (baseDir : String) (config : Config)
    (mapping : TopicMapping) (e : RegistryEntry) : Prop :=
  e.filter.raw = mapping.topicFilter ∧ config.DecoderOf toolchain baseDir mapping e.decoder

/-- A block adds no entry if it has no decoder, and its own entry otherwise. -/
theorem registerTopic_eq_ok {mapping : TopicMapping} {b b' : DecoderRegistryBuilder}
    (h : config.registerTopic toolchain baseDir mapping b = .ok b') :
    (mapping.decoder = none ∧ b' = b) ∨
      ∃ e, config.EntryOf toolchain baseDir mapping e ∧ b'.entries = b.entries ++ [e] := by
  unfold registerTopic at h
  split at h
  · rename_i hnone
    cases h
    exact Or.inl ⟨hnone, rfl⟩
  · rename_i decoderRef hsome
    refine Or.inr ?_
    split at h
    · cases h
    · rename_i decoderConfig hres
      split at h
      · cases h
      · rename_i decoder hbuild
        split at h
        · cases h
        · rename_i filter hparse
          split at h
          · cases h
          · rename_i b'' hreg
            cases h
            exact ⟨⟨filter, decoder⟩, ⟨TopicFilter.parse_eq_ok_iff.mp hparse, decoderRef,
              decoderConfig, hsome, hres, hbuild⟩, DecoderRegistryBuilder.register_eq_ok hreg⟩

/-- The loop adds one entry for each block with a decoder, in order. -/
theorem registerTopics_eq_ok : ∀ {mappings : List TopicMapping} {b b' : DecoderRegistryBuilder},
    config.registerTopics toolchain baseDir mappings b = .ok b' →
    ∃ es, b'.entries = b.entries ++ es ∧
      List.Forall₂ (config.EntryOf toolchain baseDir)
        (mappings.filter (·.decoder.isSome)) es
  | [], b, b', h => by
      cases h
      exact ⟨[], by simp, .nil⟩
  | mapping :: mappings, b, b', h => by
      unfold registerTopics at h
      split at h
      · cases h
      · rename_i b₁ hb₁
        obtain ⟨es, hes, hall⟩ := registerTopics_eq_ok h
        rcases registerTopic_eq_ok hb₁ with ⟨hnone, rfl⟩ | ⟨e, he, hb₁⟩
        · exact ⟨es, hes, by simpa [hnone] using hall⟩
        · -- the block adds its entry in front of those of the later blocks
          have hsome : mapping.decoder.isSome = true := by
            obtain ⟨-, decoderRef, -, hdec, -⟩ := he
            rw [hdec]
            rfl
          refine ⟨e :: es, by rw [hes, hb₁]; simp, ?_⟩
          rw [List.filter_cons, if_pos hsome]
          exact .cons he hall

/-- The registry has one entry for each block with a decoder, in order. -/
theorem forall₂_entries (h : config.buildRegistry toolchain baseDir = .ok registry) :
    List.Forall₂ (config.EntryOf toolchain baseDir)
      (config.topics.filter (·.decoder.isSome)) registry.entries := by
  unfold buildRegistry at h
  split at h
  · cases h
  · rename_i b hb
    cases h
    obtain ⟨es, hes, hall⟩ := registerTopics_eq_ok hb
    rw [DecoderRegistryBuilder.new, List.nil_append] at hes
    have hentries : b.build.entries = es := hes
    rw [hentries]
    exact hall

/-- Every block with a decoder has its entry. -/
theorem exists_entry (h : config.buildRegistry toolchain baseDir = .ok registry)
    {mapping : TopicMapping} (hmem : mapping ∈ config.topics)
    (hdec : mapping.decoder.isSome = true) :
    ∃ e ∈ registry.entries, config.EntryOf toolchain baseDir mapping e :=
  (forall₂_entries h).exists_of_mem_left (List.mem_filter.mpr ⟨hmem, hdec⟩)

/-- Every entry is that of a block with a decoder. -/
theorem exists_mapping (h : config.buildRegistry toolchain baseDir = .ok registry)
    {e : RegistryEntry} (he : e ∈ registry.entries) :
    ∃ mapping ∈ config.topics, mapping.decoder.isSome = true ∧
      config.EntryOf toolchain baseDir mapping e := by
  obtain ⟨mapping, hmem, hentry⟩ := (forall₂_entries h).exists_of_mem_right he
  obtain ⟨hmem, hdec⟩ := List.mem_filter.mp hmem
  exact ⟨mapping, hmem, hdec, hentry⟩

/-! ## Subscribe-only blocks -/

/-- The block `mapping`, whose filter is `f`, matches the topic, and no block that matches it has a
greater filter. -/
structure MostSpecific (config : Config) (topic : String) (mapping : TopicMapping)
    (f : TopicFilter) : Prop where
  mem : mapping ∈ config.topics
  parse : TopicFilter.parse mapping.topicFilter = .ok f
  matching : f.matches topic = true
  not_gt : ∀ mapping' ∈ config.topics, ∀ f', TopicFilter.parse mapping'.topicFilter = .ok f' →
    f'.matches topic = true → f'.cmp f ≠ .gt

/-- The most specific block decides: without a decoder no task is spawned for the message and
nothing is published for it, and otherwise its decoder is the one that is resolved. -/
def MostSpecificDecides (toolchain : Toolchain Message Json) (baseDir : String) (config : Config)
    (registry : DecoderRegistry) (m : Publish) : Prop :=
  ∀ mapping f, config.MostSpecific m.topic mapping f →
    (mapping.decoder = none →
      handleIncoming (some m) registry = (.cont, none) ∧ registry.outputs m = []) ∧
    (mapping.decoder.isSome = true → isOwnTopic m.topic = false →
      ∃ d, config.DecoderOf toolchain baseDir mapping d ∧ registry.resolve m.topic = some d)

/-- A filter of a block with a decoder is an entry of the registry. -/
theorem resolve_isSome_iff (h : config.buildRegistry toolchain baseDir = .ok registry)
    {topic : String} :
    (registry.resolve topic).isSome = true ↔
      ∃ mapping ∈ config.topics, mapping.decoder.isSome = true ∧
        ∃ f, TopicFilter.parse mapping.topicFilter = .ok f ∧ f.matches topic = true := by
  rw [DecoderRegistry.resolve_isSome_iff]
  constructor
  · rintro ⟨e, he, hm⟩
    obtain ⟨mapping, hmem, hdec, hraw, -⟩ := exists_mapping h he
    exact ⟨mapping, hmem, hdec, e.filter, TopicFilter.parse_eq_ok_iff.mpr hraw, hm⟩
  · rintro ⟨mapping, hmem, hdec, f, hf, hm⟩
    obtain ⟨e, he, hraw, -⟩ := exists_entry h hmem hdec
    have hef : e.filter = f :=
      TopicFilter.ext_raw (hraw.trans (TopicFilter.parse_eq_ok_iff.mp hf).symm)
    exact ⟨e, he, hef ▸ hm⟩

/-- The decoder of a most specific block is the one that is resolved. -/
theorem MostSpecific.resolve_eq (h : config.buildRegistry toolchain baseDir = .ok registry)
    {topic : String} {mapping : TopicMapping} {f : TopicFilter}
    (hmost : config.MostSpecific topic mapping f) (hdec : mapping.decoder.isSome = true) :
    ∃ d, config.DecoderOf toolchain baseDir mapping d ∧ registry.resolve topic = some d := by
  obtain ⟨e, he, hraw, hd⟩ := exists_entry h hmost.mem hdec
  have hef : e.filter = f :=
    TopicFilter.ext_raw (hraw.trans (TopicFilter.parse_eq_ok_iff.mp hmost.parse).symm)
  refine ⟨e.decoder, hd, ?_⟩
  have hres : registry.resolveEntry topic = some e := by
    -- an entry that outranks it would come from a block with a greater filter
    refine DecoderRegistry.resolveEntry_eq_some_of_not_outranks he (hef ▸ hmost.matching)
      fun e' he' hm' hout => ?_
    obtain ⟨mapping', hmem', -, hraw', -⟩ := exists_mapping h he'
    refine hmost.not_gt mapping' hmem' e'.filter (TopicFilter.parse_eq_ok_iff.mpr hraw') hm' ?_
    rw [TopicFilter.cmp_eq, ← hef]
    exact Pattern.cmp_eq_gt_iff.mpr hout
  rw [DecoderRegistry.resolve, hres]
  rfl

/-- A most specific block without decoder keeps the topic unmirrored exactly when no block with a
decoder matches the topic at all, or the topic is one of the engine's own. -/
theorem mostSpecificDecides_iff (h : config.buildRegistry toolchain baseDir = .ok registry)
    (m : Publish) :
    MostSpecificDecides toolchain baseDir config registry m ↔
      isOwnTopic m.topic = true ∨
        ∀ mapping f, config.MostSpecific m.topic mapping f → mapping.decoder = none →
          ∀ mapping' ∈ config.topics, mapping'.decoder.isSome = true →
            ∀ f', TopicFilter.parse mapping'.topicFilter = .ok f' →
              f'.matches m.topic = false := by
  cases hown : isOwnTopic m.topic with
  | true =>
    -- the guard skips the message whatever the blocks say
    have hnone : registry.decoderFor m = none :=
      DecoderRegistry.decoderFor_eq_none_of_isOwnTopic hown
    refine ⟨fun _ => Or.inl rfl, fun _ mapping f _ => ⟨fun _ => ⟨?_, ?_⟩, fun _ hnot => ?_⟩⟩
    · rw [handleIncoming_some, hnone]
      rfl
    · exact DecoderRegistry.outputs_eq_nil hnone
    · rw [hown] at hnot
      cases hnot
  | false =>
    have hdec : registry.decoderFor m = registry.resolve m.topic := by
      simp [DecoderRegistry.decoderFor, hown]
    simp only [Bool.false_eq_true, false_or]
    constructor
    · -- a block with a decoder that matches puts an entry into the registry that resolves
      intro hdecides mapping f hmost hnone mapping' hmem' hdec' f' hf'
      obtain ⟨hspawn, -⟩ := (hdecides mapping f hmost).1 hnone
      rw [handleIncoming_some, hdec, Prod.mk.injEq, Option.map_eq_none_iff] at hspawn
      by_contra hm'
      have hsome := (resolve_isSome_iff h).mpr
        ⟨mapping', hmem', hdec', f', hf', by simpa using hm'⟩
      rw [hspawn.2] at hsome
      cases hsome
    · intro hno mapping f hmost
      refine ⟨fun hnone => ?_, fun hdec' _ => hmost.resolve_eq h hdec'⟩
      have hres : registry.decoderFor m = none := by
        rw [hdec, ← Option.not_isSome_iff_eq_none, resolve_isSome_iff h]
        rintro ⟨mapping', hmem', hdec', f', hf', hm'⟩
        rw [hno mapping f hmost hnone mapping' hmem' hdec' f' hf'] at hm'
        cases hm'
      rw [handleIncoming_some, hres]
      exact ⟨rfl, DecoderRegistry.outputs_eq_nil hres⟩

/-- A configuration with a decoder for everything below `devices`, and a subscription to
`devices/secret` and to `other` without decoder. -/
def devicesConfig : Config where
  connection := ⟨"localhost", 1883, "rosetta-mq", none, false, .mqtt, false⟩
  topics := [⟨"devices/#", some (.ref "text")⟩, ⟨"devices/secret", none⟩, ⟨"other", none⟩]
  decoders := [("text", .utf8)]
  engine := {}

/-- The registry of that configuration. -/
def devicesRegistry : DecoderRegistry where
  entries := [⟨⟨"devices/#", [2, 0], rfl⟩, ⟨Utf8Decoder.decode⟩⟩]
  nodup := by decide

/-- Without schemas and templates nothing has to be compiled. -/
def noToolchain : Toolchain Unit Unit := ⟨fun _ _ => .error "", fun _ => .error ""⟩

theorem buildRegistry_devicesConfig :
    devicesConfig.buildRegistry noToolchain "." = .ok devicesRegistry := rfl

/-- A message with this topic. -/
def onTopic (topic : String) : Publish := ⟨false, .atMostOnce, false, topic, 0, [0x31]⟩

theorem mostSpecificDecides_devices :
    MostSpecificDecides noToolchain "." devicesConfig devicesRegistry (onTopic "devices/42") := by
  refine (mostSpecificDecides_iff buildRegistry_devicesConfig _).mpr (Or.inr ?_)
  intro mapping f hmost hnone
  have hmem := hmost.mem
  have hm := hmost.matching
  have hf := TopicFilter.parse_eq_ok_iff.mp hmost.parse
  rw [TopicFilter.matches, hf] at hm
  simp only [devicesConfig, List.mem_cons, List.not_mem_nil, or_false] at hmem
  rcases hmem with rfl | rfl | rfl
  · cases hnone
  · exact absurd hm (by decide)
  · exact absurd hm (by decide)

/-- The most specific block that matches `devices/secret` has no decoder, and yet the message is
given to the decoder of `devices/#` and published. -/
theorem secret_is_mirrored :
    devicesConfig.validate = .ok () ∧
      devicesConfig.buildRegistry noToolchain "." = .ok devicesRegistry ∧
      devicesConfig.MostSpecific "devices/secret" ⟨"devices/secret", none⟩
        ⟨"devices/secret", [2, 2], rfl⟩ ∧
      devicesRegistry.outputs (onTopic "devices/secret") =
        [⟨"devices/secret/decoded", .atMostOnce, false, [0x31]⟩] ∧
      ¬ MostSpecificDecides noToolchain "." devicesConfig devicesRegistry
        (onTopic "devices/secret") := by
  have hmost : devicesConfig.MostSpecific "devices/secret" ⟨"devices/secret", none⟩
      ⟨"devices/secret", [2, 2], rfl⟩ := by
    refine ⟨by decide, rfl, by decide, fun mapping hmem f hf hm => ?_⟩
    have hraw := TopicFilter.parse_eq_ok_iff.mp hf
    simp only [devicesConfig, List.mem_cons, List.not_mem_nil, or_false] at hmem
    rcases hmem with rfl | rfl | rfl
    · have hff : f = ⟨"devices/#", [2, 0], rfl⟩ := TopicFilter.ext_raw hraw
      rw [hff]
      decide
    · have hff : f = ⟨"devices/secret", [2, 2], rfl⟩ := TopicFilter.ext_raw hraw
      rw [hff]
      decide
    · have hff : f = ⟨"other", [2], rfl⟩ := TopicFilter.ext_raw hraw
      rw [hff]
      decide
  have hout : devicesRegistry.outputs (onTopic "devices/secret") =
      [⟨"devices/secret/decoded", .atMostOnce, false, [0x31]⟩] := by decide
  refine ⟨rfl, rfl, hmost, hout, fun hdecides => ?_⟩
  have hnil := ((hdecides _ _ hmost).1 rfl).2
  rw [hout] at hnil
  cases hnil

/-! ## Subscriptions and local routing -/

/-- What the registry routes, some block with a decoder matches by the standard. The other way
round, it routes what these blocks match exactly when none of them matches a topic that starts
with `$`. -/
theorem agrees_iff (h : config.buildRegistry toolchain baseDir = .ok registry) (topic : String) :
    ((registry.resolve topic).isSome = true → ∃ mapping ∈ config.topics,
      mapping.decoder.isSome = true ∧
        TopicFilter.standardMatches mapping.topicFilter topic) ∧
    (((∃ mapping ∈ config.topics, mapping.decoder.isSome = true ∧
        TopicFilter.standardMatches mapping.topicFilter topic) →
        (registry.resolve topic).isSome = true) ↔
      (startsWithDollar topic = true → ∀ mapping ∈ config.topics,
        mapping.decoder.isSome = true →
          ¬ TopicFilter.standardMatches mapping.topicFilter topic)) := by
  rw [resolve_isSome_iff h]
  constructor
  · rintro ⟨mapping, hmem, hdec, f, hf, hm⟩
    have hraw : f.raw = mapping.topicFilter := TopicFilter.parse_eq_ok_iff.mp hf
    exact ⟨mapping, hmem, hdec, hraw ▸ (TopicFilter.matches_iff_standardMatches.mp hm).2⟩
  constructor
  · intro hroutes hd mapping hmem hdec hstd
    obtain ⟨_, -, -, f, -, hm⟩ := hroutes ⟨mapping, hmem, hdec, hstd⟩
    -- the matcher accepts no topic that starts with `$`
    rw [TopicFilter.matches_iff, hd] at hm
    cases hm.1
  · rintro hno ⟨mapping, hmem, hdec, hstd⟩
    obtain ⟨e, -, hraw, -⟩ := exists_entry h hmem hdec
    have hd : startsWithDollar topic = false := by
      by_contra hd
      exact hno (by simpa using hd) mapping hmem hdec hstd
    refine ⟨mapping, hmem, hdec, e.filter, TopicFilter.parse_eq_ok_iff.mpr hraw, ?_⟩
    exact TopicFilter.matches_iff_standardMatches.mpr ⟨hd, hraw ▸ hstd⟩

theorem agrees_devices :
    (devicesRegistry.resolve "devices/42").isSome = true := by
  refine ((agrees_iff buildRegistry_devicesConfig "devices/42").2.mpr
    fun hd => absurd hd (by decide)) ?_
  exact ⟨⟨"devices/#", some (.ref "text")⟩, by decide, rfl, .lit .rest, fun hd =>
    absurd hd (by decide)⟩

/-- A configuration with a decoder for the broker's own statistics. -/
def brokerConfig : Config :=
  { devicesConfig with topics := [⟨"$SYS/#", some (.literal .utf8)⟩] }

/-- The registry of that configuration. -/
def brokerRegistry : DecoderRegistry where
  entries := [⟨⟨"$SYS/#", [2, 0], rfl⟩, ⟨Utf8Decoder.decode⟩⟩]
  nodup := by decide

/-- By the standard `$SYS/#` matches `$SYS/broker/uptime`, and the registry routes it nowhere. -/
theorem broker_statistics_not_routed :
    brokerConfig.validate = .ok () ∧
      brokerConfig.buildRegistry noToolchain "." = .ok brokerRegistry ∧
      TopicFilter.standardMatches "$SYS/#" "$SYS/broker/uptime" ∧
      brokerRegistry.resolve "$SYS/broker/uptime" = none :=
  ⟨rfl, rfl, ⟨.lit .rest, fun _ => by decide⟩, rfl⟩

end Config

end RosettaMq
