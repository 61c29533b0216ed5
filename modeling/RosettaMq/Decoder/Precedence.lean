import RosettaMq.Decoder.Builtin

/-!
# Precedence of overlapping filters

The registry is meant to let the most specific filter win. Here this is measured by what the
filters match, and compared with the order of the code.

* `TopicFilter.cmp_eq_gt_iff_of_topics_ssubset`: a filter that matches strictly fewer topics
  compares greater, unless the other filter is the same text followed by `/#`.
* `DecoderRegistry.mostSpecificWins_iff`: the registry errs exactly on such a pair, when no other
  matching filter outranks both.
* `DecoderRegistry.exact_wins_iff`: the case of a filter without wildcards.
-/

open Wildcard

namespace RosettaMq

namespace TopicFilter

variable {f g : TopicFilter} {t : String}

/-- A text followed by `/#` compares greater than the text alone. -/
theorem cmp_eq_lt_of_raw_eq_append (h : g.raw = f.raw ++ "/#") : f.cmp g = .lt := by
  rw [cmp_eq, pattern_eq_append_rest_iff.mpr h]
  exact Pattern.cmp_append_cons _ _ _

theorem rest_not_mem_of_raw_eq_append (h : g.raw = f.raw ++ "/#") : .rest ∉ f.pattern := by
  have hwf := g.pattern_wellFormed
  rw [pattern_eq_append_rest_iff.mpr h] at hwf
  exact hwf.not_mem_rest

/-- A filter followed by `/#` matches what the filter matches. -/
theorem matches_of_raw_eq_append (h : g.raw = f.raw ++ "/#") (hm : f.matches t = true) :
    g.matches t = true := by
  rw [matches_iff] at hm ⊢
  refine ⟨hm.1, ?_⟩
  rw [pattern_eq_append_rest_iff.mpr h]
  simpa using hm.2.append_rest (rest_not_mem_of_raw_eq_append h) []

/-- A filter that matches anything matches strictly less than the filter followed by `/#`. -/
theorem topics_ssubset_of_raw_eq_append (h : g.raw = f.raw ++ "/#") (hm : f.matches t = true) :
    f.topics ⊂ g.topics := by
  have hne : f.language.Nonempty :=
    ⟨levels t, (levels_mem_words_iff t).mpr (matches_iff.mp hm).1, (matches_iff.mp hm).2⟩
  rw [topics_ssubset_iff, language, language, pattern_eq_append_rest_iff.mpr h]
  exact Pattern.language_ssubset_append_rest (rest_not_mem_of_raw_eq_append h) hne
    (undollared_nontrivial.nonempty.mono undollared_subset)

/-- A filter that matches strictly fewer topics compares greater exactly when the other is not the
same text followed by `/#` and, if it starts with `$` and so matches nothing, outranks the other. -/
theorem cmp_eq_gt_iff_of_topics_ssubset (h : f.topics ⊂ g.topics) :
    f.cmp g = .gt ↔
      g.raw ≠ f.raw ++ "/#" ∧
        (startsWithDollar f.raw = true → Pattern.Outranks f.pattern g.pattern) := by
  cases hd : startsWithDollar f.raw with
  | true =>
    -- `f` matches nothing, so nothing follows for its pattern
    rw [cmp_eq, ← Pattern.cmp_eq_gt_iff]
    refine ⟨fun hgt => ⟨fun hraw => ?_, fun _ => hgt⟩, fun hgt => hgt.2 rfl⟩
    rw [← cmp_eq, cmp_eq_lt_of_raw_eq_append hraw] at hgt
    cases hgt
  | false =>
    have hgt := Pattern.cmp_eq_gt_iff_of_ssubset undollared_nontrivial undollared_subset
      f.pattern_wellFormed g.pattern_wellFormed (fun a ha => not_mem_of_lit_mem_pattern ha)
      (language_nonempty_iff.mpr hd) (topics_ssubset_iff.mp h)
    rw [cmp_eq, hgt, ne_eq, ne_eq, pattern_eq_append_rest_iff]
    simp

/-- No segment of the filter is a wildcard. -/
def WildcardFree (f : TopicFilter) : Prop := ∀ part ∈ levels f.raw, part ≠ "#" ∧ part ≠ "+"

theorem WildcardFree.pattern_eq (h : f.WildcardFree) : f.pattern = (levels f.raw).map .lit :=
  List.map_congr_left fun part hp => token_of_ne (h part hp).1 (h part hp).2

/-- A filter without wildcards matches its own text only. -/
theorem WildcardFree.matches_iff (h : f.WildcardFree) :
    f.matches t = true ↔ startsWithDollar t = false ∧ t = f.raw := by
  rw [TopicFilter.matches_iff, h.pattern_eq, Pattern.matches_map_lit,
    (String.splitChar_injective '/').eq_iff]

/-- Of two filters that match the same topic, the one without wildcards is the other, compares
greater, or the other is its text followed by `/#`. -/
theorem WildcardFree.cmp_cases (h : f.WildcardFree) (hf : f.matches t = true)
    (hg : g.matches t = true) : f = g ∨ f.cmp g = .gt ∨ g.raw = f.raw ++ "/#" := by
  -- `t` is the only topic that `f` matches
  have hsub : f.topics ⊆ g.topics := by
    intro u hu
    rw [show u = t from (h.matches_iff.mp hu).2.trans (h.matches_iff.mp hf).2.symm]
    exact hg
  have hd : startsWithDollar f.raw = false := by
    rw [← (h.matches_iff.mp hf).2]
    exact (h.matches_iff.mp hf).1
  rcases Pattern.narrows_of_language_subset undollared_nontrivial undollared_subset
    f.pattern_wellFormed g.pattern_wellFormed (fun a ha => not_mem_of_lit_mem_pattern ha)
    (language_nonempty_iff.mpr hd) (topics_subset_iff.mp hsub) with
    (heq | hgt | hrest) | ⟨hf', -⟩
  · exact Or.inl (ext_raw (raw_eq_of_pattern_eq heq))
  · exact Or.inr (Or.inl ((cmp_eq f g).trans hgt))
  · exact Or.inr (Or.inr (pattern_eq_append_rest_iff.mp hrest))
  · -- a pattern of letters is not `rest`
    have hmem : .rest ∈ f.pattern := by rw [hf']; exact List.mem_singleton_self _
    rw [h.pattern_eq] at hmem
    simp at hmem

end TopicFilter

namespace DecoderRegistry

variable {registry : DecoderRegistry} {topic : String} {e e' : RegistryEntry}

/-- The selected filter matches no strictly larger set of topics than another one that matches the
topic. -/
def MostSpecificWins (self : DecoderRegistry) (topic : String) : Prop :=
  ∀ e, self.resolveEntry topic = some e →
    ∀ e' ∈ self.entries, e'.filter.matches topic = true → ¬ e'.filter.topics ⊂ e.filter.topics

/-- An entry that no matching entry outranks is the selected one. -/
theorem resolveEntry_eq_some_of_not_outranks (he : e ∈ registry.entries)
    (hm : e.filter.matches topic = true)
    (h : ∀ e' ∈ registry.entries, e'.filter.matches topic = true →
      ¬ Pattern.Outranks e'.filter.pattern e.filter.pattern) :
    registry.resolveEntry topic = some e := by
  refine resolveEntry_eq_some_iff.mpr ⟨he, hm, fun e' he' hm' hne => ?_⟩
  cases hcmp : e'.filter.cmp e.filter with
  | lt => rfl
  | eq => exact absurd (eq_of_raw_eq he' he (TopicFilter.raw_eq_of_cmp_eq hm' hm hcmp)) hne
  | gt =>
    rw [TopicFilter.cmp_eq, Pattern.cmp_eq_gt_iff] at hcmp
    exact absurd hcmp (h e' he' hm')

/-- No matching entry outranks the selected one. -/
theorem not_outranks_of_resolveEntry (h : registry.resolveEntry topic = some e)
    (he' : e' ∈ registry.entries) (hm : e'.filter.matches topic = true) :
    ¬ Pattern.Outranks e'.filter.pattern e.filter.pattern := by
  rw [← Pattern.cmp_eq_gt_iff, ← TopicFilter.cmp_eq]
  intro hgt
  by_cases hne : e' = e
  · have heq : e.filter.cmp e.filter = .eq := Std.ReflCmp.compare_self
    rw [hne, heq] at hgt
    cases hgt
  · rw [cmp_lt_of_resolveEntry h he' hm hne] at hgt
    cases hgt

/-- The most specific filter wins unless the topic matches a filter that is also registered with
`/#` appended, and no matching filter outranks the latter. -/
theorem mostSpecificWins_iff :
    registry.MostSpecificWins topic ↔
      ∀ e ∈ registry.entries, ∀ e' ∈ registry.entries, e.filter.matches topic = true →
        e'.filter.raw = e.filter.raw ++ "/#" →
        ∃ e'' ∈ registry.entries, e''.filter.matches topic = true ∧
          Pattern.Outranks e''.filter.pattern e'.filter.pattern := by
  constructor
  · intro h e he e' he' hm hraw
    by_contra hnone
    push Not at hnone
    -- nothing outranks `e'`, so it is selected although `e` matches fewer topics
    have hwin : registry.resolveEntry topic = some e' :=
      resolveEntry_eq_some_of_not_outranks he'
        (TopicFilter.matches_of_raw_eq_append hraw hm) hnone
    exact h e' hwin e he hm (TopicFilter.topics_ssubset_of_raw_eq_append hraw hm)
  · intro h w hw e he hm hsub
    have hnot := not_outranks_of_resolveEntry hw he hm
    have hd : startsWithDollar e.filter.raw = false :=
      TopicFilter.language_nonempty_iff.mp
        ⟨levels topic, (levels_mem_words_iff topic).mpr (TopicFilter.matches_iff.mp hm).1,
          (TopicFilter.matches_iff.mp hm).2⟩
    -- `e` matches fewer topics than the selected entry and does not outrank it
    have hraw : w.filter.raw = e.filter.raw ++ "/#" := by
      by_contra hraw
      refine hnot (Pattern.cmp_eq_gt_iff.mp ?_)
      rw [← TopicFilter.cmp_eq]
      exact (TopicFilter.cmp_eq_gt_iff_of_topics_ssubset hsub).mpr ⟨hraw, by simp [hd]⟩
    obtain ⟨e'', he'', hm'', hout⟩ := h e he w (mem_of_resolveEntry hw).1 hm hraw
    exact not_outranks_of_resolveEntry hw he'' hm'' hout

/-- A filter without wildcards that is the topic itself is the only one that can win, unless it is
also registered with `/#` appended. -/
theorem exact_wins_iff (he : e ∈ registry.entries) (hfree : e.filter.WildcardFree)
    (hraw : e.filter.raw = topic) :
    (∀ w, registry.resolveEntry topic = some w → w = e) ↔
      startsWithDollar topic = true ∨ ∀ e' ∈ registry.entries, e'.filter.raw ≠ topic ++ "/#" := by
  constructor
  · intro h
    by_contra hcon
    push Not at hcon
    obtain ⟨hd, e', he', hraw'⟩ := hcon
    have hm : e.filter.matches topic = true :=
      hfree.matches_iff.mpr ⟨by simpa using hd, hraw.symm⟩
    rw [← hraw] at hraw'
    -- the filter with `/#` appended matches too, and compares greater
    have hm' := TopicFilter.matches_of_raw_eq_append hraw' hm
    obtain ⟨w, hw⟩ := Option.isSome_iff_exists.mp
      ((Option.isSome_map ..).symm.trans (resolve_isSome_iff.mpr ⟨e, he, hm⟩))
    obtain rfl := h w hw
    refine not_outranks_of_resolveEntry hw he' hm' (Pattern.cmp_eq_gt_iff.mp ?_)
    rw [← TopicFilter.cmp_eq, Std.OrientedCmp.gt_iff_lt]
    exact TopicFilter.cmp_eq_lt_of_raw_eq_append hraw'
  · rintro (hd | hno) w hw
    · -- nothing is selected for such a topic
      obtain ⟨-, hm⟩ := mem_of_resolveEntry hw
      rw [TopicFilter.matches_iff, hd] at hm
      cases hm.1
    · obtain ⟨hwmem, hm⟩ := mem_of_resolveEntry hw
      have hme : e.filter.matches topic = true :=
        hfree.matches_iff.mpr ⟨(TopicFilter.matches_iff.mp hm).1, hraw.symm⟩
      rcases hfree.cmp_cases hme hm with heq | hgt | hrest
      · exact eq_of_raw_eq hwmem he (congrArg TopicFilter.raw heq.symm)
      · rw [TopicFilter.cmp_eq, Pattern.cmp_eq_gt_iff] at hgt
        exact absurd hgt (not_outranks_of_resolveEntry hw he hme)
      · exact absurd (hraw ▸ hrest) (hno w hwmem)

/-- When the filter that matches fewer topics prevails: for two filters, for a registry and a topic,
and for a filter without wildcards that is the topic itself. -/
theorem precedence_iff (f g : TopicFilter) (registry : DecoderRegistry) (topic : String) :
    (f.topics ⊂ g.topics →
      (f.cmp g = .gt ↔
        g.raw ≠ f.raw ++ "/#" ∧
          (startsWithDollar f.raw = true → Pattern.Outranks f.pattern g.pattern))) ∧
    (registry.MostSpecificWins topic ↔
      ∀ e ∈ registry.entries, ∀ e' ∈ registry.entries, e.filter.matches topic = true →
        e'.filter.raw = e.filter.raw ++ "/#" →
        ∃ e'' ∈ registry.entries, e''.filter.matches topic = true ∧
          Pattern.Outranks e''.filter.pattern e'.filter.pattern) ∧
    ∀ e ∈ registry.entries, e.filter.WildcardFree → e.filter.raw = topic →
      ((∀ w, registry.resolveEntry topic = some w → w = e) ↔
        startsWithDollar topic = true ∨
          ∀ e' ∈ registry.entries, e'.filter.raw ≠ topic ++ "/#") :=
  ⟨TopicFilter.cmp_eq_gt_iff_of_topics_ssubset, mostSpecificWins_iff,
    fun _ he hfree hraw => exact_wins_iff he hfree hraw⟩

/-- A registry with the filters `sensors/a` and `sensors/#`. -/
def sensorRegistry : DecoderRegistry where
  entries := [⟨⟨"sensors/a", [2, 2], rfl⟩, ⟨Utf8Decoder.decode⟩⟩,
    ⟨⟨"sensors/#", [2, 0], rfl⟩, ⟨HexDumpDecoder.decode⟩⟩]
  nodup := by decide

theorem sensorRegistry_builtin : sensorRegistry.Builtin Unit Unit := by
  intro e he
  simp only [sensorRegistry, List.mem_cons, List.not_mem_nil, or_false] at he
  rcases he with rfl | rfl
  · exact ⟨.utf8, rfl⟩
  · exact ⟨.hexdump, rfl⟩

theorem precedence_iff_sensor :
    TopicFilter.cmp ⟨"sensors/a", [2, 2], rfl⟩ ⟨"sensors/#", [2, 0], rfl⟩ = .gt ∧
      sensorRegistry.MostSpecificWins "sensors/a" ∧
      (sensorRegistry.resolveEntry "sensors/a").all (·.filter.raw = "sensors/a") = true := by
  obtain ⟨hcmp, hwins, hexact⟩ := precedence_iff ⟨"sensors/a", [2, 2], rfl⟩
    ⟨"sensors/#", [2, 0], rfl⟩ sensorRegistry "sensors/a"
  have hfree : TopicFilter.WildcardFree ⟨"sensors/a", [2, 2], rfl⟩ := by
    unfold TopicFilter.WildcardFree; decide
  have hno : ∀ e ∈ sensorRegistry.entries, ∀ e' ∈ sensorRegistry.entries,
      e'.filter.raw ≠ e.filter.raw ++ "/#" := by
    simp only [sensorRegistry, List.forall_mem_cons]; decide
  refine ⟨(hcmp ⟨?_, ?_⟩).mpr ⟨by decide, fun h => absurd h (by decide)⟩,
    hwins.mpr fun e he e' he' _ hraw => absurd hraw (hno e he e' he'),
    (Option.all_eq_true _ _).mpr fun w hw => ?_⟩
  · intro t ht
    obtain ⟨-, rfl⟩ := hfree.matches_iff.mp ht
    exact (by decide : TopicFilter.matches ⟨"sensors/#", [2, 0], rfl⟩ "sensors/a" = true)
  · intro hsub
    have hm : TopicFilter.matches ⟨"sensors/a", [2, 2], rfl⟩ "sensors" = true :=
      hsub (by decide : TopicFilter.matches ⟨"sensors/#", [2, 0], rfl⟩ "sensors" = true)
    exact absurd hm (by decide)
  · have he : ⟨⟨"sensors/a", [2, 2], rfl⟩, ⟨Utf8Decoder.decode⟩⟩ ∈ sensorRegistry.entries :=
      List.mem_cons_self
    rw [(hexact _ he hfree rfl).mpr (Or.inr fun e' he' => hno _ he e' he') w hw]
    rfl

/-- A registry with the filters `sensors` and `sensors/#`. -/
def sensorsRegistry : DecoderRegistry where
  entries := [⟨⟨"sensors", [2], rfl⟩, ⟨Utf8Decoder.decode⟩⟩,
    ⟨⟨"sensors/#", [2, 0], rfl⟩, ⟨HexDumpDecoder.decode⟩⟩]
  nodup := by decide

/-- `sensors` matches strictly fewer topics than `sensors/#` and compares less, and the registry
selects the decoder of `sensors/#` for the topic `sensors`. -/
theorem exact_filter_loses_to_hash :
    TopicFilter.topics ⟨"sensors", [2], rfl⟩ ⊂ TopicFilter.topics ⟨"sensors/#", [2, 0], rfl⟩ ∧
      TopicFilter.cmp ⟨"sensors", [2], rfl⟩ ⟨"sensors/#", [2, 0], rfl⟩ = .lt ∧
      sensorsRegistry.resolve "sensors" = some ⟨HexDumpDecoder.decode⟩ ∧
      ¬ sensorsRegistry.MostSpecificWins "sensors" := by
  have hsub : TopicFilter.topics ⟨"sensors", [2], rfl⟩ ⊂
      TopicFilter.topics ⟨"sensors/#", [2, 0], rfl⟩ :=
    TopicFilter.topics_ssubset_of_raw_eq_append rfl
      (by decide : TopicFilter.matches ⟨"sensors", [2], rfl⟩ "sensors" = true)
  refine ⟨hsub, by decide, rfl, fun h => ?_⟩
  exact h ⟨⟨"sensors/#", [2, 0], rfl⟩, ⟨HexDumpDecoder.decode⟩⟩ rfl
    ⟨⟨"sensors", [2], rfl⟩, ⟨Utf8Decoder.decode⟩⟩ List.mem_cons_self (by decide) hsub

end DecoderRegistry

end RosettaMq
