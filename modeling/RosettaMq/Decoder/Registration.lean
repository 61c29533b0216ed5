import Mathlib.Data.List.Induction
import RosettaMq.Decoder.Registry

/-!
# Any order of registration

Calls of `DecoderRegistryBuilder::register` one after the other, some of which may fail, and the
registry built afterwards. A topic is routed by the set of entries alone: the matching filter that
is strictly greatest decides, wherever it stands (`DecoderRegistry.routing_of_mappings`).
-/

namespace RosettaMq

namespace DecoderRegistryBuilder

variable {b b' : DecoderRegistryBuilder} {filter : TopicFilter} {decoder : ErasedDecoder}
  {calls calls' : List (TopicFilter × ErasedDecoder)}

/-- Registration fails exactly on a text that is registered already. -/
theorem register_eq_error_iff {e : RegistryError} :
    b.register filter decoder = .error e ↔
      e = .duplicateFilter filter.raw ∧ ∃ entry ∈ b.entries, entry.filter.raw = filter.raw := by
  rw [register]
  split
  · rename_i hany
    obtain ⟨entry, hentry, heq⟩ := List.any_eq_true.mp hany
    constructor
    · intro h
      exact ⟨(Except.error.inj h).symm, entry, hentry, by simpa using heq⟩
    · rintro ⟨rfl, -⟩
      rfl
  · rename_i hany
    constructor
    · intro h
      cases h
    · rintro ⟨-, entry, hentry, heq⟩
      exact absurd (List.any_eq_true.mpr ⟨entry, hentry, by simpa using heq⟩) hany

/-- The builder after a call of `register`, which leaves it as it was when it fails. -/
def registerCall (self : DecoderRegistryBuilder) (call : TopicFilter × ErasedDecoder) :
    DecoderRegistryBuilder :=
  match self.register call.1 call.2 with
  | .ok b => b
  | .error _ => self

/-- A call on a registered text changes nothing, any other appends its entry. -/
theorem registerCall_cases (b : DecoderRegistryBuilder) (call : TopicFilter × ErasedDecoder) :
    ((∃ e ∈ b.entries, e.filter.raw = call.1.raw) ∧ b.registerCall call = b) ∨
      ((¬ ∃ e ∈ b.entries, e.filter.raw = call.1.raw) ∧
        (b.registerCall call).entries = b.entries ++ [⟨call.1, call.2⟩]) := by
  cases h : b.register call.1 call.2 with
  | error e =>
    have hcall : b.registerCall call = b := by rw [registerCall, h]
    exact Or.inl ⟨(register_eq_error_iff.mp h).2, hcall⟩
  | ok b' =>
    have hcall : b.registerCall call = b' := by rw [registerCall, h]
    refine Or.inr ⟨fun hdup => ?_, by rw [hcall, register_eq_ok h]⟩
    rw [register_eq_error_iff.mpr ⟨rfl, hdup⟩] at h
    cases h

/-- A new builder after these calls of `register`, in order. -/
def registerAll (calls : List (TopicFilter × ErasedDecoder)) : DecoderRegistryBuilder :=
  calls.foldl registerCall new

theorem registerAll_concat (calls : List (TopicFilter × ErasedDecoder))
    (call : TopicFilter × ErasedDecoder) :
    registerAll (calls ++ [call]) = (registerAll calls).registerCall call := by
  simp [registerAll]

/-- What is registered was asked for, in this order. -/
theorem entries_registerAll_sublist (calls : List (TopicFilter × ErasedDecoder)) :
    ((registerAll calls).entries.map fun e => (e.filter, e.decoder)).Sublist calls := by
  induction calls using List.reverseRecOn with
  | nil => exact .slnil
  | append_singleton calls call ih =>
    rw [registerAll_concat]
    rcases registerCall_cases (registerAll calls) call with ⟨-, heq⟩ | ⟨-, heq⟩
    · rw [heq]
      exact ih.trans (List.sublist_append_left _ _)
    · rw [heq, List.map_append]
      exact ih.append (.refl _)

/-- Every filter that was asked for is registered. -/
theorem exists_entry_of_mem_calls {call : TopicFilter × ErasedDecoder} (h : call ∈ calls) :
    ∃ e ∈ (registerAll calls).entries, e.filter = call.1 := by
  induction calls using List.reverseRecOn with
  | nil => cases h
  | append_singleton calls last ih =>
    rw [registerAll_concat]
    rcases registerCall_cases (registerAll calls) last with ⟨⟨e, he, hraw⟩, heq⟩ | ⟨-, heq⟩
    · rw [heq]
      rcases List.mem_append.mp h with h | h
      · exact ih h
      · -- the last call fails on the entry of its own filter
        obtain rfl := List.mem_singleton.mp h
        exact ⟨e, he, TopicFilter.ext_raw hraw⟩
    · rw [heq]
      rcases List.mem_append.mp h with h | h
      · obtain ⟨e, he, hfilter⟩ := ih h
        exact ⟨e, List.mem_append_left _ he, hfilter⟩
      · obtain rfl := List.mem_singleton.mp h
        exact ⟨_, List.mem_append_right _ (List.mem_singleton_self _), rfl⟩

/-- The registered filters are those that were asked for. -/
theorem exists_entry_iff :
    (∃ e ∈ (registerAll calls).entries, e.filter = filter) ↔ filter ∈ calls.map (·.1) := by
  constructor
  · rintro ⟨e, he, rfl⟩
    have hmem := (entries_registerAll_sublist calls).subset (List.mem_map_of_mem he)
    exact List.mem_map_of_mem hmem
  · intro h
    obtain ⟨call, hcall, rfl⟩ := List.mem_map.mp h
    exact exists_entry_of_mem_calls hcall

/-- Calls with distinct texts all succeed. -/
theorem entries_registerAll_of_nodup (h : (calls.map (·.1.raw)).Nodup) :
    (registerAll calls).entries = calls.map fun call => ⟨call.1, call.2⟩ := by
  induction calls using List.reverseRecOn with
  | nil => rfl
  | append_singleton calls call ih =>
    rw [List.map_append, List.nodup_append] at h
    obtain ⟨hnodup, -, hdisjoint⟩ := h
    rw [registerAll_concat]
    rcases registerCall_cases (registerAll calls) call with ⟨⟨e, he, hraw⟩, -⟩ | ⟨-, heq⟩
    · -- the text would be that of an earlier call
      rw [ih hnodup] at he
      obtain ⟨call', hcall', rfl⟩ := List.mem_map.mp he
      exact absurd hraw (hdisjoint _ (List.mem_map_of_mem hcall') _ (by simp))
    · rw [heq, ih hnodup, List.map_append]
      rfl

end DecoderRegistryBuilder

namespace DecoderRegistry

open DecoderRegistryBuilder

variable {registry registry' : DecoderRegistry} {topic : String}

theorem resolve_eq_none_iff :
    registry.resolve topic = none ↔ ∀ e ∈ registry.entries, e.filter.matches topic = false := by
  rw [resolve, Option.map_eq_none_iff, resolveEntry_eq_none_iff]

/-- A topic is routed to the decoder of the strictly greatest matching filter. -/
theorem resolve_eq_some_iff {decoder : ErasedDecoder} :
    registry.resolve topic = some decoder ↔
      ∃ e ∈ registry.entries, e.decoder = decoder ∧ e.filter.matches topic = true ∧
        ∀ e' ∈ registry.entries, e'.filter.matches topic = true → e' ≠ e →
          e'.filter.cmp e.filter = .lt := by
  simp only [resolve, Option.map_eq_some_iff, resolveEntry_eq_some_iff]
  constructor
  · rintro ⟨e, ⟨he, hm, hlt⟩, hd⟩
    exact ⟨e, he, hd, hm, hlt⟩
  · rintro ⟨e, he, hd, hm, hlt⟩
    exact ⟨e, ⟨he, hm, hlt⟩, hd⟩

/-- Registries with the same entries route alike. -/
theorem resolve_congr (h : ∀ e, e ∈ registry.entries ↔ e ∈ registry'.entries) (topic : String) :
    registry.resolve topic = registry'.resolve topic := by
  ext decoder
  simp only [resolve_eq_some_iff, h]

/-- Routing by any sequence of calls of `register`. Filters that match a topic compare equal only
if they have the same text. A call fails exactly on a registered text, and the builder keeps
distinct texts. A topic has a decoder exactly when a registered filter matches it, that of the one
strictly greatest among these. Sequences that register the same entries route alike, so do the
permutations of a sequence of distinct filters, all of which are registered. -/
theorem routing_of_mappings (calls : List (TopicFilter × ErasedDecoder)) (topic : String) :
    (∀ raw raw' f g, TopicFilter.parse raw = .ok f → TopicFilter.parse raw' = .ok g →
      f.matches topic = true → g.matches topic = true → (f.cmp g = .eq ↔ f.raw = g.raw)) ∧
    (∀ filter decoder, filter.raw ∈ (registerAll calls).entries.map (·.filter.raw) →
      (registerAll calls).register filter decoder = .error (.duplicateFilter filter.raw) ∧
        registerAll (calls ++ [(filter, decoder)]) = registerAll calls) ∧
    (∀ filter decoder, filter.raw ∉ (registerAll calls).entries.map (·.filter.raw) →
      ∃ b, (registerAll calls).register filter decoder = .ok b ∧
        registerAll (calls ++ [(filter, decoder)]) = b ∧
        b.entries = (registerAll calls).entries ++ [⟨filter, decoder⟩]) ∧
    ((registerAll calls).entries.map (·.filter.raw)).Nodup ∧
    (∀ filter, (∃ e ∈ (registerAll calls).entries, e.filter = filter) ↔
      filter ∈ calls.map (·.1)) ∧
    ((registerAll calls).build.resolve topic = none ↔
      ∀ e ∈ (registerAll calls).entries, e.filter.matches topic = false) ∧
    (∀ decoder, (registerAll calls).build.resolve topic = some decoder ↔
      ∃ e ∈ (registerAll calls).entries, e.decoder = decoder ∧ e.filter.matches topic = true ∧
        ∀ e' ∈ (registerAll calls).entries, e'.filter.matches topic = true → e' ≠ e →
          e'.filter.cmp e.filter = .lt) ∧
    (∀ calls', (∀ e, e ∈ (registerAll calls).entries ↔ e ∈ (registerAll calls').entries) →
      (registerAll calls).build.resolve topic = (registerAll calls').build.resolve topic) ∧
    (∀ calls', (calls.map (·.1.raw)).Nodup → calls.Perm calls' →
      (registerAll calls).entries = calls.map (fun call => ⟨call.1, call.2⟩) ∧
        (registerAll calls').entries = calls'.map (fun call => ⟨call.1, call.2⟩) ∧
        (registerAll calls).build.resolve topic = (registerAll calls').build.resolve topic) := by
  have hmem : ∀ filter : TopicFilter, filter.raw ∈ (registerAll calls).entries.map (·.filter.raw) ↔
      ∃ e ∈ (registerAll calls).entries, e.filter.raw = filter.raw := fun _ => List.mem_map
  refine ⟨fun raw raw' f g _ _ hf hg => ⟨TopicFilter.raw_eq_of_cmp_eq hf hg, fun h => ?_⟩,
    fun filter decoder hin => ?_, fun filter decoder hin => ?_, (registerAll calls).nodup,
    fun filter => exists_entry_iff, resolve_eq_none_iff, fun decoder => resolve_eq_some_iff,
    fun calls' h => resolve_congr h topic, fun calls' hnodup hperm => ?_⟩
  · rw [TopicFilter.ext_raw h]
    exact Std.ReflCmp.compare_self
  · -- the text is registered, so the builder stays as it was
    rw [hmem] at hin
    refine ⟨register_eq_error_iff.mpr ⟨rfl, hin⟩, ?_⟩
    rw [registerAll_concat]
    rcases registerCall_cases (registerAll calls) (filter, decoder) with ⟨-, heq⟩ | ⟨hnot, -⟩
    · exact heq
    · exact absurd hin hnot
  · cases h : (registerAll calls).register filter decoder with
    | error e => exact absurd ((hmem filter).mpr (register_eq_error_iff.mp h).2) hin
    | ok b => exact ⟨b, rfl, by rw [registerAll_concat, registerCall, h], register_eq_ok h⟩
  · have hnodup' : (calls'.map (·.1.raw)).Nodup := (hperm.map _).nodup_iff.mp hnodup
    have hentries := entries_registerAll_of_nodup hnodup
    have hentries' := entries_registerAll_of_nodup hnodup'
    refine ⟨hentries, hentries', resolve_congr (fun e => ?_) topic⟩
    show e ∈ (registerAll calls).entries ↔ e ∈ (registerAll calls').entries
    rw [hentries, hentries']
    exact (hperm.map _).mem_iff

/-- A filter with a wildcard and one without, which match a common topic. -/
def overlapping : List (TopicFilter × ErasedDecoder) :=
  [(⟨"machine/+", [2, 1], rfl⟩, ⟨fun _ => ⟨[], .ok⟩⟩),
    (⟨"machine/raw", [2, 2], rfl⟩, ⟨fun _ => ⟨[], .err "unknown"⟩⟩)]

theorem routing_of_mappings_overlapping :
    (registerAll overlapping).build.resolve "machine/raw" =
      (registerAll overlapping.reverse).build.resolve "machine/raw" := by
  obtain ⟨-, -, -, -, -, -, -, -, hperm⟩ := routing_of_mappings overlapping "machine/raw"
  exact (hperm overlapping.reverse (by decide) (List.reverse_perm _).symm).2.2

end DecoderRegistry

end RosettaMq
