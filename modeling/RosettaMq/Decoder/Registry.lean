import Mathlib.Data.List.Nodup
import RosettaMq.ToMathlib.LastMax
import RosettaMq.Topic.Pattern
import RosettaMq.Decoder.Defs

/-!
# The decoder registry

`DecoderRegistryBuilder` and `DecoderRegistry` of `src/decoder/registry.rs`. Registration rejects a
filter text that is already there, so both types carry the fact that their texts are distinct.
-/

namespace RosettaMq

/-- `RegistryError`. -/
inductive RegistryError where
  | duplicateFilter (filter : String)
  deriving DecidableEq, Repr

/-- `RegistryEntry`. -/
structure RegistryEntry where
  filter : TopicFilter
  decoder : ErasedDecoder

/-- `DecoderRegistryBuilder`: entries whose filter texts are pairwise distinct. -/
structure DecoderRegistryBuilder where
  entries : List RegistryEntry
  nodup : (entries.map (·.filter.raw)).Nodup

/-- `DecoderRegistry`: entries whose filter texts are pairwise distinct. -/
structure DecoderRegistry where
  entries : List RegistryEntry
  nodup : (entries.map (·.filter.raw)).Nodup

namespace DecoderRegistryBuilder

/-- `DecoderRegistryBuilder::new`. -/
def new : DecoderRegistryBuilder := ⟨[], List.nodup_nil⟩

/-- `DecoderRegistryBuilder::register`: append the entry unless its text is already registered. -/
def register (self : DecoderRegistryBuilder) (filter : TopicFilter) (decoder : ErasedDecoder) :
    Except RegistryError DecoderRegistryBuilder :=
  -- compared by text only: `a/+` and `a/b` may both be registered
  if h : self.entries.any (fun e => e.filter.raw == filter.raw) then
    .error (.duplicateFilter filter.raw)
  else
    .ok
      { entries := self.entries ++ [⟨filter, decoder⟩]
        nodup := by
          rw [List.map_append, List.nodup_append]
          refine ⟨self.nodup, List.nodup_singleton _, ?_⟩
          intro raw hraw _ hnew
          obtain ⟨e, he, rfl⟩ := List.mem_map.mp hraw
          rw [List.map_singleton, List.mem_singleton] at hnew
          rw [hnew]
          intro heq
          exact h (List.any_eq_true.mpr ⟨e, he, by simpa using heq⟩) }

/-- `DecoderRegistryBuilder::build`. -/
def build (self : DecoderRegistryBuilder) : DecoderRegistry := ⟨self.entries, self.nodup⟩

/-- A successful registration appends its entry. -/
theorem register_eq_ok {b b' : DecoderRegistryBuilder} {filter : TopicFilter}
    {decoder : ErasedDecoder} (h : b.register filter decoder = .ok b') :
    b'.entries = b.entries ++ [⟨filter, decoder⟩] := by
  unfold register at h
  split at h
  · cases h
  · cases h; rfl

end DecoderRegistryBuilder

namespace DecoderRegistry

/-- The entry `resolve` selects: the last one of greatest filter among those that match. -/
def resolveEntry (self : DecoderRegistry) (topic : String) : Option RegistryEntry :=
  (self.entries.filter fun e => e.filter.matches topic).lastMaxOn? (·.filter)

/-- `DecoderRegistry::resolve`. -/
def resolve (self : DecoderRegistry) (topic : String) : Option ErasedDecoder :=
  (self.resolveEntry topic).map (·.decoder)

variable {registry : DecoderRegistry} {topic : String} {e e' : RegistryEntry}

/-- Entries with the same filter text are the same entry. -/
theorem eq_of_raw_eq (he : e ∈ registry.entries) (he' : e' ∈ registry.entries)
    (h : e.filter.raw = e'.filter.raw) : e = e' :=
  List.inj_on_of_nodup_map registry.nodup he he' h

theorem resolveEntry_eq_none_iff :
    registry.resolveEntry topic = none ↔
      ∀ e ∈ registry.entries, e.filter.matches topic = false := by
  rw [resolveEntry, List.lastMaxOn?_eq_none, List.filter_eq_nil_iff]
  simp

/-- The selected entry is registered and matches. -/
theorem mem_of_resolveEntry (h : registry.resolveEntry topic = some e) :
    e ∈ registry.entries ∧ e.filter.matches topic = true :=
  List.mem_filter.mp (List.lastMaxOn?_mem h)

/-- No other matching entry has a filter that compares greater or equal to the selected one. -/
theorem cmp_lt_of_resolveEntry (h : registry.resolveEntry topic = some e)
    (he' : e' ∈ registry.entries) (hm : e'.filter.matches topic = true) (hne : e' ≠ e) :
    e'.filter.cmp e.filter = .lt := by
  obtain ⟨he, hme⟩ := mem_of_resolveEntry h
  have hle : (e'.filter.cmp e.filter).isLE :=
    List.isLE_of_lastMaxOn? h e' (List.mem_filter.mpr ⟨he', hm⟩)
  cases hcmp : e'.filter.cmp e.filter with
  | lt => rfl
  | eq =>
    -- two matching filters that compare equal have the same text, and texts are distinct
    exact absurd (eq_of_raw_eq he' he (TopicFilter.raw_eq_of_cmp_eq hm hme hcmp)) hne
  | gt => rw [hcmp] at hle; cases hle

/-- The selected entry is the one matching entry whose filter is strictly greatest. -/
theorem resolveEntry_eq_some_iff :
    registry.resolveEntry topic = some e ↔
      e ∈ registry.entries ∧ e.filter.matches topic = true ∧
        ∀ e' ∈ registry.entries, e'.filter.matches topic = true → e' ≠ e →
          e'.filter.cmp e.filter = .lt := by
  constructor
  · intro h
    obtain ⟨he, hm⟩ := mem_of_resolveEntry h
    exact ⟨he, hm, fun e' he' hm' hne => cmp_lt_of_resolveEntry h he' hm' hne⟩
  · rintro ⟨he, hm, hlt⟩
    refine List.lastMaxOn?_eq_some_of_lt (List.mem_filter.mpr ⟨he, hm⟩) fun e' he' hne => ?_
    obtain ⟨he', hm'⟩ := List.mem_filter.mp he'
    exact hlt e' he' hm' hne

theorem resolve_isSome_iff :
    (registry.resolve topic).isSome = true ↔
      ∃ e ∈ registry.entries, e.filter.matches topic = true := by
  rw [resolve, Option.isSome_map, Option.isSome_iff_ne_none, ne_eq, resolveEntry_eq_none_iff]
  simp

end DecoderRegistry

end RosettaMq
