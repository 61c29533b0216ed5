import Mathlib.Data.Set.Image
import RosettaMq.ToMathlib.Wildcard
import RosettaMq.Topic.Defs

/-!
# Topic filters as wildcard patterns

The abstract reading of a parsed filter: a well-formed `Wildcard.Pattern` over topic levels.

* `TopicFilter.specificity_eq_ranks`, `TopicFilter.cmp_eq`: the specificity vector and the order
  of the code are the ranks and the comparison of the pattern.
* `TopicFilter.matches_iff`: the code's matcher is the pattern's, except that it rejects every
  topic that starts with `$`.
* `TopicFilter.topics_ssubset_iff`: inclusion of matched topics is inclusion of languages.
-/

open Wildcard

namespace RosettaMq

/-- The pattern position a filter segment stands for. -/
def token (part : String) : Token String :=
  if part = "#" then .rest else if part = "+" then .one else .lit part

@[simp] theorem token_hash : token "#" = .rest := rfl

@[simp] theorem token_plus : token "+" = .one := rfl

/-- Every other segment is a literal. -/
theorem token_of_ne {part : String} (hhash : part ≠ "#") (hplus : part ≠ "+") :
    token part = .lit part := by
  rw [token, if_neg hhash, if_neg hplus]

theorem token_injective : Function.Injective token := by
  intro a b h
  unfold token at h
  split_ifs at h <;> simp_all

/-- The pattern of a filter: one position a segment. -/
def TopicFilter.pattern (f : TopicFilter) : Pattern String := (levels f.raw).map token

/-! ## Parsing -/

/-- A ranked segment has the rank of its position, and is a `#` only at the last index. -/
theorem rankSegment_eq_ok {raw part : String} {last i r : ℕ}
    (h : rankSegment raw last i part = .ok r) :
    r = (token part).rank ∧ (part = "#" → i = last) := by
  unfold rankSegment at h
  split_ifs at h with h₁ h₂ h₃ h₄
  · cases h
    exact ⟨by rw [h₁]; rfl, fun _ => h₂⟩
  · cases h
    exact ⟨by rw [h₃]; rfl, fun hh => absurd hh h₁⟩
  · cases h
    exact ⟨by simp [token, h₁, h₃, Token.rank], fun hh => absurd hh h₁⟩

/-- The loop returns the ranks of the segments, and only if `#` is the last one at most. -/
theorem rankSegments_eq_ok {raw : String} {last : ℕ} :
    ∀ {i : ℕ} {parts : List String} {ranks : List ℕ},
      rankSegments raw last i parts = .ok ranks → i + parts.length = last + 1 →
      ranks = Pattern.ranks (parts.map token) ∧ Pattern.WellFormed (parts.map token)
  | _, [], ranks, h, _ => by
      cases h
      exact ⟨rfl, trivial⟩
  | i, part :: parts, ranks, h, hlen => by
      unfold rankSegments at h
      split at h
      · cases h
      · rename_i r hr
        split at h
        · cases h
        · rename_i rs hrs
          cases h
          obtain ⟨hrank, hlast⟩ := rankSegment_eq_ok hr
          obtain ⟨hranks, hwf⟩ := rankSegments_eq_ok hrs (by simp at hlen; omega)
          refine ⟨by rw [List.map_cons, Pattern.ranks_cons, hrank, hranks], ?_⟩
          rw [List.map_cons]
          by_cases hhash : part = "#"
          · -- the index of a `#` is the last one, so nothing follows it
            have hnil : parts = [] := by
              rw [← List.length_eq_zero_iff]
              have := hlast hhash
              simp at hlen
              omega
            rw [hhash, hnil]
            rfl
          · by_cases hplus : part = "+"
            · rw [hplus]; exact hwf
            · rw [token_of_ne hhash hplus]; exact hwf

theorem specificityOf_eq_ok {raw : String} {ranks : List ℕ} (h : specificityOf raw = .ok ranks) :
    ranks = Pattern.ranks ((levels raw).map token) ∧
      Pattern.WellFormed ((levels raw).map token) := by
  unfold specificityOf at h
  split_ifs at h
  have hpos : 0 < (levels raw).length := List.length_pos_of_ne_nil (String.splitChar_ne_nil _ _)
  exact rankSegments_eq_ok h (by omega)

namespace TopicFilter

theorem specificity_eq_ranks (f : TopicFilter) : f.specificity = f.pattern.ranks :=
  (specificityOf_eq_ok f.parsed).1

theorem pattern_wellFormed (f : TopicFilter) : f.pattern.WellFormed :=
  (specificityOf_eq_ok f.parsed).2

theorem cmp_eq (f g : TopicFilter) : f.cmp g = f.pattern.cmp g.pattern := by
  rw [cmp, Pattern.cmp, specificity_eq_ranks, specificity_eq_ranks]

/-- Filters with the same pattern have the same text. -/
theorem raw_eq_of_pattern_eq {f g : TopicFilter} (h : f.pattern = g.pattern) : f.raw = g.raw :=
  String.splitChar_injective '/' (token_injective.list_map h)

/-- One pattern is another followed by `rest` exactly when `/#` is appended to the text. -/
theorem pattern_eq_append_rest_iff {f g : TopicFilter} :
    g.pattern = f.pattern ++ [.rest] ↔ g.raw = f.raw ++ "/#" := by
  have hsplit : levels (f.raw ++ "/#") = levels f.raw ++ ["#"] := by
    have hash : levels "#" = ["#"] := String.splitChar_eq_singleton (by decide)
    rw [← hash, ← String.splitChar_append, String.append_assoc]
    rfl
  have hpat : (levels (f.raw ++ "/#")).map token = f.pattern ++ [.rest] := by
    rw [hsplit, List.map_append]
    rfl
  rw [← hpat, pattern]
  exact ⟨fun h => String.splitChar_injective '/' (token_injective.list_map h), fun h => by rw [h]⟩

/-- The letters of a pattern are levels, hence free of `/`. -/
theorem not_mem_of_lit_mem_pattern {f : TopicFilter} {a : String} (h : .lit a ∈ f.pattern) :
    '/' ∉ a.toList := by
  obtain ⟨s, hs, hlit⟩ := List.mem_map.mp h
  unfold token at hlit
  split_ifs at hlit
  rw [← Token.lit.inj hlit]
  exact String.not_mem_of_mem_splitChar hs

end TopicFilter

/-! ## Matching -/

/-- On a well-formed pattern the walk is the pattern's matching relation. -/
theorem walk_eq_true_iff : ∀ (fs ts : List String), Pattern.WellFormed (fs.map token) →
    (mqttbytes.walk fs ts = true ↔ Pattern.Matches (fs.map token) ts)
  | [], ts, _ => by simp [mqttbytes.walk]
  | f :: fs, ts, hwf => by
      by_cases hhash : f = "#"
      · subst hhash
        have hnil : fs.map token = [] := hwf
        simp [mqttbytes.walk, hnil]
      by_cases hplus : f = "+"
      · subst hplus
        have hwf' : Pattern.WellFormed (fs.map token) := hwf
        cases ts with
        | nil => simp [mqttbytes.walk]
        | cons t ts => simpa [mqttbytes.walk] using walk_eq_true_iff fs ts hwf'
      · rw [List.map_cons, token_of_ne hhash hplus] at hwf ⊢
        have hwf' : Pattern.WellFormed (fs.map token) := hwf
        cases ts with
        | nil => simp [mqttbytes.walk, hhash]
        | cons t ts =>
          have ih := walk_eq_true_iff fs ts hwf'
          simp [mqttbytes.walk, hhash, hplus, ih, @eq_comm _ f t]

/-- Levels: strings without `/`. -/
def slashFree : Set String := {s | '/' ∉ s.toList}

/-- Levels that a topic accepted by the matcher can start with. -/
def undollared : Set String := {s | '/' ∉ s.toList ∧ startsWithDollar s = false}

theorem undollared_subset : undollared ⊆ slashFree := fun _ h => h.1

theorem undollared_nontrivial : undollared.Nontrivial :=
  ⟨"a", ⟨by decide, by decide⟩, "b", ⟨by decide, by decide⟩, by decide⟩

/-- A topic starts with `$` exactly when its first level does. -/
theorem startsWithDollar_eq_of_levels {t w : String} {ws : List String} (h : levels t = w :: ws) :
    startsWithDollar t = startsWithDollar w := by
  rw [Bool.eq_iff_iff]
  simpa [startsWithDollar] using String.head?_of_splitChar_eq_cons (by decide) h

/-- The levels of a topic form a word exactly when it does not start with `$`. -/
theorem levels_mem_words_iff (t : String) :
    levels t ∈ Pattern.Words undollared slashFree ↔ startsWithDollar t = false := by
  obtain ⟨w, ws, h⟩ := List.exists_cons_of_ne_nil (String.splitChar_ne_nil '/' t)
  have hfree : ∀ s ∈ w :: ws, '/' ∉ s.toList := fun s hs =>
    String.not_mem_of_mem_splitChar (h ▸ hs)
  rw [startsWithDollar_eq_of_levels h, show levels t = w :: ws from h, Pattern.cons_mem_words]
  -- that the levels contain no `/` is always so
  constructor
  · exact fun hw => hw.1.2
  · exact fun hd => ⟨⟨hfree w (by simp), hd⟩, fun s hs => hfree s (by simp [hs])⟩

/-- Every word is the list of levels of a topic. -/
theorem words_subset_range_levels :
    Pattern.Words undollared slashFree ⊆ Set.range levels := by
  rintro _ ⟨a, v, rfl, ha, hv⟩
  refine ⟨String.joinChar '/' (a :: v), String.splitChar_joinChar (by simp) ?_⟩
  intro w hw
  rcases List.mem_cons.mp hw with rfl | hw
  · exact ha.1
  · exact hv w hw

namespace TopicFilter

/-- The code's matcher: the topic does not start with `$`, and the pattern matches its levels. -/
theorem matches_iff {f : TopicFilter} {t : String} :
    f.matches t = true ↔ startsWithDollar t = false ∧ Pattern.Matches f.pattern (levels t) := by
  have hwalk := walk_eq_true_iff (levels f.raw) (levels t) f.pattern_wellFormed
  unfold TopicFilter.matches mqttbytes.matches
  cases startsWithDollar t
  · rw [pattern, ← hwalk]
    simp
  · simp

/-- The matching rules of MQTT 3.1.1, section 4.7: level by level, and a topic that starts with `$`
is not matched by a filter whose first level is a wildcard. -/
def standardMatches (filter topic : String) : Prop :=
  Pattern.Matches ((levels filter).map token) (levels topic) ∧
    (startsWithDollar topic = true →
      (levels filter).head? ≠ some "#" ∧ (levels filter).head? ≠ some "+")

/-- The code's matcher follows the standard on the topics that do not start with `$`. -/
theorem matches_iff_standardMatches {f : TopicFilter} {t : String} :
    f.matches t = true ↔ startsWithDollar t = false ∧ standardMatches f.raw t := by
  rw [matches_iff, standardMatches]
  cases startsWithDollar t <;> simp [pattern]

/-- Filters that match a common topic and compare equal have the same text. -/
theorem raw_eq_of_cmp_eq {f g : TopicFilter} {t : String} (hf : f.matches t = true)
    (hg : g.matches t = true) (h : f.cmp g = .eq) : f.raw = g.raw := by
  rw [cmp_eq] at h
  exact raw_eq_of_pattern_eq
    (Pattern.eq_of_matches_of_cmp_eq (matches_iff.mp hf).2 (matches_iff.mp hg).2 h)

/-- The topics a filter matches. -/
def topics (f : TopicFilter) : Set String := {t | f.matches t = true}

/-- The words over topic levels that the filter's pattern matches. -/
def language (f : TopicFilter) : Set (List String) :=
  Pattern.language undollared slashFree f.pattern

theorem topics_eq_preimage (f : TopicFilter) : f.topics = Set.preimage levels f.language := by
  ext t
  rw [Set.mem_preimage, language, Pattern.mem_language, levels_mem_words_iff]
  exact matches_iff

theorem topics_subset_iff {f g : TopicFilter} : f.topics ⊆ g.topics ↔ f.language ⊆ g.language := by
  rw [topics_eq_preimage, topics_eq_preimage]
  exact Set.preimage_subset_preimage_iff fun w hw => words_subset_range_levels hw.1

/-- One filter matches strictly fewer topics exactly when its pattern has the smaller language. -/
theorem topics_ssubset_iff {f g : TopicFilter} : f.topics ⊂ g.topics ↔ f.language ⊂ g.language := by
  rw [ssubset_iff_subset_not_subset, ssubset_iff_subset_not_subset, topics_subset_iff,
    topics_subset_iff]

/-- A filter matches some topic exactly when it does not start with `$`. -/
theorem language_nonempty_iff {f : TopicFilter} :
    f.language.Nonempty ↔ startsWithDollar f.raw = false := by
  obtain ⟨w, ws, hlevels⟩ := List.exists_cons_of_ne_nil (String.splitChar_ne_nil '/' f.raw)
  have hpat : f.pattern = token w :: ws.map token := by rw [pattern, levels, hlevels]; rfl
  rw [startsWithDollar_eq_of_levels hlevels]
  constructor
  · rintro ⟨_, ⟨a, v, rfl, ha, -⟩, hm⟩
    -- the first level is a wildcard, or a literal that equals the first letter `a` of a word
    by_cases hhash : w = "#"
    · rw [hhash]; rfl
    by_cases hplus : w = "+"
    · rw [hplus]; rfl
    rw [hpat, token_of_ne hhash hplus] at hm
    obtain ⟨_, hav, -⟩ := Pattern.matches_lit_cons.mp hm
    rw [← (List.cons.inj hav).1]
    exact ha.2
  · intro hd
    have hwf := f.pattern_wellFormed
    rw [language, hpat]
    rw [hpat] at hwf
    refine Pattern.language_nonempty undollared_nontrivial.nonempty undollared_subset hwf ?_ ?_
    · intro a ha
      have hmem : .lit a ∈ f.pattern := by rw [hpat, ha]; exact List.mem_cons_self
      have haw : a = w := by
        unfold token at ha
        split_ifs at ha
        exact (Token.lit.inj ha).symm
      rw [haw] at hmem ⊢
      exact ⟨not_mem_of_lit_mem_pattern hmem, hd⟩
    · exact fun a ha => not_mem_of_lit_mem_pattern (by rw [hpat]; exact List.mem_cons_of_mem _ ha)

end TopicFilter

end RosettaMq
