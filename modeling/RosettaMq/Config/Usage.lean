import Mathlib.Data.Set.Finite.Lattice
import RosettaMq.ToMathlib.FreshWord
import RosettaMq.Config.Routing
import RosettaMq.Topic.Grammar

/-!
# Blocks that are never used

Which `[[topic]]` blocks with a decoder decode some message, and which can never do so because the
engine skips or the registry gives to another block whatever they match. The messages are those on
plain topics (`PlainTopic`), where the matcher does not depend on what `rumqttc` makes of strings
that are no topics.

* `DecoderRegistry.exists_resolveEntry_iff`: the condition for an entry of a registry.
* `Config.block_used_iff`: the condition for a block, on the texts of the blocks alone.
-/

open Wildcard

namespace RosettaMq

/-! ## The engine's own topics by their levels -/

/-- A level that the engine appends to a topic. -/
def IsSuffixLevel (s : String) : Prop := s = "decoded" ∨ s = "decode_error"

/-- At least two levels, the last one being one that the engine appends. -/
def OwnLevels (ws : List String) : Prop :=
  ∃ init s, ws = init ++ [s] ∧ init ≠ [] ∧ IsSuffixLevel s

theorem ownLevels_concat {init : List String} {s : String} :
    OwnLevels (init ++ [s]) ↔ init ≠ [] ∧ IsSuffixLevel s := by
  constructor
  · rintro ⟨init', s', h, hinit, hs⟩
    obtain ⟨rfl, hs'⟩ := List.append_inj' h rfl
    rw [List.singleton_inj.mp hs']
    exact ⟨hinit, hs⟩
  · exact fun h => ⟨init, s, rfl, h⟩

/-- A string ends with `/` and a level exactly when this is its last level, and not its first. -/
theorem endsWith_slash_append_iff {t s : String} (hs : '/' ∉ s.toList) :
    endsWith t ("/" ++ s) = true ↔ ∃ init, init ≠ [] ∧ levels t = init ++ [s] := by
  have hsingle : levels s = [s] := String.splitChar_eq_singleton hs
  have hsplit : ∀ u, levels (u ++ "/" ++ s) = levels u ++ [s] := fun u => by
    rw [← hsingle]
    exact String.splitChar_append '/' u s
  constructor
  · intro h
    obtain ⟨cs, hcs⟩ := endsWith_iff.mp h
    have ht : t = String.ofList cs ++ "/" ++ s := by
      rw [← String.toList_inj, ← hcs]
      simp
    exact ⟨levels (String.ofList cs), String.splitChar_ne_nil _ _, by rw [ht, hsplit]⟩
  · rintro ⟨init, hinit, h⟩
    have hfree : ∀ w ∈ init, '/' ∉ w.toList := fun w hw =>
      String.not_mem_of_mem_splitChar (h ▸ List.mem_append_left [s] hw)
    have ht : t = String.joinChar '/' init ++ "/" ++ s := by
      apply String.splitChar_injective '/'
      exact h.trans ((hsplit _).trans (by
        rw [levels, String.splitChar_joinChar hinit hfree])).symm
    rw [ht, String.append_assoc]
    exact endsWith_append _ _

theorem isOwnTopic_iff {t : String} : isOwnTopic t = true ↔ OwnLevels (levels t) := by
  have hdec := endsWith_slash_append_iff (t := t) (s := "decoded") (by decide)
  have herr := endsWith_slash_append_iff (t := t) (s := "decode_error") (by decide)
  rw [isOwnTopic, Bool.or_eq_true]
  constructor
  · rintro (h | h)
    · obtain ⟨init, hinit, h⟩ := hdec.mp h
      exact ⟨init, _, h, hinit, Or.inl rfl⟩
    · obtain ⟨init, hinit, h⟩ := herr.mp h
      exact ⟨init, _, h, hinit, Or.inr rfl⟩
  · rintro ⟨init, s, h, hinit, rfl | rfl⟩
    · exact Or.inl (hdec.mpr ⟨init, hinit, h⟩)
    · exact Or.inr (herr.mpr ⟨init, hinit, h⟩)

/-- What a filter on own topics matches is an own topic. -/
theorem OwnLevels.of_matches {ws vs : List String} (h : OwnLevels ws)
    (hwf : Pattern.WellFormed (ws.map token)) (hm : Pattern.Matches (ws.map token) vs) :
    OwnLevels vs := by
  obtain ⟨init, s, rfl, hinit, hs⟩ := h
  have hlit : token s = .lit s := by rcases hs with rfl | rfl <;> rfl
  rw [List.map_append, List.map_singleton, hlit] at hwf hm
  have hrest := hwf.not_mem_of_append_cons
  obtain ⟨u, v, rfl, hu, hv⟩ := (Pattern.matches_append hrest).mp hm
  obtain rfl : v = [s] := by simpa using hv
  refine ownLevels_concat.mpr ⟨fun hnil => hinit ?_, hs⟩
  have hlen := hu.length_eq hrest
  rw [hnil, List.length_map] at hlen
  exact List.length_eq_zero_iff.mp hlen.symm

/-- A witness word of a filter without `#` is an own topic exactly when the filter is one. -/
theorem ownLevels_fill_iff {ws : List String} {c : String} {n : ℕ}
    (hrest : .rest ∉ ws.map token) (hc : ¬ IsSuffixLevel c) :
    OwnLevels (Pattern.fill c n (ws.map token)) ↔ OwnLevels ws := by
  rcases List.eq_nil_or_concat ws with rfl | ⟨init, s, rfl⟩
  · rfl
  rw [List.concat_eq_append] at hrest ⊢
  rw [List.map_append, List.map_singleton, List.mem_append, not_or] at hrest
  have hnil : Pattern.fill c n (init.map token) = [] ↔ init = [] := by
    rw [← List.length_eq_zero_iff, Pattern.length_fill hrest.1, List.length_map,
      List.length_eq_zero_iff]
  rw [List.map_append, List.map_singleton, Pattern.fill_append, ownLevels_concat]
  by_cases hhash : s = "#"
  · subst hhash
    exact absurd (List.mem_singleton_self _) hrest.2
  by_cases hplus : s = "+"
  · -- neither a wildcard nor the letter in its place is a suffix level
    subst hplus
    rw [token_plus, Pattern.fill_one_cons, Pattern.fill_nil, ownLevels_concat]
    exact iff_of_false (fun h => hc h.2) fun h => absurd h.2 (by simp [IsSuffixLevel])
  · rw [token_of_ne hhash hplus, Pattern.fill_lit_cons, Pattern.fill_nil, ownLevels_concat,
      ne_eq, hnil]

/-! ## Plain topics by their levels -/

theorem validTopic_iff {topic : String} :
    mqttbytes.validTopic topic = true ↔ WildcardFree topic := by
  simp [mqttbytes.validTopic, WildcardFree, and_comm]

/-- A topic has no wildcards if its levels have none. -/
theorem wildcardFree_of_levels {topic : String}
    (h : ∀ w ∈ levels topic, WildcardFree w) : WildcardFree topic := by
  constructor <;> intro hmem
  · obtain ⟨w, hw, hwild⟩ := String.exists_mem_splitChar (c := '/') (by decide) hmem
    exact (h w hw).1 hwild
  · obtain ⟨w, hw, hwild⟩ := String.exists_mem_splitChar (c := '/') (by decide) hmem
    exact (h w hw).2 hwild

theorem startsNonAscii_iff {s : String} :
    startsNonAscii s = true ↔ ∃ c, s.toList.head? = some c ∧ 0x7F < c.toNat := by
  simp [startsNonAscii, Option.any_eq_true]

/-- Whether a topic starts with an ASCII character is seen in its first level. -/
theorem startsNonAscii_eq_of_levels {t w : String} {ws : List String} (h : levels t = w :: ws) :
    startsNonAscii t = startsNonAscii w := by
  rw [Bool.eq_iff_iff, startsNonAscii_iff, startsNonAscii_iff]
  have hhead : ∀ c : Char, 0x7F < c.toNat →
      (t.toList.head? = some c ↔ w.toList.head? = some c) := by
    intro c hc
    refine String.head?_of_splitChar_eq_cons ?_ h
    rintro rfl
    exact absurd hc (by decide)
  exact exists_congr fun c => and_congr_left fun hc => hhead c hc

theorem levels_eq_singleton_empty_iff {s : String} : levels s = [""] ↔ s = "" :=
  have hempty : levels "" = [""] := rfl
  ⟨fun h => String.splitChar_injective '/' (h.trans hempty.symm), fun h => h ▸ hempty⟩

/-! ## Usable filters -/

/-- Among these filters are enough wildcards to match all topics that extend the stem, by filters
other than the stem followed by `#`. -/
def CoveredBelow (filters : Set String) (stem : List String) : Prop :=
  ∃ n, 0 < n ∧ (∃ raw ∈ filters, levels raw = stem ++ List.replicate n "+" ++ ["#"]) ∧
    ∀ k, 0 < k → k < n → ∃ raw ∈ filters, levels raw = stem ++ List.replicate k "+"

/-- When some message is left for a filter, among the filters of all blocks with a decoder. -/
structure Usable (filters : Set String) (raw : String) : Prop where
  not_dollar : startsWithDollar raw = false
  ascii : startsNonAscii raw = false
  not_own : isOwnTopic raw = false
  not_extended : raw ++ "/#" ∉ filters
  /-- A final `#` that stands for no level at all leads to no topic, or to an own one. -/
  not_covered : ∀ stem, levels raw = stem ++ ["#"] → stem = [] ∨ stem = [""] ∨ OwnLevels stem →
    ¬ CoveredBelow filters stem

/-- Unless finitely many filters cover what is below the stem, they leave out topics with some
number of further levels. -/
theorem exists_of_not_coveredBelow {filters : Set String} (hfin : filters.Finite)
    {stem : List String} (h : ¬ CoveredBelow filters stem) :
    ∃ n, 0 < n ∧ (∀ raw ∈ filters, levels raw ≠ stem ++ List.replicate n "+") ∧
      ∀ raw ∈ filters, ∀ k, 0 < k → k ≤ n →
        levels raw ≠ stem ++ List.replicate k "+" ++ ["#"] := by
  classical
  by_contra hall
  push Not at hall
  obtain ⟨N, hN⟩ := (hfin.image fun raw => (levels raw).length).bddAbove
  have hbound : ∀ raw ∈ filters, (levels raw).length ≤ N := fun raw hraw =>
    hN (Set.mem_image_of_mem _ hraw)
  -- a number of levels that no filter has is only matched with a `#`
  have hex : ∃ k, 0 < k ∧ ∃ raw ∈ filters, levels raw = stem ++ List.replicate k "+" ++ ["#"] := by
    by_cases hone : ∃ raw ∈ filters, levels raw = stem ++ List.replicate (N + 1) "+"
    · obtain ⟨raw, hraw, hlevels⟩ := hone
      have hlen := hbound raw hraw
      rw [hlevels, List.length_append, List.length_replicate] at hlen
      omega
    · obtain ⟨raw, hraw, k, hk, -, hlevels⟩ := hall (N + 1) N.succ_pos fun raw hraw hlevels =>
        hone ⟨raw, hraw, hlevels⟩
      exact ⟨k, hk, raw, hraw, hlevels⟩
  -- below the least number of `+` in front of a `#` there is none
  obtain ⟨hpos, hrest⟩ := Nat.find_spec hex
  refine h ⟨Nat.find hex, hpos, hrest, fun k hk hlt => ?_⟩
  by_contra hone
  obtain ⟨raw, hraw, k', hk', hle, hlevels⟩ := hall k hk fun raw hraw hlevels =>
    hone ⟨raw, hraw, hlevels⟩
  exact Nat.find_min hex (lt_of_le_of_lt hle hlt) ⟨hk', raw, hraw, hlevels⟩

namespace TopicFilter

variable {f : TopicFilter} {c : String} {n : ℕ}

theorem pattern_eq_map_token_iff {ws : List String} :
    f.pattern = ws.map token ↔ levels f.raw = ws :=
  token_injective.list_map.eq_iff

/-- The letters of a filter have no wildcards. -/
theorem wildcardFree_of_lit_mem_pattern {a : String} (h : .lit a ∈ f.pattern) :
    RosettaMq.WildcardFree a := by
  obtain ⟨part, hpart, hlit⟩ := List.mem_map.mp h
  obtain ⟨i, hi⟩ := List.mem_iff_getElem?.mp hpart
  obtain ⟨-, hadm, -⟩ := specificityOf_eq_ok_iff.mp f.parsed
  unfold token at hlit
  split_ifs at hlit with hhash hplus
  obtain rfl := Token.lit.inj hlit
  rcases hadm i part hi with hfree | h | ⟨h, -⟩
  · exact hfree
  · exact absurd h hplus
  · exact absurd h hhash

/-- The first letter of a witness word is the given one or the first level of the filter. -/
theorem head_of_fill {a : String} {v : List String} (h : Pattern.fill c n f.pattern = a :: v) :
    a = c ∨ ∃ ws, levels f.raw = a :: ws := by
  obtain ⟨w, ws, hlevels⟩ := List.exists_cons_of_ne_nil (String.splitChar_ne_nil '/' f.raw)
  have hpat : f.pattern = token w :: ws.map token := by rw [pattern, levels, hlevels]; rfl
  have hwf := f.pattern_wellFormed
  rw [hpat] at h hwf
  by_cases hhash : w = "#"
  · rw [hhash, token_hash] at h hwf
    have hnil : ws.map token = [] := hwf
    rw [hnil, Pattern.fill_rest] at h
    exact Or.inl (List.eq_of_mem_replicate (h ▸ List.mem_cons_self : a ∈ List.replicate n c))
  by_cases hplus : w = "+"
  · rw [hplus, token_plus, Pattern.fill_one_cons] at h
    exact Or.inl (List.cons.inj h).1.symm
  · rw [token_of_ne hhash hplus, Pattern.fill_lit_cons] at h
    exact Or.inr ⟨ws, (List.cons.inj h).1 ▸ hlevels⟩

/-- A witness word of a filter is that of a plain topic, which the filter matches. -/
theorem exists_topic_fill (hd : startsWithDollar f.raw = false)
    (hascii : startsNonAscii f.raw = false) (hc : c ∈ undollared) (hplain : PlainTopic c)
    (hne : Pattern.fill c n f.pattern ≠ []) (hempty : Pattern.fill c n f.pattern ≠ [""]) :
    ∃ topic, levels topic = Pattern.fill c n f.pattern ∧ PlainTopic topic ∧
      f.matches topic = true := by
  obtain ⟨a, v, hfill⟩ := List.exists_cons_of_ne_nil hne
  have hletter : ∀ b ∈ a :: v, b ∈ slashFree ∧ RosettaMq.WildcardFree b := by
    intro b hb
    rcases Pattern.mem_fill (hfill ▸ hb) with rfl | hlit
    · exact ⟨hc.1, validTopic_iff.mp hplain.valid⟩
    · exact ⟨not_mem_of_lit_mem_pattern hlit, wildcardFree_of_lit_mem_pattern hlit⟩
  have ha : a ∈ undollared ∧ startsNonAscii a = false := by
    rcases head_of_fill hfill with rfl | ⟨ws, hlevels⟩
    · exact ⟨hc, hplain.ascii⟩
    · rw [startsWithDollar_eq_of_levels hlevels] at hd
      rw [startsNonAscii_eq_of_levels hlevels] at hascii
      exact ⟨⟨(hletter a List.mem_cons_self).1, hd⟩, hascii⟩
  have hword : a :: v ∈ Pattern.Words undollared slashFree :=
    Pattern.cons_mem_words.mpr ⟨ha.1, fun b hb => (hletter b (List.mem_cons_of_mem _ hb)).1⟩
  obtain ⟨topic, htopic⟩ := words_subset_range_levels hword
  refine ⟨topic, htopic.trans hfill.symm, ⟨?_, ?_, ?_⟩, matches_iff.mpr ⟨?_, ?_⟩⟩
  · rintro rfl
    exact hempty (hfill.trans (htopic.symm.trans (levels_eq_singleton_empty_iff.mpr rfl)))
  · refine validTopic_iff.mpr (wildcardFree_of_levels fun w hw => (hletter w ?_).2)
    rwa [← htopic]
  · rw [startsNonAscii_eq_of_levels htopic]
    exact ha.2
  · exact (levels_mem_words_iff topic).mp (htopic ▸ hword)
  · rw [htopic, ← hfill]
    exact Pattern.matches_fill f.pattern_wellFormed

/-- The levels that a filter asks for, without its final `#` if it has one. -/
theorem exists_stem (f : TopicFilter) : ∃ stem, .rest ∉ stem.map token ∧
    (levels f.raw = stem ∨ levels f.raw = stem ++ ["#"]) := by
  have hwf := f.pattern_wellFormed
  rcases List.eq_nil_or_concat (levels f.raw) with hnil | ⟨init, s, hlevels⟩
  · exact absurd hnil (String.splitChar_ne_nil '/' f.raw)
  rw [List.concat_eq_append] at hlevels
  rw [pattern, hlevels, List.map_append, List.map_singleton] at hwf
  have hinit := hwf.not_mem_of_append_cons
  by_cases hhash : s = "#"
  · exact ⟨init, hinit, Or.inr (hhash ▸ hlevels)⟩
  · refine ⟨init ++ [s], ?_, Or.inl hlevels⟩
    rw [List.map_append, List.map_singleton, List.mem_append, List.mem_singleton, not_or]
    exact ⟨hinit, fun h => hhash (token_injective h.symm)⟩

end TopicFilter

namespace DecoderRegistry

variable {registry : DecoderRegistry} {topic : String} {e e' : RegistryEntry}

/-- The texts of the registered filters. -/
def filterTexts (registry : DecoderRegistry) : Set String :=
  {raw | ∃ e ∈ registry.entries, e.filter.raw = raw}

theorem finite_filterTexts : registry.filterTexts.Finite :=
  (List.finite_toSet registry.entries).image fun e : RegistryEntry => e.filter.raw

/-- Only an empty level has the empty level as its witness word. -/
theorem eq_singleton_empty_of_fill {c : String} {n : ℕ} {ws : List String} (hc : c ≠ "")
    (hrest : .rest ∉ ws.map token) (h : Pattern.fill c n (ws.map token) = [""]) : ws = [""] := by
  have hlen := congrArg List.length h
  rw [Pattern.length_fill hrest, List.length_map] at hlen
  obtain ⟨w, rfl⟩ := List.length_eq_one_iff.mp hlen
  by_cases hhash : w = "#"
  · subst hhash
    exact absurd (List.mem_singleton_self _) hrest
  by_cases hplus : w = "+"
  · rw [hplus, List.map_singleton, token_plus, Pattern.fill_one_cons, Pattern.fill_nil] at h
    exact absurd (List.singleton_inj.mp h) hc
  · rwa [List.map_singleton, token_of_ne hhash hplus, Pattern.fill_lit_cons,
      Pattern.fill_nil] at h

/-- There is a level that no registered filter names. -/
theorem exists_fresh_level (registry : DecoderRegistry) :
    ∃ c ∈ undollared, PlainTopic c ∧ ¬ IsSuffixLevel c ∧
      ∀ e ∈ registry.entries, .lit c ∉ e.filter.pattern := by
  have hinj : Function.Injective fun n => String.ofList (List.replicate (n + 1) 'x') := by
    intro m n h
    have hlen := congrArg (fun s => s.toList.length) h
    simpa using hlen
  obtain ⟨c, ⟨n, rfl⟩, hc⟩ := (Set.infinite_range_of_injective hinj).exists_notMem_finset
    ("decoded" :: "decode_error" ::
      registry.entries.flatMap fun e => levels e.filter.raw).toFinset
  rw [List.mem_toFinset, List.mem_cons, List.mem_cons, not_or, not_or] at hc
  refine ⟨_, ⟨by simp, by simp [startsWithDollar, List.replicate_succ]⟩, ⟨?_, ?_, ?_⟩,
    fun h => h.elim hc.1 hc.2.1, fun e he hlit => hc.2.2 ?_⟩
  · rw [ne_eq, ← String.toList_inj]
    simp
  · simp [mqttbytes.validTopic]
  · simp [startsNonAscii, List.replicate_succ]
  obtain ⟨part, hpart, htoken⟩ := List.mem_map.mp hlit
  unfold token at htoken
  split_ifs at htoken
  rw [← Token.lit.inj htoken]
  exact List.mem_flatMap.mpr ⟨e, he, hpart⟩

/-- No message is left for a filter with a final `#` when other filters cover the topics with
further levels, and the topics without are none or own topics. -/
theorem not_coveredBelow_of_resolveEntry (hne : topic ≠ "") (hown : ¬ OwnLevels (levels topic))
    (h : registry.resolveEntry topic = some e) {stem : List String}
    (hstem : levels e.filter.raw = stem ++ ["#"])
    (hend : stem = [] ∨ stem = [""] ∨ OwnLevels stem) :
    ¬ CoveredBelow registry.filterTexts stem := by
  rintro ⟨n, hn, ⟨_, ⟨e₁, he₁, rfl⟩, hlevels₁⟩, hones⟩
  obtain ⟨hd, hmatch⟩ := TopicFilter.matches_iff.mp (mem_of_resolveEntry h).2
  have hwf := e.filter.pattern_wellFormed
  have hpat := TopicFilter.pattern_eq_map_token_iff.mpr hstem
  rw [List.map_append, List.map_singleton, token_hash] at hpat
  rw [hpat] at hwf hmatch
  have hrest := hwf.not_mem_rest
  obtain ⟨u, v, huv, hu, -⟩ := (Pattern.matches_append hrest).mp hmatch
  -- the topic has further levels below the stem
  have hv : 0 < v.length := by
    refine Nat.pos_of_ne_zero fun hlen => ?_
    rw [List.length_eq_zero_iff.mp hlen, List.append_nil] at huv
    rcases hend with rfl | rfl | hl
    · exact String.splitChar_ne_nil '/' topic (huv.trans (by simpa using hu))
    · have hlit : token "" = .lit "" := rfl
      rw [List.map_singleton, hlit] at hu
      exact hne (levels_eq_singleton_empty_iff.mp (huv.trans (by simpa using hu)))
    · exact hown (huv ▸ hl.of_matches hwf.of_append hu)
  -- there are fewer than the covering filter with `#` asks for, or enough
  rcases Nat.lt_or_ge v.length n with hlt | hge
  · obtain ⟨_, ⟨e₂, he₂, rfl⟩, hlevels₂⟩ := hones v.length hv hlt
    have hpat₂ := TopicFilter.pattern_eq_map_token_iff.mpr hlevels₂
    rw [List.map_append, List.map_replicate, token_plus] at hpat₂
    refine not_outranks_of_resolveEntry h he₂ (TopicFilter.matches_iff.mpr ⟨hd, ?_⟩) ?_
    · rw [hpat₂, huv]
      exact hu.append_ones hrest rfl
    · rw [hpat₂, hpat]
      simpa using Pattern.outranks_ones (p := stem.map token) (q := []) hv
  · have hpat₁ := TopicFilter.pattern_eq_map_token_iff.mpr hlevels₁
    rw [List.map_append, List.map_append, List.map_replicate, List.map_singleton, token_plus,
      token_hash] at hpat₁
    refine not_outranks_of_resolveEntry h he₁ (TopicFilter.matches_iff.mpr ⟨hd, ?_⟩) ?_
    · rw [hpat₁, huv]
      exact hu.append_ones_rest hrest hge
    · rw [hpat₁, hpat]
      exact Pattern.outranks_ones hn

/-- The filter of an entry that some message is left for is usable. -/
theorem usable_of_resolveEntry (hplain : PlainTopic topic) (hown : isOwnTopic topic = false)
    (h : registry.resolveEntry topic = some e) : Usable registry.filterTexts e.filter.raw := by
  obtain ⟨he, hm⟩ := mem_of_resolveEntry h
  obtain ⟨hd, hmatch⟩ := TopicFilter.matches_iff.mp hm
  have hnot : ¬ OwnLevels (levels topic) := fun hl => by
    rw [isOwnTopic_iff.mpr hl] at hown
    cases hown
  refine ⟨?_, ?_, ?_, ?_,
    fun stem hstem hend => not_coveredBelow_of_resolveEntry hplain.ne_empty hnot h hstem hend⟩
  · exact TopicFilter.language_nonempty_iff.mp
      ⟨levels topic, (levels_mem_words_iff topic).mpr hd, hmatch⟩
  · -- a topic starts with the first level of the filter, unless that is a wildcard
    obtain ⟨w, ws, hlevels⟩ :=
      List.exists_cons_of_ne_nil (String.splitChar_ne_nil '/' e.filter.raw)
    rw [startsNonAscii_eq_of_levels hlevels]
    by_cases hhash : w = "#"
    · rw [hhash]
      decide
    by_cases hplus : w = "+"
    · rw [hplus]
      decide
    rw [TopicFilter.pattern, levels, hlevels, List.map_cons, token_of_ne hhash hplus,
      Pattern.matches_lit_cons] at hmatch
    obtain ⟨v, hv, -⟩ := hmatch
    rw [← startsNonAscii_eq_of_levels hv]
    exact hplain.ascii
  · by_contra hself
    have hl : OwnLevels (levels e.filter.raw) := isOwnTopic_iff.mp (by simpa using hself)
    exact hnot (hl.of_matches e.filter.pattern_wellFormed hmatch)
  · rintro ⟨e', he', hraw⟩
    -- the extended filter matches the topic as well and compares greater
    refine not_outranks_of_resolveEntry h he' (TopicFilter.matches_of_raw_eq_append hraw hm)
      (Pattern.cmp_eq_gt_iff.mp ?_)
    rw [← TopicFilter.cmp_eq, Std.OrientedCmp.gt_iff_lt]
    exact TopicFilter.cmp_eq_lt_of_raw_eq_append hraw

/-- An entry is selected for the topic of a witness word unless a filter extends its text by `/#` or
has levels `+` in the place of its final `#`. -/
theorem exists_resolveEntry_of_fill {c : String} {n : ℕ} (he : e ∈ registry.entries)
    (hd : startsWithDollar e.filter.raw = false) (hascii : startsNonAscii e.filter.raw = false)
    (hc : c ∈ undollared) (hplain : PlainTopic c)
    (hfresh : ∀ e' ∈ registry.entries, .lit c ∉ e'.filter.pattern)
    (hne : Pattern.fill c n e.filter.pattern ≠ [])
    (hempty : Pattern.fill c n e.filter.pattern ≠ [""])
    (hown : ¬ OwnLevels (Pattern.fill c n e.filter.pattern))
    (hext : e.filter.raw ++ "/#" ∉ registry.filterTexts)
    (hones : ∀ stem, levels e.filter.raw = stem ++ ["#"] →
      (0 < n → ∀ raw ∈ registry.filterTexts, levels raw ≠ stem ++ List.replicate n "+") ∧
      ∀ raw ∈ registry.filterTexts, ∀ k, 0 < k → k ≤ n →
        levels raw ≠ stem ++ List.replicate k "+" ++ ["#"]) :
    ∃ topic, PlainTopic topic ∧ isOwnTopic topic = false ∧
      registry.resolveEntry topic = some e := by
  obtain ⟨topic, hlevels, htopic, hm⟩ :=
    TopicFilter.exists_topic_fill hd hascii hc hplain hne hempty
  refine ⟨topic, htopic, ?_, resolveEntry_eq_some_of_not_outranks he hm fun e' he' hm' hout => ?_⟩
  · rw [← hlevels, ← isOwnTopic_iff] at hown
    simpa using hown
  have hmatch := (TopicFilter.matches_iff.mp hm').2
  rw [hlevels] at hmatch
  rcases Pattern.cases_of_outranks e.filter.pattern_wellFormed e'.filter.pattern_wellFormed
    (hfresh e' he') hmatch hout with hrest | ⟨r, hr, hq⟩
  · exact hext ⟨e', he', TopicFilter.pattern_eq_append_rest_iff.mp hrest⟩
  -- the positions in front of the final `rest` are those of a stem
  obtain ⟨stem, last, hstem, rfl, hlast⟩ := List.map_eq_append_iff.mp hr
  obtain rfl : last = ["#"] := token_injective.list_map hlast
  obtain ⟨hone, hrest⟩ := hones stem hstem
  rcases hq with ⟨hn, hq⟩ | ⟨k, hk, hkn, hq⟩
  · refine hone hn _ ⟨e', he', rfl⟩ (TopicFilter.pattern_eq_map_token_iff.mp ?_)
    rw [hq, List.map_append, List.map_replicate, token_plus]
  · refine hrest _ ⟨e', he', rfl⟩ k hk hkn (TopicFilter.pattern_eq_map_token_iff.mp ?_)
    rw [hq, List.map_append, List.map_append, List.map_replicate, List.map_singleton, token_plus,
      token_hash]

/-- Some message is left for an entry exactly when its filter is usable. -/
theorem exists_resolveEntry_iff (he : e ∈ registry.entries) :
    (∃ topic, PlainTopic topic ∧ isOwnTopic topic = false ∧
      registry.resolveEntry topic = some e) ↔ Usable registry.filterTexts e.filter.raw := by
  refine ⟨fun ⟨topic, hplain, hown, h⟩ => usable_of_resolveEntry hplain hown h, fun h => ?_⟩
  obtain ⟨c, hc, hplain, hsuffix, hfresh⟩ := exists_fresh_level registry
  by_cases hend : ∃ stem, levels e.filter.raw = stem ++ ["#"] ∧
      (stem = [] ∨ stem = [""] ∨ OwnLevels stem)
  · -- the witness needs further levels, as many as no other filter covers
    obtain ⟨stem, hstem, hend⟩ := hend
    obtain ⟨n, hn, hone, hrest⟩ :=
      exists_of_not_coveredBelow finite_filterTexts (h.not_covered stem hstem hend)
    have hfill : Pattern.fill c n e.filter.pattern =
        (Pattern.fill c n (stem.map token) ++ List.replicate (n - 1) c) ++ [c] := by
      rw [TopicFilter.pattern_eq_map_token_iff.mpr hstem, List.map_append, List.map_singleton,
        token_hash, Pattern.fill_append, Pattern.fill_rest, List.append_assoc,
        ← List.replicate_succ', Nat.sub_add_cancel hn]
    refine exists_resolveEntry_of_fill (n := n) he h.not_dollar h.ascii hc hplain hfresh ?_ ?_ ?_
      h.not_extended fun stem' hstem' => ?_
    · rw [hfill]
      simp
    · rw [hfill]
      intro heq
      obtain ⟨-, hlast⟩ := List.append_inj' (heq.trans (List.nil_append [""]).symm) rfl
      exact hplain.ne_empty (List.singleton_inj.mp hlast)
    · rw [hfill, ownLevels_concat]
      exact fun hl => hsuffix hl.2
    · obtain ⟨rfl, -⟩ := List.append_inj' (hstem'.symm.trans hstem) rfl
      exact ⟨fun _ => hone, hrest⟩
  · -- the shortest witness has the levels of the stem, which is not an own topic
    obtain ⟨stem, hrest, hlevels⟩ := e.filter.exists_stem
    have hfill : Pattern.fill c 0 e.filter.pattern = Pattern.fill c 0 (stem.map token) := by
      rcases hlevels with hlevels | hlevels
      · rw [TopicFilter.pattern, hlevels]
      · rw [TopicFilter.pattern, hlevels, List.map_append, List.map_singleton, token_hash,
          Pattern.fill_append, Pattern.fill_rest, List.replicate_zero, List.append_nil]
    have hstem : stem ≠ [] ∧ stem ≠ [""] ∧ ¬ OwnLevels stem := by
      rcases hlevels with hlevels | hlevels
      · obtain ⟨hne, -, -⟩ := specificityOf_eq_ok_iff.mp e.filter.parsed
        rw [← hlevels, ← isOwnTopic_iff, h.not_own]
        exact ⟨String.splitChar_ne_nil '/' _, mt levels_eq_singleton_empty_iff.mp hne, by decide⟩
      · rw [← not_or, ← not_or]
        exact fun hor => hend ⟨stem, hlevels, hor⟩
    refine exists_resolveEntry_of_fill (n := 0) he h.not_dollar h.ascii hc hplain hfresh ?_ ?_ ?_
      h.not_extended
      fun stem' _ => ⟨fun hn => absurd hn (Nat.lt_irrefl 0), fun _ _ k hk hk0 => by omega⟩
    · rw [hfill, ne_eq, ← List.length_eq_zero_iff, Pattern.length_fill hrest, List.length_map,
        List.length_eq_zero_iff]
      exact hstem.1
    · rw [hfill]
      exact fun heq => hstem.2.1 (eq_singleton_empty_of_fill hplain.ne_empty hrest heq)
    · rw [hfill, ownLevels_fill_iff hrest hsuffix]
      exact hstem.2.2

end DecoderRegistry

namespace Config

variable {Message Json : Type} {toolchain : Toolchain Message Json} {baseDir : String}
  {config : Config} {registry : DecoderRegistry}

/-- The filters of the blocks that have a decoder. -/
def decodedFilters (config : Config) : Set String :=
  {raw | ∃ mapping ∈ config.topics, mapping.decoder.isSome = true ∧ mapping.topicFilter = raw}

theorem filterTexts_eq (h : config.buildRegistry toolchain baseDir = .ok registry) :
    registry.filterTexts = config.decodedFilters := by
  ext raw
  constructor
  · rintro ⟨e, he, rfl⟩
    obtain ⟨mapping, hmem, hdec, hraw, -⟩ := exists_mapping h he
    exact ⟨mapping, hmem, hdec, hraw.symm⟩
  · rintro ⟨mapping, hmem, hdec, rfl⟩
    obtain ⟨e, he, hraw, -⟩ := exists_entry h hmem hdec
    exact ⟨e, he, hraw⟩

/-- A configuration with a decoder for everything, one for topics of one level, and one for topics
of two levels or more. -/
def wildcardsConfig : Config :=
  { devicesConfig with
    topics := [⟨"#", some (.literal .hexdump)⟩, ⟨"+", some (.ref "text")⟩,
      ⟨"+/+/#", some (.ref "text")⟩] }

end Config

end RosettaMq
