import RosettaMq.Topic.Defs

/-!
# The grammar of topic filters

`TopicFilter::parse` accepts exactly the non-empty texts whose levels are literals, `+`, or a last
`#`. It rejects any other text because of the leftmost level that is none of these
(`TopicFilter.parse_grammar`).
-/

namespace RosettaMq

/-- The level contains no wildcard. -/
def WildcardFree (part : String) : Prop := '#' ∉ part.toList ∧ '+' ∉ part.toList

/-- The level may stand at index `i` of a filter whose last index is `last`. -/
def Admissible (last i : ℕ) (part : String) : Prop :=
  WildcardFree part ∨ part = "+" ∨ part = "#" ∧ i = last

/-- The specificity of a level. -/
def levelRank (part : String) : ℕ := if part = "#" then 0 else if part = "+" then 1 else 2

/-- Why a level that may not stand where it does is rejected. -/
def levelError (raw part : String) : TopicError :=
  if part = "#" then .hashNotLast raw else .invalidWildcardSegment part raw

variable {raw part : String} {parts : List String} {last i rank : ℕ} {ranks : List ℕ}
  {e : TopicError}

theorem not_wildcardFree_hash : ¬ WildcardFree "#" := fun h => absurd h.1 (by decide)

theorem not_wildcardFree_plus : ¬ WildcardFree "+" := fun h => absurd h.2 (by decide)

/-- What the loop body of `parse` does with a level. -/
theorem rankSegment_eq (raw : String) (last i : ℕ) (part : String) :
    (Admissible last i part ∧ rankSegment raw last i part = .ok (levelRank part)) ∨
      (¬ Admissible last i part ∧
        rankSegment raw last i part = .error (levelError raw part)) := by
  unfold rankSegment levelRank levelError
  by_cases hhash : part = "#"
  · subst hhash
    by_cases hlast : i = last
    · left
      simp [Admissible, hlast]
    · right
      simp [Admissible, hlast, not_wildcardFree_hash]
  by_cases hplus : part = "+"
  · left
    simp [Admissible, hplus]
  by_cases hmixed : '#' ∈ part.toList ∨ '+' ∈ part.toList
  · right
    have hfree : ¬ WildcardFree part := by
      rwa [WildcardFree, ← not_or, not_not]
    simp only [Admissible, hhash, hplus, hfree, hmixed, if_true, if_false]
    simp
  · left
    have hfree : WildcardFree part := by
      rwa [WildcardFree, ← not_or]
    simp only [Admissible, hhash, hplus, hfree, hmixed, if_false]
    simp

theorem rankSegment_eq_ok_iff :
    rankSegment raw last i part = .ok rank ↔ Admissible last i part ∧ rank = levelRank part := by
  rcases rankSegment_eq raw last i part with ⟨hadm, heq⟩ | ⟨hadm, heq⟩ <;>
    simp [heq, hadm, eq_comm]

theorem rankSegment_eq_error_iff :
    rankSegment raw last i part = .error e ↔
      ¬ Admissible last i part ∧ e = levelError raw part := by
  rcases rankSegment_eq raw last i part with ⟨hadm, heq⟩ | ⟨hadm, heq⟩ <;>
    simp [heq, hadm, eq_comm]

/-- The levels from index `i` on may all stand where they do. -/
def AllAdmissible (last i : ℕ) (parts : List String) : Prop :=
  ∀ j part, parts[j]? = some part → Admissible last (i + j) part

theorem allAdmissible_cons :
    AllAdmissible last i (part :: parts) ↔
      Admissible last i part ∧ AllAdmissible last (i + 1) parts := by
  constructor
  · intro h
    refine ⟨h 0 part rfl, fun j p hp => ?_⟩
    rw [Nat.add_assoc, Nat.add_comm 1 j]
    exact h (j + 1) p hp
  · rintro ⟨hpart, hparts⟩ j p hp
    cases j with
    | zero =>
      obtain rfl := Option.some.inj hp
      exact hpart
    | succ j =>
      rw [Nat.add_comm j 1, ← Nat.add_assoc]
      exact hparts j p hp

/-- The loop of `parse` gets through exactly if all levels may stand where they do, and then it has
the rank of each. -/
theorem rankSegments_eq_ok_iff :
    rankSegments raw last i parts = .ok ranks ↔
      AllAdmissible last i parts ∧ ranks = parts.map levelRank := by
  induction parts generalizing i ranks with
  | nil => simp [rankSegments, AllAdmissible, eq_comm]
  | cons part parts ih =>
    rw [rankSegments, allAdmissible_cons, List.map_cons]
    cases hpart : rankSegment raw last i part with
    | error e =>
      obtain ⟨hadm, -⟩ := rankSegment_eq_error_iff.mp hpart
      simp [hadm]
    | ok rank =>
      obtain ⟨hadm, rfl⟩ := rankSegment_eq_ok_iff.mp hpart
      cases hparts : rankSegments raw last (i + 1) parts with
      | error e =>
        have hnot : ¬ AllAdmissible last (i + 1) parts := by
          intro hall
          rw [ih.mpr ⟨hall, rfl⟩] at hparts
          cases hparts
        simp [hnot]
      | ok rest =>
        obtain ⟨hall, rfl⟩ := ih.mp hparts
        simp [hadm, hall, eq_comm]

/-- The loop of `parse` returns because of the first level that may not stand where it does. -/
theorem rankSegments_eq_error_iff :
    rankSegments raw last i parts = .error e ↔
      ∃ before part after, parts = before ++ part :: after ∧ AllAdmissible last i before ∧
        ¬ Admissible last (i + before.length) part ∧ e = levelError raw part := by
  induction parts generalizing i with
  | nil => simp [rankSegments]
  | cons part parts ih =>
    rw [rankSegments]
    cases hpart : rankSegment raw last i part with
    | error e' =>
      obtain ⟨hadm, rfl⟩ := rankSegment_eq_error_iff.mp hpart
      constructor
      · intro h
        exact ⟨[], part, parts, rfl, nofun, hadm, (Except.error.inj h).symm⟩
      · rintro ⟨before, part', after, hsplit, hbefore, -, rfl⟩
        cases before with
        | nil => rw [(List.cons.inj hsplit).1]
        | cons first before =>
          obtain ⟨rfl, -⟩ := List.cons.inj hsplit
          exact absurd (allAdmissible_cons.mp hbefore).1 hadm
    | ok rank =>
      obtain ⟨hadm, -⟩ := rankSegment_eq_ok_iff.mp hpart
      have htail : (∃ before part' after, part :: parts = before ++ part' :: after ∧
          AllAdmissible last i before ∧ ¬ Admissible last (i + before.length) part' ∧
            e = levelError raw part') ↔ rankSegments raw last (i + 1) parts = .error e := by
        rw [ih]
        constructor
        · rintro ⟨before, part', after, hsplit, hbefore, hnot, rfl⟩
          cases before with
          | nil =>
            obtain ⟨rfl, -⟩ := List.cons.inj hsplit
            exact absurd hadm hnot
          | cons first before =>
            obtain ⟨rfl, rfl⟩ := List.cons.inj hsplit
            refine ⟨before, part', after, rfl, (allAdmissible_cons.mp hbefore).2, ?_, rfl⟩
            rwa [Nat.add_assoc, Nat.add_comm 1]
        · rintro ⟨before, part', after, rfl, hbefore, hnot, rfl⟩
          refine ⟨part :: before, part', after, rfl, allAdmissible_cons.mpr ⟨hadm, hbefore⟩, ?_,
            rfl⟩
          rwa [Nat.add_assoc, Nat.add_comm 1] at hnot
      rw [htail]
      cases rankSegments raw last (i + 1) parts <;> simp

/-- Admissible levels at their own indices. -/
theorem allAdmissible_zero :
    AllAdmissible last 0 parts ↔ ∀ j part, parts[j]? = some part → Admissible last j part := by
  simp only [AllAdmissible, Nat.zero_add]

/-- The ranks of an accepted level tell what it is. -/
theorem levelRank_iff (h : Admissible last i part) :
    (levelRank part = 0 ↔ part = "#") ∧ (levelRank part = 1 ↔ part = "+") ∧
      (levelRank part = 2 ↔ WildcardFree part) := by
  rcases h with hfree | rfl | ⟨rfl, -⟩
  · have hhash : part ≠ "#" := fun h => not_wildcardFree_hash (h ▸ hfree)
    have hplus : part ≠ "+" := fun h => not_wildcardFree_plus (h ▸ hfree)
    simp [levelRank, hhash, hplus, hfree]
  · simp [levelRank, not_wildcardFree_plus]
  · simp [levelRank, not_wildcardFree_hash]

/-- The vector of a text is that of the ranks of its levels, if they may all stand where they
do. -/
theorem specificityOf_eq_ok_iff :
    specificityOf raw = .ok ranks ↔ raw ≠ "" ∧
      AllAdmissible ((levels raw).length - 1) 0 (levels raw) ∧
      ranks = (levels raw).map levelRank := by
  by_cases hraw : raw = ""
  · subst hraw
    simp [specificityOf]
  · rw [specificityOf, if_neg hraw, rankSegments_eq_ok_iff]
    simp only [ne_eq, hraw, not_false_eq_true, true_and]

/-- A text that is not empty has no vector because of its leftmost level that may not stand where it
does. -/
theorem specificityOf_eq_error_iff :
    specificityOf raw = .error e ↔ raw = "" ∧ e = .empty ∨ raw ≠ "" ∧
      ∃ before part after, levels raw = before ++ part :: after ∧
        AllAdmissible ((levels raw).length - 1) 0 before ∧
        ¬ Admissible ((levels raw).length - 1) before.length part ∧ e = levelError raw part := by
  by_cases hraw : raw = ""
  · subst hraw
    simp [specificityOf, eq_comm]
  · rw [specificityOf, if_neg hraw, rankSegments_eq_error_iff]
    simp only [Nat.zero_add, ne_eq, hraw, not_false_eq_true, true_and, false_and, false_or]

namespace TopicFilter

/-- `parse` fails exactly if no vector can be computed. -/
theorem parse_eq_error_iff : parse raw = .error e ↔ specificityOf raw = .error e := by
  unfold parse
  split <;> rename_i h <;> simp [h]

theorem exists_parse_eq_ok_iff :
    (∃ f, parse raw = .ok f) ↔ ∃ ranks, specificityOf raw = .ok ranks := by
  constructor
  · rintro ⟨f, hf⟩
    obtain rfl := parse_eq_ok_iff.mp hf
    exact ⟨_, f.parsed⟩
  · rintro ⟨ranks, h⟩
    exact ⟨⟨raw, ranks, h⟩, parse_eq_ok_iff.mpr rfl⟩

/-- `parse` accepts exactly the non-empty texts of which every level is free of wildcards, or `+`,
or a last `#`. The filter has this text and a rank for each level, by its kind, so the rank 0 is at
most the last. The empty text is rejected as such, and any other because of its leftmost level that
is none of these. -/
theorem parse_grammar (s : String) :
    ((∃ f, parse s = .ok f) ↔ s ≠ "" ∧ ∀ i part, (levels s)[i]? = some part →
      WildcardFree part ∨ part = "+" ∨ part = "#" ∧ i = (levels s).length - 1) ∧
    (∀ f : TopicFilter, parse s = .ok f → f.raw = s ∧ f.specificity.length = (levels s).length ∧
      (∀ (i : ℕ) (part : String), (levels s)[i]? = some part →
        (f.specificity[i]? = some 0 ↔ part = "#") ∧ (f.specificity[i]? = some 1 ↔ part = "+") ∧
          (f.specificity[i]? = some 2 ↔ WildcardFree part)) ∧
      (∀ rank ∈ f.specificity, rank ≤ 2) ∧
      ∀ i, f.specificity[i]? = some 0 → i = (levels s).length - 1) ∧
    (parse s = .error .empty ↔ s = "") ∧
    (∀ e, parse s = .error e → s ≠ "" → ∃ i part, (levels s)[i]? = some part ∧
      ¬ (WildcardFree part ∨ part = "+" ∨ part = "#" ∧ i = (levels s).length - 1) ∧
      (∀ j p, j < i → (levels s)[j]? = some p →
        WildcardFree p ∨ p = "+" ∨ p = "#" ∧ j = (levels s).length - 1) ∧
      (part = "#" → e = .hashNotLast s) ∧ (part ≠ "#" → e = .invalidWildcardSegment part s)) := by
  refine ⟨?_, fun f hf => ?_, ?_, fun e he hs => ?_⟩
  · simp only [exists_parse_eq_ok_iff, specificityOf_eq_ok_iff, allAdmissible_zero,
      exists_and_left, exists_eq, and_true]
    rfl
  · obtain rfl := parse_eq_ok_iff.mp hf
    obtain ⟨-, hall, hranks⟩ := specificityOf_eq_ok_iff.mp f.parsed
    rw [allAdmissible_zero] at hall
    rw [hranks]
    refine ⟨rfl, List.length_map _, fun i part hpart => ?_, fun rank hrank => ?_, fun i hi => ?_⟩
    · rw [List.getElem?_map, hpart]
      simpa using levelRank_iff (hall i part hpart)
    · obtain ⟨part, -, rfl⟩ := List.mem_map.mp hrank
      unfold levelRank
      split_ifs <;> omega
    · obtain ⟨part, hpart, hrank⟩ := Option.map_eq_some_iff.mp (List.getElem?_map ▸ hi)
      have hadm := hall i part hpart
      obtain rfl := (levelRank_iff hadm).1.mp hrank
      -- a `#` may only stand at the last index
      rcases hadm with hfree | hplus | ⟨-, hlast⟩
      · exact absurd hfree not_wildcardFree_hash
      · exact absurd hplus (by decide)
      · exact hlast
  · rw [parse_eq_error_iff, specificityOf_eq_error_iff]
    refine ⟨?_, fun h => Or.inl ⟨h, rfl⟩⟩
    rintro (⟨hs, -⟩ | ⟨-, _, part, _, -, -, -, herr⟩)
    · exact hs
    · unfold levelError at herr
      split_ifs at herr
  · rw [parse_eq_error_iff, specificityOf_eq_error_iff] at he
    obtain ⟨hempty, -⟩ | ⟨-, before, part, after, hsplit, hbefore, hnot, rfl⟩ := he
    · exact absurd hempty hs
    refine ⟨before.length, part, by simp [hsplit], hnot, fun j p hj hp => ?_, fun hhash => ?_,
      fun hhash => ?_⟩
    · rw [hsplit, List.getElem?_append_left hj] at hp
      exact allAdmissible_zero.mp hbefore j p hp
    · rw [levelError, if_pos hhash]
    · rw [levelError, if_neg hhash]

end TopicFilter

end RosettaMq
