import Mathlib.Data.List.Induction
import Mathlib.Data.List.Nodup
import Mathlib.Data.List.Perm.Subperm

/-!
# Interleavings of several lists

A list whose entries are tagged by numbers is split into its parts, one for each tag
(`List.part`). A list is an interleaving of several lists if its entries can be tagged so that
these are its parts (`List.IsInterleaving`).
-/

namespace List

variable {α β : Type*} {i j : ℕ} {l l' : List (ℕ × α)}

/-- The entries with tag `i`, in order. -/
def part (i : ℕ) (l : List (ℕ × α)) : List α := (l.filter (·.1 == i)).map (·.2)

@[simp] theorem part_append : part i (l ++ l') = part i l ++ part i l' := by
  simp [part]

/-- Entries that all have the tag `i`. -/
@[simp] theorem part_map_self (as : List α) : part i (as.map (i, ·)) = as := by
  induction as with
  | nil => rfl
  | cons a as ih => simpa [part] using ih

/-- Entries that all have another tag. -/
theorem part_map_of_ne (h : i ≠ j) (as : List α) : part i (as.map (j, ·)) = [] := by
  induction as with
  | nil => rfl
  | cons a as ih => simp [part, h.symm]

theorem mem_part {a : α} : a ∈ part i l ↔ (i, a) ∈ l := by
  simp [part]

/-- When every part has at most one entry, no tag occurs twice. -/
theorem nodup_map_fst (h : ∀ i, (part i l).length ≤ 1) : (l.map (·.1)).Nodup := by
  rw [nodup_iff_count_le_one]
  intro i
  refine Nat.le_trans (Nat.le_of_eq ?_) (h i)
  rw [part, length_map, count, countP_map, countP_eq_length_filter]
  rfl

/-- `l` is an interleaving of the lists `parts`: it can be tagged so that the entries tagged `i` are
the list at index `i`. -/
def IsInterleaving (parts : List (List α)) (l : List α) : Prop :=
  ∃ tagged : List (ℕ × α), tagged.map (·.2) = l ∧ ∀ i, tagged.part i = parts.getD i []

/-- A tagged list is an interleaving of its parts, when its tags are below `n`. -/
theorem isInterleaving_part {n : ℕ} (h : ∀ i, n ≤ i → l.part i = []) :
    IsInterleaving ((range n).map (l.part ·)) (l.map (·.2)) := by
  refine ⟨l, rfl, fun i => ?_⟩
  by_cases hi : i < n
  · simp [List.getD, hi]
  · rw [h i (Nat.le_of_not_lt hi)]
    simp [List.getD, hi]

/-- Gathering by index, where the list at an index depends on the entry there. -/
theorem flatMap_range_eq (f : ℕ → List β) (g : α → List β) (as : List α)
    (h : ∀ i a, as[i]? = some a → f i = g a) : (range as.length).flatMap f = as.flatMap g := by
  -- from the right, so that the indices of the first entries stay as they are
  induction as using List.reverseRecOn with
  | nil => rfl
  | append_singleton as a ih =>
    have ih' : (range as.length).flatMap f = as.flatMap g := ih fun i b hb => h i b <| by
      rw [getElem?_append_left (getElem?_eq_some_iff.mp hb).1, hb]
    rw [length_append, length_singleton, range_succ, flatMap_append, flatMap_append, ih']
    simp [h as.length a (by simp)]

/-! ## Entries by their indices -/

/-- The indices of the entries that satisfy `p`. -/
def indicesOf (p : α → Bool) (as : List α) : List ℕ :=
  (range as.length).filter fun i => as[i]?.any p

theorem mem_indicesOf {p : α → Bool} {as : List α} :
    i ∈ as.indicesOf p ↔ ∃ a, as[i]? = some a ∧ p a = true := by
  rw [indicesOf, mem_filter, mem_range, Option.any_eq_true]
  constructor
  · rintro ⟨-, a, ha, hp⟩
    exact ⟨a, ha, hp⟩
  · rintro ⟨a, ha, hp⟩
    exact ⟨(getElem?_eq_some_iff.mp ha).1, a, ha, hp⟩

theorem nodup_indicesOf (p : α → Bool) (as : List α) : (as.indicesOf p).Nodup :=
  nodup_range.filter _

/-- The entries at these indices are those that satisfy `p`. -/
theorem filterMap_indicesOf (p : α → Bool) (as : List α) :
    (as.indicesOf p).filterMap (as[·]?) = as.filter p := by
  rw [indicesOf, filterMap_filter, ← filterMap_eq_filter, filterMap_eq_flatMap_toList,
    filterMap_eq_flatMap_toList]
  refine flatMap_range_eq _ _ as fun i a ha => ?_
  rw [ha]
  cases hp : p a <;> simp [hp, Option.guard]

/-- Different indices of entries that satisfy `p` give a part of these entries. -/
theorem subperm_of_subset_indicesOf {p : α → Bool} {as : List α} {ids : List ℕ}
    (hids : ids.Nodup) (h : ids ⊆ as.indicesOf p) :
    ids.filterMap (as[·]?) <+~ as.filter p := by
  obtain ⟨l, hperm, hsub⟩ := subperm_of_subset hids h
  rw [← filterMap_indicesOf]
  exact ⟨l.filterMap (as[·]?), hperm.filterMap _, hsub.filterMap _⟩

/-- All of them give all of these entries. -/
theorem perm_of_mem_iff_indicesOf {p : α → Bool} {as : List α} {ids : List ℕ}
    (hids : ids.Nodup) (h : ∀ i, i ∈ ids ↔ i ∈ as.indicesOf p) :
    (ids.filterMap (as[·]?)).Perm (as.filter p) := by
  rw [← filterMap_indicesOf]
  exact ((perm_ext_iff_of_nodup hids (nodup_indicesOf p as)).mpr h).filterMap _

end List
