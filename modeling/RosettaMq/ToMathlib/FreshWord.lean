import RosettaMq.ToMathlib.Wildcard

/-!
# Witness words of a wildcard pattern

`Pattern.fill c n p` is the word that a pattern `p` matches when every `one` stands for the letter
`c` and `rest` for `n` letters `c`. With a letter `c` that no pattern in question names, it shows
which patterns outrank `p` on every word of `p`:

* `Pattern.cases_of_outranks`: a pattern that matches the word and outranks `p` is `p` followed by
  `rest`, or has some positions `one` in the place of the `rest` of `p`;
* `Pattern.Matches.append_ones`, `Pattern.Matches.append_ones_rest`: the latter patterns match every
  long enough word of `p`.
-/

namespace Wildcard

variable {α : Type*}

/-- The letters a position stands for in a witness word. -/
def Token.fill (c : α) (n : ℕ) : Token α → List α
  | .lit a => [a]
  | .one => [c]
  | .rest => List.replicate n c

namespace Pattern

/-- The witness word of a pattern. -/
def fill (c : α) (n : ℕ) (p : Pattern α) : List α := p.flatMap (Token.fill c n)

variable {c : α} {n k : ℕ} {p q r : Pattern α} {w u v : List α}

@[simp] theorem fill_nil : fill c n ([] : Pattern α) = [] := rfl

@[simp] theorem fill_lit_cons (a : α) : fill c n (.lit a :: p) = a :: fill c n p := rfl

@[simp] theorem fill_one_cons : fill c n (.one :: p) = c :: fill c n p := rfl

@[simp] theorem fill_rest : fill c n ([.rest] : Pattern α) = List.replicate n c := by
  simp [fill, Token.fill]

@[simp] theorem fill_append : fill c n (p ++ q) = fill c n p ++ fill c n q :=
  List.flatMap_append

theorem mem_fill {a : α} (h : a ∈ fill c n p) : a = c ∨ .lit a ∈ p := by
  obtain ⟨t, ht, ha⟩ := List.mem_flatMap.mp h
  cases t with
  | lit b => rw [List.mem_singleton.mp ha]; exact Or.inr ht
  | one => exact Or.inl (List.mem_singleton.mp ha)
  | rest => exact Or.inl (List.eq_of_mem_replicate ha)

theorem length_fill (hrest : .rest ∉ p) : (fill c n p).length = p.length := by
  induction p with
  | nil => rfl
  | cons t p ih =>
    have ih := ih fun h => hrest (List.mem_cons_of_mem _ h)
    cases t with
    | lit a => rw [fill_lit_cons, List.length_cons, List.length_cons, ih]
    | one => rw [fill_one_cons, List.length_cons, List.length_cons, ih]
    | rest => exact absurd List.mem_cons_self hrest

/-- Only the last position of a well-formed pattern is `rest`. -/
theorem WellFormed.not_mem_of_append_cons {t : Token α} :
    ∀ {p : Pattern α}, WellFormed (p ++ t :: q) → .rest ∉ p
  | [], _ => List.not_mem_nil
  | .lit _ :: p, h => by
      have hp : .rest ∉ p := WellFormed.not_mem_of_append_cons h
      simpa using hp
  | .one :: p, h => by
      have hp : .rest ∉ p := WellFormed.not_mem_of_append_cons h
      simpa using hp
  | .rest :: p, h => by
      have hp : p ++ t :: q = [] := h
      simp at hp

/-- A first part of a well-formed pattern is well formed. -/
theorem WellFormed.of_append : ∀ {p : Pattern α}, WellFormed (p ++ q) → WellFormed p
  | [], _ => trivial
  | .lit _ :: p, h => WellFormed.of_append (p := p) h
  | .one :: p, h => WellFormed.of_append (p := p) h
  | .rest :: p, h => by
      have hp : p ++ q = [] := h
      exact (List.append_eq_nil_iff.mp hp).1

/-- A pattern matches its witness words. -/
theorem matches_fill : ∀ {p : Pattern α}, p.WellFormed → Matches p (fill c n p)
  | [], _ => .nil
  | .lit _ :: p, h => .lit (matches_fill (p := p) h)
  | .one :: p, h => .one (matches_fill (p := p) h)
  | .rest :: p, h => by
      obtain rfl : p = [] := h
      exact .rest

/-! ## Patterns in two parts -/

/-- A pattern without `rest` followed by another one matches the words in two such parts. -/
theorem matches_append (hrest : .rest ∉ p) :
    Matches (p ++ q) w ↔ ∃ u v, w = u ++ v ∧ Matches p u ∧ Matches q v := by
  induction p generalizing w with
  | nil => simp
  | cons t p ih =>
    have ih' : ∀ w', Matches (p ++ q) w' ↔ ∃ u v, w' = u ++ v ∧ Matches p u ∧ Matches q v :=
      fun w' => ih fun h => hrest (List.mem_cons_of_mem _ h)
    cases t with
    | lit a =>
      rw [List.cons_append, matches_lit_cons]
      constructor
      · rintro ⟨_, rfl, h⟩
        obtain ⟨u, v, rfl, hu, hv⟩ := (ih' _).mp h
        exact ⟨a :: u, v, rfl, .lit hu, hv⟩
      · rintro ⟨_, v, rfl, hu, hv⟩
        obtain ⟨u, rfl, hu'⟩ := matches_lit_cons.mp hu
        exact ⟨u ++ v, rfl, (ih' _).mpr ⟨u, v, rfl, hu', hv⟩⟩
    | one =>
      rw [List.cons_append, matches_one_cons]
      constructor
      · rintro ⟨b, _, rfl, h⟩
        obtain ⟨u, v, rfl, hu, hv⟩ := (ih' _).mp h
        exact ⟨b :: u, v, rfl, .one hu, hv⟩
      · rintro ⟨_, v, rfl, hu, hv⟩
        obtain ⟨b, u, rfl, hu'⟩ := matches_one_cons.mp hu
        exact ⟨b, u ++ v, rfl, (ih' _).mpr ⟨u, v, rfl, hu', hv⟩⟩
    | rest => exact absurd List.mem_cons_self hrest

/-- Positions `one` match as many letters, whatever these are. -/
theorem matches_replicate_one : Matches (List.replicate k .one) v ↔ v.length = k := by
  induction k generalizing v with
  | zero => simp
  | succ k ih =>
    rw [List.replicate_succ, matches_one_cons]
    constructor
    · rintro ⟨a, v, rfl, h⟩
      rw [List.length_cons, ih.mp h]
    · intro h
      obtain ⟨a, v, rfl⟩ := List.exists_cons_of_length_eq_add_one h
      exact ⟨a, v, rfl, ih.mpr (by simpa using h)⟩

/-- A word of `p` and `k` more letters is a word of `p` followed by `k` positions `one`. -/
theorem Matches.append_ones (h : Matches p u) (hrest : .rest ∉ p) (hv : v.length = k) :
    Matches (p ++ List.replicate k .one) (u ++ v) :=
  (matches_append hrest).mpr ⟨u, v, rfl, h, matches_replicate_one.mpr hv⟩

/-- A word of `p` and at least `k` more letters is a word of `p` followed by `k` positions `one` and
`rest`. -/
theorem Matches.append_ones_rest (h : Matches p u) (hrest : .rest ∉ p) (hv : k ≤ v.length) :
    Matches (p ++ List.replicate k .one ++ [.rest]) (u ++ v) := by
  have hlen : (v.take k).length = k := by rw [List.length_take, Nat.min_eq_left hv]
  have hm := (h.append_ones hrest hlen).append_rest (by simp [hrest]) (v.drop k)
  rwa [List.append_assoc u, List.take_append_drop] at hm

/-! ## What outranks a pattern on its witness word -/

theorem Outranks.cons_iff {t : Token α} : Outranks (t :: p) (t :: q) ↔ Outranks p q := by
  rw [← cmp_eq_gt_iff, cmp_cons_self, cmp_eq_gt_iff]

theorem outranks_append_left : Outranks (r ++ p) (r ++ q) ↔ Outranks p q := by
  induction r with
  | nil => rfl
  | cons t r ih => rw [List.cons_append, List.cons_append, Outranks.cons_iff, ih]

/-- Positions `one` in the place of `rest` outrank it. -/
theorem outranks_ones (hk : 0 < k) :
    Outranks (p ++ List.replicate k .one ++ q) (p ++ [.rest]) := by
  rw [List.append_assoc, outranks_append_left]
  obtain ⟨k, rfl⟩ := Nat.exists_eq_succ_of_ne_zero hk.ne'
  exact .head Nat.zero_lt_one

/-- A pattern that does not name `c` and matches a word of letters `c` only consists of positions
`one`, with `rest` behind these if they are fewer. -/
theorem eq_ones_of_matches_replicate (hq : q.WellFormed) (hc : .lit c ∉ q)
    (h : Matches q (List.replicate n c)) :
    q = List.replicate n .one ∨ ∃ k ≤ n, q = List.replicate k .one ++ [.rest] := by
  induction n generalizing q with
  | zero =>
    cases h with
    | nil => exact Or.inl rfl
    | rest => exact Or.inr ⟨0, Nat.le_refl 0, rfl⟩
  | succ n ih =>
    rw [List.replicate_succ] at h
    cases h with
    | lit h => exact absurd List.mem_cons_self hc
    | @one _ q _ h =>
      replace hq : WellFormed q := hq
      rcases ih hq (fun hm => hc (List.mem_cons_of_mem _ hm)) h with rfl | ⟨k, hk, rfl⟩
      · exact Or.inl rfl
      · exact Or.inr ⟨k + 1, Nat.succ_le_succ hk, rfl⟩
    | rest => exact Or.inr ⟨0, Nat.zero_le _, rfl⟩

/-- A pattern that does not name `c`, matches a witness word of `p` and outranks `p` is `p` followed
by `rest`, or has positions `one` in the place of the `rest` of `p`. -/
theorem cases_of_outranks (hp : p.WellFormed) (hq : q.WellFormed) (hc : .lit c ∉ q)
    (hm : Matches q (fill c n p)) (hout : Outranks q p) :
    q = p ++ [.rest] ∨ ∃ r, p = r ++ [.rest] ∧
      (0 < n ∧ q = r ++ List.replicate n .one ∨
        ∃ k, 0 < k ∧ k ≤ n ∧ q = r ++ List.replicate k .one ++ [.rest]) := by
  induction p generalizing q with
  | nil =>
    -- only `[rest]` outranks `[]` on the empty word
    cases hm with
    | nil => cases hout
    | rest => exact Or.inl rfl
  | cons t p ih =>
    -- a common first position, and the result for the tails
    have tail : ∀ {q' : Pattern α}, WellFormed p → WellFormed q' → .lit c ∉ q' →
        Matches q' (fill c n p) → Outranks (t :: q') (t :: p) →
        t :: q' = t :: p ++ [.rest] ∨ ∃ r, t :: p = r ++ [.rest] ∧
          (0 < n ∧ t :: q' = r ++ List.replicate n .one ∨
            ∃ k, 0 < k ∧ k ≤ n ∧ t :: q' = r ++ List.replicate k .one ++ [.rest]) := by
      intro q' hp hq hc hm hout
      rcases ih hp hq hc hm (Outranks.cons_iff.mp hout) with rfl | ⟨r, rfl, hr⟩
      · exact Or.inl rfl
      · refine Or.inr ⟨t :: r, rfl, ?_⟩
        rcases hr with ⟨hn, rfl⟩ | ⟨k, hk, hkn, rfl⟩
        · exact Or.inl ⟨hn, rfl⟩
        · exact Or.inr ⟨k, hk, hkn, rfl⟩
    cases t with
    | lit a =>
      rw [fill_lit_cons] at hm
      cases hm with
      | lit hm => exact tail hp hq (fun h => hc (List.mem_cons_of_mem _ h)) hm hout
      -- a wildcard does not outrank a letter
      | one => rw [← cmp_eq_gt_iff, cmp_cons] at hout; cases hout
      | rest => rw [← cmp_eq_gt_iff, cmp_cons] at hout; cases hout
    | one =>
      rw [fill_one_cons] at hm
      cases hm with
      | lit => exact absurd List.mem_cons_self hc
      | one hm => exact tail hp hq (fun h => hc (List.mem_cons_of_mem _ h)) hm hout
      | rest => rw [← cmp_eq_gt_iff, cmp_cons] at hout; cases hout
    | rest =>
      obtain rfl : p = [] := hp
      rw [fill_rest] at hm
      refine Or.inr ⟨[], rfl, ?_⟩
      rcases eq_ones_of_matches_replicate hq hc hm with rfl | ⟨k, hk, rfl⟩
      · refine Or.inl ⟨Nat.pos_of_ne_zero ?_, rfl⟩
        rintro rfl
        cases hout
      · refine Or.inr ⟨k, Nat.pos_of_ne_zero ?_, hk, rfl⟩
        rintro rfl
        -- `[rest]` does not outrank itself
        rw [← cmp_eq_gt_iff, List.replicate_zero, List.nil_append, cmp_cons_self] at hout
        cases hout

end Pattern

end Wildcard
