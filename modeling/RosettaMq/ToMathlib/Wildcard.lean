import Mathlib.Data.List.Basic
import Mathlib.Data.Set.Lattice
import Mathlib.Data.Set.Subsingleton
import Mathlib.Order.CompletePartialOrder

/-!
# Wildcard patterns

Patterns over an arbitrary alphabet `α`: each position is a fixed letter, any one letter, or, in
the last position only, any number of remaining letters. This file relates two orders on such
patterns:

* inclusion of the sets of words they match, and
* the lexicographic comparison `Pattern.cmp` of their per-position ranks (fixed letter above any
  one letter above the remaining letters).

The main result `Pattern.cmp_eq_gt_iff_of_ssubset` says when the second order follows the first:
a pattern that matches strictly fewer words compares strictly greater, except when the larger
pattern is the smaller one followed by `rest`.
-/

namespace Wildcard

variable {α : Type*}

/-- One position of a pattern. -/
inductive Token (α : Type*) where
  /-- Matches exactly this letter. -/
  | lit (a : α)
  /-- Matches any one letter. -/
  | one
  /-- Matches any number of remaining letters, including none. -/
  | rest
  deriving DecidableEq

/-- How specific a position is: a fixed letter, any one letter, the remaining letters. -/
def Token.rank : Token α → ℕ
  | .lit _ => 2
  | .one => 1
  | .rest => 0

/-- A pattern is a list of positions. -/
abbrev Pattern (α : Type*) := List (Token α)

namespace Pattern

/-- The words a pattern matches, position by position. -/
inductive Matches : Pattern α → List α → Prop where
  | nil : Matches [] []
  | lit {a : α} {p : Pattern α} {w : List α} : Matches p w → Matches (.lit a :: p) (a :: w)
  | one {a : α} {p : Pattern α} {w : List α} : Matches p w → Matches (.one :: p) (a :: w)
  | rest {w : List α} : Matches [.rest] w

/-- `rest` occurs in the last position only. -/
def WellFormed : Pattern α → Prop
  | [] => True
  | .lit _ :: p => WellFormed p
  | .one :: p => WellFormed p
  | .rest :: p => p = []

/-- The rank of each position. -/
def ranks (p : Pattern α) : List ℕ := p.map Token.rank

/-- Compare the ranks lexicographically; a proper prefix is less. -/
def cmp (p q : Pattern α) : Ordering := compare p.ranks q.ranks

/-- A pattern that stays well formed with `rest` appended has no `rest` of its own. -/
theorem WellFormed.not_mem_rest : ∀ {p : Pattern α}, WellFormed (p ++ [.rest]) → .rest ∉ p
  | [], _ => by simp
  | .lit _ :: p, h => by
      have hp : .rest ∉ p := WellFormed.not_mem_rest h
      simpa using hp
  | .one :: p, h => by
      have hp : .rest ∉ p := WellFormed.not_mem_rest h
      simpa using hp
  | .rest :: p, h => by
      have hp : p ++ [.rest] = [] := h
      simp at hp

/-! ## Matching -/

@[simp] theorem matches_nil {w : List α} : Matches [] w ↔ w = [] := by
  constructor
  · intro h; cases h; rfl
  · rintro rfl; exact .nil

@[simp] theorem matches_lit_cons {a : α} {p : Pattern α} {w : List α} :
    Matches (.lit a :: p) w ↔ ∃ v, w = a :: v ∧ Matches p v := by
  constructor
  · intro h; cases h with | lit h => exact ⟨_, rfl, h⟩
  · rintro ⟨v, rfl, h⟩; exact .lit h

@[simp] theorem matches_one_cons {p : Pattern α} {w : List α} :
    Matches (.one :: p) w ↔ ∃ a v, w = a :: v ∧ Matches p v := by
  constructor
  · intro h; cases h with | one h => exact ⟨_, _, rfl, h⟩
  · rintro ⟨a, v, rfl, h⟩; exact .one h

@[simp] theorem matches_rest_cons {p : Pattern α} {w : List α} :
    Matches (.rest :: p) w ↔ p = [] := by
  constructor
  · intro h; cases h; rfl
  · rintro rfl; exact .rest

/-- A pattern without `rest` matches words of its own length only. -/
theorem Matches.length_eq {p : Pattern α} {w : List α} (h : Matches p w)
    (hrest : .rest ∉ p) : w.length = p.length := by
  induction h with
  | nil => rfl
  | lit _ ih => simp [ih fun hm => hrest (List.mem_cons_of_mem _ hm)]
  | one _ ih => simp [ih fun hm => hrest (List.mem_cons_of_mem _ hm)]
  | rest => exact absurd (List.mem_singleton_self _) hrest

/-- A matching word followed by any further letters matches once `rest` is appended. -/
theorem Matches.append_rest {p : Pattern α} {w : List α} (h : Matches p w)
    (hrest : .rest ∉ p) (v : List α) : Matches (p ++ [.rest]) (w ++ v) := by
  induction h with
  | nil => exact .rest
  | lit _ ih => exact .lit (ih fun hm => hrest (List.mem_cons_of_mem _ hm))
  | one _ ih => exact .one (ih fun hm => hrest (List.mem_cons_of_mem _ hm))
  | rest => exact absurd (List.mem_singleton_self _) hrest

/-- A pattern of letters matches its own word only. -/
theorem matches_map_lit {v w : List α} : Matches (v.map .lit) w ↔ w = v := by
  induction v generalizing w with
  | nil => simp
  | cons a v ih =>
    rw [List.map_cons, matches_lit_cons]
    constructor
    · rintro ⟨u, rfl, hu⟩
      rw [ih.mp hu]
    · rintro rfl
      exact ⟨v, rfl, ih.mpr rfl⟩

/-- Some word over a nonempty alphabet `A` matches, when the fixed letters are drawn from `A`. -/
theorem exists_matches {A : Set α} (hA : A.Nonempty) :
    ∀ {p : Pattern α}, p.WellFormed → (∀ a, .lit a ∈ p → a ∈ A) →
      ∃ w, (∀ b ∈ w, b ∈ A) ∧ Matches p w
  | [], _, _ => ⟨[], by simp, .nil⟩
  | .lit a :: p, hwf, hlit => by
      have hp : WellFormed p := hwf
      obtain ⟨w, hw, hm⟩ := exists_matches hA hp (fun b hb => hlit b (List.mem_cons_of_mem _ hb))
      refine ⟨a :: w, ?_, .lit hm⟩
      simpa [hlit a (by simp)] using hw
  | .one :: p, hwf, hlit => by
      have hp : WellFormed p := hwf
      obtain ⟨w, hw, hm⟩ := exists_matches hA hp (fun b hb => hlit b (List.mem_cons_of_mem _ hb))
      obtain ⟨a, ha⟩ := hA
      refine ⟨a :: w, ?_, .one hm⟩
      simpa [ha] using hw
  | .rest :: p, hwf, _ => ⟨[], by simp, by rw [show p = [] from hwf]; exact .rest⟩

/-! ## Ranks -/

@[simp] theorem ranks_cons (t : Token α) (p : Pattern α) :
    ranks (t :: p) = t.rank :: ranks p := rfl

@[simp] theorem ranks_nil : ranks ([] : Pattern α) = [] := rfl

/-- At the first position where the ranks differ `p` has the higher one, or `p` only adds
positions to `q`. -/
inductive Outranks : Pattern α → Pattern α → Prop where
  | longer {t : Token α} {p : Pattern α} : Outranks (t :: p) []
  | head {t u : Token α} {p q : Pattern α} : u.rank < t.rank → Outranks (t :: p) (u :: q)
  | tail {t u : Token α} {p q : Pattern α} :
      t.rank = u.rank → Outranks p q → Outranks (t :: p) (u :: q)

theorem cmp_cons (t u : Token α) (p q : Pattern α) :
    cmp (t :: p) (u :: q) = (compare t.rank u.rank).then (cmp p q) := by
  simp only [cmp, ranks_cons, List.compare_cons_cons]

@[simp] theorem cmp_cons_self (t : Token α) (p q : Pattern α) :
    cmp (t :: p) (t :: q) = cmp p q := by
  rw [cmp_cons, compare_eq_iff_eq.mpr rfl, Ordering.eq_then]

/-- A pattern is less than itself followed by further positions. -/
theorem cmp_append_cons (p q : Pattern α) (t : Token α) : cmp p (p ++ t :: q) = .lt := by
  induction p with
  | nil => rfl
  | cons u p ih => rw [List.cons_append, cmp_cons_self, ih]

/-- `cmp` is `.gt` exactly when the left pattern outranks the right one. -/
theorem cmp_eq_gt_iff : ∀ {p q : Pattern α}, cmp p q = .gt ↔ Outranks p q
  | [], [] => by
      refine ⟨fun h => ?_, fun h => nomatch h⟩
      exact absurd h (by simp [cmp])
  | [], u :: q => by
      refine ⟨fun h => ?_, fun h => nomatch h⟩
      exact absurd h (by simp [cmp])
  | t :: p, [] => ⟨fun _ => .longer, fun _ => by simp [cmp]⟩
  | t :: p, u :: q => by
      rw [cmp_cons]
      -- a difference in the first ranks decides, otherwise the tails do
      rcases lt_trichotomy t.rank u.rank with hlt | heq | hgt
      · rw [compare_lt_iff_lt.mpr hlt]
        refine ⟨fun h => (by simp at h), fun h => ?_⟩
        cases h with
        | head h => omega
        | tail h _ => omega
      · rw [compare_eq_iff_eq.mpr heq, Ordering.eq_then, cmp_eq_gt_iff]
        refine ⟨fun h => .tail heq h, fun h => ?_⟩
        cases h with
        | head h => omega
        | tail _ h => exact h
      · rw [compare_gt_iff_gt.mpr hgt]
        exact ⟨fun _ => .head hgt, fun _ => rfl⟩

/-- Patterns of equal ranks that match a common word are equal: the word supplies the letters. -/
theorem eq_of_matches_of_cmp_eq {p q : Pattern α} {w : List α} (hp : Matches p w)
    (hq : Matches q w) (h : cmp p q = .eq) : p = q := by
  replace h : p.ranks = q.ranks := Std.LawfulEqCmp.eq_of_compare h
  induction hp generalizing q with
  | nil => cases hq with
    | nil => rfl
    | rest => simp [Token.rank] at h
  | lit _ ih => cases hq with
    | lit hq => rw [ih hq (by simpa using h)]
    | one _ => simp [Token.rank] at h
    | rest => simp [Token.rank] at h
  | one _ ih => cases hq with
    | lit _ => simp [Token.rank] at h
    | one hq => rw [ih hq (by simpa using h)]
    | rest => simp [Token.rank] at h
  | rest => cases hq with
    | nil => simp [Token.rank] at h
    | lit _ => simp [Token.rank] at h
    | one _ => simp [Token.rank] at h
    | rest => rfl

/-- A more specific first position decides the comparison. -/
theorem cmp_cons_of_lt {t u : Token α} (h : u.rank < t.rank) (p q : Pattern α) :
    cmp (t :: p) (u :: q) = .gt :=
  cmp_eq_gt_iff.mpr (.head h)

/-! ## Inclusion -/

/-- The three ways in which `p` can match no more than `q`: it is `q`, it compares greater, or `q`
is `p` followed by `rest`. -/
def Narrows (p q : Pattern α) : Prop :=
  p = q ∨ cmp p q = .gt ∨ q = p ++ [.rest]

theorem Narrows.cons {p q : Pattern α} (h : Narrows p q) (t : Token α) :
    Narrows (t :: p) (t :: q) := by
  rcases h with rfl | h | rfl
  · exact Or.inl rfl
  · exact Or.inr (Or.inl ((cmp_cons_self t p q).trans h))
  · exact Or.inr (Or.inr rfl)

/-- A pattern that starts with a letter or with `one` is compared with `q` at the first position. If
every word of it is a word of `q`, then either the first position of `q` is less specific, or it is
the same and the tails are compared. First letters are drawn from `A₀`, the others from `A`. -/
theorem cmp_eq_gt_or_exists_tail {A₀ A : Set α} (hA₀ : A₀.Nontrivial) {t : Token α}
    {p q : Pattern α} (ht : t ≠ .rest) {a : α} {v : List α} (ha : a ∈ A₀) (hv : ∀ b ∈ v, b ∈ A)
    (hm : Matches (t :: p) (a :: v))
    (hsub : ∀ a ∈ A₀, ∀ w, (∀ b ∈ w, b ∈ A) → Matches (t :: p) (a :: w) → Matches q (a :: w)) :
    cmp (t :: p) q = .gt ∨
      ∃ q', q = t :: q' ∧ ∀ w, (∀ b ∈ w, b ∈ A) → Matches p w → Matches q' w := by
  have hm' := hsub a ha v hv hm
  match t, q with
  | .rest, _ => exact absurd rfl ht
  | _, [] => exact absurd hm' (by simp)
  | .lit c, .lit b :: q =>
      -- the word shows that the letters agree
      obtain ⟨u, hu, -⟩ := matches_lit_cons.mp hm
      obtain ⟨u', hu', -⟩ := matches_lit_cons.mp hm'
      obtain rfl : a = c := (List.cons.inj hu).1
      obtain rfl : a = b := (List.cons.inj hu').1
      refine Or.inr ⟨q, rfl, fun w hw hmw => ?_⟩
      obtain ⟨u, hu, hmu⟩ := matches_lit_cons.mp (hsub a ha w hw (.lit hmw))
      rwa [(List.cons.inj hu).2]
  | .lit c, .one :: q => exact Or.inl (cmp_cons_of_lt (by simp [Token.rank]) p q)
  | .lit c, .rest :: q => exact Or.inl (cmp_cons_of_lt (by simp [Token.rank]) p q)
  | .one, .lit b :: q =>
      -- a letter other than `b` is matched by `one` only
      obtain ⟨c, hc, hcb⟩ := hA₀.exists_ne b
      obtain ⟨_, u, hu, hmu⟩ := matches_one_cons.mp hm
      obtain ⟨rfl, rfl⟩ := List.cons.inj hu
      obtain ⟨u, hu, -⟩ := matches_lit_cons.mp (hsub c hc v hv (.one hmu))
      exact absurd (List.cons.inj hu).1 hcb
  | .one, .one :: q =>
      refine Or.inr ⟨q, rfl, fun w hw hmw => ?_⟩
      obtain ⟨b, u, hu, hmu⟩ := matches_one_cons.mp (hsub a ha w hw (.one hmw))
      rwa [(List.cons.inj hu).2]
  | .one, .rest :: q => exact Or.inl (cmp_cons_of_lt (by simp [Token.rank]) p q)

/-- If over the alphabet `A` every word of `p` is a word of `q`, then `p` narrows `q`. -/
theorem narrows_of_subset {A : Set α} (hA : A.Nontrivial) :
    ∀ {p q : Pattern α}, p.WellFormed → q.WellFormed → (∀ a, .lit a ∈ p → a ∈ A) →
      (∀ w, (∀ b ∈ w, b ∈ A) → Matches p w → Matches q w) → Narrows p q
  | [], q, _, _, _, hsub => by
      -- only `[]` and `[rest]` match the empty word
      have h := hsub [] (by simp) .nil
      cases h with
      | nil => exact Or.inl rfl
      | rest => exact Or.inr (Or.inr rfl)
  | .rest :: p, q, hp, _, _, hsub => by
      obtain rfl : p = [] := hp
      obtain ⟨a, ha⟩ := hA.nonempty
      -- `q` matches the empty word and a word of one letter
      have h₀ := hsub [] (by simp) .rest
      have h₁ := hsub [a] (by simpa using ha) .rest
      cases h₀ with
      | nil => cases h₁
      | rest => exact Or.inl rfl
  | .lit a :: p, q, hp, hq, hlit, hsub => by
      replace hp : WellFormed p := hp
      have hlit' : ∀ b, .lit b ∈ p → b ∈ A := fun b hb => hlit b (List.mem_cons_of_mem _ hb)
      obtain ⟨w, hw, hm⟩ := exists_matches hA.nonempty hp hlit'
      have hne : Token.lit a ≠ .rest := by simp
      rcases cmp_eq_gt_or_exists_tail hA hne (hlit a (by simp)) hw (.lit hm)
        (fun b hb w hw => hsub (b :: w) (by simpa [hb] using hw)) with hgt | ⟨q', rfl, htail⟩
      · exact Or.inr (Or.inl hgt)
      · replace hq : WellFormed q' := hq
        exact (narrows_of_subset hA hp hq hlit' htail).cons _
  | .one :: p, q, hp, hq, hlit, hsub => by
      replace hp : WellFormed p := hp
      have hlit' : ∀ b, .lit b ∈ p → b ∈ A := fun b hb => hlit b (List.mem_cons_of_mem _ hb)
      obtain ⟨w, hw, hm⟩ := exists_matches hA.nonempty hp hlit'
      obtain ⟨a, ha⟩ := hA.nonempty
      have hne : (.one : Token α) ≠ .rest := by simp
      rcases cmp_eq_gt_or_exists_tail hA hne ha hw (.one hm)
        (fun b hb w hw => hsub (b :: w) (by simpa [hb] using hw)) with hgt | ⟨q', rfl, htail⟩
      · exact Or.inr (Or.inl hgt)
      · replace hq : WellFormed q' := hq
        exact (narrows_of_subset hA hp hq hlit' htail).cons _

/-! ## Languages of nonempty words -/

/-- Nonempty words whose first letter is in `A₀` and whose other letters are in `A`. -/
def Words (A₀ A : Set α) : Set (List α) :=
  {w | ∃ a v, w = a :: v ∧ a ∈ A₀ ∧ ∀ b ∈ v, b ∈ A}

theorem cons_mem_words {A₀ A : Set α} {a : α} {v : List α} :
    a :: v ∈ Words A₀ A ↔ a ∈ A₀ ∧ ∀ b ∈ v, b ∈ A := by
  constructor
  · rintro ⟨b, w, h, ha, hv⟩
    obtain ⟨rfl, rfl⟩ := List.cons.inj h
    exact ⟨ha, hv⟩
  · exact fun h => ⟨a, v, rfl, h⟩

/-- The words of `Words A₀ A` that a pattern matches. -/
def language (A₀ A : Set α) (p : Pattern α) : Set (List α) :=
  {w | w ∈ Words A₀ A ∧ Matches p w}

theorem mem_language {A₀ A : Set α} {p : Pattern α} {w : List α} :
    w ∈ language A₀ A p ↔ w ∈ Words A₀ A ∧ Matches p w := Iff.rfl

/-- A pattern matches some nonempty word unless its first letter is not in `A₀`. -/
theorem language_nonempty {A₀ A : Set α} (hA₀ : A₀.Nonempty) (hA : A₀ ⊆ A) {t : Token α}
    {p : Pattern α} (hwf : WellFormed (t :: p)) (hhead : ∀ a, t = .lit a → a ∈ A₀)
    (hlit : ∀ a, .lit a ∈ p → a ∈ A) : (language A₀ A (t :: p)).Nonempty := by
  obtain ⟨a, ha⟩ := hA₀
  cases t with
  | lit b =>
    have hp : WellFormed p := hwf
    obtain ⟨v, hv, hm⟩ := exists_matches ⟨a, hA ha⟩ hp hlit
    exact ⟨b :: v, cons_mem_words.mpr ⟨hhead b rfl, hv⟩, .lit hm⟩
  | one =>
    have hp : WellFormed p := hwf
    obtain ⟨v, hv, hm⟩ := exists_matches ⟨a, hA ha⟩ hp hlit
    exact ⟨a :: v, cons_mem_words.mpr ⟨ha, hv⟩, .one hm⟩
  | rest =>
    obtain rfl : p = [] := hwf
    exact ⟨[a], cons_mem_words.mpr ⟨ha, by simp⟩, .rest⟩

/-- For nonempty words there is one more case: `[rest]` and `[one, rest]` match the same ones. -/
theorem narrows_of_language_subset {A₀ A : Set α} (hA₀ : A₀.Nontrivial) (hA : A₀ ⊆ A)
    {p q : Pattern α} (hp : p.WellFormed) (hq : q.WellFormed) (hlit : ∀ a, .lit a ∈ p → a ∈ A)
    (hne : (language A₀ A p).Nonempty) (hsub : language A₀ A p ⊆ language A₀ A q) :
    Narrows p q ∨ (p = [.rest] ∧ q = [.one, .rest]) := by
  have hA' : A.Nontrivial := hA₀.mono hA
  obtain ⟨w₀, hw₀, hm₀⟩ := hne
  have hcons : ∀ a ∈ A₀, ∀ w, (∀ b ∈ w, b ∈ A) → Matches p (a :: w) → Matches q (a :: w) :=
    fun a ha w hw hm => (hsub ⟨cons_mem_words.mpr ⟨ha, hw⟩, hm⟩).2
  obtain ⟨a, v, rfl, ha, hv⟩ := hw₀
  -- behind the first letter all words over `A` are allowed, so the tails narrow as above
  match p, hp with
  | [], _ => exact absurd hm₀ (by simp)
  | .lit c :: p, hp =>
      have ht : Token.lit c ≠ .rest := by simp
      rcases cmp_eq_gt_or_exists_tail hA₀ ht ha hv hm₀ hcons with hgt | ⟨q', rfl, htail⟩
      · exact Or.inl (Or.inr (Or.inl hgt))
      · have hlit' : ∀ b, .lit b ∈ p → b ∈ A := fun b hb => hlit b (List.mem_cons_of_mem _ hb)
        replace hp : WellFormed p := hp
        replace hq : WellFormed q' := hq
        exact Or.inl ((narrows_of_subset hA' hp hq hlit' htail).cons _)
  | .one :: p, hp =>
      have ht : (.one : Token α) ≠ .rest := by simp
      rcases cmp_eq_gt_or_exists_tail hA₀ ht ha hv hm₀ hcons with hgt | ⟨q', rfl, htail⟩
      · exact Or.inl (Or.inr (Or.inl hgt))
      · have hlit' : ∀ b, .lit b ∈ p → b ∈ A := fun b hb => hlit b (List.mem_cons_of_mem _ hb)
        replace hp : WellFormed p := hp
        replace hq : WellFormed q' := hq
        exact Or.inl ((narrows_of_subset hA' hp hq hlit' htail).cons _)
  | .rest :: p, hp =>
      obtain rfl : p = [] := hp
      match q, hq with
      | [], _ => exact absurd (hcons a ha v hv hm₀) (by simp)
      | .lit b :: q, _ =>
          obtain ⟨c, hc, hcb⟩ := hA₀.exists_ne b
          obtain ⟨u, hu, -⟩ := matches_lit_cons.mp (hcons c hc v hv .rest)
          exact absurd (List.cons.inj hu).1 hcb
      | .rest :: q, hq =>
          obtain rfl : q = [] := hq
          exact Or.inl (Or.inl rfl)
      | .one :: q, _ =>
          -- after the first letter `q` has to match every word, the empty one included
          have hall : ∀ w, (∀ b ∈ w, b ∈ A) → Matches q w := fun w hw => by
            obtain ⟨b, u, hu, hmu⟩ := matches_one_cons.mp (hcons a ha w hw .rest)
            rwa [(List.cons.inj hu).2]
          have h₀ := hall [] (by simp)
          have h₁ := hall [a] (by simpa using hA ha)
          cases h₀ with
          | nil => cases h₁
          | rest => exact Or.inr ⟨rfl, rfl⟩

/-- A pattern that matches some words, and strictly fewer than `q`, compares greater than `q`
unless `q` is the pattern followed by `rest`. -/
theorem cmp_eq_gt_iff_of_ssubset {A₀ A : Set α} (hA₀ : A₀.Nontrivial) (hA : A₀ ⊆ A)
    {p q : Pattern α} (hp : p.WellFormed) (hq : q.WellFormed) (hlit : ∀ a, .lit a ∈ p → a ∈ A)
    (hne : (language A₀ A p).Nonempty) (hsub : language A₀ A p ⊂ language A₀ A q) :
    cmp p q = .gt ↔ q ≠ p ++ [.rest] := by
  constructor
  · rintro hgt rfl
    rw [cmp_append_cons] at hgt
    cases hgt
  · intro hq'
    rcases narrows_of_language_subset hA₀ hA hp hq hlit hne hsub.1 with
      (rfl | hgt | rfl) | ⟨rfl, rfl⟩
    · exact absurd hsub (ssubset_irrefl _)
    · exact hgt
    · exact absurd rfl hq'
    · -- `[one, rest]` matches no more nonempty words than `[rest]`
      exact absurd (fun w hw => ⟨hw.1, .rest⟩) hsub.2

/-- Following a pattern without `rest` by `rest` strictly enlarges its language, once one of its
words can be extended. -/
theorem language_ssubset_append_rest {A₀ A : Set α} {p : Pattern α} (hrest : .rest ∉ p)
    (hne : (language A₀ A p).Nonempty) (hA : A.Nonempty) :
    language A₀ A p ⊂ language A₀ A (p ++ [.rest]) := by
  refine ⟨fun w hw => ⟨hw.1, by simpa using hw.2.append_rest hrest []⟩, fun hsup => ?_⟩
  -- a word of `p` with one more letter is matched with `rest` appended, but is too long for `p`
  obtain ⟨w, ⟨a, v, rfl, ha, hv⟩, hm⟩ := hne
  obtain ⟨b, hb⟩ := hA
  have hlong : (a :: v) ++ [b] ∈ language A₀ A p := by
    refine hsup ⟨cons_mem_words.mpr ⟨ha, ?_⟩, hm.append_rest hrest [b]⟩
    intro c hc
    rcases List.mem_append.mp hc with hc | hc
    · exact hv c hc
    · rwa [List.mem_singleton.mp hc]
  have h₁ := hm.length_eq hrest
  have h₂ := hlong.2.length_eq hrest
  rw [List.length_append, h₁] at h₂
  simp at h₂

end Pattern

end Wildcard
