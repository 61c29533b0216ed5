import Mathlib.Data.List.Forall2
import Mathlib.Data.Option.Basic

/-!
# Association lists and partial maps over lists

`List.lookup` in a list whose entries were filtered by their keys or mapped, and when a function
that may fail succeeds on all elements of a list.
-/

namespace Option

theorem isSome_seq {α β : Type} (f : Option (α → β)) (x : Option α) :
    (f <*> x).isSome = true ↔ f.isSome = true ∧ x.isSome = true := by
  cases f <;> cases x <;> simp [Seq.seq]

theorem seq_eq_some_iff {α β : Type} {f : Option (α → β)} {x : Option α} {b : β} :
    f <*> x = some b ↔ ∃ g a, f = some g ∧ x = some a ∧ g a = b := by
  cases f <;> cases x <;> simp [Seq.seq]

end Option

namespace List

variable {α β γ : Type*}

section Lookup

variable [BEq α] [LawfulBEq α]

/-- Only entries with other keys are filtered out, or all with the key. -/
theorem lookup_filter_fst (p : α → Bool) (l : List (α × β)) (k : α) :
    (l.filter fun e => p e.1).lookup k = if p k = true then l.lookup k else none := by
  induction l with
  | nil => simp
  | cons e l ih =>
    obtain ⟨a, b⟩ := e
    by_cases hk : k = a
    · subst hk
      by_cases hp : p k = true
      · simp [hp]
      · simpa [hp] using ih
    · have hne : (k == a) = false := beq_eq_false_iff_ne.mpr hk
      by_cases hp : p a = true <;> simp [hp, lookup_cons, hne, ih]

theorem lookup_map_snd (f : α → β → γ) (l : List (α × β)) (k : α) :
    (l.map fun e => (e.1, f e.1 e.2)).lookup k = (l.lookup k).map (f k) := by
  induction l with
  | nil => rfl
  | cons e l ih =>
    obtain ⟨a, b⟩ := e
    by_cases hk : k = a
    · subst hk
      simp
    · have hne : (k == a) = false := beq_eq_false_iff_ne.mpr hk
      simp [lookup_cons, hne, ih]

omit [LawfulBEq α] in
/-- Lists with the same keys in the same order have the same keys. -/
theorem lookup_isSome_of_forall₂ {l : List (α × β)} {r : List (α × γ)}
    (h : Forall₂ (fun a b => a.1 = b.1) l r) (k : α) :
    (l.lookup k).isSome = (r.lookup k).isSome := by
  induction h with
  | nil => rfl
  | @cons a b _ _ hab _ ih =>
    rw [lookup_cons, lookup_cons, hab]
    split
    · rfl
    · exact ih

end Lookup

theorem mapM_eq_some_iff {α β : Type} {f : α → Option β} {l : List α} {r : List β} :
    l.mapM f = some r ↔ Forall₂ (fun a b => f a = some b) l r := by
  induction l generalizing r with
  | nil => cases r <;> simp
  | cons a l ih =>
    rw [mapM_cons, forall₂_cons_left_iff]
    simp only [← ih]
    cases f a with
    | none => simp
    | some b => cases l.mapM f <;> simp [eq_comm]

/-- Such a function succeeds on a list if it does on each element, whatever else is asked of the
values. -/
theorem exists_mapM_iff {α β : Type} {f : α → Option β} {l : List α} (p : β → Prop) :
    (∃ r, l.mapM f = some r ∧ ∀ b ∈ r, p b) ↔ ∀ a ∈ l, ∃ b, f a = some b ∧ p b := by
  simp only [mapM_eq_some_iff]
  induction l with
  | nil => simp
  | cons a l ih =>
    rw [forall_mem_cons, ← ih]
    constructor
    · rintro ⟨r, hr, hp⟩
      obtain ⟨b, r', hb, hr', rfl⟩ := forall₂_cons_left_iff.mp hr
      rw [forall_mem_cons] at hp
      exact ⟨⟨b, hb, hp.1⟩, r', hr', hp.2⟩
    · rintro ⟨⟨b, hb, hpb⟩, r, hr, hp⟩
      exact ⟨b :: r, .cons hb hr, forall_mem_cons.mpr ⟨hpb, hp⟩⟩

theorem isSome_mapM {α β : Type} {f : α → Option β} {l : List α} :
    (l.mapM f).isSome = true ↔ ∀ a ∈ l, (f a).isSome = true := by
  simpa [Option.isSome_iff_exists] using exists_mapM_iff (f := f) (l := l) fun _ => True

end List
