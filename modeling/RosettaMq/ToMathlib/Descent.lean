import Mathlib.Data.List.Chain
import Mathlib.Logic.Relation

/-!
# Relations that descend

A step relation descends if every step from a state with an invariant keeps the invariant and makes
a number smaller. Then that number bounds the length of every run (`Relation.Descends.length_le`),
and every state with the invariant has a run to a state that no step leaves
(`Relation.Descends.exists_final`).
-/

namespace Relation

variable {α : Type*} {r : α → α → Prop} {p : α → Prop} {f : α → ℕ} {a b : α} {l : List α}

/-- No step leaves this state. -/
def Final (r : α → α → Prop) (a : α) : Prop := ∀ b, ¬ r a b

/-- A step that changes the state. -/
def Proper (r : α → α → Prop) (a b : α) : Prop := r a b ∧ b ≠ a

/-- Steps from states with `p` lead to states with `p` and make `f` smaller. -/
structure Descends (r : α → α → Prop) (p : α → Prop) (f : α → ℕ) : Prop where
  keeps : ∀ {a b}, p a → r a b → p b
  lt : ∀ {a b}, p a → r a b → f b < f a

namespace Descends

/-- A run keeps the invariant. -/
theorem of_run (h : Descends r p f) (ha : p a) (hrun : ReflTransGen r a b) : p b := by
  induction hrun with
  | refl => exact ha
  | tail _ hstep ih => exact h.keeps ih hstep

/-- A run has at most as many steps as `f` says at its start. -/
theorem length_le (h : Descends r p f) (ha : p a) (hl : (a :: l).IsChain r) :
    l.length ≤ f a := by
  induction l generalizing a with
  | nil => exact Nat.zero_le _
  | cons b l ih =>
    rw [List.isChain_cons_cons] at hl
    have hlt : f b < f a := h.lt ha hl.1
    have hle : l.length ≤ f b := ih (h.keeps ha hl.1) hl.2
    rw [List.length_cons]
    omega

/-- From every state there is a run that cannot be continued. -/
theorem exists_final (h : Descends r p f) (ha : p a) :
    ∃ b, ReflTransGen r a b ∧ Final r b := by
  induction hn : f a using Nat.strongRecOn generalizing a with
  | _ n ih =>
    by_cases hfinal : Final r a
    · exact ⟨a, .refl, hfinal⟩
    · unfold Final at hfinal
      push Not at hfinal
      obtain ⟨b, hb⟩ := hfinal
      obtain ⟨c, hrun, hc⟩ := ih (f b) (hn ▸ h.lt ha hb) (h.keeps ha hb) rfl
      exact ⟨c, .head hb hrun, hc⟩

end Descends

end Relation
