import Mathlib.Computability.Language

/-!
# Prefix codes

A language is a prefix code if no word of it is empty or begins another word. A text over such a
code, an element of the Kleene star, is read from the left without looking ahead: what follows a
text is a text itself exactly if the whole is one (`Language.IsPrefixCode.append_mem_kstar_iff`).
So a reader that stops where no word begins has read the longest text that there is
(`Language.IsPrefixCode.isPrefix_of_stuck`), and the whole can still be completed to a text exactly
if what is left begins a word (`Language.IsPrefixCode.exists_append_mem_kstar_iff`).
-/

open Computability

namespace Language

variable {α : Type*} {l : Language α} {w x y z : List α}

/-- No word is empty and no word begins another one. -/
structure IsPrefixCode (l : Language α) : Prop where
  nil_notMem : [] ∉ l
  eq_of_isPrefix : ∀ {v w}, v ∈ l → w ∈ l → v <+: w → v = w

/-- No word of the language begins this list. -/
def Stuck (l : Language α) (x : List α) : Prop := ∀ w ∈ l, ¬ w <+: x

/-- No word of the language begins this list or begins with it. -/
def Clashes (l : Language α) (x : List α) : Prop := ∀ w ∈ l, ¬ w <+: x ∧ ¬ x <+: w

/-- After a list that clashes with all words, nothing can make a word begin. -/
theorem Clashes.stuck (h : l.Clashes x) (y : List α) : l.Stuck (x ++ y) := by
  intro w hw hpre
  rcases List.prefix_or_prefix_of_prefix hpre (List.prefix_append x y) with hwx | hxw
  · exact (h w hw).1 hwx
  · exact (h w hw).2 hxw

/-- A word followed by a text is a text. -/
theorem append_mem_kstar (hw : w ∈ l) (hx : x ∈ l∗) : w ++ x ∈ l∗ := by
  obtain ⟨ws, rfl, hws⟩ := hx
  exact ⟨w :: ws, rfl, List.forall_mem_cons.mpr ⟨hw, hws⟩⟩

/-- A text is empty, or a word followed by a text. -/
theorem mem_kstar_cases (hx : x ∈ l∗) :
    x = [] ∨ ∃ w ∈ l, ∃ y ∈ l∗, x = w ++ y := by
  obtain ⟨ws, rfl, hws⟩ := hx
  cases ws with
  | nil => exact Or.inl rfl
  | cons w ws =>
    rw [List.forall_mem_cons] at hws
    exact Or.inr ⟨w, hws.1, ws.flatten, ⟨ws, rfl, hws.2⟩, rfl⟩

namespace IsPrefixCode

/-- Only one word begins a list. -/
theorem eq_of_isPrefix_of_isPrefix (h : l.IsPrefixCode) (hw : w ∈ l) (hz : z ∈ l)
    (hwx : w <+: x) (hzx : z <+: x) : w = z := by
  rcases List.prefix_or_prefix_of_prefix hwx hzx with hpre | hpre
  · exact h.eq_of_isPrefix hw hz hpre
  · exact (h.eq_of_isPrefix hz hw hpre).symm

/-- No word begins a part of a word. -/
theorem stuck_of_isPrefix (h : l.IsPrefixCode) (hw : w ∈ l) (hpre : x <+: w) (hne : x ≠ w) :
    l.Stuck x := by
  intro v hv hvx
  have hvw : v = w := h.eq_of_isPrefix hv hw (hvx.trans hpre)
  rw [hvw] at hvx
  exact hne (hpre.eq_of_length_le hvx.length_le)

/-- What follows a word of a text is a text. -/
theorem of_append_mem_kstar (h : l.IsPrefixCode) (hw : w ∈ l) (hwx : w ++ x ∈ l∗) :
    x ∈ l∗ := by
  rcases mem_kstar_cases hwx with hnil | ⟨v, hv, y, hy, heq⟩
  · rw [List.append_eq_nil_iff] at hnil
    exact absurd (hnil.1 ▸ hw) h.nil_notMem
  · -- the word that the text begins with is `w`
    have hvw : v = w := h.eq_of_isPrefix_of_isPrefix hv hw ⟨y, heq.symm⟩ ⟨x, rfl⟩
    rw [hvw] at heq
    rwa [List.append_cancel_left heq]

/-- What follows a text is a text exactly if both together are one. -/
theorem append_mem_kstar_iff (h : l.IsPrefixCode) (hx : x ∈ l∗) : x ++ y ∈ l∗ ↔ y ∈ l∗ := by
  obtain ⟨ws, rfl, hws⟩ := hx
  induction ws with
  | nil => rfl
  | cons w ws ih =>
    rw [List.forall_mem_cons] at hws
    rw [List.flatten_cons, List.append_assoc, ← ih hws.2]
    exact ⟨h.of_append_mem_kstar hws.1, append_mem_kstar hws.1⟩

/-- Where no word begins, the text before is the longest one. -/
theorem isPrefix_of_stuck (h : l.IsPrefixCode) (hx : x ∈ l∗) (hy : l.Stuck y) (hz : z ∈ l∗)
    (hpre : z <+: x ++ y) : z <+: x := by
  rcases List.prefix_or_prefix_of_prefix hpre (List.prefix_append x y) with hzx | ⟨t, rfl⟩
  · exact hzx
  · rw [List.prefix_append_right_inj] at hpre
    rw [h.append_mem_kstar_iff hx] at hz
    -- a longer text would have a word where none begins
    rcases mem_kstar_cases hz with rfl | ⟨w, hw, r, -, rfl⟩
    · rw [List.append_nil]
    · exact absurd ((List.prefix_append w r).trans hpre) (hy w hw)

/-- Where no word begins, the list can be completed to a text exactly if the rest begins a
word. -/
theorem exists_append_mem_kstar_iff (h : l.IsPrefixCode) (hx : x ∈ l∗) (hy : l.Stuck y)
    (hne : y ≠ []) : (∃ z, x ++ y ++ z ∈ l∗) ↔ ∃ w ∈ l, y <+: w := by
  constructor
  · rintro ⟨z, hz⟩
    rw [List.append_assoc, h.append_mem_kstar_iff hx] at hz
    rcases mem_kstar_cases hz with hnil | ⟨w, hw, r, -, heq⟩
    · exact absurd (List.append_eq_nil_iff.mp hnil).1 hne
    · rcases List.prefix_or_prefix_of_prefix (heq ▸ List.prefix_append w r)
        (List.prefix_append y z) with hwy | hyw
      · exact absurd hwy (hy w hw)
      · exact ⟨w, hw, hyw⟩
  · rintro ⟨w, hw, z, rfl⟩
    refine ⟨z, ?_⟩
    rw [List.append_assoc, h.append_mem_kstar_iff hx, ← List.append_nil (y ++ z)]
    exact append_mem_kstar hw (nil_mem_kstar l)

end IsPrefixCode

end Language
