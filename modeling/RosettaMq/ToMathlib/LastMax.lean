import Mathlib.Data.List.Basic

/-!
# The last maximum of a list

`lastMaxOn? key l` is the element of `l` whose key is greatest, the last such element when several
keys compare equal. `List.maxOn?` differs in returning the first one.
-/

namespace List

variable {α β : Type*} [Ord β]

/-- The element with the greater key, the second one when the keys compare equal. -/
def laterMaxOn (key : α → β) (x y : α) : α :=
  if compare (key x) (key y) = .gt then x else y

/-- The last element of greatest key. -/
def lastMaxOn? (key : α → β) : List α → Option α
  | [] => none
  | a :: l => some (l.foldl (laterMaxOn key) a)

theorem laterMaxOn_eq_or (key : α → β) (x y : α) :
    laterMaxOn key x y = x ∨ laterMaxOn key x y = y := by
  unfold laterMaxOn
  split
  · exact Or.inl rfl
  · exact Or.inr rfl

theorem foldl_laterMaxOn_mem (key : α → β) (a : α) (l : List α) :
    l.foldl (laterMaxOn key) a ∈ a :: l := by
  induction l generalizing a with
  | nil => simp
  | cons b l ih =>
    rw [foldl_cons]
    -- the fold goes on from `a` or from `b`, and both are in the list
    rcases laterMaxOn_eq_or key a b with h | h <;> rw [h]
    · rcases mem_cons.mp (ih a) with hm | hm
      · rw [hm]; exact mem_cons_self
      · exact mem_cons_of_mem _ (mem_cons_of_mem _ hm)
    · exact mem_cons_of_mem _ (ih b)

@[simp] theorem lastMaxOn?_eq_none {key : α → β} {l : List α} :
    lastMaxOn? key l = none ↔ l = [] := by
  cases l <;> simp [lastMaxOn?]

theorem lastMaxOn?_mem {key : α → β} {l : List α} {a : α} (h : lastMaxOn? key l = some a) :
    a ∈ l := by
  cases l with
  | nil => cases h
  | cons b l =>
    rw [← Option.some.inj h]
    exact foldl_laterMaxOn_mem key b l

variable [Std.TransOrd β]

theorem isLE_laterMaxOn_left (key : α → β) (x y : α) :
    (compare (key x) (key (laterMaxOn key x y))).isLE := by
  unfold laterMaxOn
  split
  · simp
  · rename_i h
    cases hc : compare (key x) (key y) with
    | lt => rfl
    | eq => rfl
    | gt => exact absurd hc h

theorem isLE_laterMaxOn_right (key : α → β) (x y : α) :
    (compare (key y) (key (laterMaxOn key x y))).isLE := by
  unfold laterMaxOn
  split
  · rename_i h
    rw [Std.OrientedCmp.lt_of_gt h]
    rfl
  · simp

theorem isLE_foldl_laterMaxOn (key : α → β) (a : α) (l : List α) :
    ∀ b ∈ a :: l, (compare (key b) (key (l.foldl (laterMaxOn key) a))).isLE := by
  induction l generalizing a with
  | nil => simp
  | cons c l ih =>
    -- the result is at least the next accumulator, which is at least `a` and `c`
    have hstep := ih (laterMaxOn key a c)
    have hacc := hstep _ mem_cons_self
    intro b hb
    rw [foldl_cons]
    rcases mem_cons.mp hb with rfl | hb
    · exact Std.TransCmp.isLE_trans (isLE_laterMaxOn_left key b c) hacc
    · rcases mem_cons.mp hb with rfl | hb
      · exact Std.TransCmp.isLE_trans (isLE_laterMaxOn_right key a b) hacc
      · exact hstep b (mem_cons_of_mem _ hb)

/-- No key of the list is greater than that of the last maximum. -/
theorem isLE_of_lastMaxOn? {key : α → β} {l : List α} {a : α} (h : lastMaxOn? key l = some a) :
    ∀ b ∈ l, (compare (key b) (key a)).isLE := by
  cases l with
  | nil => cases h
  | cons b l =>
    rw [← Option.some.inj h]
    exact isLE_foldl_laterMaxOn key b l

/-- An element whose key is strictly greater than every other key is the last maximum. -/
theorem lastMaxOn?_eq_some_of_lt {key : α → β} {l : List α} {a : α} (ha : a ∈ l)
    (hlt : ∀ b ∈ l, b ≠ a → compare (key b) (key a) = .lt) : lastMaxOn? key l = some a := by
  cases hm : lastMaxOn? key l with
  | none =>
    rw [lastMaxOn?_eq_none.mp hm] at ha
    cases ha
  | some b =>
    by_contra hne
    -- `b` is less than `a` by assumption and at least `a` as the maximum
    have hlt' := hlt b (lastMaxOn?_mem hm) fun h => hne (by rw [h])
    have hle := isLE_of_lastMaxOn? hm a ha
    rw [Std.OrientedCmp.gt_of_lt hlt'] at hle
    cases hle

end List
