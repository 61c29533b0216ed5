import Mathlib.Data.List.Basic
import Mathlib.Logic.Function.Basic

/-!
# Splitting a string at a character

`String.splitChar c s` cuts `s` at every occurrence of `c`, keeping empty pieces, and
`String.joinChar c` glues pieces back together. The two are inverse to each other between strings
and nonempty lists of pieces that do not contain `c`.
-/

namespace List

variable {α : Type*} [BEq α] [LawfulBEq α]

/-- A piece of a split list does not contain the separator. -/
theorem not_mem_of_mem_splitOn {x : α} {xs l : List α} (h : l ∈ xs.splitOn x) : x ∉ l := by
  induction xs generalizing l with
  | nil =>
    rw [splitOn_nil, mem_singleton] at h
    rw [h]
    exact not_mem_nil
  | cons y ys ih =>
    rw [splitOn_cons_eq_if_modifyHead] at h
    split at h
    · rcases mem_cons.mp h with rfl | h
      · exact not_mem_nil
      · exact ih h
    · rename_i hne
      -- `y` is put in front of the first piece of the rest
      obtain ⟨z, zs, hz⟩ := exists_cons_of_ne_nil (splitOn_ne_nil x ys)
      rw [hz, modifyHead_cons] at h
      rcases mem_cons.mp h with rfl | h
      · have hzx := ih (by rw [hz]; exact mem_cons_self)
        intro hm
        rcases mem_cons.mp hm with rfl | hm
        · exact hne (by simp)
        · exact hzx hm
      · exact ih (by rw [hz]; exact mem_cons_of_mem _ h)

/-- Any other element of a list is in one of the pieces. -/
theorem exists_mem_splitOn {x y : α} {xs : List α} (hy : y ≠ x) (h : y ∈ xs) :
    ∃ l ∈ xs.splitOn x, y ∈ l := by
  induction xs with
  | nil => cases h
  | cons z zs ih =>
    obtain ⟨p, ps, hp⟩ := exists_cons_of_ne_nil (splitOn_ne_nil x zs)
    rw [splitOn_cons_eq_if_modifyHead]
    rw [hp] at ih ⊢
    split
    · -- `y` is not the separator `z`
      rename_i hzx
      rcases mem_cons.mp h with rfl | h
      · exact absurd (beq_iff_eq.mp hzx) hy
      · obtain ⟨l, hl, hyl⟩ := ih h
        exact ⟨l, mem_cons_of_mem _ hl, hyl⟩
    · rw [modifyHead_cons]
      rcases mem_cons.mp h with rfl | h
      · exact ⟨_, mem_cons_self, mem_cons_self⟩
      · obtain ⟨l, hl, hyl⟩ := ih h
        rcases mem_cons.mp hl with rfl | hl
        · exact ⟨_, mem_cons_self, mem_cons_of_mem _ hyl⟩
        · exact ⟨l, mem_cons_of_mem _ hl, hyl⟩

end List

namespace String

/-- Cut `s` at every `c`, keeping empty pieces. -/
def splitChar (c : Char) (s : String) : List String :=
  (s.toList.splitOn c).map String.ofList

/-- Glue pieces together with `c` between them. -/
def joinChar (c : Char) (ws : List String) : String :=
  String.ofList ([c].intercalate (ws.map String.toList))

theorem splitChar_ne_nil (c : Char) (s : String) : s.splitChar c ≠ [] := by
  simp [splitChar, List.splitOn_ne_nil]

/-- A piece does not contain the separator. -/
theorem not_mem_of_mem_splitChar {c : Char} {s w : String} (h : w ∈ s.splitChar c) :
    c ∉ w.toList := by
  obtain ⟨l, hl, rfl⟩ := List.mem_map.mp h
  rw [String.toList_ofList]
  exact List.not_mem_of_mem_splitOn hl

/-- Any other character of a string is in one of the pieces. -/
theorem exists_mem_splitChar {c d : Char} {s : String} (hd : d ≠ c) (h : d ∈ s.toList) :
    ∃ w ∈ s.splitChar c, d ∈ w.toList := by
  obtain ⟨l, hl, hdl⟩ := List.exists_mem_splitOn hd h
  exact ⟨String.ofList l, List.mem_map_of_mem hl, by rwa [String.toList_ofList]⟩

@[simp] theorem map_toList_splitChar (c : Char) (s : String) :
    (s.splitChar c).map String.toList = s.toList.splitOn c := by
  simp [splitChar, Function.comp_def]

theorem joinChar_splitChar (c : Char) (s : String) : joinChar c (s.splitChar c) = s := by
  rw [joinChar, map_toList_splitChar, List.intercalate_splitOn, String.ofList_toList]

theorem joinChar_cons_cons (c : Char) (v w : String) (ws : List String) :
    joinChar c (v :: w :: ws) = v ++ String.ofList [c] ++ joinChar c (w :: ws) := by
  simp [← String.toList_inj, joinChar, List.intercalate_cons_cons]

theorem splitChar_joinChar {c : Char} {ws : List String} (hws : ws ≠ [])
    (h : ∀ w ∈ ws, c ∉ w.toList) : (joinChar c ws).splitChar c = ws := by
  have hmap : ∀ l ∈ ws.map String.toList, c ∉ l := by
    intro l hl
    obtain ⟨w, hw, rfl⟩ := List.mem_map.mp hl
    exact h w hw
  rw [splitChar, joinChar, String.toList_ofList,
    List.splitOn_intercalate c hmap (by simpa using hws), List.map_map]
  simp [Function.comp_def]

/-- A string is determined by its pieces. -/
theorem splitChar_injective (c : Char) : Function.Injective (splitChar c) :=
  Function.LeftInverse.injective (joinChar_splitChar c)

/-- The pieces of two strings glued with the separator are those of the one and of the other. -/
theorem splitChar_append (c : Char) (s t : String) :
    (s ++ String.ofList [c] ++ t).splitChar c = s.splitChar c ++ t.splitChar c := by
  simp [splitChar, List.splitOn_append_cons_self]

theorem splitChar_eq_singleton {c : Char} {s : String} (h : c ∉ s.toList) :
    s.splitChar c = [s] := by
  simp [splitChar, List.splitOn_eq_singleton h]

/-- Unless it is the separator, the first character of a string is that of its first piece. -/
theorem head?_of_splitChar_eq_cons {c d : Char} {s w : String} {ws : List String} (hcd : d ≠ c)
    (h : s.splitChar c = w :: ws) : s.toList.head? = some d ↔ w.toList.head? = some d := by
  have hs : s.toList = [c].intercalate (w.toList :: ws.map String.toList) := by
    have hj := congrArg String.toList (joinChar_splitChar c s)
    rw [h, joinChar, String.toList_ofList] at hj
    exact hj.symm
  cases ws with
  | nil => rw [hs]; simp
  | cons v vs =>
    rw [hs, List.map_cons, List.intercalate_cons_cons]
    -- when the first piece is empty, `s` starts with the separator, which is not `d`
    cases w.toList with
    | nil => simpa using fun hdc => hcd hdc.symm
    | cons e es => simp

end String
