import RosettaMq.ToMathlib.SplitChar
import Mathlib.Data.List.DropRight

/-!
# Paths of files

The paths of a Unix system as texts: joining two of them, the parent of one, and the file that the
system finds for one. Empty segments and the segment `.` lead nowhere, so what is found depends on
the names of the joined paths only (`UnixPath.lookup_join`).
-/

namespace UnixPath

/-- The pieces between the separators. -/
def segments (path : String) : List String := path.splitChar '/'

/-- Whether a segment leads anywhere. -/
def IsName (segment : String) : Prop := segment ≠ "" ∧ segment ≠ "."

instance (segment : String) : Decidable (IsName segment) := inferInstanceAs (Decidable (_ ∧ _))

/-- The segments that lead somewhere. -/
def names (path : String) : List String := (segments path).filter fun s => IsName s

/-- Whether the path starts at the root. -/
def isAbsolute (path : String) : Bool := path.toList.head? = some '/'

/-- `dir.join(path)`. -/
def join (dir path : String) : String :=
  if isAbsolute path then path
  else if dir = "" ∨ dir.toList.getLast? = some '/' then dir ++ path
  else dir ++ "/" ++ path

/-- The segments without those at the end that lead nowhere. -/
def trim (segments : List String) : List String := segments.rdropWhile fun s => ¬ IsName s

/-- `path.parent()`: the text in front of the last component. A `.` at the start of a path is a
component too. -/
def parent (path : String) : Option String :=
  match segments path with
  | [] => none
  | first :: rest =>
      if trim rest = [] then if first = "" then none else some ""
      else
        let front := trim (trim rest).dropLast
        -- the separator of the root is not taken off
        if first = "" ∧ front = [] then some "/" else some (String.joinChar '/' (first :: front))

example : parent "/foo/bar" = some "/foo" ∧ parent "foo/./bar/" = some "foo" ∧
    parent "/foo" = some "/" ∧ parent "foo" = some "" ∧ parent "/" = none := by decide

/-- The file that is found for a path: its names from the root on, and whether it has to be a
directory. -/
structure Lookup where
  names : List String
  directory : Bool
  deriving DecidableEq, Repr

/-- Where the system finds `path` when it works in the directory `cwd`. -/
def lookup (cwd path : String) : Lookup where
  names := names (join cwd path)
  directory := ¬ IsName ((segments path).getLast (String.splitChar_ne_nil _ _))

/-! ## Joining -/

variable {cwd dir path : String}

theorem segments_ne_nil (path : String) : segments path ≠ [] := String.splitChar_ne_nil _ _

theorem segments_append (dir path : String) :
    segments (dir ++ "/" ++ path) = segments dir ++ segments path :=
  String.splitChar_append '/' dir path

@[simp] theorem names_append (dir path : String) :
    names (dir ++ "/" ++ path) = names dir ++ names path := by
  rw [names, segments_append, List.filter_append, names, names]

@[simp] theorem names_empty : names "" = [] := by decide

theorem join_of_isAbsolute (h : isAbsolute path = true) : join dir path = path := if_pos h

@[simp] theorem join_empty (path : String) : join "" path = path := by
  simp [join]

/-- A path that ends with a separator is one with a separator put after it. -/
theorem exists_eq_append (h : dir.toList.getLast? = some '/') : ∃ front, dir = front ++ "/" := by
  obtain ⟨front, hfront⟩ := List.getLast?_eq_some_iff.mp h
  exact ⟨String.ofList front, by simp [← String.toList_inj, hfront]⟩

/-- The segments of a joined path end with those of the relative path. -/
theorem segments_join (h : isAbsolute path = false) (hdir : dir ≠ "") :
    ∃ front, front ≠ [] ∧ segments (join dir path) = front ++ segments path ∧
      front.filter (fun s => IsName s) = names dir := by
  rw [join, if_neg (by simp [h])]
  by_cases hlast : dir.toList.getLast? = some '/'
  · obtain ⟨front, rfl⟩ := exists_eq_append hlast
    rw [if_pos (Or.inr hlast)]
    refine ⟨segments front, segments_ne_nil _, segments_append _ _, ?_⟩
    have hnames := names_append front ""
    rw [String.append_empty, names_empty, List.append_nil] at hnames
    rw [hnames, names]
  · rw [if_neg (by tauto)]
    exact ⟨segments dir, segments_ne_nil _, segments_append _ _, rfl⟩

theorem names_join (h : isAbsolute path = false) :
    names (join dir path) = names dir ++ names path := by
  by_cases hdir : dir = ""
  · simp [hdir]
  · obtain ⟨front, -, hsegments, hnames⟩ := segments_join h hdir
    rw [← hnames, names, names, hsegments, List.filter_append]

/-- The system looks a path up by its names, and by those of the directory if it is relative. -/
theorem names_join_eq (dir path : String) :
    names (join dir path) = if isAbsolute path then names path else names dir ++ names path := by
  split_ifs with h
  · rw [join_of_isAbsolute h]
  · exact names_join (eq_false_of_ne_true h)

theorem isAbsolute_iff {first : String} {rest : List String} (h : segments path = first :: rest) :
    isAbsolute path = true ↔ first = "" ∧ rest ≠ [] := by
  have hpath : path = String.joinChar '/' (first :: rest) := by
    rw [← h, segments, String.joinChar_splitChar]
  have hfirst : '/' ∉ first.toList :=
    String.not_mem_of_mem_splitChar (by rw [← segments, h]; exact List.mem_cons_self)
  rw [isAbsolute, decide_eq_true_iff, hpath]
  cases rest with
  | nil =>
    have hhead : first.toList.head? ≠ some '/' := fun hhead =>
      hfirst (List.mem_of_mem_head? hhead)
    simp [String.joinChar, hhead]
  | cons next rest =>
    rw [String.joinChar_cons_cons]
    cases hchars : first.toList with
    | nil => simp [← String.toList_inj, hchars]
    | cons c cs =>
      have hc : c ≠ '/' := by
        rintro rfl
        exact hfirst (by rw [hchars]; exact List.mem_cons_self)
      simp [← String.toList_inj, hchars, hc]

/-- A path joined to an absolute one is absolute. -/
theorem isAbsolute_join (h : isAbsolute dir = true) : isAbsolute (join dir path) = true := by
  have hhead : dir.toList.head? = some '/' := by simpa [isAbsolute] using h
  obtain ⟨cs, hcs⟩ := List.head?_eq_some_iff.mp hhead
  rw [join]
  split_ifs with hpath
  · exact hpath
  · simp [isAbsolute, hcs]
  · simp [isAbsolute, hcs]

theorem isAbsolute_join_of_relative (hdir : isAbsolute dir = false) (h : isAbsolute path = false) :
    isAbsolute (join dir path) = false := by
  by_cases hempty : dir = ""
  · rwa [hempty, join_empty]
  · have hhead : dir.toList.head? ≠ some '/' := by simpa [isAbsolute] using hdir
    obtain ⟨c, cs, hcs⟩ : ∃ c cs, dir.toList = c :: cs := by
      cases hchars : dir.toList with
      | nil => exact absurd (String.toList_eq_nil_iff.mp hchars) hempty
      | cons c cs => exact ⟨c, cs, rfl⟩
    rw [hcs] at hhead
    rw [join, if_neg (by simp [h])]
    split_ifs <;> simpa [isAbsolute, hcs] using hhead

theorem getLast_segments_join (dir path : String) :
    (segments (join dir path)).getLast (segments_ne_nil _) =
      (segments path).getLast (segments_ne_nil _) := by
  by_cases h : isAbsolute path = true
  · simp only [join_of_isAbsolute h]
  · by_cases hdir : dir = ""
    · simp only [hdir, join_empty]
    · obtain ⟨front, -, hsegments, -⟩ := segments_join (eq_false_of_ne_true h) hdir
      simp only [hsegments, List.getLast_append_of_ne_nil _ (segments_ne_nil path)]

/-- What a path in the directory `dir` is looked up by depends on what `dir` is looked up by. -/
theorem lookup_join (cwd dir path : String) :
    lookup cwd (join dir path) =
      { names := if isAbsolute path then names path else (lookup cwd dir).names ++ names path
        directory := (lookup cwd path).directory } := by
  have hlast := getLast_segments_join dir path
  simp only [lookup, hlast, names_join_eq]
  cases hpath : isAbsolute path with
  | true => simp [join_of_isAbsolute hpath, hpath]
  | false =>
    cases hdir : isAbsolute dir with
    | true => simp [isAbsolute_join hdir]
    | false => simp [isAbsolute_join_of_relative hdir hpath]

/-! ## The parent -/

theorem filter_trim (segments : List String) :
    (trim segments).filter (fun s => IsName s) = segments.filter fun s => IsName s := by
  induction segments using List.reverseRecOn with
  | nil => rfl
  | append_singleton front last ih =>
    by_cases hlast : IsName last
    · rw [trim, List.rdropWhile_concat_neg _ _ _ (by simp [hlast])]
    · rw [trim, List.rdropWhile_concat_pos _ _ _ (by simp [hlast]), ← trim, ih]
      simp [hlast]

theorem trim_subset (segments : List String) : trim segments ⊆ segments :=
  (List.rdropWhile_prefix _ _).subset

/-- What is left after trimming ends with a name. -/
theorem exists_trim_eq {segments : List String} (h : trim segments ≠ []) :
    ∃ front last, trim segments = front ++ [last] ∧ IsName last := by
  refine ⟨(trim segments).dropLast, (trim segments).getLast h,
    (List.dropLast_append_getLast h).symm, ?_⟩
  have hlast := List.rdropWhile_last_not (fun s => ¬ IsName s) segments h
  exact not_not.mp fun hnot => hlast (decide_eq_true hnot)

/-- The parent of a path with a name in it has one name less, and starts at the root if the path
does. -/
theorem exists_parent (h : names path ≠ []) :
    ∃ dir, parent path = some dir ∧ isAbsolute dir = isAbsolute path ∧
      names dir = (names path).dropLast := by
  obtain ⟨first, rest, hsegments⟩ := List.exists_cons_of_ne_nil (segments_ne_nil path)
  have hnames : names path = [first].filter (fun s => IsName s) ++
      (trim rest).filter fun s => IsName s := by
    rw [filter_trim, ← List.filter_append, names, hsegments]
    rfl
  simp only [parent, hsegments]
  by_cases htrim : trim rest = []
  · -- the first segment is the only name
    rw [htrim, List.filter_nil, List.append_nil] at hnames
    have hfirst : IsName first := by
      by_contra hnot
      exact h (by rw [hnames]; simp [hnot])
    refine ⟨"", by rw [if_pos htrim, if_neg hfirst.1], ?_, by simp [hnames, hfirst]⟩
    have hrel : ¬ isAbsolute path = true := fun habs =>
      hfirst.1 ((isAbsolute_iff hsegments).mp habs).1
    rw [eq_false_of_ne_true hrel]
    rfl
  · obtain ⟨front, last, hfront, hlast⟩ := exists_trim_eq htrim
    have hrest : rest ≠ [] := by
      rintro rfl
      exact htrim rfl
    have hdrop : (names path).dropLast =
        (first :: trim front).filter fun s => IsName s := by
      have hone : [last].filter (fun s => IsName s) = [last] := by simp [hlast]
      rw [hnames, hfront, List.filter_append, hone, ← List.append_assoc, List.dropLast_concat,
        ← filter_trim front, ← List.filter_append, List.singleton_append]
    rw [if_neg htrim, hfront, List.dropLast_concat]
    by_cases hroot : first = "" ∧ trim front = []
    · refine ⟨"/", if_pos hroot, ?_, ?_⟩
      · rw [(isAbsolute_iff hsegments).mpr ⟨hroot.1, hrest⟩]
        rfl
      · rw [hdrop, hroot.1, hroot.2]
        decide
    · have hsplit : segments (String.joinChar '/' (first :: trim front)) = first :: trim front := by
        refine String.splitChar_joinChar (by simp) fun w hw => ?_
        refine String.not_mem_of_mem_splitChar (c := '/') (s := path) ?_
        rw [← segments, hsegments]
        rcases List.mem_cons.mp hw with rfl | hw
        · exact List.mem_cons_self
        · refine List.mem_cons_of_mem _ (trim_subset rest ?_)
          rw [hfront]
          exact List.mem_append_left _ (trim_subset front hw)
      refine ⟨_, if_neg hroot, ?_, by rw [hdrop, names, hsplit]⟩
      rw [Bool.eq_iff_iff, isAbsolute_iff hsplit, isAbsolute_iff hsegments]
      exact ⟨fun h => ⟨h.1, hrest⟩, fun h => ⟨h.1, fun hnil => hroot ⟨h.1, hnil⟩⟩⟩

end UnixPath
