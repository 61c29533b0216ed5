import Mathlib.Data.List.TakeWhile
import RosettaMq.ToMathlib.SplitChar

/-!
# Splitting a URI

The parts of a URI with an authority as RFC 3986 splits them: scheme, host, port and path. There is
no user information. In the authority only a host in brackets contains colons, so a URI composed of
an IPv6 address without brackets does not split into what it was composed of.

* `Uri.split_compose`: the parts of a URI composed of a host without colons.
* `Uri.not_mem_host_of_split`: without brackets the host has no colons.
* `Uri.IsDnsName`, `Uri.IsIPv4`, `Uri.IsIPv6`: the kinds of hosts, in plain form.
-/

namespace Uri

/-- The parts of a URI. -/
structure Parts where
  scheme : String
  host : String
  port : Option ℕ
  path : String
  deriving DecidableEq, Repr

/-- The characters that end an authority. -/
def isDelimiter (c : Char) : Bool := c = '/' || c = '?' || c = '#'

/-- The port that follows a host, if there is one. -/
def splitPort (l : List Char) : Option (Option ℕ) :=
  match l with
  | [] => some none
  | c :: digits =>
      if c = ':' ∧ digits.all Char.isDigit = true then
        some (if digits = [] then none else some (Nat.ofDigitChars 10 digits 0))
      else none

/-- The host and the port of an authority. A host with colons is in brackets. -/
def splitAuthority (l : List Char) : Option (List Char × Option ℕ) :=
  if l.head? = some '[' then
    match l.tail.dropWhile (· ≠ ']') with
    | [] => none
    | _ :: after => (splitPort after).map fun port => (l.tail.takeWhile (· ≠ ']'), port)
  else (splitPort (l.dropWhile (· ≠ ':'))).map fun port => (l.takeWhile (· ≠ ':'), port)

/-- The parts of a URI with an authority. -/
def split (s : String) : Option Parts :=
  let rest := s.toList.dropWhile (· ≠ ':')
  if rest.take 3 = [':', '/', '/'] then
    (splitAuthority ((rest.drop 3).takeWhile (!isDelimiter ·))).map fun (host, port) =>
      { scheme := String.ofList (s.toList.takeWhile (· ≠ ':'))
        host := String.ofList host
        port := port
        path := String.ofList (((rest.drop 3).dropWhile (!isDelimiter ·)).takeWhile
          fun c => c ≠ '?' ∧ c ≠ '#') }
  else none

variable {scheme host path s : String} {port : ℕ} {l l' : List Char}

/-! ## Composing and splitting -/

theorem takeWhile_append_stop {p : Char → Bool} (h : ∀ c ∈ l, p c = true)
    (hstop : ∀ c ∈ l'.head?, p c = false) : (l ++ l').takeWhile p = l := by
  rw [List.takeWhile_append_of_pos h]
  cases l' with
  | nil => simp
  | cons c l' => simp [hstop c rfl]

theorem dropWhile_append_stop {p : Char → Bool} (h : ∀ c ∈ l, p c = true)
    (hstop : ∀ c ∈ l'.head?, p c = false) : (l ++ l').dropWhile p = l' := by
  rw [List.dropWhile_append_of_pos h]
  cases l' with
  | nil => simp
  | cons c l' => simp [hstop c rfl]

/-- No letter and no digit ends an authority. -/
theorem isDelimiter_eq_false {c : Char} (h : c.isAlphanum = true) : isDelimiter c = false := by
  by_contra hdelim
  simp only [isDelimiter, Bool.not_eq_false, Bool.or_eq_true, decide_eq_true_eq] at hdelim
  rcases hdelim with (rfl | rfl) | rfl <;> exact absurd h (by decide)

theorem isAlphanum_of_isDigit {c : Char} (h : c.isDigit = true) : c.isAlphanum = true := by
  simp [Char.isAlphanum, h]

theorem splitPort_repr (n : ℕ) : splitPort (':' :: (toString n).toList) = some (some n) := by
  rw [Nat.toString_eq_repr, Nat.toList_repr, splitPort, if_pos, if_neg Nat.toDigits_ne_nil,
    Nat.ofDigitChars_ten_toDigits]
  refine ⟨rfl, List.all_eq_true.mpr fun c hc => ?_⟩
  exact Nat.isDigit_of_mem_toDigits (by decide) (by decide) hc

theorem splitAuthority_compose (hbracket : host.toList.head? ≠ some '[')
    (hcolon : ':' ∉ host.toList) :
    splitAuthority (host.toList ++ ':' :: (toString port).toList) =
      some (host.toList, some port) := by
  have hhead : (host.toList ++ ':' :: (toString port).toList).head? ≠ some '[' := by
    cases hhost : host.toList with
    | nil => simp
    | cons c cs => simpa [hhost] using hbracket
  have hfree : ∀ c ∈ host.toList, decide (c ≠ ':') = true := by
    intro c hc
    simpa using ne_of_mem_of_not_mem hc hcolon
  rw [splitAuthority, if_neg hhead, takeWhile_append_stop hfree (by simp),
    dropWhile_append_stop hfree (by simp), splitPort_repr]
  rfl

/-- A URI composed of a host without colons splits into its parts. -/
theorem split_compose (hscheme : ':' ∉ scheme.toList) (hcolon : ':' ∉ host.toList)
    (hbracket : host.toList.head? ≠ some '[') (hhost : ∀ c ∈ host.toList, isDelimiter c = false)
    (hslash : path = "" ∨ path.toList.head? = some '/')
    (hpath : '?' ∉ path.toList ∧ '#' ∉ path.toList) :
    split (scheme ++ "://" ++ host ++ ":" ++ toString port ++ path) =
      some ⟨scheme, host, some port, path⟩ := by
  have hlist : (scheme ++ "://" ++ host ++ ":" ++ toString port ++ path).toList =
      scheme.toList ++ (':' :: '/' :: '/' ::
        ((host.toList ++ ':' :: (toString port).toList) ++ path.toList)) := by
    simp
  have hfree : ∀ c ∈ scheme.toList, decide (c ≠ ':') = true := by
    intro c hc
    simpa using ne_of_mem_of_not_mem hc hscheme
  -- the authority ends where the path begins
  have hauthority : ∀ c ∈ host.toList ++ ':' :: (toString port).toList,
      (!isDelimiter c) = true := by
    intro c hc
    rcases List.mem_append.mp hc with hc | hc
    · simp [hhost c hc]
    · rcases List.mem_cons.mp hc with rfl | hc
      · decide
      · rw [Nat.toString_eq_repr, Nat.toList_repr] at hc
        have hdigit := Nat.isDigit_of_mem_toDigits (by decide) (by decide) hc
        simp [isDelimiter_eq_false (isAlphanum_of_isDigit hdigit)]
  have hstop : ∀ c ∈ path.toList.head?, (!isDelimiter c) = false := by
    intro c hc
    rcases hslash with rfl | hslash
    · simp at hc
    · rw [hslash] at hc
      obtain rfl := Option.some.inj hc
      decide
  -- and the path ends with the text
  have hquery : path.toList.takeWhile (fun c => decide (c ≠ '?' ∧ c ≠ '#')) = path.toList := by
    rw [List.takeWhile_eq_self_iff]
    intro c hc
    simpa using ⟨ne_of_mem_of_not_mem hc hpath.1, ne_of_mem_of_not_mem hc hpath.2⟩
  unfold split
  rw [hlist, takeWhile_append_stop hfree (by simp), dropWhile_append_stop hfree (by simp)]
  simp only [List.take_succ_cons, List.take_zero, if_true, List.drop_succ_cons, List.drop_zero]
  rw [takeWhile_append_stop hauthority hstop, dropWhile_append_stop hauthority hstop,
    splitAuthority_compose hbracket hcolon, hquery]
  simp

/-- An authority that does not begin with a bracket has a host without colons. -/
theorem not_mem_of_splitAuthority {host : List Char} {port : Option ℕ}
    (h : splitAuthority l = some (host, port)) (hbracket : l.head? ≠ some '[') : ':' ∉ host := by
  rw [splitAuthority, if_neg hbracket, Option.map_eq_some_iff] at h
  obtain ⟨_, -, heq⟩ := h
  obtain ⟨rfl, -⟩ := Prod.mk.inj heq
  intro hmem
  simpa using List.mem_takeWhile_imp hmem

/-- A URI whose host does not begin with a bracket splits into a host without colons, if at all. -/
theorem not_mem_host_of_split {rest : String} {parts : Parts} {c : Char}
    (hscheme : ':' ∉ scheme.toList) (hhead : host.toList.head? = some c) (hbracket : c ≠ '[')
    (hdelim : isDelimiter c = false) (h : split (scheme ++ "://" ++ host ++ rest) = some parts) :
    ':' ∉ parts.host.toList := by
  obtain ⟨cs, hcs⟩ : ∃ cs, host.toList = c :: cs := by
    cases hhost : host.toList with
    | nil => simp [hhost] at hhead
    | cons d cs =>
      rw [hhost] at hhead
      exact ⟨cs, by rw [Option.some.inj hhead]⟩
  have hlist : (scheme ++ "://" ++ host ++ rest).toList =
      scheme.toList ++ (':' :: '/' :: '/' :: (c :: (cs ++ rest.toList))) := by
    simp [hcs]
  have hfree : ∀ d ∈ scheme.toList, decide (d ≠ ':') = true := by
    intro d hd
    simpa using ne_of_mem_of_not_mem hd hscheme
  unfold split at h
  rw [hlist, takeWhile_append_stop hfree (by simp), dropWhile_append_stop hfree (by simp)] at h
  simp only [List.take_succ_cons, List.take_zero, if_true, List.drop_succ_cons, List.drop_zero,
    Option.map_eq_some_iff] at h
  obtain ⟨⟨host', port⟩, hsplit, rfl⟩ := h
  rw [String.toList_ofList]
  refine not_mem_of_splitAuthority hsplit ?_
  rw [List.takeWhile_cons_of_pos (by simp [hdelim])]
  simpa using hbracket

/-! ## Kinds of hosts -/

/-- A name of the domain name system: letters, digits, hyphens and underscores, with dots. -/
def IsDnsName (s : String) : Prop :=
  s ≠ "" ∧ ∀ c ∈ s.toList, c.isAlphanum = true ∨ c = '-' ∨ c = '_' ∨ c = '.'

/-- An IPv4 address: four numbers below 256 in decimal. -/
def IsIPv4 (s : String) : Prop :=
  ∃ a b c d : UInt8, s = toString a.toNat ++ "." ++ toString b.toNat ++ "." ++ toString c.toNat ++
    "." ++ toString d.toNat

/-- Sixteen bits of an IPv6 address: one to four hexadecimal digits. -/
def IsHexGroup (s : String) : Prop :=
  s ≠ "" ∧ s.toList.length ≤ 4 ∧ ∀ c ∈ s.toList, c.isDigit = true ∨
    c.toLower ∈ ['a', 'b', 'c', 'd', 'e', 'f']

/-- The end of an IPv6 address, as the pieces between its colons, that stands for so many times
sixteen bits. Its last piece may be an IPv4 address. -/
inductive IPv6End : ℕ → List String → Prop
  | nil : IPv6End 0 []
  | group {n g gs} : IsHexGroup g → IPv6End n gs → IPv6End (n + 1) (g :: gs)
  | ipv4 {a} : IsIPv4 a → IPv6End 2 [a]

/-- An IPv6 address: 128 bits, or two colons that stand for the zeros that are left out. -/
inductive IsIPv6 : String → Prop
  | full {gs} : IPv6End 8 gs → IsIPv6 (String.joinChar ':' gs)
  | compressed {gs gs' n} :
      (∀ g ∈ gs, IsHexGroup g) → IPv6End n gs' → gs.length + n ≤ 7 →
      IsIPv6 (String.joinChar ':' gs ++ "::" ++ String.joinChar ':' gs')

/-- No character of a name is special in a URI. -/
theorem IsDnsName.plain (h : IsDnsName host) {c : Char} (hc : c ∈ host.toList) :
    c ≠ ':' ∧ c ≠ '[' ∧ isDelimiter c = false := by
  rcases h.2 c hc with halnum | rfl | rfl | rfl
  · refine ⟨?_, ?_, isDelimiter_eq_false halnum⟩ <;> rintro rfl <;> exact absurd halnum (by decide)
  all_goals decide

/-- An IPv4 address looks like a name. -/
theorem IsIPv4.isDnsName (h : IsIPv4 host) : IsDnsName host := by
  obtain ⟨a, b, c, d, rfl⟩ := h
  have hdigits : ∀ (n : ℕ), ∀ ch ∈ n.repr.toList, ch.isAlphanum = true := by
    intro n ch hch
    rw [Nat.toList_repr] at hch
    exact isAlphanum_of_isDigit (Nat.isDigit_of_mem_toDigits (by decide) (by decide) hch)
  refine ⟨fun h => ?_, fun ch hch => ?_⟩
  · -- it has a dot, so it is not empty
    have hdot : '.' ∈ ("" : String).toList := by
      rw [← h]
      simp
    cases hdot
  · simp only [Nat.toString_eq_repr, String.toList_append, List.mem_append] at hch
    have hdot : ch ∈ ".".toList → ch = '.' := by simp
    rcases hch with (((((ha | hch) | hb) | hch) | hc) | hch) | hd
    · exact Or.inl (hdigits _ _ ha)
    · exact Or.inr (Or.inr (Or.inr (hdot hch)))
    · exact Or.inl (hdigits _ _ hb)
    · exact Or.inr (Or.inr (Or.inr (hdot hch)))
    · exact Or.inl (hdigits _ _ hc)
    · exact Or.inr (Or.inr (Or.inr (hdot hch)))
    · exact Or.inl (hdigits _ _ hd)

/-- Neither a name nor an IPv4 address has a colon, a bracket or a delimiter. -/
theorem plain_of_name (h : IsDnsName host ∨ IsIPv4 host) {c : Char} (hc : c ∈ host.toList) :
    c ≠ ':' ∧ c ≠ '[' ∧ isDelimiter c = false := by
  rcases h with h | h
  · exact h.plain hc
  · exact h.isDnsName.plain hc

/-- A group of digits begins with an ordinary character. -/
theorem IsHexGroup.exists_head (h : IsHexGroup s) :
    ∃ c, s.toList.head? = some c ∧ c ≠ '[' ∧ isDelimiter c = false := by
  obtain ⟨hne, -, hdigits⟩ := h
  obtain ⟨c, cs, hs⟩ : ∃ c cs, s.toList = c :: cs :=
    List.exists_cons_of_ne_nil (by simpa using hne)
  refine ⟨c, by rw [hs]; rfl, ?_⟩
  have hc := hdigits c (by rw [hs]; exact List.mem_cons_self)
  constructor
  · rintro rfl
    exact absurd hc (by decide)
  · by_contra hdelim
    simp only [isDelimiter, Bool.not_eq_false, Bool.or_eq_true, decide_eq_true_eq] at hdelim
    rcases hdelim with (rfl | rfl) | rfl <;> exact absurd hc (by decide)

/-- The pieces of a whole address are at least two, and the first of them is a group of digits. -/
theorem IPv6End.exists_cons_cons {gs : List String} (h : IPv6End 8 gs) :
    ∃ g g' gs', gs = g :: g' :: gs' ∧ IsHexGroup g := by
  cases h with
  | group hg hend =>
    cases hend with
    | group hg' _ => exact ⟨_, _, _, rfl, hg⟩

/-- An IPv6 address contains colons and begins with an ordinary character. -/
theorem IsIPv6.colon (h : IsIPv6 host) :
    ':' ∈ host.toList ∧ ∃ c, host.toList.head? = some c ∧ c ≠ '[' ∧ isDelimiter c = false := by
  cases h with
  | full hend =>
    obtain ⟨g, g', gs', rfl, hg⟩ := hend.exists_cons_cons
    obtain ⟨c, hc, hplain⟩ := hg.exists_head
    -- a colon stands between the first two groups
    rw [String.joinChar_cons_cons]
    refine ⟨by simp, c, ?_, hplain⟩
    simp [hc]
  | @compressed gs gs' n hgs hend hle =>
    refine ⟨by simp, ?_⟩
    -- without groups in front it begins with the two colons
    cases gs with
    | nil => exact ⟨':', by simp [String.joinChar], by decide, by decide⟩
    | cons g gs =>
      obtain ⟨c, hc, hplain⟩ := (hgs g List.mem_cons_self).exists_head
      refine ⟨c, ?_, hplain⟩
      cases gs with
      | nil => simp [String.joinChar, hc]
      | cons g' gs =>
        rw [String.joinChar_cons_cons]
        simp [hc]

end Uri
