import RosettaMq.Rumqttc

/-!
# Topic filters

`TopicFilter` of `src/topic.rs`: parsing a filter and ranking its segments, matching a concrete
topic, and the order on filters by their specificity vectors.
-/

namespace RosettaMq

/-- Why a topic filter is rejected. -/
inductive TopicError where
  /-- The filter is empty. -/
  | empty
  /-- A `#` segment is not the last one of this filter. -/
  | hashNotLast (filter : String)
  /-- This segment of this filter mixes `+` or `#` with other characters. -/
  | invalidWildcardSegment (segment filter : String)
  deriving DecidableEq, Repr

/-- The rank of the segment at index `i` of the filter `raw` whose last index is `last`
(literal 2, `+` 1, `#` 0): the `match` in the loop body of `TopicFilter::parse`. -/
def rankSegment (raw : String) (last i : ℕ) (part : String) : Except TopicError ℕ :=
  if part = "#" then
    if i = last then .ok 0 else .error (.hashNotLast raw)
  else if part = "+" then .ok 1
  else if '#' ∈ part.toList ∨ '+' ∈ part.toList then .error (.invalidWildcardSegment part raw)
  else .ok 2

/-- The loop of `TopicFilter::parse` over the segments from index `i` on. It returns at the first
segment that has no rank. -/
def rankSegments (raw : String) (last : ℕ) : ℕ → List String → Except TopicError (List ℕ)
  | _, [] => .ok []
  | i, part :: parts =>
      -- the code pushes the ranks one by one; an error drops those it has
      match rankSegment raw last i part with
      | .error e => .error e
      | .ok rank =>
          match rankSegments raw last (i + 1) parts with
          | .error e => .error e
          | .ok ranks => .ok (rank :: ranks)

/-- The specificity vector `TopicFilter::parse` computes for `raw`. -/
def specificityOf (raw : String) : Except TopicError (List ℕ) :=
  if raw = "" then .error .empty
  else
    let parts := levels raw
    rankSegments raw (parts.length - 1) 0 parts

/-- A parsed MQTT topic filter. It can only hold a text that parses, with its own vector. -/
structure TopicFilter where
  raw : String
  specificity : List ℕ
  parsed : specificityOf raw = .ok specificity
  deriving DecidableEq

/-- `TopicFilter::parse`. -/
def TopicFilter.parse (raw : String) : Except TopicError TopicFilter :=
  match h : specificityOf raw with
  | .error e => .error e
  | .ok specificity => .ok ⟨raw, specificity, h⟩

/-- `TopicFilter::matches`: whether this filter matches a concrete topic. -/
def TopicFilter.matches (self : TopicFilter) (topic : String) : Bool :=
  mqttbytes.matches topic self.raw

/-- `TopicFilter::cmp`: lexicographic comparison of the specificity vectors. -/
def TopicFilter.cmp (self other : TopicFilter) : Ordering :=
  compare self.specificity other.specificity

namespace TopicFilter

instance : Ord TopicFilter := ⟨cmp⟩

instance : Std.TransCmp cmp := inferInstanceAs (Std.TransCmp (compareOn specificity))

instance : Std.TransOrd TopicFilter := inferInstanceAs (Std.TransCmp cmp)

/-- Parsing succeeds with a filter exactly when the filter's text is the parsed one. -/
theorem parse_eq_ok_iff {raw : String} {f : TopicFilter} : parse raw = .ok f ↔ f.raw = raw := by
  unfold parse
  constructor
  · intro h
    split at h
    · cases h
    · cases h; rfl
  · rintro rfl
    split
    · rename_i e h; rw [f.parsed] at h; cases h
    · rename_i s h; rw [f.parsed] at h; cases h; rfl

/-- A filter is determined by its text. -/
theorem ext_raw {f g : TopicFilter} (h : f.raw = g.raw) : f = g := by
  have hf : parse f.raw = .ok f := parse_eq_ok_iff.mpr rfl
  rw [h, parse_eq_ok_iff.mpr (rfl : g.raw = g.raw)] at hf
  exact (Except.ok.inj hf).symm

end TopicFilter

end RosettaMq
