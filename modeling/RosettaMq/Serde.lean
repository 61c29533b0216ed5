import Mathlib.Data.Int.Notation
import RosettaMq.ToMathlib.AssocList

/-!
# What is assumed of `toml` and `serde`

The configuration is deserialized from a `toml::Value` by code that `serde` derives. This file holds
what the derived code does: fields with and without defaults, internally tagged enums, and arrays,
which it accepts in the place of the table of a struct, with the values of the fields in their
order. Each function comes with the values that it accepts.
-/

namespace RosettaMq

/-- `toml::Value`, without floats and dates. -/
inductive Value where
  | string (s : String)
  | integer (n : ℤ)
  | boolean (b : Bool)
  | array (values : List Value)
  | table (entries : List (String × Value))

/-- `toml::Table`. Of entries with the same key only the first is read. -/
abbrev Table := List (String × Value)

/-! ## Values of the basic types -/

namespace Value

def asString : Value → Option String
  | .string s => some s
  | _ => none

def asBool : Value → Option Bool
  | .boolean b => some b
  | _ => none

def asTable : Value → Option Table
  | .table t => some t
  | _ => none

def asArray : Value → Option (List Value)
  | .array values => some values
  | _ => none

/-- A `u16`. -/
def asU16 : Value → Option UInt16
  | .integer n => if 0 ≤ n ∧ n ≤ 65535 then some (UInt16.ofNat n.toNat) else none
  | _ => none

/-- A `usize`. -/
def asUsize : Value → Option ℕ
  | .integer n => if 0 ≤ n then some n.toNat else none
  | _ => none

/-- A `Vec<String>`. -/
def asStrings (v : Value) : Option (List String) := v.asArray.bind fun values =>
  values.mapM asString

def IsString (v : Value) : Prop := ∃ s, v = .string s

def IsBool (v : Value) : Prop := ∃ b, v = .boolean b

/-- An integer in `0..65535`. -/
def IsU16 (v : Value) : Prop := ∃ n, v = .integer n ∧ 0 ≤ n ∧ n ≤ 65535

/-- An array of strings. -/
def IsStrings (v : Value) : Prop := ∃ values, v = .array values ∧ ∀ w ∈ values, w.IsString

def IsArray (v : Value) : Prop := ∃ values, v = .array values

def IsTable (v : Value) : Prop := ∃ t, v = .table t

theorem asString_eq_some_iff {v : Value} {s : String} : v.asString = some s ↔ v = .string s := by
  cases v <;> simp [asString]

theorem asArray_eq_some_iff {v : Value} {values : List Value} :
    v.asArray = some values ↔ v = .array values := by
  cases v <;> simp [asArray]

theorem isSome_asTable_bind {α : Type} {v : Value} {f : Table → Option α} :
    (v.asTable.bind f).isSome = true ↔ ∃ t, v = .table t ∧ (f t).isSome = true := by
  cases v <;> simp [asTable]

@[simp] theorem isSome_asString {v : Value} : v.asString.isSome = true ↔ v.IsString := by
  cases v <;> simp [asString, IsString]

@[simp] theorem isSome_asBool {v : Value} : v.asBool.isSome = true ↔ v.IsBool := by
  cases v <;> simp [asBool, IsBool]

@[simp] theorem isSome_asU16 {v : Value} : v.asU16.isSome = true ↔ v.IsU16 := by
  cases v with
  | integer n => by_cases hn : 0 ≤ n ∧ n ≤ 65535 <;> simp [asU16, IsU16, hn]
  | _ => simp [asU16, IsU16]

@[simp] theorem isSome_asStrings {v : Value} : v.asStrings.isSome = true ↔ v.IsStrings := by
  cases v <;> simp [asStrings, asArray, IsStrings, List.isSome_mapM]

end Value

/-! ## Fields -/

namespace Table

variable {α : Type} {t : Table} {name : String}

/-- The table without the entries of these names. -/
def without (t : Table) (names : List String) : Table := t.filter fun e => decide (e.1 ∉ names)

/-- `t.entry(name).or_insert(v)`. -/
def orInsert (t : Table) (name : String) (v : Value) : Table :=
  if (t.lookup name).isSome then t else t ++ [(name, v)]

/-- A field without default. -/
def required (t : Table) (name : String) (deserialize : Value → Option α) : Option α :=
  (t.lookup name).bind deserialize

/-- A field of an `Option` type. -/
def optional (t : Table) (name : String) (deserialize : Value → Option α) : Option (Option α) :=
  match t.lookup name with
  | none => some none
  | some v => (deserialize v).map some

/-- A field with `#[serde(default)]`. -/
def defaulted (t : Table) (name : String) (deserialize : Value → Option α) (default : α) :
    Option α :=
  match t.lookup name with
  | none => some default
  | some v => deserialize v

/-- The field is there, and `p` holds of its value. -/
def Has (t : Table) (name : String) (p : Value → Prop) : Prop :=
  ∃ v, t.lookup name = some v ∧ p v

/-- If the field is there, `p` holds of its value. -/
def May (t : Table) (name : String) (p : Value → Prop) : Prop :=
  ∀ v, t.lookup name = some v → p v

/-- There is one value to a name. -/
theorem has_iff_and {p q r : Value → Prop} (h : ∀ v, r v ↔ p v ∧ q v) :
    t.Has name r ↔ t.Has name p ∧ t.May name q := by
  cases hlookup : t.lookup name <;> simp [Has, May, hlookup, h]

theorem may_iff_and {p q r : Value → Prop} (h : ∀ v, r v ↔ p v ∧ q v) :
    t.May name r ↔ t.May name p ∧ t.May name q := by
  simp only [May, h, imp_and, forall_and]

theorem lookup_without (names : List String) :
    (t.without names).lookup name = if name ∈ names then none else t.lookup name := by
  rw [without, List.lookup_filter_fst fun n => decide (n ∉ names)]
  by_cases h : name ∈ names <;> simp [h]

theorem lookup_orInsert (inserted : String) (v : Value) :
    (t.orInsert inserted v).lookup name =
      if name = inserted then some ((t.lookup inserted).getD v) else t.lookup name := by
  unfold orInsert
  cases h : t.lookup inserted with
  | some w =>
    by_cases hname : name = inserted
    · subst hname
      simp [h]
    · simp [hname]
  | none =>
    -- the new entry comes last, and no other has its name
    by_cases hname : name = inserted
    · subst hname
      simp [List.lookup_append, h]
    · have hne : (name == inserted) = false := beq_eq_false_iff_ne.mpr hname
      simp [List.lookup_append, List.lookup_cons, hname, hne]

section

variable {f : Value → Option α}

theorem exists_required (p : α → Prop) :
    (∃ a, t.required name f = some a ∧ p a) ↔
      t.Has name fun v => ∃ a, f v = some a ∧ p a := by
  cases h : t.lookup name <;> simp [required, Has, h]

theorem exists_optional {p : Option α → Prop} (hp : p none) :
    (∃ a, t.optional name f = some a ∧ p a) ↔
      t.May name fun v => ∃ a, f v = some a ∧ p (some a) := by
  cases h : t.lookup name <;> simp [optional, May, h, hp]

theorem exists_defaulted {d : α} {p : α → Prop} (hp : p d) :
    (∃ a, t.defaulted name f d = some a ∧ p a) ↔
      t.May name fun v => ∃ a, f v = some a ∧ p a := by
  cases h : t.lookup name <;> simp [defaulted, May, h, hp]

@[simp] theorem isSome_required :
    (t.required name f).isSome = true ↔ t.Has name fun v => (f v).isSome = true := by
  simpa [Option.isSome_iff_exists] using exists_required (t := t) (f := f) fun _ => True

@[simp] theorem isSome_optional :
    (t.optional name f).isSome = true ↔ t.May name fun v => (f v).isSome = true := by
  simpa [Option.isSome_iff_exists] using
    exists_optional (t := t) (f := f) (p := fun _ => True) trivial

@[simp] theorem isSome_defaulted {d : α} :
    (t.defaulted name f d).isSome = true ↔ t.May name fun v => (f v).isSome = true := by
  simpa [Option.isSome_iff_exists] using
    exists_defaulted (t := t) (f := f) (d := d) (p := fun _ => True) trivial

end

end Table

/-! ## Structs and enums -/

namespace Value

/-- The fields of a derived struct. An array stands for the fields `names` in their order, of which
the first `minimum` have no default. -/
def fields (names : List String) (minimum : ℕ) : Value → Option Table
  | .table t => some t
  | .array values =>
      if minimum ≤ values.length ∧ values.length ≤ names.length then some (names.zip values)
      else none
  | _ => none

/-- The tag of an internally tagged enum and the rest of its content. In an array the tag comes
first. -/
def tagged (tag : String) : Value → Option (String × Value)
  | .table t =>
      match t.lookup tag with
      | some (.string s) => some (s, .table (Table.without t [tag]))
      | _ => none
  | .array (.string s :: values) => some (s, .array values)
  | _ => none

/-- The content of a unit variant of an internally tagged enum. Whatever is in a table is
ignored. -/
def asUnit : Value → Option Unit
  | .table _ | .array [] => some ()
  | _ => none

/-- The name of a variant of an enum that has unit variants only. It may be the key of a table with
nothing in it. -/
def unitVariant : Value → Option String
  | .string s | .table [(s, .table [])] => some s
  | _ => none

/-- What `fields` reads: a table with the property, or an array that stands for one, if such arrays
are `allowed`. -/
def IsStruct (allowed : Prop) (names : List String) (minimum : ℕ) (p : Table → Prop) : Value → Prop
  | .table t => p t
  | .array values =>
      allowed ∧ minimum ≤ values.length ∧ values.length ≤ names.length ∧ p (names.zip values)
  | _ => False

/-- What `tagged` reads: the property holds of the tag and of the value that carries the rest. -/
def IsEnum (allowed : Prop) (tag : String) (p : String → Value → Prop) : Value → Prop
  -- the fields of the variant stand beside the tag
  | .table t => Table.Has t tag fun v => ∃ s, v = .string s ∧ p s (.table t)
  | .array values => allowed ∧ ∃ s rest, values = .string s :: rest ∧ p s (.array rest)
  | _ => False

/-- What `asUnit` reads. -/
def IsUnit (allowed : Prop) : Value → Prop
  | .table _ => True
  | .array values => allowed ∧ values = []
  | _ => False

/-- What `unitVariant` reads. -/
def IsUnitVariant (allowed : Prop) (p : String → Prop) (v : Value) : Prop :=
  ∃ s, (v = .string s ∨ allowed ∧ v = .table [(s, .table [])]) ∧ p s

section

variable {α : Type} {v : Value}

/-- A struct whose value has a property. -/
theorem exists_fields_bind {names : List String} {minimum : ℕ} {f : Table → Option α}
    (p : α → Prop) :
    (∃ a, (v.fields names minimum).bind f = some a ∧ p a) ↔
      v.IsStruct True names minimum fun t => ∃ a, f t = some a ∧ p a := by
  cases v with
  | array values =>
    by_cases h : minimum ≤ values.length ∧ values.length ≤ names.length
    · simp [fields, IsStruct, h]
    · -- too short or too long an array
      rw [fields, if_neg h]
      simp only [IsStruct, ← and_assoc]
      simp [h]
  | _ => simp [fields, IsStruct]

theorem isSome_fields_bind {names : List String} {minimum : ℕ} {f : Table → Option α} :
    ((v.fields names minimum).bind f).isSome = true ↔
      v.IsStruct True names minimum fun t => (f t).isSome = true := by
  simpa [Option.isSome_iff_exists] using exists_fields_bind (f := f) fun _ => True

/-- The content of a variant is read from a table without the tag, but no variant reads a field of
that name. -/
theorem isSome_tagged_bind {tag : String} {f : String → Value → Option α}
    (hf : ∀ s t, (f s (.table (Table.without t [tag]))).isSome = (f s (.table t)).isSome) :
    ((v.tagged tag).bind fun e => f e.1 e.2).isSome = true ↔
      v.IsEnum True tag fun s content => (f s content).isSome = true := by
  cases v with
  | table t =>
    simp only [tagged, IsEnum, Table.Has]
    -- a tag that is no string is an error, as is none
    cases h : t.lookup tag with
    | none => simp
    | some w =>
      cases w with
      | string s => simp [hf]
      | _ => simp
  | array values =>
    cases values with
    | nil => simp [tagged, IsEnum]
    | cons w values => cases w <;> simp [tagged, IsEnum]
  | _ => simp [tagged, IsEnum]

theorem tagged_table_eq_some_iff {t : Table} {tag s : String} {content : Value} :
    (Value.table t).tagged tag = some (s, content) ↔
      t.lookup tag = some (.string s) ∧ .table (t.without [tag]) = content := by
  rw [tagged]
  cases t.lookup tag with
  | none => simp
  | some v => cases v <;> simp

@[simp] theorem isSome_asUnit : v.asUnit.isSome = true ↔ v.IsUnit True := by
  cases v with
  | array values => cases values <;> simp [asUnit, IsUnit]
  | _ => simp [asUnit, IsUnit]

theorem unitVariant_eq_some_iff {s : String} :
    v.unitVariant = some s ↔ v = .string s ∨ v = .table [(s, .table [])] := by
  unfold unitVariant
  split
  · simp
  · simp
  · rename_i hstring htable
    simpa using ⟨fun h => hstring _ h, fun h => htable _ h⟩

theorem isSome_unitVariant_bind {f : String → Option α} :
    (v.unitVariant.bind f).isSome = true ↔ v.IsUnitVariant True fun s => (f s).isSome = true := by
  constructor
  · intro h
    obtain ⟨a, ha⟩ := Option.isSome_iff_exists.mp h
    obtain ⟨s, hs, hf⟩ := Option.bind_eq_some_iff.mp ha
    have hsome : (f s).isSome = true := by rw [hf]; rfl
    exact ⟨s, by simpa using unitVariant_eq_some_iff.mp hs, hsome⟩
  · rintro ⟨s, hs, hf⟩
    rw [unitVariant_eq_some_iff.mpr (by simpa using hs)]
    exact hf

end

end Value

end RosettaMq
