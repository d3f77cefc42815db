import Mathlib.Data.List.Basic

/-!
# Compose.Yaml — compose documents as trees

`Yaml` is a parsed document (`serde_yaml::Value`): the host's parser leaves `<<` an
ordinary key, so `Fields.get?` sees the fields that are literally there. The guest's
loader reads the same tree with merge keys expanded; `Fields.look` is its lookup: a
field of the mapping itself, or else the first one found in what its merge key names.
-/

namespace Tdvmm.Compose

/-- A YAML value. A float is its bits. -/
inductive Yaml where
  | null
  | bool (b : Bool)
  | int (i : Int)
  | float (bits : UInt64)
  | str (s : String)
  | seq (items : List Yaml)
  | map (fields : List (Yaml × Yaml))
  | tagged (tag : String) (value : Yaml)

abbrev Fields := List (Yaml × Yaml)

/-- The key under which the guest's loader merges other mappings. -/
def MERGE_KEY : String := "<<"

namespace Yaml

def asStr : Yaml → Option String
  | str s => some s
  | _ => none

def asBool : Yaml → Option Bool
  | bool b => some b
  | _ => none

def isKey (k : Yaml) (key : String) : Bool := k.asStr == some key

end Yaml

namespace Fields

def get? (fields : Fields) (key : String) : Option Yaml :=
  (fields.find? (·.1.isKey key)).map (·.2)

def contains (fields : Fields) (key : String) : Bool := fields.any (·.1.isKey key)

/-- Replace the value of a field in its place, or append the field. -/
def insert (fields : Fields) (key : String) (v : Yaml) : Fields :=
  if fields.contains key then
    fields.map fun f => if f.1.isKey key then (f.1, v) else f
  else fields ++ [(.str key, v)]

/-- Take a field away. The other fields keep their order here, while `Mapping::remove` puts the
last one in its place; a reader looks fields up by name. -/
def remove (fields : Fields) (key : String) : Fields := fields.filter (!·.1.isKey key)

def names (fields : Fields) : List String := fields.filterMap (·.1.asStr)

section Lemmas

variable {fields : Fields} {key other : String} {v : Yaml}

theorem isKey_ne {k : Yaml} (h : k.isKey key = true) (hne : other ≠ key) :
    k.isKey other = false := by
  simp only [Yaml.isKey, beq_iff_eq] at h
  simp only [Yaml.isKey, h, beq_eq_false_iff_ne, ne_eq, Option.some.injEq]
  exact hne.symm

theorem contains_iff : fields.contains key = true ↔ ∃ y, fields.get? key = some y := by
  unfold contains get?
  rw [List.any_eq_true, ← List.find?_isSome, Option.isSome_iff_exists]
  constructor
  · rintro ⟨f, hf⟩
    exact ⟨f.2, by rw [hf]; rfl⟩
  · rintro ⟨y, hy⟩
    obtain ⟨f, hf, -⟩ := Option.map_eq_some_iff.mp hy
    exact ⟨f, hf⟩

@[simp] theorem get?_remove_self : (fields.remove key).get? key = none := by
  unfold get? remove
  rw [Option.map_eq_none_iff, List.find?_eq_none]
  intro f hf
  simpa using (List.mem_filter.mp hf).2

theorem get?_remove (hne : other ≠ key) : (fields.remove key).get? other = fields.get? other := by
  unfold get? remove
  congr 1
  induction fields with
  | nil => rfl
  | cons f fields ih =>
    by_cases hkey : f.1.isKey key = true
    · rw [List.filter_cons_of_neg (by simp [hkey]), List.find?_cons_of_neg]
      · exact ih
      · simp [isKey_ne hkey hne]
    · rw [List.filter_cons_of_pos (by simp [hkey])]
      by_cases hother : f.1.isKey other = true
      · simp only [List.find?_cons, hother]
      · simp only [List.find?_cons, hother]
        exact ih

@[simp] theorem get?_insert_self : (fields.insert key v).get? key = some v := by
  unfold insert
  split
  · rename_i h
    obtain ⟨f, hf, hkey⟩ := List.any_eq_true.mp h
    unfold get?
    rw [List.find?_map]
    have hsame : ∀ f : Yaml × Yaml,
        (if f.1.isKey key then (f.1, v) else f).1.isKey key = f.1.isKey key := by
      intro f
      split <;> simp_all
    simp only [Function.comp_def, hsame]
    cases hfind : fields.find? (·.1.isKey key) with
    | none => exact absurd hkey (List.find?_eq_none.mp hfind f hf)
    | some g =>
      have hg := List.find?_some hfind
      simp [hg]
  · rename_i h
    have hnone : fields.find? (·.1.isKey key) = none := by
      rw [List.find?_eq_none]
      intro f hf hkey
      exact h (List.any_eq_true.mpr ⟨f, hf, hkey⟩)
    have hlast : (Yaml.str key).isKey key = true := by simp [Yaml.isKey, Yaml.asStr]
    simp [get?, List.find?_append, hnone, hlast]

theorem get?_insert (hne : other ≠ key) : (fields.insert key v).get? other = fields.get? other := by
  unfold insert
  split
  · unfold get?
    rw [List.find?_map]
    have hsame : ∀ f : Yaml × Yaml,
        (if f.1.isKey key then (f.1, v) else f).1.isKey other = f.1.isKey other := by
      intro f
      split <;> rfl
    simp only [Function.comp_def, hsame]
    cases hfind : fields.find? (·.1.isKey other) with
    | none => rfl
    | some g =>
      have hg := List.find?_some hfind
      have hgkey : g.1.isKey key = false := isKey_ne hg hne.symm
      simp [hgkey]
  · have hlast : (Yaml.str key).isKey other = false := by
      simp [Yaml.isKey, Yaml.asStr, hne.symm]
    simp [get?, List.find?_append, hlast]

end Lemmas

end Fields

/-! ## Merge keys -/

mutual

/-- The value of a field in what a merge key names: a mapping, or the first of several
that has it. -/
def Yaml.look (key : String) : Yaml → Option Yaml
  | .map fields => (Fields.get? fields key).or (Fields.inherited key fields)
  | .seq items => Yaml.lookItems key items
  | _ => none

/-- The value of a field in what the merge key of a mapping names. -/
def Fields.inherited (key : String) : List (Yaml × Yaml) → Option Yaml
  | [] => none
  | (k, v) :: rest => if k.isKey MERGE_KEY then v.look key else Fields.inherited key rest

def Yaml.lookItems (key : String) : List Yaml → Option Yaml
  | [] => none
  | y :: ys => (y.look key).or (Yaml.lookItems key ys)

end

/-- The value of a field as the guest's loader has it. -/
def Fields.look (fields : Fields) (key : String) : Option Yaml :=
  (fields.get? key).or (Fields.inherited key fields)

end Tdvmm.Compose
