import Mathlib.Data.List.Basic
import Mathlib.Data.List.TakeWhile

/-!
# Lib.Text — strings as the standard library of the source cuts them

Splitting at a character, lines, whitespace and Unix paths, over `List Char`. A path is a
string; `components` are its parts with repeated separators and inner `.` left out, and
`join` puts a second path behind a first unless the second is absolute.
-/

namespace Lib.Text

/-- The pieces of a text between occurrences of a character: at least one. -/
def split (sep : Char) (s : String) : List String := (s.toList.splitOn sep).map String.ofList

def startsWith (c : Char) (s : String) : Bool := s.toList.head? == some c

def contains (c : Char) (s : String) : Bool := s.toList.contains c

def trimEndMatches (c : Char) (s : String) : String :=
  String.ofList (s.toList.reverse.dropWhile (· == c)).reverse

def hasPart (part s : String) : Bool := s.toList.tails.any part.toList.isPrefixOf

/-- Unicode's `White_Space`. -/
def isWhitespace (c : Char) : Bool :=
  let n := c.toNat
  (9 ≤ n && n ≤ 13) || n == 0x20 || n == 0x85 || n == 0xA0 || n == 0x1680 ||
    (0x2000 ≤ n && n ≤ 0x200A) || n == 0x2028 || n == 0x2029 || n == 0x202F || n == 0x205F ||
    n == 0x3000

def trim (s : String) : String :=
  String.ofList ((s.toList.dropWhile isWhitespace).reverse.dropWhile isWhitespace).reverse

/-- The nonempty pieces between whitespace. -/
def splitWhitespace (s : String) : List String :=
  ((s.toList.splitOnP isWhitespace).filter (!·.isEmpty)).map String.ofList

/-- A line without the carriage return that its newline may follow. -/
def stripReturn (l : List Char) : List Char :=
  if l.getLast? == some '\r' then l.dropLast else l

/-- The lines of a text. What follows the last newline is a line when it is not empty. -/
def lines (s : String) : List String :=
  let parts := s.toList.splitOn '\n'
  let last := parts.getLast?.getD []
  (parts.dropLast.map stripReturn ++ if last.isEmpty then [] else [last]).map String.ofList

def toLowerAscii (c : Char) : Char :=
  if 'A' ≤ c ∧ c ≤ 'Z' then Char.ofNat (c.toNat + 32) else c

def eqIgnoreAsciiCase (a b : String) : Bool :=
  a.toList.map toLowerAscii == b.toList.map toLowerAscii

/-! ## Paths -/

inductive Component where
  | rootDir
  | curDir
  | parentDir
  | normal (name : String)
deriving DecidableEq, Repr

/-- A piece between separators as a component; empty pieces and `.` are none. -/
def Component.ofPart (part : String) : Option Component :=
  if part = "" ∨ part = "." then none
  else if part = ".." then some .parentDir
  else some (.normal part)

/-- The components after a leading separator or `.`. -/
def tailComponents (p : String) : List Component := (split '/' p).filterMap Component.ofPart

def components (p : String) : List Component :=
  if startsWith '/' p then .rootDir :: tailComponents p
  else if (split '/' p).head? = some "." then .curDir :: tailComponents p
  else tailComponents p

def join (base p : String) : String :=
  if startsWith '/' p ∨ base = "" then p
  else if base.toList.getLast? = some '/' then base ++ p
  else base ++ "/" ++ p

def Component.text : Component → String
  | .rootDir => ""
  | .curDir => "."
  | .parentDir => ".."
  | .normal name => name

def render (cs : List Component) : String :=
  if cs = [.rootDir] then "/" else String.intercalate "/" (cs.map Component.text)

/-- `Path::parent`, up to repeated separators; a root and an empty path have none. -/
def parent (p : String) : Option String :=
  let cs := components p
  match cs.getLast? with
  | none | some .rootDir => none
  | some _ => some (render cs.dropLast)

/-- `Path::file_name`: the last component, when it is a name. -/
def fileName (p : String) : Option String :=
  match (components p).getLast? with
  | some (.normal name) => some name
  | _ => none

example : components "/a//b/./../c/" =
    [.rootDir, .normal "a", .normal "b", .parentDir, .normal "c"] := by decide +kernel

/-- Of two places, given by the names on the way to them, neither is or is inside the other. -/
def Apart {α : Type} (p q : List α) : Prop := ¬ p <+: q ∧ ¬ q <+: p

instance {α : Type} [DecidableEq α] (p q : List α) : Decidable (Apart p q) :=
  inferInstanceAs (Decidable (_ ∧ _))

/-! ## Lemmas -/

section Lemmas

variable {sep : Char} {a b mid part p : String}

theorem split_append (hmid : mid.toList = [sep]) :
    split sep (a ++ mid ++ b) = split sep a ++ split sep b := by
  unfold split List.splitOn
  rw [String.toList_append, String.toList_append, hmid, List.append_assoc, List.singleton_append,
    List.splitOnP_append_cons _ _ (by simp), List.map_append]

theorem head?_splitOn (l : List Char) :
    (l.splitOn sep).head? = some (l.takeWhile (· != sep)) := by
  unfold List.splitOn
  induction l with
  | nil => rfl
  | cons c l ih =>
    rw [List.splitOnP_cons_eq_if_modifyHead]
    by_cases hc : c = sep
    · simp [hc]
    · cases hl : List.splitOnP (· == sep) l with
      | nil => exact absurd hl (List.splitOnP_ne_nil _ _)
      | cons x xs =>
        rw [hl] at ih
        have hx : x = l.takeWhile (· != sep) := Option.some.inj ih
        simp [hc, hx]

theorem not_mem_of_mem_splitOn {l piece : List Char} (h : piece ∈ l.splitOn sep) : sep ∉ piece := by
  unfold List.splitOn at h
  induction l generalizing piece with
  | nil =>
    simp only [List.splitOnP_nil, List.mem_singleton] at h
    simp [h]
  | cons c l ih =>
    rw [List.splitOnP_cons_eq_if_modifyHead] at h
    by_cases hc : c = sep
    · simp only [hc, beq_self_eq_true, if_true, List.mem_cons] at h
      rcases h with rfl | h
      · simp
      · exact ih h
    · cases hl : List.splitOnP (· == sep) l with
      | nil => exact absurd hl (List.splitOnP_ne_nil _ _)
      | cons x xs =>
        rw [hl] at h ih
        simp only [beq_iff_eq, hc, if_false, List.modifyHead_cons, List.mem_cons] at h
        rcases h with rfl | h
        · have hx := ih (List.mem_cons_self)
          simp [hx, Ne.symm hc]
        · exact ih (List.mem_cons_of_mem _ h)

theorem split_of_not_contains (h : contains sep a = false) : split sep a = [a] := by
  have hno : ∀ c ∈ a.toList, (c == sep) = false := by
    intro c hc
    simp only [contains, List.contains_eq_mem, decide_eq_false_iff_not] at h
    simp only [beq_eq_false_iff_ne, ne_eq]
    exact fun heq => h (heq ▸ hc)
  unfold split List.splitOn
  rw [List.splitOnP_eq_singleton hno]
  simp

@[simp] theorem tailComponents_append :
    tailComponents (a ++ "/" ++ b) = tailComponents a ++ tailComponents b := by
  unfold tailComponents
  rw [split_append (by rfl), List.filterMap_append]

/-- A name that is one component: a piece between separators that is not special. -/
def IsName (s : String) : Prop := contains '/' s = false ∧ s ≠ "" ∧ s ≠ "." ∧ s ≠ ".."

instance (s : String) : Decidable (IsName s) := inferInstanceAs (Decidable (_ ∧ _))

theorem tailComponents_of_isName (h : IsName a) : tailComponents a = [.normal a] := by
  obtain ⟨hslash, hempty, hdot, hdots⟩ := h
  simp [tailComponents, split_of_not_contains hslash, Component.ofPart, hempty, hdot, hdots]

theorem isName_of_mem (h : .normal part ∈ components p) : IsName part := by
  have hmem : Component.normal part ∈ tailComponents p := by
    unfold components at h
    split at h
    · simpa using h
    · split at h
      · simpa using h
      · exact h
  obtain ⟨s, hs, hpart⟩ := List.mem_filterMap.mp hmem
  obtain ⟨piece, hpiece, rfl⟩ := List.mem_map.mp hs
  unfold Component.ofPart at hpart
  split at hpart
  · cases hpart
  · rename_i hne
    split at hpart
    · cases hpart
    · rename_i hdots
      obtain rfl : String.ofList piece = part := by simpa using hpart
      refine ⟨?_, fun h => hne (.inl h), fun h => hne (.inr h), hdots⟩
      simpa [contains] using not_mem_of_mem_splitOn hpiece

theorem isName_fileName (h : fileName p = some part) : IsName part := by
  unfold fileName at h
  split at h
  · rename_i name hlast
    rw [← Option.some.inj h]
    exact isName_of_mem (List.mem_of_getLast? hlast)
  · cases h

end Lemmas

end Lib.Text
