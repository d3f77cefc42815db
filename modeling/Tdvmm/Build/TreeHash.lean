import Mathlib.Data.List.Sort
import Tdvmm.Lib.Fs
import Tdvmm.Lib.Utf8

/-!
# Build.TreeHash — the content hash of a directory

`treeHash` hashes the regular files below a directory: for each, its relative path and the hash
of its content, in sorted order.

`covered_content` says what an equal hash tells: a file whose path is hashed faithfully
(`Covered`) and which both directories have has one content.
-/

namespace Tdvmm.Build

open Lib Lib.Fs

/-- A file name: bytes, not necessarily UTF-8. -/
abbrev Name := List UInt8

def decimal (n : Nat) : List UInt8 := (Nat.toDigits 10 n).map fun c => UInt8.ofNat c.toNat

structure Digest where
  hex : List UInt8 → List UInt8
  digits : ∀ b, ∀ c ∈ hex b, c ≠ 0 ∧ c ≠ 10

/-- SHA-256, taken as injective. -/
structure Sha256 extends Digest where
  injective : Function.Injective hex

instance : Coe Sha256 Digest := ⟨Sha256.toDigest⟩

/-- A directory as it is read: what is at each relative path, and the regular files in the
order in which the walk finds them. -/
structure Dir where
  node : List Name → Option Node
  files : List (List Name)
  mem_files : ∀ r, r ∈ files ↔ ∃ bytes mode, node r = some (.file bytes mode)
  names : ∀ r ∈ files, r ≠ [] ∧ ∀ n ∈ r, 47 ∉ n ∧ 0 ∉ n

def relBytes (r : List Name) : List UInt8 := [47].intercalate r

/-- The basename that exclusion looks at; one that is not UTF-8 is taken as empty. -/
def baseName (r : List Name) : List UInt8 :=
  match r.getLast? with
  | some n => if utf8Valid n then n else []
  | none => []

def contentOf : Option Node → List UInt8
  | some (.file bytes _) => bytes
  | _ => []

section TreeHash

variable (sha : Digest) (exclude : List Name) (d : Dir)

/-- Path and content hash of the files that are not excluded. -/
def treeEntries : List (List UInt8 × List UInt8) :=
  (d.files.filter fun r => !exclude.contains (baseName r)).map fun r =>
    (utf8Lossy (relBytes r), sha.hex (contentOf (d.node r)))

/-- The order of `(String, String)`. -/
def entryLe (a b : List UInt8 × List UInt8) : Prop := a.1 < b.1 ∨ a.1 = b.1 ∧ a.2 ≤ b.2

instance : DecidableRel entryLe := fun _ _ => inferInstanceAs (Decidable (_ ∨ _))

def entriesText (entries : List (List UInt8 × List UInt8)) : List UInt8 :=
  entries.flatMap fun e => e.1 ++ [0] ++ e.2 ++ [10]

def treeText : List UInt8 := entriesText ((treeEntries sha exclude d).insertionSort entryLe)

def treeHash : List UInt8 := sha.hex (treeText sha exclude d)

end TreeHash

/-! ## The text determines the entries -/

theorem append_sep_inj {a b x y : List UInt8} {sep : UInt8} (ha : sep ∉ a) (hb : sep ∉ b)
    (h : a ++ sep :: x = b ++ sep :: y) : a = b ∧ x = y := by
  induction a generalizing b with
  | nil =>
    cases b with
    | nil => exact ⟨rfl, (List.cons.inj h).2⟩
    | cons c b =>
      have hc : sep = c := (List.cons.inj h).1
      exact absurd (hc ▸ List.mem_cons_self) hb
  | cons c a ih =>
    cases b with
    | nil =>
      have hc : c = sep := (List.cons.inj h).1
      exact absurd (hc ▸ List.mem_cons_self) ha
    | cons c' b =>
      obtain ⟨hc, htail⟩ := List.cons.inj h
      obtain ⟨hab, hxy⟩ := ih (fun hmem => ha (List.mem_cons_of_mem _ hmem))
        (fun hmem => hb (List.mem_cons_of_mem _ hmem)) htail
      exact ⟨by rw [hc, hab], hxy⟩

/-- No path holds a NUL and no hash a newline. -/
def Framed (entries : List (List UInt8 × List UInt8)) : Prop :=
  ∀ e ∈ entries, (0 : UInt8) ∉ e.1 ∧ (10 : UInt8) ∉ e.2

theorem entriesText_inj {es es' : List (List UInt8 × List UInt8)} (h : Framed es) (h' : Framed es')
    (htext : entriesText es = entriesText es') : es = es' := by
  induction es generalizing es' with
  | nil =>
    cases es' with
    | nil => rfl
    | cons e' es' => simp [entriesText] at htext
  | cons e es ih =>
    cases es' with
    | nil => simp [entriesText] at htext
    | cons e' es' =>
      have hcons : e.1 ++ 0 :: (e.2 ++ 10 :: entriesText es) =
          e'.1 ++ 0 :: (e'.2 ++ 10 :: entriesText es') := by
        simpa [entriesText] using htext
      have hhead := h e List.mem_cons_self
      have hhead' := h' e' List.mem_cons_self
      obtain ⟨hpath, hrest⟩ := append_sep_inj hhead.1 hhead'.1 hcons
      obtain ⟨hhash, htail⟩ := append_sep_inj hhead.2 hhead'.2 hrest
      have htails := ih (fun x hx => h x (List.mem_cons_of_mem _ hx))
        (fun x hx => h' x (List.mem_cons_of_mem _ hx)) htail
      rw [htails, Prod.ext hpath hhash]

/-! ## What an equal hash tells -/

/-- A path that enters the hash as it is: its basename is not excluded, it is UTF-8, and
it has no replacement character that a path that is not UTF-8 would be shown with. -/
def Covered (exclude : List Name) (r : List Name) : Prop :=
  baseName r ∉ exclude ∧ utf8Valid (relBytes r) = true ∧ ¬ utf8Replacement <:+: relBytes r

section Covered

variable {sha : Digest} {exclude : List Name} {d d' : Dir}

theorem relBytes_inj {r r' : List Name} (hr : r ≠ [] ∧ ∀ n ∈ r, (47 : UInt8) ∉ n ∧ (0 : UInt8) ∉ n)
    (hr' : r' ≠ [] ∧ ∀ n ∈ r', (47 : UInt8) ∉ n ∧ (0 : UInt8) ∉ n)
    (h : relBytes r = relBytes r') : r = r' := by
  have hsplit := congrArg (List.splitOn 47) h
  unfold relBytes at hsplit
  rwa [List.splitOn_intercalate 47 (fun l hl => (hr.2 l hl).1) hr.1,
    List.splitOn_intercalate 47 (fun l hl => (hr'.2 l hl).1) hr'.1] at hsplit

theorem zero_not_mem_relBytes {r : List Name} (hr : ∀ n ∈ r, (47 : UInt8) ∉ n ∧ (0 : UInt8) ∉ n) :
    (0 : UInt8) ∉ relBytes r := by
  unfold relBytes
  induction r with
  | nil => simp
  | cons n r ih =>
    have hn := (hr n List.mem_cons_self).2
    have ih := ih fun m hm => hr m (List.mem_cons_of_mem _ hm)
    cases r with
    | nil => simpa [List.intercalate] using hn
    | cons m r =>
      intro hmem
      rw [List.intercalate_cons_cons] at hmem
      simp only [List.append_assoc, List.mem_append] at hmem
      rcases hmem with hmem | hmem | hmem
      · exact hn hmem
      · simp at hmem
      · exact ih hmem

theorem framed_treeEntries : Framed (treeEntries sha exclude d) := by
  intro e he
  obtain ⟨r, hr, rfl⟩ := List.mem_map.mp he
  have hfile := (List.mem_filter.mp hr).1
  constructor
  · intro hzero
    rcases mem_utf8Lossy hzero with hzero | hzero
    · exact zero_not_mem_relBytes (d.names r hfile).2 hzero
    · exact absurd hzero (by decide)
  · exact fun hnewline => (sha.digits _ _ hnewline).2 rfl

theorem treeEntries_perm (htext : treeText sha exclude d = treeText sha exclude d') :
    (treeEntries sha exclude d).Perm (treeEntries sha exclude d') := by
  have hperm := List.perm_insertionSort entryLe (treeEntries sha exclude d)
  have hperm' := List.perm_insertionSort entryLe (treeEntries sha exclude d')
  have hsorted := entriesText_inj
    (fun e he => framed_treeEntries e (hperm.mem_iff.mp he))
    (fun e he => framed_treeEntries e (hperm'.mem_iff.mp he)) htext
  exact hperm.symm.trans (hsorted ▸ hperm')

/-- A file with a covered path that both directories have is the same in both. -/
theorem covered_content {sha : Sha256} (h : treeHash sha exclude d = treeHash sha exclude d')
    {r : List Name}
    (hcov : Covered exclude r) {b b' : List UInt8} {m m' : Nat}
    (hr : d.node r = some (.file b m)) (hr' : d'.node r = some (.file b' m')) : b = b' := by
  obtain ⟨hbase, hvalid, hplain⟩ := hcov
  have hfile := (d.mem_files r).mpr ⟨b, m, hr⟩
  have hfile' := (d'.mem_files r).mpr ⟨b', m', hr'⟩
  have hentry : (relBytes r, sha.hex b) ∈ treeEntries sha exclude d := by
    refine List.mem_map.mpr ⟨r, List.mem_filter.mpr ⟨hfile, by simpa using hbase⟩, ?_⟩
    rw [utf8Lossy_of_valid hvalid, hr]
    rfl
  obtain ⟨r2, hr2, heq⟩ := List.mem_map.mp ((treeEntries_perm (sha.injective h)).mem_iff.mp hentry)
  obtain ⟨hpath, hhash⟩ := Prod.mk.inj heq
  have hfile2 := (List.mem_filter.mp hr2).1
  -- nothing was replaced in the other path, so it is this one
  have hsame : utf8Lossy (relBytes r2) = relBytes r2 :=
    utf8Lossy_exact (hpath ▸ hplain)
  have hrr : r2 = r := relBytes_inj (d'.names r2 hfile2) (d'.names r hfile')
    (hsame.symm.trans hpath)
  subst hrr
  rw [hr'] at hhash
  exact (sha.injective hhash).symm

end Covered

/-! ## Trees with UTF-8 paths

Where every path is UTF-8 the text says exactly which files there are, and the order of the walk
does not enter it. -/

/-- A directory of which the walk finds each file once, all with paths that are UTF-8. -/
structure Utf8Dir extends Dir where
  nodup : files.Nodup
  valid : ∀ r ∈ files, utf8Valid (relBytes r) = true

/-- The regular files that are not excluded, with the hashes of their contents. -/
def Listed (sha : Digest) (exclude : List Name) (d : Dir) (r : List Name) (hash : List UInt8) :
    Prop :=
  ∃ bytes mode, d.node r = some (.file bytes mode) ∧ baseName r ∉ exclude ∧ hash = sha.hex bytes

instance : Std.Total entryLe where
  total a b := by
    rcases List.le_total a.1 b.1 with h | h <;> rcases List.le_iff_lt_or_eq.mp h with h | h
    · exact Or.inl (Or.inl h)
    · rcases List.le_total a.2 b.2 with hhash | hhash
      · exact Or.inl (Or.inr ⟨h, hhash⟩)
      · exact Or.inr (Or.inr ⟨h.symm, hhash⟩)
    · exact Or.inr (Or.inl h)
    · rcases List.le_total a.2 b.2 with hhash | hhash
      · exact Or.inl (Or.inr ⟨h.symm, hhash⟩)
      · exact Or.inr (Or.inr ⟨h, hhash⟩)

instance : IsTrans (List UInt8 × List UInt8) entryLe where
  trans a b c hab hbc := by
    rcases hab with hab | ⟨hab, hhash⟩ <;> rcases hbc with hbc | ⟨hbc, hhash'⟩
    · exact Or.inl (List.lt_trans hab hbc)
    · exact Or.inl (hbc ▸ hab)
    · exact Or.inl (hab ▸ hbc)
    · exact Or.inr ⟨hab.trans hbc, List.le_trans hhash hhash'⟩

instance : Std.Antisymm entryLe where
  antisymm a b hab hba := by
    rcases hab with hab | ⟨hab, hhash⟩ <;> rcases hba with hba | ⟨hba, hhash'⟩
    · exact absurd (List.lt_trans hab hba) (List.lt_irrefl _)
    · exact absurd (hba ▸ hab) (List.lt_irrefl _)
    · exact absurd (hab ▸ hba) (List.lt_irrefl _)
    · exact Prod.ext hab (List.le_antisymm hhash hhash')

section Utf8Dir

variable {sha : Digest} {exclude : List Name} {d d' : Utf8Dir}

theorem mem_treeEntries {e : List UInt8 × List UInt8} :
    e ∈ treeEntries sha exclude d.toDir ↔
      ∃ r, e.1 = relBytes r ∧ Listed sha exclude d.toDir r e.2 := by
  unfold treeEntries
  rw [List.mem_map]
  constructor
  · rintro ⟨r, hr, rfl⟩
    obtain ⟨hfile, hkept⟩ := List.mem_filter.mp hr
    obtain ⟨bytes, mode, hnode⟩ := (d.mem_files r).mp hfile
    exact ⟨r, utf8Lossy_of_valid (d.valid r hfile), bytes, mode, hnode, by simpa using hkept,
      by simp only [hnode, contentOf]⟩
  · rintro ⟨r, hpath, bytes, mode, hnode, hkept, hhash⟩
    have hfile := (d.mem_files r).mpr ⟨bytes, mode, hnode⟩
    refine ⟨r, List.mem_filter.mpr ⟨hfile, by simpa using hkept⟩, Prod.ext ?_ ?_⟩
    · exact (utf8Lossy_of_valid (d.valid r hfile)).trans hpath.symm
    · simp only [hnode, contentOf, hhash]

theorem Listed.names {d : Dir} {r : List Name} {hash : List UInt8}
    (h : Listed sha exclude d r hash) : r ≠ [] ∧ ∀ n ∈ r, (47 : UInt8) ∉ n ∧ (0 : UInt8) ∉ n := by
  obtain ⟨bytes, mode, hnode, -, -⟩ := h
  exact d.names r ((d.mem_files r).mpr ⟨bytes, mode, hnode⟩)

theorem listed_iff_mem {r : List Name} {hash : List UInt8}
    (hr : r ≠ [] ∧ ∀ n ∈ r, (47 : UInt8) ∉ n ∧ (0 : UInt8) ∉ n) :
    Listed sha exclude d.toDir r hash ↔ (relBytes r, hash) ∈ treeEntries sha exclude d.toDir := by
  rw [mem_treeEntries]
  constructor
  · exact fun h => ⟨r, rfl, h⟩
  · rintro ⟨r', hpath, h⟩
    rwa [relBytes_inj hr h.names hpath]

theorem nodup_treeEntries : (treeEntries sha exclude d.toDir).Nodup := by
  refine List.Nodup.map_on ?_ (d.nodup.filter _)
  intro r hr r' hr' heq
  have hfile := (List.mem_filter.mp hr).1
  have hfile' := (List.mem_filter.mp hr').1
  have hpath := (Prod.mk.inj heq).1
  rw [utf8Lossy_of_valid (d.valid r hfile), utf8Lossy_of_valid (d.valid r' hfile')] at hpath
  exact relBytes_inj (d.names r hfile) (d.names r' hfile') hpath

/-- The texts of two directories are equal exactly if they have the same files that are not
excluded, with the same content hashes. -/
theorem treeText_eq_iff (sha : Digest) (exclude : List Name) (d d' : Utf8Dir) :
    treeText sha exclude d.toDir = treeText sha exclude d'.toDir ↔
      ∀ r hash, Listed sha exclude d.toDir r hash ↔ Listed sha exclude d'.toDir r hash := by
  constructor
  · intro htext r hash
    have hmem := (treeEntries_perm htext).mem_iff (a := (relBytes r, hash))
    constructor
    · intro h
      exact (listed_iff_mem h.names).mpr (hmem.mp ((listed_iff_mem h.names).mp h))
    · intro h
      exact (listed_iff_mem h.names).mpr (hmem.mpr ((listed_iff_mem h.names).mp h))
  · intro hlisted
    have hperm : (treeEntries sha exclude d.toDir).Perm (treeEntries sha exclude d'.toDir) := by
      rw [List.perm_ext_iff_of_nodup nodup_treeEntries nodup_treeEntries]
      intro e
      simp only [mem_treeEntries, hlisted]
    -- Sorted lists of the same entries are one list.
    have hsorted : (treeEntries sha exclude d.toDir).insertionSort entryLe =
        (treeEntries sha exclude d'.toDir).insertionSort entryLe :=
      List.Perm.eq_of_pairwise' (List.pairwise_insertionSort entryLe _)
        (List.pairwise_insertionSort entryLe _)
        ((List.perm_insertionSort entryLe _).trans
          (hperm.trans (List.perm_insertionSort entryLe _).symm))
    unfold treeText
    rw [hsorted]

end Utf8Dir

end Tdvmm.Build
