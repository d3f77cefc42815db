import Tdvmm.Lib.Fs

/-!
# Build.Tree — source trees and how they are copied

`copyTree` writes one at a destination, as `cp -a` does, with the calls of any file system. On a
disk (`diskCalls`) links are made again and never read through, but a destination that is
already there is written through whatever stands at its path.

Such a copy stays within the location its path spells out as long as no link stands on the way
or where a file or directory of the tree will be written (`Clear`, `copyTree_within`).
-/

namespace Tdvmm.Build

open Lib Lib.Text Lib.Fs Lib.Eff

/-- A file system entity as it is read, over names of type `ν`. -/
inductive Tree (ν : Type) where
  | file (bytes : List UInt8) (mode : Nat)
  | link (target : String)
  | dir (mode : Nat) (entries : List (ν × Tree ν))

mutual

/-- Names are single components and no two entries of a directory share one. -/
def Tree.Proper : Tree String → Prop
  | .dir _ entries => ProperEntries entries
  | _ => True

def ProperEntries : List (String × Tree String) → Prop
  | [] => True
  | (name, t) :: rest =>
    IsName name ∧ name ∉ rest.map (·.1) ∧ t.Proper ∧ ProperEntries rest

end

/-! ## Copying -/

/-- The calls of a copy on a file system with states `σ` and destinations `δ`; `readDir`
lists the directory that is copied to a destination. -/
structure CopyCalls (ν δ σ : Type) where
  join : δ → ν → δ
  pathExists : σ → δ → Bool
  removeFile : δ → Eff Errno σ Unit
  symlink : String → δ → Eff Errno σ Unit
  createDir : δ → Eff Errno σ Unit
  setPermissions : δ → Nat → Eff Errno σ Unit
  readDir : δ → Eff Errno σ Unit
  copyFile : List UInt8 → Nat → δ → Eff Errno σ Unit

section Copy

variable {ν δ σ : Type} (calls : CopyCalls ν δ σ)

def copyLink (target : String) (dst : δ) : Eff Errno σ Unit := do
  let _ ← attempt (calls.removeFile dst)
  calls.symlink target dst

/-- The directory that is copied to `dst`; one that is there keeps its mode. -/
def copyDir (mode : Nat) (dst : δ) : Eff Errno σ Unit := do
  let s ← read
  when (!calls.pathExists s dst) (do
    calls.createDir dst
    calls.setPermissions dst (mode % 0o10000))
  calls.readDir dst

mutual

/-- `copy_tree`: a tree that was read, to the destination `dst`. -/
def copyTree : Tree ν → δ → Eff Errno σ Unit
  | .link target, dst => copyLink calls target dst
  | .dir mode entries, dst => do
    copyDir calls mode dst
    copyEntries entries dst
  | .file bytes mode, dst => calls.copyFile bytes mode dst

def copyEntries : List (ν × Tree ν) → δ → Eff Errno σ Unit
  | [], _ => pure ()
  | (name, t) :: rest, dst => do
    copyTree t (calls.join dst name)
    copyEntries rest dst

end

end Copy

/-- A copy to the paths of a disk, from directories that can be listed. -/
def diskCalls (limit : Nat) : CopyCalls String Path Disk where
  join dst name := joinPath dst [.normal name]
  pathExists := pathExists limit
  removeFile := removeFile limit
  symlink := symlink limit
  createDir := createDir limit
  setPermissions := setPermissions limit
  readDir _ := pure ()
  copyFile := writeFile limit

/-! ## Where a copy writes -/

mutual

/-- No link stands where a file or a directory of the tree is to be written. -/
def Clear (s : Disk) : Loc → Tree String → Prop
  | d, .file _ _ => ¬ s.LinkAt d
  | _, .link _ => True
  | d, .dir _ entries => ¬ s.LinkAt d ∧ ClearEntries s d entries

def ClearEntries (s : Disk) : Loc → List (String × Tree String) → Prop
  | _, [] => True
  | d, (name, t) :: rest => Clear s (d ++ [name]) t ∧ ClearEntries s d rest

end

section Within

variable {limit : Nat} {s s' : Disk}

mutual

/-- `Clear` looks at the subtree of the destination only. -/
theorem clear_frame : ∀ (t : Tree String) {d : Loc}, (∀ l, d <+: l → s'.get l = s.get l) →
    Clear s d t → Clear s' d t
  | .file _ _, d, hsame, hclear => by
    unfold Clear Disk.LinkAt at hclear ⊢
    rwa [hsame d List.prefix_rfl]
  | .link _, _, _, _ => by
    unfold Clear
    trivial
  | .dir _ entries, d, hsame, hclear => by
    unfold Clear at hclear ⊢
    refine ⟨?_, clearEntries_frame entries (fun name _ l hl => ?_) hclear.2⟩
    · unfold Disk.LinkAt
      rw [hsame d List.prefix_rfl]
      exact hclear.1
    · exact hsame l ((List.prefix_append d [name]).trans hl)

theorem clearEntries_frame : ∀ (entries : List (String × Tree String)) {d : Loc},
    (∀ name ∈ entries.map (·.1), ∀ l, d ++ [name] <+: l → s'.get l = s.get l) →
    ClearEntries s d entries → ClearEntries s' d entries
  | [], _, _, _ => by
    unfold ClearEntries
    trivial
  | (name, t) :: rest, d, hsame, hclear => by
    unfold ClearEntries at hclear ⊢
    refine ⟨clear_frame t (hsame name (by simp)) hclear.1, ?_⟩
    exact clearEntries_frame rest (fun n hn => hsame n (by simp at hn ⊢; exact .inr hn)) hclear.2

end

theorem children_apart {d l : Loc} {name other : String} (hne : name ≠ other)
    (hl : d ++ [name] <+: l) : ¬ d ++ [other] <+: l := by
  intro hl'
  have heq : d ++ [name] = d ++ [other] :=
    (List.prefix_of_prefix_length_le hl hl' (by simp)).eq_of_length (by simp)
  exact hne (by simpa using heq)

theorem joinPath_pathOf (d : Loc) (name : String) :
    joinPath (pathOf d) [.normal name] = pathOf (d ++ [name]) := by
  rw [pathOf_concat]
  rfl

theorem copyDir_at {mode : Nat} {d : Loc} (hway : s.Straight d) (hd : ¬ s.LinkAt d) :
    Meets (fun _ s' => At d s s' ∧ ¬ s'.LinkAt d)
      (copyDir (diskCalls limit) mode (pathOf d)) s := by
  apply meets_read_bind
  apply Meets.bind (R := fun _ s' => At d s s' ∧ ¬ s'.LinkAt d)
  · cases !(diskCalls limit).pathExists s (pathOf d) with
    | false => exact ⟨At.refl d s, hd⟩
    | true =>
      apply Meets.bind (createDir_at hway hd)
      · rintro _ s' ⟨hat, hd'⟩
        have hset := @setPermissions_at limit d s' (mode % 0o10000) (hat.within.straight hway) hd'
        exact hset.imp fun _ _ h => ⟨hat.trans h.1, h.2⟩
      · exact fun _ _ h => h
  · exact fun _ _ h => h
  · exact fun _ _ h => h

mutual

theorem copyTree_within : ∀ (t : Tree String) {d : Loc} {s : Disk}, t.Proper → s.Straight d →
    Clear s d t → Meets (fun _ s' => Within d s s') (copyTree (diskCalls limit) t (pathOf d)) s
  | .file bytes mode, d, s, _, hway, hclear => by
    unfold copyTree
    unfold Clear at hclear
    exact (writeFile_at hway hclear).imp fun _ _ hat => hat.within
  | .link target, d, s, _, hway, _ => by
    unfold copyTree copyLink
    apply Meets.bind (R := fun _ s' => Within d s s')
    · exact (removeFile_at hway).imp fun _ _ hat => hat.within
    · intro _ s' hin
      have hlink := @symlink_at limit d s' target (hin.straight hway)
      exact hlink.imp fun _ _ hat => hin.trans hat.within
    · exact fun _ _ hin => hin
  | .dir mode entries, d, s, hproper, hway, hclear => by
    unfold copyTree
    unfold Clear at hclear
    unfold Tree.Proper at hproper
    apply Meets.bind (copyDir_at hway hclear.1)
    · rintro _ s' ⟨hat, hd⟩
      have hclear' : ClearEntries s' d entries := by
        apply clearEntries_frame entries _ hclear.2
        intro name _ l hl
        apply hat.get
        rintro rfl
        exact not_prefix_of_before (List.prefix_append l [name]) (by simp) hl
      have hcopy := copyEntries_within entries hproper (hat.within.straight hway) hd hclear'
      exact hcopy.imp fun _ _ => hat.within.trans
    · exact fun _ _ hat => hat.1.within

theorem copyEntries_within : ∀ (entries : List (String × Tree String)) {d : Loc} {s : Disk},
    ProperEntries entries → s.Straight d → ¬ s.LinkAt d → ClearEntries s d entries →
    Meets (fun _ s' => Within d s s') (copyEntries (diskCalls limit) entries (pathOf d)) s
  | [], d, s, _, _, _, _ => by
    unfold copyEntries
    exact Within.refl d s
  | (name, t) :: rest, d, s, hproper, hway, hd, hclear => by
    unfold copyEntries
    unfold ProperEntries at hproper
    unfold ClearEntries at hclear
    obtain ⟨-, hfresh, hproper, hrest⟩ := hproper
    have hjoin : (diskCalls limit).join (pathOf d) name = pathOf (d ++ [name]) :=
      joinPath_pathOf d name
    rw [hjoin]
    apply Meets.bind (R := fun _ s' => Within (d ++ [name]) s s')
    · exact copyTree_within t hproper (straight_child hway hd) hclear.1
    · intro _ s' hin
      have hup := hin.mono (List.prefix_append d [name])
      have hd' : ¬ s'.LinkAt d := by
        rwa [hin.linkAt (not_prefix_of_before (List.prefix_append d [name]) (by simp))]
      have hclear' : ClearEntries s' d rest := by
        apply clearEntries_frame rest _ hclear.2
        intro other hother l hl
        apply hin.get
        have hne : other ≠ name := fun heq => hfresh (heq ▸ hother)
        exact children_apart hne hl
      have hcopy := copyEntries_within rest hrest (hup.straight hway) hd' hclear'
      exact hcopy.imp fun _ _ => hup.trans
    · exact fun _ _ hin => hin.mono (List.prefix_append d [name])

end

end Within

end Tdvmm.Build
