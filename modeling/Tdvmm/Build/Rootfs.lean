import Mathlib.Data.List.Infix
import Tdvmm.Build.Tree
import Tdvmm.Build.TreeHash

/-!
# Build.Rootfs — a tree that is assembled in a fresh directory

A `Rootfs` holds the nodes below a directory that was empty at first, by place. Each call
on it may be refused by the `Host`; a copy that is refused may have written a part of the
file. Nothing is written twice to a place by a copy, so no link is ever followed.

* `Change`, `Changes`, `Moves`: what a call can do to the tree, said once.
* `Shaped`: above every node there are directories only. All calls keep it.
-/

namespace Tdvmm.Build

open Lib Lib.Fs Lib.Eff

abbrev Place := List Name

def place (path : String) : Place := (Text.split '/' path).map utf8

abbrev Rootfs := List (Place × Node)

/-- The calls that a host may refuse; `readSource` lists a directory that is copied. -/
inductive Call where
  | createDir
  | setMode
  | readSource
  | symlink
  | copy
  | read
  | write
  | readDir
deriving DecidableEq, Repr

structure Host where
  refuses : Call → Place → Option Errno
  /-- How much of a file a refused copy has written, if it has created the file. -/
  leaves : Place → Option Nat
  /-- The files that a walk finds from a place that a symbolic link leads on from. -/
  behind : Place → Except Errno (List Place)

/-- A host that refuses nothing, on which links lead nowhere. -/
def willing : Host where
  refuses _ _ := none
  leaves _ := none
  behind _ := .ok []

namespace Rootfs

section Nodes

def get? (s : Rootfs) (p : Place) : Option Node := s.lookup p

def put (s : Rootfs) (p : Place) (n : Node) : Rootfs := (p, n) :: s.filter (·.1 != p)

def drop (s : Rootfs) (p : Place) : Rootfs := s.filter (·.1 != p)

def isDir (s : Rootfs) (p : Place) : Bool := (s.get? p).any Node.isDir

def isFile (s : Rootfs) (p : Place) : Bool :=
  match s.get? p with
  | some (.file _ _) => true
  | _ => false

def isLink (s : Rootfs) (p : Place) : Bool :=
  match s.get? p with
  | some (.link _) => true
  | _ => false

def throughLink (s : Rootfs) (p : Place) : Bool := p.inits.any (s.isLink ·)

def hasParent (s : Rootfs) (p : Place) : Bool := p.isEmpty || s.isDir p.dropLast

variable {s : Rootfs} {p q : Place} {n : Node}

theorem lookup_cons_ne (hne : q ≠ p) : ((p, n) :: s).lookup q = s.lookup q := by
  have hbeq : (q == p) = false := by simpa using hne
  rw [List.lookup_cons, hbeq]

theorem get?_drop_ne (hne : q ≠ p) : (s.drop p).get? q = s.get? q := by
  unfold get? drop
  induction s with
  | nil => rfl
  | cons e s ih =>
    obtain ⟨r, m⟩ := e
    by_cases hr : r = p
    · subst hr
      rw [List.filter_cons_of_neg (by simp), ih, lookup_cons_ne hne]
    · rw [List.filter_cons_of_pos (by simpa using hr), List.lookup_cons, List.lookup_cons, ih]

theorem get?_drop_self : (s.drop p).get? p = none := by
  unfold get? drop
  induction s with
  | nil => rfl
  | cons e s ih =>
    obtain ⟨r, m⟩ := e
    by_cases hr : r = p
    · rw [List.filter_cons_of_neg (by simpa using hr), ih]
    · rw [List.filter_cons_of_pos (by simpa using hr), lookup_cons_ne (Ne.symm hr), ih]

@[simp] theorem get?_put_self : (s.put p n).get? p = some n := by
  simp [get?, put]

theorem get?_put_ne (hne : q ≠ p) : (s.put p n).get? q = s.get? q := by
  have hdrop := @get?_drop_ne s p q hne
  unfold get? drop at hdrop
  unfold get? put
  rw [lookup_cons_ne hne, hdrop]

end Nodes

/-! ## Calls -/

section Calls

variable (host : Host)

def ask (c : Call) (p : Place) : Eff Errno Rootfs Unit :=
  match host.refuses c p with
  | some e => fail e
  | none => pure ()

def create (p : Place) (n : Node) : Eff Errno Rootfs Unit := do
  let s ← read
  if !s.hasParent p then fail .notFound
  else if (s.get? p).isSome then fail .exists
  else update (put · p n)

def createDir (p : Place) : Eff Errno Rootfs Unit := do
  ask host .createDir p
  create p (.dir 0o777)

def setMode (p : Place) (mode : Nat) : Eff Errno Rootfs Unit := do
  ask host .setMode p
  match (← read).get? p with
  | some (.dir _) => update (put · p (.dir mode))
  | some (.file bytes _) => update (put · p (.file bytes mode))
  | some (.link _) => fail .loop
  | none => fail .notFound

def writeFile (p : Place) (bytes : List UInt8) : Eff Errno Rootfs Unit := do
  ask host .write p
  let s ← read
  match s.get? p with
  | some (.dir _) => fail .isDir
  | some (.link _) => fail .loop
  | some (.file _ mode) => update (put · p (.file bytes mode))
  | none => create p (.file bytes 0o644)

/-- Remove a file or link; what cannot be removed stays. -/
def removeFile (p : Place) : Eff Errno Rootfs Unit :=
  update fun s =>
    match s.get? p with
    | some (.file _ _) | some (.link _) => s.drop p
    | _ => s

def symlink (target : String) (p : Place) : Eff Errno Rootfs Unit := do
  ask host .symlink p
  create p (.link target)

/-- `std::fs::copy` to a place where nothing is yet. -/
def copyFile (bytes : List UInt8) (mode : Nat) (p : Place) : Eff Errno Rootfs Unit :=
  match host.refuses .copy p, host.leaves p with
  | some e, some k => do
    create p (.file (bytes.take k) mode)
    fail e
  | some e, none => fail e
  | none, _ => create p (.file bytes mode)

def createDirAll (p : Place) : Eff Errno Rootfs Unit :=
  p.inits.forM fun q => do
    let s ← read
    match s.get? q with
    | none => createDir host q
    | some (.dir _) => pure ()
    | some _ => fail .exists

def calls : CopyCalls Name Place Rootfs where
  join dst name := dst ++ [name]
  pathExists s p := (s.get? p).isSome
  removeFile := removeFile
  symlink := symlink host
  createDir := createDir host
  setPermissions := setMode host
  readDir := ask host .readSource
  copyFile := copyFile host

def copyDirContents (entries : List (Name × Tree Name)) (dst : Place) : Eff Errno Rootfs Unit := do
  ask host .readSource dst
  copyEntries (calls host) entries dst

end Calls

/-! ## Walking -/

section Walk

def children (s : Rootfs) (d : Place) : List Place :=
  (s.map (·.1)).filter fun p => p ≠ [] ∧ p.dropLast = d

variable (host : Host) (s : Rootfs)

/-- The loop of `walk_files`: directories still to be listed, and the files found. -/
def walkLoop : Nat → List Place → List Place → Except Errno (List Place)
  | _, [], out => .ok out
  | 0, _ :: _, _ => .error .other
  | n + 1, d :: stack, out =>
    if !s.isDir d then walkLoop n stack out
    else
      match host.refuses .readDir d with
      | some e => .error e
      | none => walkLoop n (((s.children d).filter (s.isDir ·)).reverse ++ stack)
          (out ++ (s.children d).filter (s.isFile ·))

/-- The regular files below a place. Links below it are not followed; one on the way to it is,
and the host says what is found behind it. -/
def walkFiles (d : Place) : Except Errno (List Place) :=
  if s.throughLink d then host.behind d else walkLoop host s (s.length + 1) [d] []

end Walk

/-! ## What a call can do -/

/-- One change of the node at a place: a new node in a directory that is there, another
node of its kind, or a file or link taken away. -/
inductive Change (p : Place) (s : Rootfs) : Rootfs → Prop
  | create {n : Node} (hparent : s.hasParent p = true) (hnone : s.get? p = none) :
      Change p s (s.put p n)
  | replace {n n' : Node} (hold : s.get? p = some n) (hkind : n'.isDir = n.isDir) :
      Change p s (s.put p n')
  | remove {n : Node} (hold : s.get? p = some n) (hleaf : n.isDir = false) : Change p s (s.drop p)

/-- Changes at places of `S` only. -/
def Changes (S : Place → Prop) : Rootfs → Rootfs → Prop :=
  Relation.ReflTransGen fun s s' => ∃ p, S p ∧ Change p s s'

/-- A computation that changes places of `S` only, however it ends. -/
def Moves {α : Type} (S : Place → Prop) (m : Eff Errno Rootfs α) : Prop :=
  ∀ s, Changes S s (m.run s).2

section Moves

variable {α β : Type} {S T : Place → Prop} {host : Host} {p : Place}

theorem Changes.mono {s s' : Rootfs} (h : Changes S s s') (hST : ∀ p, S p → T p) :
    Changes T s s' :=
  Relation.ReflTransGen.mono (fun _ _ ⟨p, hp, hc⟩ => ⟨p, hST p hp, hc⟩) _ _ h

theorem Moves.mono {m : Eff Errno Rootfs α} (h : Moves S m) (hST : ∀ p, S p → T p) : Moves T m :=
  fun s => (h s).mono hST

theorem moves_pure (a : α) : Moves S (pure a) := fun _ => .refl

theorem moves_fail (e : Errno) : Moves S (fail e : Eff Errno Rootfs α) := fun _ => .refl

theorem moves_read : Moves S read := fun _ => .refl

theorem moves_ask (c : Call) : Moves S (ask host c p) := by
  unfold ask
  split
  · exact moves_fail _
  · exact moves_pure _

theorem Moves.bind {m : Eff Errno Rootfs α} {f : α → Eff Errno Rootfs β} (hm : Moves S m)
    (hf : ∀ a, Moves S (f a)) : Moves S (m >>= f) := by
  intro s
  have hfirst := hm s
  rcases h : m.run s with ⟨r, s'⟩
  rw [h] at hfirst
  cases r with
  | ok a =>
    rw [run_bind_ok h]
    exact hfirst.trans (hf a s')
  | error e =>
    rw [run_bind_error h]
    exact hfirst

theorem Moves.when {m : Eff Errno Rootfs Unit} (hm : Moves S m) (c : Bool) :
    Moves S (when c m) := by
  cases c with
  | true => exact hm
  | false => exact moves_pure ()

theorem Moves.attempt {m : Eff Errno Rootfs α} (hm : Moves S m) : Moves S (attempt m) := hm

theorem moves_forM {ι : Type} {g : ι → Eff Errno Rootfs PUnit} {is : List ι}
    (hg : ∀ i ∈ is, Moves S (g i)) : Moves S (forM is g) := by
  induction is with
  | nil => exact moves_pure _
  | cons i is ih =>
    rw [List.forM_cons]
    exact (hg i List.mem_cons_self).bind fun _ => ih fun j hj => hg j (List.mem_cons_of_mem _ hj)

theorem moves_create {n : Node} : Moves (· = p) (create p n) := by
  intro s
  unfold create
  rw [run_read_bind]
  split
  · exact .refl
  · rename_i hparent
    split
    · exact .refl
    · rename_i hnone
      refine .single ⟨p, rfl, .create (by simpa using hparent) ?_⟩
      simpa using hnone

theorem moves_createDir : Moves (· = p) (createDir host p) :=
  (moves_ask _).bind fun _ => moves_create

theorem changes_replace {s : Rootfs} {n n' : Node} (hold : s.get? p = some n)
    (hkind : n'.isDir = n.isDir) : Changes (· = p) s (s.put p n') :=
  .single ⟨p, rfl, .replace hold hkind⟩

theorem moves_setMode {mode : Nat} : Moves (· = p) (setMode host p mode) := by
  refine (moves_ask _).bind fun _ s => ?_
  rw [run_read_bind]
  split
  · rename_i hold
    exact changes_replace hold rfl
  · rename_i hold
    exact changes_replace hold rfl
  · exact .refl
  · exact .refl

theorem moves_writeFile {bytes : List UInt8} : Moves (· = p) (writeFile host p bytes) := by
  refine (moves_ask _).bind fun _ s => ?_
  rw [run_read_bind]
  split
  · exact .refl
  · exact .refl
  · rename_i hold
    exact changes_replace hold rfl
  · exact moves_create s

theorem moves_removeFile : Moves (· = p) (removeFile p) := by
  intro s
  unfold removeFile
  rw [run_update]
  dsimp only
  split
  · rename_i hold
    exact .single ⟨p, rfl, .remove hold rfl⟩
  · rename_i hold
    exact .single ⟨p, rfl, .remove hold rfl⟩
  · exact .refl

theorem moves_copyLink {target : String} : Moves (· = p) (copyLink (calls host) target p) :=
  moves_removeFile.attempt.bind fun _ => (moves_ask _).bind fun _ => moves_create

theorem moves_copyFile {bytes : List UInt8} {mode : Nat} :
    Moves (· = p) (copyFile host bytes mode p) := by
  unfold copyFile
  split
  · exact moves_create.bind fun _ => moves_fail _
  · exact moves_fail _
  · exact moves_create

theorem moves_copyDir {mode : Nat} : Moves (· = p) (copyDir (calls host) mode p) := by
  refine moves_read.bind fun s => Moves.bind ?_ fun _ => moves_ask _
  exact (moves_createDir.bind fun _ => moves_setMode).when _

theorem moves_createDirAll : Moves (· <+: p) (createDirAll host p) := by
  apply moves_forM
  intro q hq
  have hpre : q <+: p := (List.mem_inits q p).mp hq
  refine moves_read.bind fun s => ?_
  split
  · exact moves_createDir.mono fun _ heq => heq ▸ hpre
  · exact moves_pure _
  · exact moves_fail _

end Moves

/-! ## The shape of the tree -/

/-- A node per place, and every node in a directory. -/
structure Shaped (s : Rootfs) : Prop where
  nodup : (s.map (·.1)).Nodup
  parent : ∀ p n, s.get? p = some n → s.hasParent p = true

section Shaped

variable {S : Place → Prop} {s s' : Rootfs} {p q : Place}

theorem shaped_nil : Shaped [] := ⟨List.nodup_nil, by simp [get?]⟩

theorem mem_keys : p ∈ s.map (·.1) ↔ ∃ n, s.get? p = some n := by
  induction s with
  | nil => simp [get?]
  | cons e s ih =>
    obtain ⟨r, m⟩ := e
    by_cases hp : p = r
    · subst hp
      simp [get?]
    · simp only [List.map_cons, List.mem_cons, hp, false_or]
      rw [ih]
      unfold get?
      rw [lookup_cons_ne hp]

theorem nodup_drop (h : (s.map (·.1)).Nodup) : ((s.drop p).map (·.1)).Nodup :=
  h.sublist (List.filter_sublist.map _)

theorem nodup_put {n : Node} (h : (s.map (·.1)).Nodup) : ((s.put p n).map (·.1)).Nodup := by
  have hnot : p ∉ (s.drop p).map (·.1) := by
    rw [mem_keys, get?_drop_self]
    simp
  exact List.nodup_cons.mpr ⟨hnot, nodup_drop h⟩

theorem Change.get?_ne (h : Change p s s') (hne : q ≠ p) : s'.get? q = s.get? q := by
  cases h with
  | create | replace => exact get?_put_ne hne
  | remove => exact get?_drop_ne hne

theorem Change.isDir (h : Change p s s') (hq : s.isDir q = true) : s'.isDir q = true := by
  by_cases hne : q = p
  · subst hne
    cases h with
    | create _ hnone => simp [Rootfs.isDir, hnone] at hq
    | replace hold hkind =>
      simp only [Rootfs.isDir, hold, Option.any_some] at hq
      simp [Rootfs.isDir, hkind, hq]
    | remove hold hleaf => simp [Rootfs.isDir, hold, hleaf] at hq
  · unfold Rootfs.isDir at hq ⊢
    rwa [h.get?_ne hne]

theorem Change.hasParent (h : Change p s s') (hq : s.hasParent q = true) :
    s'.hasParent q = true := by
  unfold Rootfs.hasParent at hq ⊢
  rw [Bool.or_eq_true] at hq ⊢
  exact hq.imp_right h.isDir

theorem Change.shaped (h : Change p s s') (hs : Shaped s) : Shaped s' := by
  constructor
  · cases h with
    | create | replace => exact nodup_put hs.nodup
    | remove => exact nodup_drop hs.nodup
  · intro q n hq
    apply h.hasParent
    by_cases hne : q = p
    · subst hne
      cases h with
      | create hparent => exact hparent
      | replace hold | remove hold => exact hs.parent q _ hold
    · rw [h.get?_ne hne] at hq
      exact hs.parent q n hq

theorem Changes.get? (h : Changes S s s') (hq : ¬ S q) : s'.get? q = s.get? q := by
  induction h with
  | refl => rfl
  | tail _ hstep ih =>
    obtain ⟨p, hp, hc⟩ := hstep
    have hne : q ≠ p := fun heq => hq (heq ▸ hp)
    rw [hc.get?_ne hne, ih]

theorem Changes.isDir (h : Changes S s s') (hq : s.isDir q = true) : s'.isDir q = true := by
  induction h with
  | refl => exact hq
  | tail _ hstep ih => exact hstep.choose_spec.2.isDir ih

theorem Changes.shaped (h : Changes S s s') (hs : Shaped s) : Shaped s' := by
  induction h with
  | refl => exact hs
  | tail _ hstep ih => exact hstep.choose_spec.2.shaped ih

theorem Shaped.above (hs : Shaped s) {n : Node} (hp : s.get? p = some n) (hq : q <+: p)
    (hne : q ≠ p) : s.isDir q = true := by
  induction p using List.reverseRecOn generalizing n with
  | nil => exact absurd (List.prefix_nil.mp hq) hne
  | append_singleton p x ih =>
    have hparent := hs.parent _ n hp
    have hdir : s.isDir p = true := by simpa [hasParent] using hparent
    rcases List.prefix_concat_iff.mp hq with heq | hq
    · exact absurd heq hne
    · by_cases hqp : q = p
      · exact hqp ▸ hdir
      · cases hm : s.get? p with
        | none => simp [isDir, hm] at hdir
        | some m => exact ih hm hq hqp

end Shaped

end Rootfs

end Tdvmm.Build
