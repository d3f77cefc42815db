import Mathlib.Algebra.Ring.Nat
import Mathlib.Data.List.Sort
import Tdvmm.Lib.Utf8

/-!
# Cpio.Collect — the entries of a directory tree

A `Volume` is a directory tree over a table of inodes: names lead to inodes, and what a
name's `lstat` and content are is a matter of the inode. `collect` walks it with a stack of
directories still to be listed and sorts what it finds by name; `dev` and what is below it
are left out.

The walk finds every entry of the tree (`collect_perm`), no two under one name
(`nodup_names`), and fails only for a path that the system takes for too long
(`collect_total`).
-/

namespace Tdvmm.Cpio

open Lib

abbrev Bytes := List UInt8

abbrev InodeId := UInt64 × UInt64

/-- What is kept with an inode; `content` are the bytes of a regular file or the target of
a symbolic link. -/
structure Inode where
  mode : UInt32
  nlink : UInt32
  rdev : UInt64
  content : Bytes
deriving DecidableEq, Repr

def S_IFMT : UInt32 := 0o170000

def S_IFDIR : UInt32 := 0o040000

def S_IFREG : UInt32 := 0o100000

def S_IFLNK : UInt32 := 0o120000

def S_IFCHR : UInt32 := 0o020000

def S_IFBLK : UInt32 := 0o060000

/-- A name's inode, and for a directory its entries. -/
inductive FsTree where
  | leaf (id : InodeId)
  | dir (id : InodeId) (entries : List (Bytes × FsTree))

def FsTree.id : FsTree → InodeId
  | leaf id => id
  | dir id _ => id

def FsTree.children : FsTree → List (Bytes × FsTree)
  | leaf _ => []
  | dir _ entries => entries

def Inode.isDir (i : Inode) : Bool := i.mode &&& S_IFMT == S_IFDIR

mutual

/-- Names are single components, no two entries of a directory share one, and what is
listed as a directory is one by its mode. -/
def FsTree.Proper (inode : InodeId → Inode) : FsTree → Prop
  | .leaf id => (inode id).isDir = false
  | .dir id entries => (inode id).isDir = true ∧ ProperEntries inode entries

def ProperEntries (inode : InodeId → Inode) : List (Bytes × FsTree) → Prop
  | [] => True
  | (name, t) :: rest => (name ≠ [] ∧ 47 ∉ name) ∧ name ∉ rest.map (·.1) ∧ t.Proper inode ∧
      ProperEntries inode rest

end

mutual

def FsTree.links : FsTree → List InodeId
  | .leaf id => [id]
  | .dir _ entries => linksOf entries

def linksOf : List (Bytes × FsTree) → List InodeId
  | [] => []
  | (_, t) :: rest => t.links ++ linksOf rest

end

/-- A directory tree, and the length of the path of its root. An inode counts at least the
names that lead to it. -/
structure Volume where
  inode : InodeId → Inode
  root : List (Bytes × FsTree)
  rootLen : Nat
  proper : ProperEntries inode root
  counted : ∀ id, (linksOf root).count id ≤ (inode id).nlink.toNat

inductive CpioError where
  | io (what : String)
  | tooLarge (name : Bytes) (size : Nat)
deriving DecidableEq, Repr

/-- One collected entry, as `lstat` shows it. -/
structure Entry where
  name : Bytes
  id : InodeId
  rdev : UInt64
  nlink : UInt32
  mode : UInt32
  isDir : Bool
deriving DecidableEq, Repr

/-- A path of this length is too long for the system, its NUL not counted. -/
def PATH_MAX : Nat := 4096

def relName (dir name : Bytes) : Bytes := if dir = [] then name else dir ++ 47 :: name

/-- `dev` and everything under it. -/
def excluded (rel : Bytes) : Bool := rel == [100, 101, 118] || [100, 101, 118, 47].isPrefixOf rel

abbrev Stack := List (Bytes × List (Bytes × FsTree))

namespace Volume

variable (vol : Volume)

def entryOf (rel : Bytes) (id : InodeId) : Entry where
  name := rel
  id
  rdev := (vol.inode id).rdev
  nlink := (vol.inode id).nlink
  mode := (vol.inode id).mode
  isDir := (vol.inode id).isDir

def listDir (dir : Bytes) : List (Bytes × FsTree) → Stack × List Entry →
    Except CpioError (Stack × List Entry)
  | [], acc => .ok acc
  | (name, t) :: rest, (stack, out) =>
    let rel := relName dir name
    if excluded rel then listDir dir rest (stack, out)
    else if PATH_MAX ≤ vol.rootLen + 1 + rel.length then .error (.io "stat")
    else
      let e := vol.entryOf rel t.id
      listDir dir rest (if e.isDir then (rel, t.children) :: stack else stack, out ++ [e])

/-- The loop over the directories; the first argument bounds its steps. -/
def collectLoop : Nat → Stack → List Entry → Except CpioError (List Entry)
  | _, [], out => .ok out
  | 0, _ :: _, _ => .error (.io "walk")
  | n + 1, (dir, entries) :: stack, out =>
    match vol.listDir dir entries (stack, out) with
    | .ok (stack, out) => collectLoop n stack out
    | .error e => .error e

end Volume

mutual

def FsTree.dirs : FsTree → Nat
  | .leaf _ => 0
  | .dir _ entries => 1 + dirsOf entries

def dirsOf : List (Bytes × FsTree) → Nat
  | [] => 0
  | (_, t) :: rest => t.dirs + dirsOf rest

end

def nameLe (a b : Entry) : Prop := a.name ≤ b.name

instance : DecidableRel nameLe := fun a b => inferInstanceAs (Decidable (a.name ≤ b.name))

def Volume.collect (vol : Volume) : Except CpioError (List Entry) :=
  (vol.collectLoop (1 + dirsOf vol.root) [([], vol.root)] []).map (·.insertionSort nameLe)

/-! ## What the walk finds -/

namespace Volume

variable {vol : Volume}

mutual

def treeEntries (vol : Volume) (rel : Bytes) : FsTree → List Entry
  | .leaf id => [vol.entryOf rel id]
  | .dir id entries => vol.entryOf rel id :: dirEntries vol rel entries

def dirEntries (vol : Volume) (dir : Bytes) : List (Bytes × FsTree) → List Entry
  | [] => []
  | (name, t) :: rest =>
    (if excluded (relName dir name) then [] else treeEntries vol (relName dir name) t) ++
      dirEntries vol dir rest

end

def pending (vol : Volume) (stack : Stack) : List Entry :=
  stack.flatMap fun d => vol.dirEntries d.1 d.2

def ProperStack (vol : Volume) (stack : Stack) : Prop := ∀ d ∈ stack, ProperEntries vol.inode d.2

variable {t : FsTree} {dir : Bytes} {entries : List (Bytes × FsTree)} {stack : Stack}
  {es out : List Entry}

theorem treeEntries_eq {rel : Bytes} (ht : t.Proper vol.inode) :
    vol.treeEntries rel t = vol.entryOf rel t.id ::
      vol.pending (if (vol.entryOf rel t.id).isDir then [(rel, t.children)] else []) := by
  cases t with
  | leaf id =>
    unfold FsTree.Proper at ht
    simp [treeEntries, FsTree.id, entryOf, ht, pending]
  | dir id entries =>
    unfold FsTree.Proper at ht
    simp [treeEntries, FsTree.id, FsTree.children, entryOf, ht.1, pending]

theorem proper_children (ht : t.Proper vol.inode) :
    ProperEntries vol.inode t.children := by
  cases t with
  | leaf id =>
    unfold FsTree.children ProperEntries
    trivial
  | dir id entries =>
    unfold FsTree.Proper at ht
    exact ht.2

theorem listDir_perm {stack' : Stack}
    {out' : List Entry} (hproper : ProperEntries vol.inode entries)
    (hstack : vol.ProperStack stack)
    (h : vol.listDir dir entries (stack, out) = .ok (stack', out')) :
    vol.ProperStack stack' ∧ ∃ new, out' = out ++ new ∧
      (new ++ vol.pending stack').Perm (vol.dirEntries dir entries ++ vol.pending stack) := by
  induction entries generalizing stack out with
  | nil =>
    obtain ⟨rfl, rfl⟩ : stack = stack' ∧ out = out' := by simpa [listDir] using h
    exact ⟨hstack, [], by simp, by simp [dirEntries]⟩
  | cons e rest ih =>
    obtain ⟨name, t⟩ := e
    unfold ProperEntries at hproper
    obtain ⟨-, -, ht, hrest⟩ := hproper
    rw [listDir] at h
    simp only at h
    split at h
    · rename_i hex
      rw [dirEntries, if_pos hex]
      exact ih hrest hstack h
    · rename_i hex
      split at h
      · cases h
      · have hpushed : vol.ProperStack (if (vol.entryOf (relName dir name) t.id).isDir then
            (relName dir name, t.children) :: stack else stack) := by
          split
          · intro d hd
            rcases List.mem_cons.mp hd with rfl | hd
            · exact proper_children ht
            · exact hstack d hd
          · exact hstack
        obtain ⟨hstack', new, rfl, hperm⟩ := ih hrest hpushed h
        refine ⟨hstack', vol.entryOf (relName dir name) t.id :: new, by simp, ?_⟩
        rw [dirEntries, if_neg hex, treeEntries_eq ht]
        -- the subdirectory moves from the listing to the stack
        have hpending : vol.pending (if (vol.entryOf (relName dir name) t.id).isDir then
            (relName dir name, t.children) :: stack else stack) =
              vol.pending (if (vol.entryOf (relName dir name) t.id).isDir then
                [(relName dir name, t.children)] else []) ++ vol.pending stack := by
          split <;> simp [pending]
        rw [hpending] at hperm
        generalize vol.pending (if (vol.entryOf (relName dir name) t.id).isDir then
          [(relName dir name, t.children)] else []) = below at hperm ⊢
        refine List.Perm.cons _ (hperm.trans ?_)
        rw [← List.append_assoc]
        exact List.perm_append_comm.append_right _

theorem collectLoop_perm {n : Nat} {found : List Entry}
    (hstack : vol.ProperStack stack) (h : vol.collectLoop n stack out = .ok found) :
    found.Perm (out ++ vol.pending stack) := by
  induction n generalizing stack out with
  | zero =>
    cases stack with
    | nil =>
      obtain rfl : out = found := by simpa [collectLoop] using h
      simp [pending]
    | cons d stack => cases h
  | succ n ih =>
    cases stack with
    | nil =>
      obtain rfl : out = found := by simpa [collectLoop] using h
      simp [pending]
    | cons d stack =>
      obtain ⟨dir, entries⟩ := d
      rw [collectLoop] at h
      split at h
      · rename_i stack' out' hlist
        have hentries := hstack (dir, entries) List.mem_cons_self
        have hrest : vol.ProperStack stack := fun d hd => hstack d (List.mem_cons_of_mem _ hd)
        obtain ⟨hstack', new, rfl, hperm⟩ := listDir_perm hentries hrest hlist
        refine (ih hstack' h).trans ?_
        rw [List.append_assoc]
        exact hperm.append_left out
      · cases h

theorem collect_ok (h : vol.collect = .ok es) :
    ∃ found, vol.collectLoop (1 + dirsOf vol.root) [([], vol.root)] [] = .ok found ∧
      found.insertionSort nameLe = es := by
  unfold collect at h
  cases hloop : vol.collectLoop (1 + dirsOf vol.root) [([], vol.root)] [] with
  | error e =>
    rw [hloop] at h
    cases h
  | ok found =>
    rw [hloop] at h
    exact ⟨found, rfl, Except.ok.inj h⟩

theorem collect_perm (h : vol.collect = .ok es) :
    es.Perm (vol.dirEntries [] vol.root) ∧ es.Pairwise nameLe := by
  obtain ⟨found, hloop, rfl⟩ := collect_ok h
  have hproper : vol.ProperStack [([], vol.root)] := by
    intro d hd
    rw [List.mem_singleton.mp hd]
    exact vol.proper
  constructor
  · refine (List.perm_insertionSort nameLe found).trans
      ((collectLoop_perm hproper hloop).trans ?_)
    simp [pending]
  · have : Std.Total nameLe := ⟨fun a b => List.le_total a.name b.name⟩
    have : IsTrans Entry nameLe := ⟨fun a b c => List.le_trans⟩
    exact List.pairwise_insertionSort nameLe found

/-! No path is too long: then the walk succeeds. -/

def Short (vol : Volume) (e : Entry) : Prop := vol.rootLen + 1 + e.name.length < PATH_MAX

def load (stack : Stack) : Nat := (stack.map fun d => 1 + dirsOf d.2).sum

theorem dirs_eq (ht : t.Proper vol.inode) (rel : Bytes) :
    t.dirs = load (if (vol.entryOf rel t.id).isDir then [(rel, t.children)] else []) := by
  cases t with
  | leaf id =>
    unfold FsTree.Proper at ht
    simp [FsTree.dirs, FsTree.id, entryOf, ht, load]
  | dir id entries =>
    unfold FsTree.Proper at ht
    simp [FsTree.dirs, FsTree.id, FsTree.children, entryOf, ht.1, load]

theorem listDir_total {dir : Bytes} {entries : List (Bytes × FsTree)} {stack : Stack}
    {out : List Entry} (hproper : ProperEntries vol.inode entries)
    (hshort : ∀ e ∈ vol.dirEntries dir entries, vol.Short e) :
    ∃ stack' out', vol.listDir dir entries (stack, out) = .ok (stack', out') ∧
      load stack' ≤ dirsOf entries + load stack := by
  induction entries generalizing stack out with
  | nil => exact ⟨stack, out, rfl, by simp [dirsOf]⟩
  | cons e rest ih =>
    obtain ⟨name, t⟩ := e
    unfold ProperEntries at hproper
    obtain ⟨-, -, ht, hrest⟩ := hproper
    rw [listDir]
    simp only
    have hrest' : ∀ e ∈ vol.dirEntries dir rest, vol.Short e := by
      intro e he
      apply hshort
      rw [dirEntries]
      exact List.mem_append_right _ he
    by_cases hex : excluded (relName dir name) = true
    · rw [if_pos hex]
      obtain ⟨stack', out', hlist, hload⟩ := ih hrest hrest'
      refine ⟨stack', out', hlist, hload.trans ?_⟩
      rw [dirsOf]
      omega
    · -- what is listed is short, so the length check passes
      have hfirst : vol.Short (vol.entryOf (relName dir name) t.id) := by
        apply hshort
        rw [dirEntries, if_neg hex, treeEntries_eq ht]
        simp
      have hlt : ¬ PATH_MAX ≤ vol.rootLen + 1 + (relName dir name).length := by
        unfold Short entryOf at hfirst
        dsimp only at hfirst
        omega
      rw [if_neg hex, if_neg hlt]
      obtain ⟨stack', out', hlist, hload⟩ := ih hrest hrest'
      refine ⟨stack', out', hlist, hload.trans ?_⟩
      rw [dirsOf, dirs_eq ht (relName dir name)]
      split
      · simp only [load, List.map_cons, List.sum_cons, List.map_nil, List.sum_nil]
        omega
      · simp only [load, List.map_nil, List.sum_nil]
        omega

theorem collectLoop_total {n : Nat} {stack : Stack} {out : List Entry}
    (hstack : vol.ProperStack stack) (hshort : ∀ e ∈ vol.pending stack, vol.Short e)
    (hn : load stack ≤ n) : ∃ found, vol.collectLoop n stack out = .ok found := by
  induction n generalizing stack out with
  | zero =>
    cases stack with
    | nil => exact ⟨out, rfl⟩
    | cons d stack =>
      exfalso
      simp only [load, List.map_cons, List.sum_cons] at hn
      omega
  | succ n ih =>
    cases stack with
    | nil => exact ⟨out, by simp [collectLoop]⟩
    | cons d stack =>
      obtain ⟨dir, entries⟩ := d
      have hentries := hstack (dir, entries) List.mem_cons_self
      have hrest : vol.ProperStack stack := fun d hd => hstack d (List.mem_cons_of_mem _ hd)
      have hshort' : ∀ e ∈ vol.dirEntries dir entries, vol.Short e := by
        intro e he
        apply hshort
        simp [pending, he]
      obtain ⟨stack', out', hlist, hload⟩ :=
        @listDir_total vol dir entries stack out hentries hshort'
      obtain ⟨hstack', new, rfl, hperm⟩ := listDir_perm hentries hrest hlist
      rw [collectLoop, hlist]
      apply ih hstack'
      · intro e he
        apply hshort
        exact hperm.subset (List.mem_append_right new he)
      · simp only [load, List.map_cons, List.sum_cons] at hn hload ⊢
        omega

theorem collect_total (hshort : ∀ e ∈ vol.dirEntries [] vol.root, vol.Short e) :
    ∃ es, vol.collect = .ok es := by
  have hproper : vol.ProperStack [([], vol.root)] := by
    intro d hd
    rw [List.mem_singleton.mp hd]
    exact vol.proper
  obtain ⟨found, hfound⟩ := @collectLoop_total vol (1 + dirsOf vol.root) [([], vol.root)] [] hproper
    (by simpa [pending] using hshort) (by simp [load])
  exact ⟨found.insertionSort nameLe, by rw [collect, hfound]; rfl⟩

/-! ## Names and links -/

def Under (rel name : Bytes) : Prop := name = rel ∨ rel ++ [47] <+: name

def dirPrefix (dir : Bytes) : Bytes := if dir = [] then [] else dir ++ [47]

theorem relName_eq (dir name : Bytes) : relName dir name = dirPrefix dir ++ name := by
  unfold relName dirPrefix
  split <;> simp

theorem under_unique {a b x : Bytes} (ha : 47 ∉ a) (hb : 47 ∉ b)
    (hxa : Under (relName dir a) x) (hxb : Under (relName dir b) x) : a = b := by
  have hsplit : ∀ {c}, 47 ∉ c → Under (relName dir c) x →
      ∃ s, x = dirPrefix dir ++ (c ++ s) ∧ (c ++ s).takeWhile (· ≠ 47) = c := by
    intro c hc hx
    have hall : ∀ y ∈ c, y ≠ 47 := fun y hy heq => hc (heq ▸ hy)
    rw [Under, relName_eq] at hx
    rcases hx with rfl | ⟨s, rfl⟩
    · refine ⟨[], by simp, ?_⟩
      rw [List.takeWhile_append_of_pos (by simpa using hall)]
      simp
    · refine ⟨47 :: s, by simp, ?_⟩
      rw [List.takeWhile_append_of_pos (by simpa using hall)]
      simp
  obtain ⟨s, hs, hcut⟩ := hsplit ha hxa
  obtain ⟨s', hs', hcut'⟩ := hsplit hb hxb
  rw [hs, List.append_cancel_left_eq] at hs'
  rw [← hcut, hs', hcut']

mutual

theorem under_of_mem_treeEntries : ∀ (t : FsTree) {rel : Bytes} {e : Entry}, t.Proper vol.inode →
    rel ≠ [] → e ∈ vol.treeEntries rel t → Under rel e.name
  | .leaf id, rel, e, _, _, he => by
    unfold treeEntries at he
    rw [List.mem_singleton.mp he]
    exact .inl rfl
  | .dir id entries, rel, e, ht, hrel, he => by
    unfold treeEntries at he
    unfold FsTree.Proper at ht
    rcases List.mem_cons.mp he with rfl | he
    · exact .inl rfl
    · obtain ⟨name, -, hname⟩ := under_of_mem_dirEntries entries ht.2 he
      have hpre : rel ++ [47] <+: relName rel name := by simp [relName, hrel]
      rcases hname with heq | hbelow
      · exact .inr (heq ▸ hpre)
      · exact .inr (hpre.trans ((List.prefix_append _ _).trans hbelow))

theorem under_of_mem_dirEntries : ∀ (entries : List (Bytes × FsTree)) {dir : Bytes} {e : Entry},
    ProperEntries vol.inode entries → e ∈ vol.dirEntries dir entries →
      ∃ name ∈ entries.map (·.1), Under (relName dir name) e.name
  | [], dir, e, _, he => by
    unfold dirEntries at he
    cases he
  | (name, t) :: rest, dir, e, hproper, he => by
    unfold ProperEntries at hproper
    obtain ⟨⟨hne, -⟩, -, ht, hrest⟩ := hproper
    unfold dirEntries at he
    rcases List.mem_append.mp he with he | he
    · split at he
      · cases he
      · refine ⟨name, by simp, under_of_mem_treeEntries t ht ?_ he⟩
        simp [relName_eq, hne]
    · obtain ⟨other, hother, hname⟩ := under_of_mem_dirEntries rest hrest he
      exact ⟨other, by simp only [List.map_cons, List.mem_cons, hother, or_true], hname⟩

end

theorem slashless_of_mem {inode : InodeId → Inode}
    (hproper : ProperEntries inode entries) {name : Bytes} (h : name ∈ entries.map (·.1)) :
    47 ∉ name := by
  induction entries with
  | nil => cases h
  | cons e rest ih =>
    unfold ProperEntries at hproper
    rcases List.mem_cons.mp h with rfl | h
    · exact hproper.1.2
    · exact ih hproper.2.2.2 h

mutual

theorem nodup_treeEntries : ∀ (t : FsTree) {rel : Bytes}, t.Proper vol.inode → rel ≠ [] →
    ((vol.treeEntries rel t).map (·.name)).Nodup
  | .leaf id, rel, _, _ => by
    unfold treeEntries
    exact List.nodup_singleton _
  | .dir id entries, rel, ht, hrel => by
    unfold treeEntries
    unfold FsTree.Proper at ht
    refine List.nodup_cons.mpr ⟨?_, nodup_dirEntries entries ht.2⟩
    intro hmem
    obtain ⟨e, he, heq⟩ := List.mem_map.mp hmem
    obtain ⟨name, -, hname⟩ := under_of_mem_dirEntries entries ht.2 he
    -- a name below the directory is longer than its own
    have hpre : rel ++ [47] <+: relName rel name := by simp [relName, hrel]
    have hlong : rel ++ [47] <+: e.name := by
      rcases hname with h | h
      · exact h ▸ hpre
      · exact hpre.trans ((List.prefix_append _ _).trans h)
    have hlen := hlong.length_le
    rw [heq] at hlen
    simp only [List.length_append, List.length_singleton, entryOf] at hlen
    omega

theorem nodup_dirEntries : ∀ (entries : List (Bytes × FsTree)) {dir : Bytes},
    ProperEntries vol.inode entries → ((vol.dirEntries dir entries).map (·.name)).Nodup
  | [], dir, _ => by
    unfold dirEntries
    exact List.nodup_nil
  | (name, t) :: rest, dir, hproper => by
    unfold ProperEntries at hproper
    obtain ⟨⟨hne, hslash⟩, hfresh, ht, hrest⟩ := hproper
    have hrel : relName dir name ≠ [] := by simp [relName_eq, hne]
    unfold dirEntries
    rw [List.map_append, List.nodup_append]
    refine ⟨?_, nodup_dirEntries rest hrest, ?_⟩
    · split
      · exact List.nodup_nil
      · exact nodup_treeEntries t ht hrel
    · rintro x hx y hy rfl
      obtain ⟨e, he, rfl⟩ := List.mem_map.mp hx
      obtain ⟨e', he', heq⟩ := List.mem_map.mp hy
      split at he
      · cases he
      · have hunder := under_of_mem_treeEntries t ht hrel he
        obtain ⟨other, hother, hunder'⟩ := under_of_mem_dirEntries rest hrest he'
        rw [heq] at hunder'
        have hsame := under_unique hslash (slashless_of_mem hrest hother) hunder hunder'
        exact hfresh (hsame ▸ hother)

end

theorem nodup_names (h : vol.collect = .ok es) : (es.map (·.name)).Nodup :=
  ((collect_perm h).1.map _).nodup_iff.mpr (nodup_dirEntries _ vol.proper)

/-- A collected entry that is a name of this inode, and no directory. -/
def isLink (id : InodeId) (e : Entry) : Bool := e.id == id && !e.isDir

mutual

theorem countP_treeEntries : ∀ (t : FsTree) {rel : Bytes} (id : InodeId), t.Proper vol.inode →
    (vol.treeEntries rel t).countP (isLink id) ≤ t.links.count id
  | .leaf i, rel, id, ht => by
    unfold FsTree.Proper at ht
    unfold treeEntries FsTree.links
    simp [isLink, entryOf, ht, List.countP_cons, List.count_cons]
  | .dir i entries, rel, id, ht => by
    unfold FsTree.Proper at ht
    unfold treeEntries FsTree.links
    have hdir : isLink id (vol.entryOf rel i) = false := by simp [isLink, entryOf, ht.1]
    rw [List.countP_cons_of_neg (by simp [hdir])]
    exact countP_dirEntries entries id ht.2

theorem countP_dirEntries : ∀ (entries : List (Bytes × FsTree)) {dir : Bytes} (id : InodeId),
    ProperEntries vol.inode entries →
      (vol.dirEntries dir entries).countP (isLink id) ≤ (linksOf entries).count id
  | [], dir, id, _ => by
    unfold dirEntries linksOf
    simp
  | (name, t) :: rest, dir, id, hproper => by
    unfold ProperEntries at hproper
    obtain ⟨-, -, ht, hrest⟩ := hproper
    unfold dirEntries linksOf
    rw [List.countP_append, List.count_append]
    have htree := @countP_treeEntries t (relName dir name) id ht
    have hdir := @countP_dirEntries rest dir id hrest
    split
    · rw [List.countP_nil]
      omega
    · omega

end

theorem countP_le_nlink (h : vol.collect = .ok es) (id : InodeId) :
    es.countP (isLink id) ≤ (vol.inode id).nlink.toNat := by
  rw [(collect_perm h).1.countP_eq]
  exact (countP_dirEntries _ id vol.proper).trans (vol.counted id)

mutual

theorem entry_of_mem_treeEntries : ∀ (t : FsTree) {rel : Bytes} {e : Entry},
    e ∈ vol.treeEntries rel t → e = vol.entryOf e.name e.id
  | .leaf id, rel, e, he => by
    unfold treeEntries at he
    rw [List.mem_singleton.mp he]
    rfl
  | .dir id entries, rel, e, he => by
    unfold treeEntries at he
    rcases List.mem_cons.mp he with rfl | he
    · rfl
    · exact entry_of_mem_dirEntries entries he

theorem entry_of_mem_dirEntries : ∀ (entries : List (Bytes × FsTree)) {dir : Bytes} {e : Entry},
    e ∈ vol.dirEntries dir entries → e = vol.entryOf e.name e.id
  | [], dir, e, he => by
    unfold dirEntries at he
    cases he
  | (name, t) :: rest, dir, e, he => by
    unfold dirEntries at he
    rcases List.mem_append.mp he with he | he
    · split at he
      · cases he
      · exact entry_of_mem_treeEntries t he
    · exact entry_of_mem_dirEntries rest he

end

theorem entry_eq (h : vol.collect = .ok es) {e : Entry} (he : e ∈ es) :
    e = vol.entryOf e.name e.id :=
  entry_of_mem_dirEntries _ ((collect_perm h).1.subset he)

theorem listDir_short {stack' : Stack}
    {out' : List Entry} (hout : ∀ e ∈ out, vol.Short e)
    (h : vol.listDir dir entries (stack, out) = .ok (stack', out')) : ∀ e ∈ out', vol.Short e := by
  induction entries generalizing stack out with
  | nil =>
    obtain ⟨-, rfl⟩ : stack = stack' ∧ out = out' := by simpa [listDir] using h
    exact hout
  | cons e rest ih =>
    obtain ⟨name, t⟩ := e
    rw [listDir] at h
    simp only at h
    split at h
    · exact ih hout h
    · split at h
      · cases h
      · rename_i hlen
        refine ih (fun e he => ?_) h
        rcases List.mem_append.mp he with he | he
        · exact hout e he
        · rw [List.mem_singleton.mp he]
          unfold Short entryOf
          dsimp only
          omega

theorem collectLoop_short {n : Nat} {found : List Entry}
    (hout : ∀ e ∈ out, vol.Short e) (h : vol.collectLoop n stack out = .ok found) :
    ∀ e ∈ found, vol.Short e := by
  induction n generalizing stack out with
  | zero =>
    cases stack with
    | nil =>
      obtain rfl : out = found := by simpa [collectLoop] using h
      exact hout
    | cons d stack => cases h
  | succ n ih =>
    cases stack with
    | nil =>
      obtain rfl : out = found := by simpa [collectLoop] using h
      exact hout
    | cons d stack =>
      rw [collectLoop] at h
      split at h
      · rename_i hlist
        exact ih (listDir_short hout hlist) h
      · cases h

theorem short_of_mem (h : vol.collect = .ok es) {e : Entry} (he : e ∈ es) :
    vol.Short e := by
  obtain ⟨found, hloop, rfl⟩ := collect_ok h
  exact collectLoop_short (by simp) hloop e ((List.perm_insertionSort nameLe found).subset he)

end Volume

end Tdvmm.Cpio
