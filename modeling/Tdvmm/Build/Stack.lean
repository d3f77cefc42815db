import Tdvmm.Build.Copy
import Tdvmm.Build.Walk

/-!
# Build.Stack — the tree of a stack, and what is kept of its files

`assembleStackTree` makes the tree that holds the compose lock, the staged binds and the seed
store of images.

All staged and layer files are kept exactly when the copy got to every bind file, no such file
with content ends in `.lock`, and no JSON file of a layer has a creation time to be normalised
(`filesKept_iff`).
-/

namespace Tdvmm.Build

open Lib Lib.Eff Rootfs
open Lib.Fs (Errno Node)

/-! ## File names -/

def extension (p : Place) : Option Name :=
  match p.getLast? with
  | none => none
  | some name =>
    let after := (name.reverse.takeWhile (· ≠ 46)).reverse
    let before := name.take (name.length - after.length - 1)
    if 46 ∉ name ∨ before = [] ∨ name = [46, 46] then none else some after

/-! ## Creation times -/

section Created

def strip (pre bs : List UInt8) : Option (List UInt8) :=
  if pre.isPrefixOf bs then some (bs.drop pre.length) else none

def isDigit (b : UInt8) : Bool := 48 ≤ b && b ≤ 57

def stripDigits : Nat → List UInt8 → Option (List UInt8)
  | 0, bs => some bs
  | n + 1, b :: bs => if isDigit b then stripDigits n bs else none
  | _ + 1, [] => none

def isClock (b : UInt8) : Bool := isDigit b || b == 58 || b == 46

/-- The rest of a text after a match of `"created":"[0-9]{4}-[0-9]{2}-[0-9]{2}T[0-9:.]+Z"`. -/
def stripCreated (bs : List UInt8) : Option (List UInt8) := do
  let bs ← strip (utf8 "\"created\":\"") bs
  let bs ← stripDigits 4 bs
  let bs ← strip (utf8 "-") bs
  let bs ← stripDigits 2 bs
  let bs ← strip (utf8 "-") bs
  let bs ← stripDigits 2 bs
  let bs ← strip (utf8 "T") bs
  if (bs.takeWhile isClock).isEmpty then none
  else strip (utf8 "Z\"") (bs.dropWhile isClock)

def hasCreated (bs : List UInt8) : Bool := bs.tails.any (stripCreated · |>.isSome)

/-- Replace the matches from left to right; the first argument bounds the steps. -/
def replaceCreated : Nat → List UInt8 → List UInt8
  | 0, bs => bs
  | _ + 1, [] => []
  | n + 1, b :: bs =>
    match stripCreated (b :: bs) with
    | some rest => utf8 "\"created\":\"2026-08-01T00:00:00Z\"" ++ replaceCreated n rest
    | none => b :: replaceCreated n bs

end Created

/-! ## Assembly -/

structure Source where
  tree : Tree Name
  distinct : Distinct tree

structure Listing where
  entries : List (Name × Tree Name)
  distinct : DistinctEntries entries

/-- What goes into a stack's tree; `binds` are the contents of the staging directory, if it
is a directory. -/
structure AssembleConfig where
  stackLock : List UInt8
  stackLockMode : Nat
  stackBinds : Option Listing
  stackName : String
  stackProject : String
  stackMem : Nat
  seedStorage : Source

def lockAt : Place := place "var/lib/tdvmm-stack/compose.lock.yml"

def bindsAt : Place := place "var/lib/tdvmm-stack/binds"

def seedAt : Place := place "var/lib/containers-seed"

def storageAt : Place := seedAt ++ [utf8 "storage"]

def scaffolding : List Place :=
  [place "var", place "var/lib", place "etc", place "var/lib/tdvmm-stack", bindsAt, seedAt]

section Assemble

variable (host : Host)

def walk (d : Place) : Eff Errno Rootfs (List Place) := do
  match walkFiles host (← read) d with
  | .ok files => pure files
  | .error e => fail e

/-- Write a file again if `f` has a new content for it. -/
def rewriteFile (f : Place → List UInt8 → Option (List UInt8)) (p : Place) :
    Eff Errno Rootfs Unit := do
  match (← read).get? p with
  | some (.file bytes _) =>
    match f p bytes with
    | some new => writeFile host p new
    | none => pure ()
  | _ => pure ()

def pass (f : Place → List UInt8 → Option (List UInt8)) (d : Place) : Eff Errno Rootfs Unit := do
  let files ← walk host d
  forM files (rewriteFile host f)

/-- The new content of a JSON file that can be read as text and has a creation time. -/
def normalizedJson (p : Place) (bytes : List UInt8) : Option (List UInt8) :=
  if extension p = some (utf8 "json") ∧ host.refuses .read p = none ∧ utf8Valid bytes = true ∧
      hasCreated bytes = true then
    some (replaceCreated bytes.length bytes)
  else none

def normalizeCreatedJson (d : Place) : Eff Errno Rootfs Unit := pass host (normalizedJson host) d

def truncatedLock (p : Place) (_ : List UInt8) : Option (List UInt8) :=
  if extension p = some (utf8 "lock") then some [] else none

def truncateLocks (d : Place) : Eff Errno Rootfs Unit := pass host truncatedLock d

/-- The directories, and the compose lock. -/
def scaffold (cfg : AssembleConfig) : Eff Errno Rootfs Unit := do
  createDirAll host []
  forM scaffolding fun d => do
    createDirAll host d
    setMode host d 0o755
  copyFile host cfg.stackLock cfg.stackLockMode lockAt
  setMode host lockAt 0o644

/-- The staged binds; a failure is ignored. -/
def copyBinds (cfg : AssembleConfig) : Eff Errno Rootfs Unit :=
  match cfg.stackBinds with
  | some staged => do
    let _ ← attempt (copyDirContents host staged.entries bindsAt)
    pure ()
  | none => pure ()

def writeEnv (cfg : AssembleConfig) : Eff Errno Rootfs Unit := do
  writeFile host (place "etc/tdvmm-stack-name") (utf8 cfg.stackName ++ [10])
  writeFile host (place "etc/tdvmm-stack-project") (utf8 cfg.stackProject ++ [10])
  writeFile host (place "etc/tdvmm-stack-mem") (decimal cfg.stackMem ++ [10])

def assembleStackTree (cfg : AssembleConfig) : Eff Errno Rootfs Unit := do
  scaffold host cfg
  copyBinds host cfg
  writeEnv host cfg
  copyTree (calls host) cfg.seedStorage.tree storageAt
  normalizeCreatedJson host seedAt
  truncateLocks host []

end Assemble

/-! ## A pass -/

section Pass

variable {host : Host} {f : Place → List UInt8 → Option (List UInt8)} {s : Rootfs} {p d : Place}

theorem moves_rewriteFile : Moves (· = p) (rewriteFile host f p) := by
  refine moves_read.bind fun s => ?_
  split
  · split
    · exact moves_writeFile
    · exact moves_pure _
  · exact moves_pure _

theorem rewriteFile_result {bytes : List UInt8} {mode : Nat}
    (hget : s.get? p = some (.file bytes mode)) (hok : ((rewriteFile host f p).run s).1 = .ok ()) :
    ((rewriteFile host f p).run s).2.get? p = some (.file ((f p bytes).getD bytes) mode) := by
  unfold rewriteFile at hok ⊢
  rw [run_read_bind, hget] at hok ⊢
  dsimp only at hok ⊢
  cases hf : f p bytes with
  | none => simpa using hget
  | some new =>
    rw [hf] at hok
    dsimp only at hok ⊢
    obtain ⟨⟨⟩, s', hask, hrun⟩ := ok_bind hok
    have hsame : s' = s := by
      unfold ask at hask
      split at hask
      · cases hask
      · exact (Prod.mk.inj hask).2.symm
    show ((writeFile host p new).run s).2.get? p = _
    unfold writeFile
    rw [hrun, hsame, run_read_bind, hget]
    simp

theorem rewriteFiles_result {files : List Place} (hnodup : files.Nodup)
    (hok : ((forM files (rewriteFile host f)).run s).1 = .ok ()) {bytes : List UInt8} {mode : Nat}
    (hget : s.get? p = some (.file bytes mode)) :
    ((forM files (rewriteFile host f)).run s).2.get? p =
      some (.file (if p ∈ files then (f p bytes).getD bytes else bytes) mode) := by
  induction files generalizing s bytes with
  | nil => simpa using hget
  | cons q files ih =>
    obtain ⟨hq, hfiles⟩ := List.nodup_cons.mp hnodup
    rw [List.forM_cons] at hok ⊢
    obtain ⟨⟨⟩, s', hrun, hrest⟩ := ok_bind hok
    rw [hrest] at hok ⊢
    by_cases hpq : p = q
    · -- the rest of the pass leaves it alone
      subst hpq
      have hnew := @rewriteFile_result host f s p bytes mode hget (by rw [hrun])
      rw [hrun] at hnew
      rw [ih hfiles hok hnew, if_neg hq, if_pos List.mem_cons_self]
    · have hframe := (@moves_rewriteFile host f q s).get? hpq
      rw [hrun] at hframe
      rw [ih hfiles hok (hframe.trans hget)]
      simp [hpq]

theorem moves_pass_of_walk {files : List Place} :
    Moves (· ∈ files) (forM files (rewriteFile host f)) :=
  moves_forM fun _ hq => moves_rewriteFile.mono fun _ heq => heq ▸ hq

/-- What a pass that succeeds makes of the tree: the files below its directory are
rewritten, and no node comes or goes. -/
theorem pass_result (hs : Shaped s) (hd : s.isDir d = true)
    (hok : ((pass host f d).run s).1 = .ok ()) :
    Shaped ((pass host f d).run s).2 ∧
      (∀ p, s.get? p = none → ((pass host f d).run s).2.get? p = none) ∧
      (∀ p, s.isDir p = true → ((pass host f d).run s).2.isDir p = true) ∧
      ∀ p bytes mode, s.get? p = some (.file bytes mode) →
        ((pass host f d).run s).2.get? p =
          some (.file (if d <+: p then (f p bytes).getD bytes else bytes) mode) := by
  unfold pass walk at hok ⊢
  simp only [bind_assoc, run_read_bind] at hok ⊢
  cases hwalk : walkFiles host s d with
  | error e =>
    rw [hwalk] at hok
    cases hok
  | ok files =>
    rw [hwalk] at hok
    dsimp only at hok ⊢
    rw [pure_bind] at hok ⊢
    have hmoves := @moves_pass_of_walk host f files s
    have hlink := throughLink_of_isDir hs hd
    have hmem := fun p => mem_walkFiles hs hlink hwalk (p := p)
    refine ⟨hmoves.shaped hs, ?_, fun p hp => hmoves.isDir hp, ?_⟩
    · intro p hp
      rw [hmoves.get? ?_, hp]
      intro hin
      have hfile := ((hmem p).mp hin).1
      simp [isFile, hp] at hfile
    · intro p bytes mode hget
      rw [rewriteFiles_result (nodup_walkFiles hs hlink hwalk) hok hget]
      have hfile : s.isFile p = true := by simp [isFile, hget]
      have hiff : p ∈ files ↔ d <+: p := by simp [hmem, hfile, hd]
      simp only [hiff]

end Pass

/-! ## Before the copies -/

section Scaffold

variable {host : Host} {s : Rootfs} {p : Place}

theorem createDir_isDir (hok : ((createDir host p).run s).1 = .ok ()) :
    ((createDir host p).run s).2.isDir p = true := by
  unfold createDir at hok ⊢
  obtain ⟨⟨⟩, s', -, hrun⟩ := ok_bind hok
  rw [hrun] at hok ⊢
  unfold create at hok ⊢
  rw [run_read_bind] at hok ⊢
  split at hok
  · cases hok
  · rename_i hparent
    split at hok
    · cases hok
    · rename_i hnone
      rw [if_neg hparent, if_neg hnone]
      simp [isDir, Node.isDir]

theorem forM_isDir {g : Place → Eff Errno Rootfs Unit} {qs : List Place}
    (hmake : ∀ q s, ((g q).run s).1 = .ok () → ((g q).run s).2.isDir q = true)
    (hmoves : ∀ q, Moves (fun _ => True) (g q)) (hok : ((forM qs g).run s).1 = .ok ()) :
    ∀ q ∈ qs, ((forM qs g).run s).2.isDir q = true := by
  induction qs generalizing s with
  | nil => simp
  | cons r qs ih =>
    rw [List.forM_cons] at hok ⊢
    obtain ⟨⟨⟩, s', hrun, hrest⟩ := ok_bind hok
    rw [hrest] at hok ⊢
    intro q hq
    rcases List.mem_cons.mp hq with rfl | hq
    · have hdir := hmake q s (by rw [hrun])
      rw [hrun] at hdir
      exact (moves_forM (fun i _ => hmoves i) s').isDir hdir
    · exact ih hok q hq

theorem createDirAll_isDir (hok : ((createDirAll host p).run s).1 = .ok ()) :
    ((createDirAll host p).run s).2.isDir p = true := by
  refine forM_isDir (s := s) ?_ ?_ hok p ((List.mem_inits p p).mpr List.prefix_rfl)
  · intro q s hok
    rw [run_read_bind] at hok ⊢
    split at hok
    · exact createDir_isDir hok
    · rename_i hdir
      simp [isDir, hdir, Node.isDir]
    · cases hok
  · intro q
    refine moves_read.bind fun s => ?_
    split
    · exact moves_createDir.mono fun _ _ => trivial
    · exact moves_pure _
    · exact moves_fail _

/-- The places that are written before the copies, with all above them. -/
def Scaffolded (p : Place) : Prop := ∃ d ∈ lockAt :: scaffolding, p <+: d

theorem moves_scaffold {cfg : AssembleConfig} : Moves Scaffolded (scaffold host cfg) := by
  have hdir : ∀ d ∈ scaffolding, Moves Scaffolded (do
      createDirAll host d
      setMode host d 0o755) := by
    intro d hd
    have hin : ∀ p, p <+: d → Scaffolded p := fun p hp => ⟨d, List.mem_cons_of_mem _ hd, hp⟩
    exact (moves_createDirAll.mono hin).bind fun _ =>
      moves_setMode.mono fun p hp => hin p (hp ▸ List.prefix_rfl)
  have hlock : ∀ p, p = lockAt → Scaffolded p := fun p hp => ⟨lockAt, by simp, hp ▸ List.prefix_rfl⟩
  refine Moves.bind (moves_createDirAll.mono fun p hp => ?_) fun _ => ?_
  · rw [List.prefix_nil.mp hp]
    exact ⟨lockAt, by simp, List.nil_prefix⟩
  · exact (moves_forM hdir).bind fun _ =>
      (moves_copyFile.mono hlock).bind fun _ => moves_setMode.mono hlock

/-- The directories of the tree are there, and nothing is where the copies go. -/
structure Scaffold (s : Rootfs) : Prop where
  shaped : Shaped s
  root : s.isDir [] = true
  binds : s.isDir bindsAt = true
  seed : s.isDir seedAt = true
  bindsFresh : ∀ q, bindsAt <+: q → q ≠ bindsAt → s.get? q = none
  storageFresh : ∀ q, storageAt <+: q → s.get? q = none

theorem not_scaffolded_below_binds {q : Place} (hq : bindsAt <+: q) (hne : q ≠ bindsAt) :
    ¬ Scaffolded q := by
  have hends : ∀ d ∈ lockAt :: scaffolding, bindsAt <+: d → d = bindsAt := by decide +kernel
  rintro ⟨d, hd, hpre⟩
  obtain rfl := hends d hd (hq.trans hpre)
  exact hne (hpre.eq_of_length_le hq.length_le)

theorem not_scaffolded_storage {q : Place} (hq : storageAt <+: q) : ¬ Scaffolded q := by
  have hends : ∀ d ∈ lockAt :: scaffolding, ¬ storageAt <+: d := by decide +kernel
  rintro ⟨d, hd, hpre⟩
  exact hends d hd (hq.trans hpre)

theorem scaffold_result {cfg : AssembleConfig} (hok : ((scaffold host cfg).run []).1 = .ok ()) :
    Scaffold ((scaffold host cfg).run []).2 := by
  have hmoves := @moves_scaffold host cfg []
  have hfresh : ∀ q, ¬ Scaffolded q → ((scaffold host cfg).run []).2.get? q = none :=
    fun q hq => hmoves.get? hq
  -- the directories are made first, and stay
  have hdirs : ((scaffold host cfg).run []).2.isDir [] = true ∧
      ∀ d ∈ scaffolding, ((scaffold host cfg).run []).2.isDir d = true := by
    unfold scaffold at hok ⊢
    obtain ⟨⟨⟩, s₁, hroot, hrun⟩ := ok_bind hok
    rw [hrun] at hok ⊢
    obtain ⟨⟨⟩, s₂, hloop, hrun⟩ := ok_bind hok
    rw [hrun]
    have hrest : Changes (fun _ => True) s₂ ((do
        copyFile host cfg.stackLock cfg.stackLockMode lockAt
        setMode host lockAt 0o644).run s₂).2 :=
      (moves_copyFile.mono fun _ _ => trivial).bind
        (fun _ => moves_setMode.mono fun _ _ => trivial) s₂
    have hmoves : ∀ d, Moves (fun _ => True) (do
        createDirAll host d
        setMode host d 0o755) := fun d =>
      (moves_createDirAll.mono fun _ _ => trivial).bind fun _ =>
        moves_setMode.mono fun _ _ => trivial
    constructor
    · have hdir := @createDirAll_isDir host [] [] (by rw [hroot])
      rw [hroot] at hdir
      have hkept := (moves_forM (fun d (_ : d ∈ scaffolding) => hmoves d) s₁).isDir hdir
      rw [hloop] at hkept
      exact hrest.isDir hkept
    · intro d hd
      have hmade := forM_isDir (s := s₁) (fun q s hok => ?_) hmoves (by rw [hloop]) d hd
      · rw [hloop] at hmade
        exact hrest.isDir hmade
      · obtain ⟨⟨⟩, s', hcreate, hset⟩ := ok_bind hok
        rw [hset]
        have hdir := @createDirAll_isDir host s q (by rw [hcreate])
        rw [hcreate] at hdir
        exact (@moves_setMode host q 0o755 s').isDir hdir
  exact ⟨hmoves.shaped shaped_nil, hdirs.1, hdirs.2 _ (by simp [scaffolding]),
    hdirs.2 _ (by simp [scaffolding]), fun q hq hne => hfresh q (not_scaffolded_below_binds hq hne),
    fun q hq => hfresh q (not_scaffolded_storage hq)⟩

end Scaffold

/-! ## The copies -/

def stagedNodes (cfg : AssembleConfig) : List (Place × Node) :=
  match cfg.stackBinds with
  | some staged => visitsEntries bindsAt staged.entries
  | none => []

def seedNodes (cfg : AssembleConfig) : List (Place × Node) := visits storageAt cfg.seedStorage.tree

section Copies

variable {host : Host} {cfg : AssembleConfig} {s : Rootfs} {p : Place}

theorem mem_stagedNodes {v : Place × Node} (hv : v ∈ stagedNodes cfg) :
    bindsAt <+: v.1 ∧ v.1 ≠ bindsAt := by
  unfold stagedNodes at hv
  split at hv
  · obtain ⟨name, -, hpre⟩ := prefix_of_mem_visitsEntries _ hv
    refine ⟨(List.prefix_append _ _).trans hpre, ?_⟩
    intro heq
    rw [heq] at hpre
    have hlen := hpre.length_le
    simp only [List.length_append, List.length_singleton] at hlen
    omega
  · cases hv

theorem moves_copyBinds : Moves (· ∈ (stagedNodes cfg).map (·.1)) (copyBinds host cfg) := by
  unfold copyBinds stagedNodes
  split
  · unfold copyDirContents
    rw [copyEntries_eq]
    exact Moves.bind (Moves.attempt ((moves_ask _).bind fun _ => moves_forM_visit _))
      fun _ => moves_pure _
  · exact moves_pure _

/-- What is left of a staged file after the copy that may fail. -/
theorem copyBinds_result (hs : Scaffold s) {bytes : List UInt8} {mode : Nat}
    (hmem : (p, .file bytes mode) ∈ stagedNodes cfg) :
    (((copyBinds host cfg).run s).2.get? p = none ∧
        ¬ (host.refuses .readSource bindsAt = none ∧ Written host (stagedNodes cfg) p bytes)) ∨
      ∃ part, ((copyBinds host cfg).run s).2.get? p = some (.file part mode) ∧ part <+: bytes ∧
        ((host.refuses .readSource bindsAt = none ∧ Written host (stagedNodes cfg) p bytes) ↔
          part = bytes) := by
  obtain ⟨hbelow, hne⟩ := mem_stagedNodes hmem
  unfold copyBinds stagedNodes at *
  cases hb : cfg.stackBinds with
  | none =>
    rw [hb] at hmem
    cases hmem
  | some staged =>
    rw [hb] at hmem
    dsimp only at hmem ⊢
    have hstate : ∀ s, ((do
        let _ ← attempt (copyDirContents host staged.entries bindsAt)
        pure () : Eff Errno Rootfs Unit).run s).2 =
          ((copyDirContents host staged.entries bindsAt).run s).2 := fun _ => rfl
    rw [hstate]
    unfold copyDirContents
    rw [copyEntries_eq]
    by_cases hread : host.refuses .readSource bindsAt = none
    · rw [run_bind_ok (ask_run hread)]
      simp only [hread, true_and]
      exact copy_result (copyable_visitsEntries staged.distinct hs.binds hs.bindsFresh) hmem
    · obtain ⟨e, he⟩ := @ask_refused host s bindsAt .readSource hread
      rw [run_bind_error he]
      exact .inl ⟨hs.bindsFresh p hbelow hne, fun h => hread h.1⟩

def envAt : List Place :=
  [place "etc/tdvmm-stack-name", place "etc/tdvmm-stack-project", place "etc/tdvmm-stack-mem"]

theorem moves_writeEnv : Moves (· ∈ envAt) (writeEnv host cfg) := by
  have hin : ∀ q ∈ envAt, ∀ bytes, Moves (· ∈ envAt) (writeFile host q bytes) :=
    fun q hq bytes => moves_writeFile.mono fun _ heq => heq ▸ hq
  refine (hin _ ?_ _).bind fun _ => (hin _ ?_ _).bind fun _ => hin _ ?_ _
  · simp [envAt]
  · simp [envAt]
  · simp [envAt]

theorem moves_copySeed :
    Moves (storageAt <+: ·) (copyTree (calls host) cfg.seedStorage.tree storageAt) := by
  rw [copyTree_eq]
  refine (moves_forM_visit _).mono fun p hp => ?_
  obtain ⟨v, hv, rfl⟩ := List.mem_map.mp hp
  exact prefix_of_mem_visits _ hv

end Copies

/-! ## What is kept -/

/-- A place inside a layer of the store, which keeps its layers under `vfs/dir`. -/
def InLayer (p : Place) : Prop :=
  ∃ layer rest, rest ≠ [] ∧ p = storageAt ++ utf8 "vfs" :: utf8 "dir" :: layer :: rest

def FileAt (s : Rootfs) (p : Place) (bytes : List UInt8) : Prop :=
  ∃ mode, s.get? p = some (.file bytes mode)

/-- Every staged bind file and every file of a layer is there with its bytes. -/
structure FilesKept (cfg : AssembleConfig) (s : Rootfs) : Prop where
  binds : ∀ p bytes mode, (p, .file bytes mode) ∈ stagedNodes cfg → FileAt s p bytes
  layers : ∀ p bytes mode, (p, .file bytes mode) ∈ seedNodes cfg → InLayer p → FileAt s p bytes

/-- The binds are copied whole, no lock file among them or in a layer has content, and no
JSON file of a layer has a creation time to normalise. -/
structure Spared (host : Host) (cfg : AssembleConfig) : Prop where
  copied : ∀ p bytes mode, (p, .file bytes mode) ∈ stagedNodes cfg →
    host.refuses .readSource bindsAt = none ∧ Written host (stagedNodes cfg) p bytes
  bindLocks : ∀ p bytes mode, (p, .file bytes mode) ∈ stagedNodes cfg →
    extension p = some (utf8 "lock") → bytes = []
  layerLocks : ∀ p bytes mode, (p, .file bytes mode) ∈ seedNodes cfg → InLayer p →
    extension p = some (utf8 "lock") → bytes = []
  layerJson : ∀ p bytes mode, (p, .file bytes mode) ∈ seedNodes cfg → InLayer p →
    (normalizedJson host p bytes).getD bytes = bytes

section Kept

variable {host : Host} {cfg : AssembleConfig} {p : Place} {bytes : List UInt8}

/-- What both passes make of the content of a file. -/
def afterPasses (host : Host) (p : Place) (bytes : List UInt8) : List UInt8 :=
  let json := if seedAt <+: p then (normalizedJson host p bytes).getD bytes else bytes
  (truncatedLock p json).getD json

/-- An assembly that succeeds is the copies, followed by the passes. -/
theorem assemble_result (hok : ((assembleStackTree host cfg).run []).1 = .ok ()) :
    ∃ s, Scaffold s ∧
      (∀ p bytes mode, (p, .file bytes mode) ∈ stagedNodes cfg →
        ((copyBinds host cfg).run s).2.get? p = none →
          ((assembleStackTree host cfg).run []).2.get? p = none) ∧
      (∀ p bytes mode part, (p, .file bytes mode) ∈ stagedNodes cfg →
        ((copyBinds host cfg).run s).2.get? p = some (.file part mode) →
          ((assembleStackTree host cfg).run []).2.get? p =
            some (.file (afterPasses host p part) mode)) ∧
      ∀ p bytes mode, (p, .file bytes mode) ∈ seedNodes cfg →
        ((assembleStackTree host cfg).run []).2.get? p =
          some (.file (afterPasses host p bytes) mode) := by
  unfold assembleStackTree at hok ⊢
  obtain ⟨⟨⟩, s, hscaffold, hrun⟩ := ok_bind hok
  have hs : Scaffold s := by
    have hres := @scaffold_result host cfg (by rw [hscaffold])
    rwa [hscaffold] at hres
  refine ⟨s, hs, ?_⟩
  rw [hrun] at hok ⊢
  obtain ⟨⟨⟩, s₁, hbinds, hrun⟩ := ok_bind hok
  rw [hrun] at hok ⊢
  obtain ⟨⟨⟩, s₂, henv, hrun⟩ := ok_bind hok
  rw [hrun] at hok ⊢
  obtain ⟨⟨⟩, s₃, hseed, hrun⟩ := ok_bind hok
  rw [hrun] at hok ⊢
  obtain ⟨⟨⟩, s₄, hjson, hrun⟩ := ok_bind hok
  rw [hrun] at hok ⊢
  have hmoved₁ := @moves_copyBinds host cfg s
  have hmoved₂ := @moves_writeEnv host cfg s₁
  have hmoved₃ := @moves_copySeed host cfg s₂
  rw [hbinds] at hmoved₁ ⊢
  rw [henv] at hmoved₂
  rw [hseed] at hmoved₃
  dsimp only at hmoved₁ hmoved₂ hmoved₃ ⊢
  -- both passes, on whatever the copies have left
  have hshaped := hmoved₃.shaped (hmoved₂.shaped (hmoved₁.shaped hs.shaped))
  have hkept : ∀ q, s.isDir q = true → s₃.isDir q = true :=
    fun q hq => hmoved₃.isDir (hmoved₂.isDir (hmoved₁.isDir hq))
  obtain ⟨hshaped', hnone, hdirs, hfiles⟩ :=
    @pass_result host (normalizedJson host) s₃ seedAt hshaped (hkept _ hs.seed)
      (by rw [show (pass host (normalizedJson host) seedAt).run s₃ = _ from hjson])
  rw [show (pass host (normalizedJson host) seedAt).run s₃ = _ from hjson]
    at hshaped' hnone hdirs hfiles
  obtain ⟨-, hnone', -, hfiles'⟩ :=
    @pass_result host truncatedLock s₄ [] hshaped' (hdirs _ (hkept _ hs.root)) hok
  have hpassNone : ∀ q, s₃.get? q = none → ((truncateLocks host []).run s₄).2.get? q = none :=
    fun q hq => hnone' q (hnone q hq)
  have hpassFile : ∀ q part mode, s₃.get? q = some (.file part mode) →
      ((truncateLocks host []).run s₄).2.get? q = some (.file (afterPasses host q part) mode) := by
    intro q part mode hq
    have hres := hfiles' q _ mode (hfiles q part mode hq)
    rwa [if_pos List.nil_prefix] at hres
  -- the binds are not written to after their copy
  have hsame : ∀ v ∈ stagedNodes cfg, s₃.get? v.1 = s₁.get? v.1 := by
    intro v hv
    obtain ⟨hbelow, -⟩ := mem_stagedNodes hv
    have henvAt : ∀ q ∈ envAt, ¬ bindsAt <+: q := by decide +kernel
    have hapart : ¬ storageAt <+: bindsAt ∧ ¬ bindsAt <+: storageAt := by decide +kernel
    rw [hmoved₃.get? ?_, hmoved₂.get? ?_]
    · intro hin
      exact henvAt v.1 hin hbelow
    · intro hin
      rcases List.prefix_or_prefix_of_prefix hin hbelow with h | h
      · exact hapart.1 h
      · exact hapart.2 h
  refine ⟨?_, ?_, ?_⟩
  · intro p bytes mode hmem hget
    exact hpassNone p (by rw [hsame _ hmem, hget])
  · intro p bytes mode part hmem hget
    exact hpassFile p part mode (by rw [hsame _ hmem, hget])
  · intro p bytes mode hmem
    apply hpassFile
    -- nothing is in the store before its copy, and the copy has succeeded
    have hfresh : ∀ q, storageAt <+: q → s₂.get? q = none := by
      intro q hq
      have henvAt : ∀ r ∈ envAt, ¬ storageAt <+: r := by decide +kernel
      have hapart : ¬ storageAt <+: bindsAt ∧ ¬ bindsAt <+: storageAt := by decide +kernel
      rw [hmoved₂.get? fun hin => henvAt q hin hq, hmoved₁.get? ?_, hs.storageFresh q hq]
      intro hin
      obtain ⟨v, hv, rfl⟩ := List.mem_map.mp hin
      rcases List.prefix_or_prefix_of_prefix hq (mem_stagedNodes hv).1 with h | h
      · exact hapart.1 h
      · exact hapart.2 h
    have hcopyable : Copyable s₂ [seedAt] (seedNodes cfg) :=
      copyable_visits cfg.seedStorage.distinct (hmoved₂.isDir (hmoved₁.isDir hs.seed)) hfresh
    rw [copyTree_eq] at hseed
    change (forM (seedNodes cfg) (visit host)).run s₂ = (.ok (), s₃) at hseed
    have hall := @copy_allowed host _ _ _ hcopyable (by rw [hseed])
    have hwritten := written_of_allowed hall hmem
    rcases @copy_result host _ _ _ _ hcopyable _ _ hmem with ⟨-, hno⟩ | ⟨part, hget, -, hwhole⟩
    · exact absurd hwritten hno
    · rw [hwhole.mp hwritten, hseed] at hget
      exact hget

theorem truncatedLock_getD : (truncatedLock p bytes).getD bytes = bytes ↔
    (extension p = some (utf8 "lock") → bytes = []) := by
  unfold truncatedLock
  split
  · rename_i hlock
    simp [hlock, eq_comm]
  · rename_i hlock
    simp [hlock]

theorem staged_kept {s : Rootfs} {mode : Nat} (hs : Scaffold s)
    (hmem : (p, .file bytes mode) ∈ stagedNodes cfg)
    {final : Rootfs} (hnone : ((copyBinds host cfg).run s).2.get? p = none → final.get? p = none)
    (hfile : ∀ part, ((copyBinds host cfg).run s).2.get? p = some (.file part mode) →
      final.get? p = some (.file (afterPasses host p part) mode)) :
    FileAt final p bytes ↔
      (host.refuses .readSource bindsAt = none ∧ Written host (stagedNodes cfg) p bytes) ∧
        (extension p = some (utf8 "lock") → bytes = []) := by
  have hnotSeed : ¬ seedAt <+: p := by
    have hapart : ¬ seedAt <+: bindsAt ∧ ¬ bindsAt <+: seedAt := by decide +kernel
    intro hin
    rcases List.prefix_or_prefix_of_prefix hin (mem_stagedNodes hmem).1 with h | h
    · exact hapart.1 h
    · exact hapart.2 h
  have hpasses : ∀ part, afterPasses host p part = (truncatedLock p part).getD part := by
    intro part
    simp [afterPasses, hnotSeed]
  rcases @copyBinds_result host _ _ _ hs _ _ hmem with ⟨hget, hno⟩ | ⟨part, hget, hpre, hwhole⟩
  · simp [FileAt, hnone hget, hno]
  · have hfinal : FileAt final p bytes ↔ (truncatedLock p part).getD part = bytes := by
      simp [FileAt, hfile part hget, hpasses]
    rw [hfinal, hwhole]
    by_cases hlock : extension p = some (utf8 "lock")
    · -- an emptied file is the staged one only if that was empty, and then it was copied
      simp only [truncatedLock, hlock, if_true, Option.getD_some, true_implies]
      constructor
      · rintro rfl
        exact ⟨List.prefix_nil.mp hpre, rfl⟩
      · rintro ⟨-, rfl⟩
        rfl
    · simp [truncatedLock, hlock]

/-- When the assembly succeeds, all staged and layer files are kept exactly if none of them
is touched by the passes and the copy of the binds got to all of them. -/
theorem filesKept_iff (hok : ((assembleStackTree host cfg).run []).1 = .ok ()) :
    FilesKept cfg ((assembleStackTree host cfg).run []).2 ↔ Spared host cfg := by
  obtain ⟨s, hs, hnone, hfile, hseed⟩ := assemble_result hok
  have hbinds := fun p bytes mode (hmem : (p, Node.file bytes mode) ∈ stagedNodes cfg) =>
    staged_kept hs hmem (hnone p bytes mode hmem) (fun part => hfile p bytes mode part hmem)
  have hlayers : ∀ p bytes mode, (p, Node.file bytes mode) ∈ seedNodes cfg → InLayer p →
      (FileAt ((assembleStackTree host cfg).run []).2 p bytes ↔
        (extension p = some (utf8 "lock") → bytes = []) ∧
          (normalizedJson host p bytes).getD bytes = bytes) := by
    intro p bytes mode hmem hin
    have hbelow : seedAt <+: p := by
      obtain ⟨layer, rest, -, rfl⟩ := hin
      exact (List.prefix_append _ _).trans (List.prefix_append _ _)
    have hfinal : FileAt ((assembleStackTree host cfg).run []).2 p bytes ↔
        afterPasses host p bytes = bytes := by
      simp [FileAt, hseed p bytes mode hmem]
    rw [hfinal, ← truncatedLock_getD]
    simp only [afterPasses, if_pos hbelow]
    -- a lock file is no JSON file, so only one of the passes can change it
    by_cases hlock : extension p = some (utf8 "lock")
    · have hjson : normalizedJson host p bytes = none := by
        have hne : utf8 "lock" ≠ utf8 "json" := by decide +kernel
        simp [normalizedJson, hlock, hne]
      simp [hjson]
    · simp [truncatedLock, hlock]
  constructor
  · intro hkept
    have hb := fun p bytes mode hmem =>
      (hbinds p bytes mode hmem).mp (hkept.binds p bytes mode hmem)
    have hl := fun p bytes mode hmem hin =>
      (hlayers p bytes mode hmem hin).mp (hkept.layers p bytes mode hmem hin)
    exact ⟨fun p bytes mode hmem => (hb p bytes mode hmem).1,
      fun p bytes mode hmem => (hb p bytes mode hmem).2,
      fun p bytes mode hmem hin => (hl p bytes mode hmem hin).1,
      fun p bytes mode hmem hin => (hl p bytes mode hmem hin).2⟩
  · intro h
    constructor
    · intro p bytes mode hmem
      exact (hbinds p bytes mode hmem).mpr
        ⟨h.copied p bytes mode hmem, h.bindLocks p bytes mode hmem⟩
    · intro p bytes mode hmem hin
      exact (hlayers p bytes mode hmem hin).mpr
        ⟨h.layerLocks p bytes mode hmem hin, h.layerJson p bytes mode hmem hin⟩

end Kept

/-! ## Two stacks -/

/-- A stack with one bind file of the service `app` and one layer file. -/
def stackOf (bindFile layerFile : String) : AssembleConfig where
  stackLock := utf8 "services: \x7b\x7d"
  stackLockMode := 0o600
  stackBinds := some
    { entries := [(utf8 "app", .dir 0o755 [(utf8 bindFile, .file (utf8 "x = 1") 0o644)])]
      distinct := by simp [DistinctEntries, Distinct] }
  stackName := "demo"
  stackProject := "tdvmm_demo"
  stackMem := 512
  seedStorage :=
    { tree := .dir 0o700 [(utf8 "storage.lock", .file (utf8 "token") 0o644),
        (utf8 "vfs", .dir 0o700 [(utf8 "dir", .dir 0o700 [(utf8 "0a", .dir 0o755
          [(utf8 layerFile, .file (utf8 "root:x:0:0") 0o644)])])])]
      distinct := by
        have hne : utf8 "storage.lock" ≠ utf8 "vfs" := by decide +kernel
        simp [DistinctEntries, Distinct, hne] }

theorem written_willing {cfg : AssembleConfig} {p : Place} {bytes : List UInt8} {mode : Nat}
    (hmem : (p, .file bytes mode) ∈ stagedNodes cfg) :
    Written willing (stagedNodes cfg) p bytes := by
  refine written_of_allowed (fun v _ => ?_) hmem
  unfold Allowed
  split <;> simp [willing]

theorem filesKept_iff_config :
    ((assembleStackTree willing (stackOf "app.conf" "passwd")).run []).1 = .ok () ∧
      FilesKept (stackOf "app.conf" "passwd")
        ((assembleStackTree willing (stackOf "app.conf" "passwd")).run []).2 := by
  have hok : ((assembleStackTree willing (stackOf "app.conf" "passwd")).run []).1 = .ok () := by
    decide +kernel
  refine ⟨hok, (filesKept_iff hok).mpr ?_⟩
  have hbinds : ∀ v ∈ stagedNodes (stackOf "app.conf" "passwd"), ∀ bytes mode,
      v.2 = .file bytes mode → extension v.1 ≠ some (utf8 "lock") := by
    have hall : (stagedNodes (stackOf "app.conf" "passwd")).all
        (fun v => extension v.1 ≠ some (utf8 "lock")) = true := by decide +kernel
    intro v hv _ _ _
    simpa using List.all_eq_true.mp hall v hv
  -- the store's own lock file is not in a layer
  have hlayers : ∀ v ∈ seedNodes (stackOf "app.conf" "passwd"), InLayer v.1 →
      extension v.1 = none := by
    have hall : (seedNodes (stackOf "app.conf" "passwd")).all
        (fun v => extension v.1 = none ∨ v.1.length = 5) = true := by decide +kernel
    rintro v hv ⟨layer, rest, hne, heq⟩
    have hv' := List.all_eq_true.mp hall v hv
    rw [decide_eq_true_eq] at hv'
    refine hv'.resolve_right ?_
    have hlen : storageAt.length = 4 := by decide +kernel
    have hpos : 0 < rest.length := List.length_pos_iff.mpr hne
    rw [heq, List.length_append, hlen]
    simp only [List.length_cons]
    omega
  constructor
  · intro p bytes mode hmem
    exact ⟨rfl, written_willing hmem⟩
  · intro p bytes mode hmem hlock
    exact absurd hlock (hbinds _ hmem bytes mode rfl)
  · intro p bytes mode hmem hin hlock
    rw [hlayers _ hmem hin] at hlock
    cases hlock
  · intro p bytes mode hmem hin
    simp [normalizedJson, hlayers _ hmem hin]

/-- The bind file `Cargo.lock` is empty in the tree. -/
theorem lock_file_emptied :
    ((assembleStackTree willing (stackOf "Cargo.lock" "passwd")).run []).1 = .ok () ∧
      (place "var/lib/tdvmm-stack/binds/app/Cargo.lock", Node.file (utf8 "x = 1") 0o644) ∈
        stagedNodes (stackOf "Cargo.lock" "passwd") ∧
      ((assembleStackTree willing (stackOf "Cargo.lock" "passwd")).run []).2.get?
        (place "var/lib/tdvmm-stack/binds/app/Cargo.lock") = some (.file [] 0o644) ∧
      ¬ FilesKept (stackOf "Cargo.lock" "passwd")
        ((assembleStackTree willing (stackOf "Cargo.lock" "passwd")).run []).2 := by
  have hmem : (place "var/lib/tdvmm-stack/binds/app/Cargo.lock", Node.file (utf8 "x = 1") 0o644) ∈
      stagedNodes (stackOf "Cargo.lock" "passwd") := by decide +kernel
  have hget : ((assembleStackTree willing (stackOf "Cargo.lock" "passwd")).run []).2.get?
      (place "var/lib/tdvmm-stack/binds/app/Cargo.lock") = some (.file [] 0o644) := by
    decide +kernel
  refine ⟨by decide +kernel, hmem, hget, fun hkept => ?_⟩
  obtain ⟨mode, hfile⟩ := hkept.binds _ _ _ hmem
  rw [hget, Option.some.injEq, Node.file.injEq] at hfile
  have hne : ([] : List UInt8) ≠ utf8 "x = 1" := by decide +kernel
  exact hne hfile.1

end Tdvmm.Build
