import Tdvmm.Lib.Eff
import Tdvmm.Lib.Text

/-!
# Lib.Fs — a Unix file system with symbolic links

A `Disk` has a node at each real location (a list of names from the root) and a record of the
locations that were created or written. The operations take paths and follow symbolic links as
the system calls do; at most `limit` steps are spent on one path.

`At d` and `Within d` are the frame rules: nothing but what is at `d`, or in the subtree there,
changed, and everything touched is there.
-/

namespace Lib.Fs

open Text Eff

/-- A real location: the names from the root. -/
abbrev Loc := List String

inductive Node where
  | dir (mode : Nat)
  | file (bytes : List UInt8) (mode : Nat)
  | link (target : String)
deriving DecidableEq, Repr

def Node.isLink : Node → Bool
  | link _ => true
  | _ => false

def Node.isDir : Node → Bool
  | dir _ => true
  | _ => false

inductive Errno where
  | notFound
  | notDir
  | isDir
  | exists
  | loop
  | other
deriving DecidableEq, Repr

/-- The nodes of a file system, and what was created or written, the latest last. -/
structure Disk where
  node : Loc → Option Node
  touched : List Loc

/-- The node at a location; the root is a directory. -/
def Disk.get (s : Disk) (l : Loc) : Option Node := if l = [] then some (.dir 0o755) else s.node l

abbrev Path := List Component

/-- The location that a path leads to from a directory. The last component need not exist,
and a link there is followed only if asked for. -/
def resolve (get : Loc → Option Node) (follow : Bool) : Nat → Loc → Path → Except Errno Loc
  | 0, _, _ => .error .loop
  | _ + 1, cur, [] => .ok cur
  | n + 1, _, .rootDir :: rest => resolve get follow n [] rest
  | n + 1, cur, .curDir :: rest => resolve get follow n cur rest
  | n + 1, cur, .parentDir :: rest => resolve get follow n cur.dropLast rest
  | n + 1, cur, .normal name :: rest =>
    match get (cur ++ [name]) with
    | some (.link target) =>
      if rest = [] ∧ follow = false then .ok (cur ++ [name])
      else resolve get follow n cur (components target ++ rest)
    | some (.dir _) => resolve get follow n (cur ++ [name]) rest
    | some (.file _ _) => if rest = [] then .ok (cur ++ [name]) else .error .notDir
    | none => if rest = [] then .ok (cur ++ [name]) else .error .notFound

def joinPath (base p : Path) : Path :=
  match p with
  | .rootDir :: _ => p
  | .curDir :: rest => base ++ rest
  | _ => base ++ p

/-! ## Operations -/

section Operations

variable (limit : Nat)

/-- Where a path leads now. -/
def locate (follow : Bool) (p : Path) : Eff Errno Disk Loc := do
  let s ← read
  match resolve s.get follow limit [] p with
  | .ok l => pure l
  | .error e => fail e

def nodeAt (l : Loc) : Eff Errno Disk (Option Node) := do
  let s ← read
  pure (s.get l)

def put (l : Loc) (n : Node) : Eff Errno Disk Unit :=
  update fun s =>
    { node := fun l' => if l' = l then some n else s.node l', touched := s.touched ++ [l] }

def drop (l : Loc) : Eff Errno Disk Unit :=
  update fun s => { s with node := fun l' => if l' = l then none else s.node l' }

def removeFile (p : Path) : Eff Errno Disk Unit := do
  let l ← locate limit false p
  match ← nodeAt l with
  | none => fail .notFound
  | some (.dir _) => fail .isDir
  | some _ => drop l

def symlink (target : String) (p : Path) : Eff Errno Disk Unit := do
  let l ← locate limit false p
  match ← nodeAt l with
  | none => put l (.link target)
  | some _ => fail .exists

def createDir (p : Path) : Eff Errno Disk Unit := do
  let l ← locate limit false p
  match ← nodeAt l with
  | none => put l (.dir 0o777)
  | some _ => fail .exists

def setPermissions (p : Path) (mode : Nat) : Eff Errno Disk Unit := do
  let l ← locate limit true p
  match ← nodeAt l with
  | some (.dir _) => put l (.dir mode)
  | some (.file bytes _) => put l (.file bytes mode)
  | some (.link _) => fail .loop
  | none => fail .notFound

def writeFile (bytes : List UInt8) (mode : Nat) (p : Path) : Eff Errno Disk Unit := do
  let l ← locate limit true p
  match ← nodeAt l with
  | some (.dir _) => fail .isDir
  | some (.link _) => fail .loop
  | _ => put l (.file bytes mode)

def stat (s : Disk) (p : Path) : Option Node :=
  match resolve s.get true limit [] p with
  | .ok l => s.get l
  | .error _ => none

def pathExists (s : Disk) (p : Path) : Bool := (stat limit s p).isSome

def pathIsDir (s : Disk) (p : Path) : Bool := (stat limit s p).any Node.isDir

/-- Accept a directory that is already there. -/
def orIsDir (p : Path) (e : Errno) : Eff Errno Disk Unit := do
  let s ← read
  if pathIsDir limit s p then pure () else fail e

/-- Create a directory and, when one is missing above it, those above it first. -/
def createDirAllSteps : Nat → Path → Eff Errno Disk Unit
  | 0, _ => pure ()
  | n + 1, p => do
    match ← attempt (createDir limit p) with
    | .ok () => pure ()
    | .error .notFound =>
      createDirAllSteps n p.dropLast
      match ← attempt (createDir limit p) with
      | .ok () => pure ()
      | .error e => orIsDir limit p e
    | .error e => orIsDir limit p e

def createDirAll (p : Path) : Eff Errno Disk Unit := createDirAllSteps limit p.length p

end Operations

/-! ## Paths without links -/

def pathOf (d : Loc) : Path := .rootDir :: d.map .normal

theorem pathOf_concat (d : Loc) (name : String) :
    pathOf (d ++ [name]) = pathOf d ++ [.normal name] := by
  simp [pathOf]

def Disk.LinkAt (s : Disk) (l : Loc) : Prop := (s.get l).any Node.isLink = true

instance (s : Disk) (l : Loc) : Decidable (s.LinkAt l) := inferInstanceAs (Decidable (_ = true))

def Disk.DirAt (s : Disk) (l : Loc) : Prop := (s.get l).any Node.isDir = true

instance (s : Disk) (l : Loc) : Decidable (s.DirAt l) := inferInstanceAs (Decidable (_ = true))

/-- No link stands on the way to a location. -/
def Disk.Straight (s : Disk) (d : Loc) : Prop := ∀ p, p <+: d → p ≠ d → ¬ s.LinkAt p

/-- Everything on the way to a location is a directory. -/
def Disk.Reached (s : Disk) (d : Loc) : Prop := ∀ p, p <+: d → p ≠ d → s.DirAt p

section Resolve

variable {s : Disk} {d l : Loc} {limit : Nat} {follow : Bool}

theorem not_linkAt_of_dirAt (h : s.DirAt l) : ¬ s.LinkAt l := by
  unfold Disk.DirAt at h
  unfold Disk.LinkAt
  cases hn : s.get l with
  | none => simp
  | some n => cases n <;> simp_all [Node.isDir, Node.isLink]

theorem straight_of_reached (h : s.Reached d) : s.Straight d := by
  intro p hp hne
  exact not_linkAt_of_dirAt (h p hp hne)

/-- Names resolve to themselves: no link before the last, and none there if it would be
followed. -/
theorem resolve_names {names : List String} {n : Nat} {cur : Loc}
    (h : resolve s.get follow n cur (names.map .normal) = .ok l)
    (hway : ∀ p, p <+: names → p ≠ names → p ≠ [] → ¬ s.LinkAt (cur ++ p))
    (hlast : follow = true → names ≠ [] → ¬ s.LinkAt (cur ++ names)) : l = cur ++ names := by
  induction names generalizing n cur with
  | nil =>
    cases n with
    | zero => cases h
    | succ n => simpa [resolve] using h.symm
  | cons x xs ih =>
    cases n with
    | zero => cases h
    | succ n =>
      rw [List.map_cons, resolve] at h
      split at h
      · -- a link: only as the last name, and not followed
        rename_i target hget
        have hlink : s.LinkAt (cur ++ [x]) := by simp [Disk.LinkAt, hget, Node.isLink]
        split at h
        · rename_i hxs
          obtain rfl : xs = [] := by simpa using hxs.1
          exact (Except.ok.inj h).symm
        · rename_i hxs
          exfalso
          by_cases hnil : xs = []
          · subst hnil
            have hfollow : follow = true := by simpa using hxs
            exact hlast hfollow (by simp) hlink
          · exact hway [x] (by simp) (by simpa using Ne.symm hnil) (by simp) hlink
      · have hend := ih h (fun p hp hne hnil => ?_) (fun hf hxs => ?_)
        · simpa using hend
        · have hp' := hway (x :: p) (by simpa using hp) (by simpa using hne) (by simp)
          simpa using hp'
        · simpa using hlast hf (by simp)
      · split at h
        · rename_i hxs
          obtain rfl : xs = [] := by simpa using hxs
          exact (Except.ok.inj h).symm
        · cases h
      · split at h
        · rename_i hxs
          obtain rfl : xs = [] := by simpa using hxs
          exact (Except.ok.inj h).symm
        · cases h

theorem resolve_pathOf (h : resolve s.get follow limit [] (pathOf d) = .ok l) (hway : s.Straight d)
    (hlast : follow = true → ¬ s.LinkAt d) : l = d := by
  cases limit with
  | zero => cases h
  | succ n =>
    have hend := resolve_names (show resolve s.get follow n [] (d.map .normal) = .ok l from h)
      (fun p hp hne _ => by simpa using hway p hp hne)
      (fun hf _ => by simpa using hlast hf)
    simpa using hend

theorem resolve_names_ne_notFound {names : List String} {n : Nat} {cur : Loc}
    (hway : ∀ p, p <+: names → p ≠ names → p ≠ [] → s.DirAt (cur ++ p)) :
    resolve s.get false n cur (names.map .normal) ≠ .error .notFound := by
  induction names generalizing n cur with
  | nil =>
    cases n with
    | zero => simp [resolve]
    | succ n => simp [resolve]
  | cons x xs ih =>
    cases n with
    | zero => simp [resolve]
    | succ n =>
      rw [List.map_cons, resolve]
      by_cases hnil : xs = []
      · subst hnil
        cases n <;> split <;> simp [resolve]
      · have hdir := hway [x] (by simp) (by simpa using Ne.symm hnil) (by simp)
        unfold Disk.DirAt at hdir
        cases hget : s.get (cur ++ [x]) with
        | none => simp [hget] at hdir
        | some node =>
          cases node with
          | link t | file bytes mode => simp [hget, Node.isDir] at hdir
          | dir mode =>
            apply ih
            intro p hp hne hpnil
            have hp' := hway (x :: p) (by simpa using hp) (by simpa using hne) (by simp)
            simpa using hp'

theorem resolve_pathOf_ne_notFound (hway : s.Reached d) :
    resolve s.get false limit [] (pathOf d) ≠ .error .notFound := by
  cases limit with
  | zero => simp [resolve]
  | succ n =>
    apply resolve_names_ne_notFound
    intro p hp hne _
    simpa using hway p hp hne

end Resolve

/-! ## The frame -/

/-- Nothing but what is at `d` changed, and nothing else was touched. -/
def At (d : Loc) (s s' : Disk) : Prop :=
  (∀ l, l ≠ d → s'.node l = s.node l) ∧ ∃ new, s'.touched = s.touched ++ new ∧ ∀ l ∈ new, l = d

/-- Outside the subtree at `d` nothing changed, and what was touched is inside. -/
def Within (d : Loc) (s s' : Disk) : Prop :=
  (∀ l, ¬ d <+: l → s'.node l = s.node l) ∧
    ∃ new, s'.touched = s.touched ++ new ∧ ∀ l ∈ new, d <+: l

section Frame

variable {d d' l : Loc} {s s' s'' : Disk}

theorem At.refl (d : Loc) (s : Disk) : At d s s := ⟨fun _ _ => rfl, [], by simp, by simp⟩

theorem At.trans (h : At d s s') (h' : At d s' s'') : At d s s'' := by
  obtain ⟨hframe, new, hnew, hat⟩ := h
  obtain ⟨hframe', new', hnew', hat'⟩ := h'
  refine ⟨fun l hl => (hframe' l hl).trans (hframe l hl), new ++ new', ?_, ?_⟩
  · rw [hnew', hnew, List.append_assoc]
  · intro l hl
    rcases List.mem_append.mp hl with hl | hl
    · exact hat l hl
    · exact hat' l hl

theorem At.within (h : At d s s') : Within d s s' := by
  obtain ⟨hframe, new, hnew, hat⟩ := h
  refine ⟨fun l hl => hframe l fun heq => hl (heq ▸ List.prefix_rfl), new, hnew, ?_⟩
  intro l hl
  exact hat l hl ▸ List.prefix_rfl

theorem At.get (h : At d s s') (hl : l ≠ d) : s'.get l = s.get l := by
  unfold Disk.get
  rw [h.1 l hl]

theorem Within.refl (d : Loc) (s : Disk) : Within d s s :=
  ⟨fun _ _ => rfl, [], by simp, by simp⟩

theorem Within.trans (h : Within d s s') (h' : Within d s' s'') :
    Within d s s'' := by
  obtain ⟨hframe, new, hnew, hin⟩ := h
  obtain ⟨hframe', new', hnew', hin'⟩ := h'
  refine ⟨fun l hl => (hframe' l hl).trans (hframe l hl), new ++ new', ?_, ?_⟩
  · rw [hnew', hnew, List.append_assoc]
  · intro l hl
    rcases List.mem_append.mp hl with hl | hl
    · exact hin l hl
    · exact hin' l hl

theorem Within.mono (hd : d <+: d') (h : Within d' s s') : Within d s s' := by
  obtain ⟨hframe, new, hnew, hin⟩ := h
  refine ⟨fun l hl => hframe l fun hd' => hl (hd.trans hd'), new, hnew, ?_⟩
  intro l hl
  exact hd.trans (hin l hl)

theorem Within.get (h : Within d s s') (hl : ¬ d <+: l) : s'.get l = s.get l := by
  unfold Disk.get
  rw [h.1 l hl]

theorem Within.linkAt (h : Within d s s') (hl : ¬ d <+: l) : s'.LinkAt l ↔ s.LinkAt l := by
  unfold Disk.LinkAt
  rw [h.get hl]

theorem not_prefix_of_before {p : Loc} (hp : p <+: d) (hne : p ≠ d) : ¬ d <+: p := by
  intro h
  exact hne (hp.eq_of_length_le h.length_le)

theorem Within.straight (h : Within d s s') (hway : s.Straight d) : s'.Straight d := by
  intro p hp hne
  rw [h.linkAt (not_prefix_of_before hp hne)]
  exact hway p hp hne

theorem straight_child {name : String} (hway : s.Straight d) (hd : ¬ s.LinkAt d) :
    s.Straight (d ++ [name]) := by
  intro p hp hne
  have hp' : p <+: d := (List.prefix_concat_iff.mp hp).resolve_left hne
  by_cases heq : p = d
  · exact heq ▸ hd
  · exact hway p hp' heq

end Frame

/-! ## Operations write at their path -/

section OpsAt

variable {limit : Nat} {d : Loc} {s : Disk} {follow : Bool} {α : Type}

theorem meets_located {Q : Except Errno α → Disk → Prop}
    {body : Loc → Option Node → Eff Errno Disk α}
    (hway : s.Straight d) (hlast : follow = true → ¬ s.LinkAt d)
    (hbody : Meets Q (body d (s.get d)) s)
    (hfail : ∀ e, resolve s.get follow limit [] (pathOf d) = .error e → Q (.error e) s) :
    Meets Q (do
      let l ← locate limit follow (pathOf d)
      let n ← nodeAt l
      body l n) s := by
  unfold Meets locate nodeAt
  simp only [bind_assoc, run_read_bind, pure_bind]
  cases h : resolve s.get follow limit [] (pathOf d) with
  | error e => exact hfail e h
  | ok l =>
    obtain rfl := resolve_pathOf h hway hlast
    exact hbody

theorem meets_put {n : Node} :
    Meets (fun _ s' => At d s s' ∧ s'.node d = some n) (put d n) s := by
  refine ⟨⟨?_, [d], rfl, by simp⟩, by simp [put]⟩
  intro l hl
  simp [put, hl]

theorem meets_drop : Meets (fun _ s' => At d s s') (drop d) s := by
  refine ⟨?_, [], by simp [drop], by simp⟩
  intro l hl
  simp [drop, hl]

theorem removeFile_at (hway : s.Straight d) :
    Meets (fun _ s' => At d s s') (removeFile limit (pathOf d)) s := by
  apply meets_located hway (by simp)
  · split
    · exact At.refl d s
    · exact At.refl d s
    · exact meets_drop
  · exact fun _ _ => At.refl d s

theorem symlink_at {target : String} (hway : s.Straight d) :
    Meets (fun _ s' => At d s s') (symlink limit target (pathOf d)) s := by
  apply meets_located hway (by simp)
  · split
    · exact (meets_put (n := .link target)).1
    · exact At.refl d s
  · exact fun _ _ => At.refl d s

theorem not_linkAt_of_node {n : Node} (h : s.node d = some n) (hn : n.isLink = false) :
    ¬ s.LinkAt d := by
  unfold Disk.LinkAt Disk.get
  split <;> simp_all [Node.isLink]

theorem createDir_at (hway : s.Straight d) (hd : ¬ s.LinkAt d) :
    Meets (fun _ s' => At d s s' ∧ ¬ s'.LinkAt d) (createDir limit (pathOf d)) s := by
  apply meets_located hway (by simp)
  · split
    · obtain ⟨hin, hnode⟩ := meets_put (d := d) (s := s) (n := .dir 0o777)
      exact ⟨hin, not_linkAt_of_node hnode rfl⟩
    · exact ⟨At.refl d s, hd⟩
  · exact fun _ _ => ⟨At.refl d s, hd⟩

theorem setPermissions_at {mode : Nat} (hway : s.Straight d) (hd : ¬ s.LinkAt d) :
    Meets (fun _ s' => At d s s' ∧ ¬ s'.LinkAt d) (setPermissions limit (pathOf d) mode) s := by
  apply meets_located hway (fun _ => hd)
  · split
    · obtain ⟨hin, hnode⟩ := meets_put (d := d) (s := s) (n := .dir mode)
      exact ⟨hin, not_linkAt_of_node hnode rfl⟩
    · rename_i bytes _ _
      obtain ⟨hin, hnode⟩ := meets_put (d := d) (s := s) (n := .file bytes mode)
      exact ⟨hin, not_linkAt_of_node hnode rfl⟩
    · exact ⟨At.refl d s, hd⟩
    · exact ⟨At.refl d s, hd⟩
  · exact fun _ _ => ⟨At.refl d s, hd⟩

theorem writeFile_at {bytes : List UInt8} {mode : Nat} (hway : s.Straight d)
    (hd : ¬ s.LinkAt d) :
    Meets (fun _ s' => At d s s') (writeFile limit bytes mode (pathOf d)) s := by
  apply meets_located hway (fun _ => hd)
  · split
    · exact At.refl d s
    · exact At.refl d s
    · exact (meets_put (n := .file bytes mode)).1
  · exact fun _ _ => At.refl d s

theorem createDir_ne_notFound (hway : s.Reached d) :
    ((createDir limit (pathOf d)).run s).1 ≠ .error .notFound := by
  have hmeets : Meets (fun r _ => r ≠ .error .notFound) (createDir limit (pathOf d)) s := by
    apply meets_located (straight_of_reached hway) (by simp)
    · split
      · simp [Meets, put]
      · simp [Meets]
    · intro e he heq
      rw [Except.error.inj heq] at he
      exact resolve_pathOf_ne_notFound hway he
  exact hmeets

theorem createDirAll_run (hway : s.Reached d) :
    ((createDirAll limit (pathOf d)).run s).2 = ((createDir limit (pathOf d)).run s).2 := by
  have hne := @createDir_ne_notFound limit d s hway
  have hsteps : (pathOf d).length = d.length + 1 := by simp [pathOf]
  rw [createDirAll, hsteps, createDirAllSteps]
  rcases hrun : (createDir limit (pathOf d)).run s with ⟨r, s'⟩
  rw [hrun] at hne
  have hattempt : (attempt (createDir limit (pathOf d))).run s = (.ok r, s') := by
    rw [run_attempt, hrun]
  rw [run_bind_ok hattempt]
  split
  · rfl
  · exact absurd rfl hne
  · unfold orIsDir
    rw [run_read_bind]
    split <;> rfl

theorem createDirAll_at (hway : s.Reached d) (hd : ¬ s.LinkAt d) :
    Meets (fun _ s' => At d s s' ∧ ¬ s'.LinkAt d) (createDirAll limit (pathOf d)) s := by
  unfold Meets
  rw [createDirAll_run hway]
  exact createDir_at (straight_of_reached hway) hd

theorem createDirAll_of_dirAt (hway : s.Reached d) (hd : s.DirAt d) :
    Meets (fun _ s' => s' = s) (createDirAll limit (pathOf d)) s := by
  unfold Meets
  rw [createDirAll_run hway]
  have hmeets : Meets (fun _ s' => s' = s) (createDir limit (pathOf d)) s := by
    apply meets_located (straight_of_reached hway) (by simp)
    · split
      · rename_i hnone
        simp [Disk.DirAt, hnone] at hd
      · rfl
    · exact fun _ _ => rfl
  exact hmeets

end OpsAt

end Lib.Fs
