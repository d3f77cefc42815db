import Tdvmm.Build.Tree
import Tdvmm.Compose.Fidelity

/-!
# Build.Binds — materialising the bind manifest

For every entry of the manifest the bake makes the parent of its destination below the staging
directory and copies the source tree there.

The destination is the service name and a basename joined to the staging directory as a path, so
a service name can lead anywhere, and so can a link that an earlier bind left at the destination
(`binds_escape`). In a run whose binds each find a plain service name and no link in their way,
everything written lies under the directory of the bind's service (`binds_confined`).
-/

namespace Tdvmm.Build

open Lib Lib.Text Lib.Fs Lib.Eff Compose

/-- `Path::parent`; a root has none. -/
def parentPath (p : Path) : Option Path :=
  match p.getLast? with
  | none | some .rootDir => none
  | some _ => some p.dropLast

section Materialise

variable (limit : Nat) (sources : String → Option (Tree String)) (stage : Loc)

/-- One entry of the manifest: host source and destination below the staging directory. -/
def materialiseBind (m : String × String) : Eff Errno Disk Unit :=
  let dest := joinPath (pathOf stage) (components m.2)
  match parentPath dest with
  | none => fail .other
  | some parent => do
    createDirAll limit parent
    match sources m.1 with
    | none => fail .notFound
    | some t => copyTree (diskCalls limit) t dest

/-- The disk after one entry, and whether the run goes on. -/
def afterBind (m : String × String) (s : Disk) : Except Errno Unit × Disk :=
  (materialiseBind limit sources stage m).run { s with touched := [] }

/-- What each entry of the manifest creates or writes, up to the first that fails. -/
def materialise : BindManifest → Disk → List (List Loc)
  | [], _ => []
  | m :: rest, s =>
    match afterBind limit sources stage m s with
    | (.ok _, s') => s'.touched :: materialise rest s'
    | (.error _, s') => [s'.touched]

def stagePlace (b : Bind) : Loc :=
  if b.basename = "" then stage ++ [b.service] else stage ++ [b.service] ++ [b.basename]

/-- Before a bind is copied: its service name is one component, and no link stands at the
service's directory or where a file or directory of its source will be written. -/
structure ClearBind (b : Bind) (s : Disk) : Prop where
  service : IsName b.service
  directory : ¬ s.LinkAt (stage ++ [b.service])
  copies : ∀ t, sources b.src = some t → Clear s (stagePlace stage b) t

def ClearRun : List Bind → Disk → Prop
  | [], _ => True
  | b :: rest, s => ClearBind sources stage b s ∧
      ClearRun rest (afterBind limit sources stage (b.src, b.destRel) s).2

end Materialise

/-! ## One bind -/

section Bind

variable {limit : Nat} {sources : String → Option (Tree String)} {stage : Loc} {b : Bind} {s : Disk}

theorem components_destRel (hs : IsName b.service) (hb : b.basename = "" ∨ IsName b.basename) :
    components b.destRel =
      if b.basename = "" then [.normal b.service] else [.normal b.service, .normal b.basename] := by
  have htext : b.destRel = b.service ++ "/" ++ b.basename := by
    simp [Bind.destRel, toString]
  have hsplit : split '/' b.destRel = b.service :: split '/' b.basename := by
    rw [htext, split_append (by rfl), split_of_not_contains hs.1]
    rfl
  have hroot : startsWith '/' b.destRel = false := by
    have hlist : b.service.toList ≠ [] := by simpa using hs.2.1
    obtain ⟨c, cs, hc⟩ := List.exists_cons_of_ne_nil hlist
    have hslash := hs.1
    simp only [contains, hc, List.contains_eq_mem, List.mem_cons, decide_eq_false_iff_not,
      not_or] at hslash
    rw [htext]
    simp [startsWith, String.toList_append, hc, Ne.symm hslash.1]
  have hdot : ¬ (split '/' b.destRel).head? = some "." := by
    rw [hsplit]
    simpa using hs.2.2.1
  unfold components
  rw [hroot, if_neg (by simp), if_neg hdot, htext, tailComponents_append,
    tailComponents_of_isName hs]
  split
  · rename_i hempty
    rw [hempty]
    rfl
  · rename_i hne
    rw [tailComponents_of_isName (hb.resolve_left hne)]
    rfl

theorem dest_path (hs : IsName b.service) (hb : b.basename = "" ∨ IsName b.basename) :
    joinPath (pathOf stage) (components b.destRel) = pathOf (stagePlace stage b) ∧
      parentPath (pathOf (stagePlace stage b)) =
        some (if b.basename = "" then pathOf stage else pathOf (stage ++ [b.service])) := by
  rw [components_destRel hs hb]
  unfold stagePlace
  split
  · refine ⟨joinPath_pathOf stage b.service, ?_⟩
    rw [pathOf_concat]
    simp [parentPath]
  · constructor
    · rw [pathOf_concat, pathOf_concat]
      simp [joinPath]
    · rw [pathOf_concat (stage ++ [b.service])]
      simp [parentPath]

/-- What the staging directory needs to be: a directory, reached through directories. -/
structure StageAt (stage : Loc) (s : Disk) : Prop where
  reached : s.Reached stage
  dir : s.DirAt stage

theorem StageAt.reached_child {name : String} (h : StageAt stage s) :
    s.Reached (stage ++ [name]) := by
  intro p hp hne
  have hp' : p <+: stage := (List.prefix_concat_iff.mp hp).resolve_left hne
  by_cases heq : p = stage
  · exact heq ▸ h.dir
  · exact h.reached p hp' heq

theorem StageAt.frame {s' : Disk} {name : String} (h : StageAt stage s)
    (hin : Within (stage ++ [name]) s s') : StageAt stage s' := by
  have hget : ∀ p, p <+: stage → s'.get p = s.get p := by
    intro p hp
    apply hin.get
    intro hlong
    have hlen := (hlong.trans hp).length_le
    simp only [List.length_append, List.length_singleton] at hlen
    omega
  constructor
  · intro p hp hne
    unfold Disk.DirAt
    rw [hget p hp]
    exact h.reached p hp hne
  · unfold Disk.DirAt
    rw [hget stage List.prefix_rfl]
    exact h.dir

theorem materialiseBind_within (hproper : ∀ src t, sources src = some t → t.Proper)
    (hb : b.basename = "" ∨ IsName b.basename) (hstage : StageAt stage s)
    (hclear : ClearBind sources stage b s) :
    Meets (fun _ s' => Within (stage ++ [b.service]) s s')
      (materialiseBind limit sources stage (b.src, b.destRel)) s := by
  obtain ⟨hdest, hparent⟩ := @dest_path stage b hclear.service hb
  have hreached : s.Reached (stage ++ [b.service]) := hstage.reached_child
  unfold materialiseBind
  simp only [hdest, hparent]
  -- the copy, from a disk that differs from `s` at the service's directory at most
  have hcopy : ∀ s', Within (stage ++ [b.service]) s s' → s'.Straight (stagePlace stage b) →
      (∀ l, stagePlace stage b <+: l → s'.get l = s.get l) →
      Meets (fun _ s'' => Within (stage ++ [b.service]) s s'')
        (match sources b.src with
          | none => fail .notFound
          | some t => copyTree (diskCalls limit) t (pathOf (stagePlace stage b))) s' := by
    intro s' hin hway hsame
    split
    · exact hin
    · rename_i t ht
      have hdown := @copyTree_within limit t _ s' (hproper _ _ ht) hway
        (clear_frame t hsame (hclear.copies t ht))
      have hplace : stage ++ [b.service] <+: stagePlace stage b := by
        unfold stagePlace
        split
        · exact List.prefix_rfl
        · exact List.prefix_append _ _
      exact hdown.imp fun _ _ hin' => hin.trans (hin'.mono hplace)
  by_cases hempty : b.basename = ""
  · have hplace : stagePlace stage b = stage ++ [b.service] := by simp [stagePlace, hempty]
    simp only [hempty, if_true]
    apply Meets.bind (createDirAll_of_dirAt hstage.reached hstage.dir)
    · rintro _ s' rfl
      apply hcopy s' (Within.refl _ s')
      · rw [hplace]
        exact straight_of_reached hreached
      · exact fun _ _ => rfl
    · rintro _ s' rfl
      exact Within.refl _ s'
  · have hplace : stagePlace stage b = stage ++ [b.service] ++ [b.basename] := by
      simp [stagePlace, hempty]
    simp only [hempty, if_false]
    apply Meets.bind (createDirAll_at hreached hclear.directory)
    · rintro _ s' ⟨hat, hd⟩
      apply hcopy s' hat.within
      · rw [hplace]
        exact straight_child (hat.within.straight (straight_of_reached hreached)) hd
      · intro l hl
        apply hat.get
        rintro rfl
        rw [hplace] at hl
        exact not_prefix_of_before (List.prefix_append _ [b.basename]) (by simp) hl
    · exact fun _ _ h => h.1.within

end Bind

/-! ## The manifest -/

section Run

variable {limit : Nat} {sources : String → Option (Tree String)} {stage : Loc}

theorem materialise_cons (m : String × String) (rest : BindManifest) (s : Disk) :
    materialise limit sources stage (m :: rest) s =
      match afterBind limit sources stage m s with
      | (.ok _, s') => s'.touched :: materialise limit sources stage rest s'
      | (.error _, s') => [s'.touched] := rfl

theorem materialise_confined (hproper : ∀ src t, sources src = some t → t.Proper)
    {binds : List Bind} (hnames : ∀ b ∈ binds, b.basename = "" ∨ IsName b.basename) {s : Disk}
    (hstage : StageAt stage s) (hclear : ClearRun limit sources stage binds s) {i : Nat} {b : Bind}
    {locs : List Loc} (hi : binds[i]? = some b)
    (hlocs : (materialise limit sources stage (binds.map fun b => (b.src, b.destRel)) s)[i]? =
      some locs) :
    ∀ l ∈ locs, stage ++ [b.service] <+: l := by
  induction binds generalizing s i with
  | nil => cases hi
  | cons b' rest ih =>
    obtain ⟨hclear, hrest⟩ := hclear
    -- one step: the record starts empty, so all of it is this bind's
    have hstep : Within (stage ++ [b'.service]) { s with touched := [] }
        (afterBind limit sources stage (b'.src, b'.destRel) s).2 :=
      materialiseBind_within hproper (hnames b' (by simp))
        ⟨hstage.reached, hstage.dir⟩ ⟨hclear.service, hclear.directory, fun t ht =>
          clear_frame (s := s) t (fun _ _ => rfl) (hclear.copies t ht)⟩
    have hown : ∀ l ∈ (afterBind limit sources stage (b'.src, b'.destRel) s).2.touched,
        stage ++ [b'.service] <+: l := by
      obtain ⟨-, new, hnew, hin⟩ := hstep
      rw [hnew]
      exact hin
    rw [List.map_cons, materialise_cons] at hlocs
    rcases hafter : afterBind limit sources stage (b'.src, b'.destRel) s with ⟨r, s'⟩
    rw [hafter] at hlocs hown hrest hstep
    cases r with
    | ok _ =>
      cases i with
      | zero =>
        obtain rfl : b' = b := by simpa using hi
        obtain rfl : s'.touched = locs := by simpa using hlocs
        exact hown
      | succ i =>
        refine ih (fun b hb => hnames b (by simp [hb])) ?_ hrest hi hlocs
        exact StageAt.frame (s := { s with touched := [] }) ⟨hstage.reached, hstage.dir⟩ hstep
    | error e =>
      cases i with
      | zero =>
        obtain rfl : b' = b := by simpa using hi
        obtain rfl : s'.touched = locs := by simpa using hlocs
        exact hown
      | succ i => simp at hlocs

/-- In a run whose binds are each clear when their turn comes, everything created or written
lies in the staging directory, under the directory of the bind's service. -/
theorem binds_confined {env : Env} {req : EmitLockRequest} {out : LockOutput}
    (h : emitLock env req = .ok out) (hproper : ∀ src t, sources src = some t → t.Proper) {s : Disk}
    (hstage : StageAt stage s)
    (hclear : ClearRun limit sources stage (docBinds req.doc req.composePath) s) (i : Nat)
    (b : Bind) (locs : List Loc) (hi : (docBinds req.doc req.composePath)[i]? = some b)
    (hlocs : (materialise limit sources stage out.bindManifest s)[i]? = some locs) :
    ∀ l ∈ locs, stage ++ [b.service] <+: l := by
  obtain ⟨v, services, hv, hmanifest, -, -⟩ := emitLock_ok h
  rw [bindDests_manifest, docBinds_eq hv] at hmanifest
  rw [hmanifest] at hlocs
  exact materialise_confined hproper (fun b hb => docBinds_basename hb) hstage hclear hi hlocs

end Run

/-! ## Runs -/

def hostDisk : Disk where
  node := fun l =>
    if l = ["stage"] ∨ l = ["etc"] then some (.dir 0o755)
    else if l = ["etc", "passwd"] then some (.file [0x72] 0o644)
    else none
  touched := []

def namedService (name : String) (entries : List String) : EmitLockRequest where
  doc := .map [(.str "services", .map [(.str name, .map
    [(.str "image", .str "busybox"), (.str "volumes", .seq (entries.map .str))])])]
  composePath := "/stack/compose.yml"
  digests := fun _ => none
  bindsBase := "/var/lib/tdvmm-stack/binds"
  project := "tdvmm_demo"

def stackSources (src : String) : Option (Tree String) :=
  if src = "/stack/passwd" then some (.file [0x65] 0o644)
  else if src = "/stack/link" then some (.link "/etc")
  else if src = "/stack/d/link" then some (.dir 0o755 [("passwd", .file [0x65] 0o644)])
  else none

theorem stackSources_proper (src : String) (t : Tree String) (h : stackSources src = some t) :
    t.Proper := by
  unfold stackSources at h
  split at h
  · rw [← Option.some.inj h]
    trivial
  · split at h
    · rw [← Option.some.inj h]
      trivial
    · split at h
      · rw [← Option.some.inj h]
        exact ⟨by decide, by simp, trivial, trivial⟩
      · cases h

def twoBinds : EmitLockRequest := namedService "app" ["./d/link:/y", "./passwd:/x"]

theorem binds_confined_plain :
    ∃ out, emitLock openEnv twoBinds = .ok out ∧
      materialise 64 stackSources ["stage"] out.bindManifest hostDisk =
        [[["stage", "app"], ["stage", "app", "link"], ["stage", "app", "link"],
          ["stage", "app", "link", "passwd"]], [["stage", "app", "passwd"]]] ∧
      ∀ locs ∈ materialise 64 stackSources ["stage"] out.bindManifest hostDisk, ∀ l ∈ locs,
        ["stage"] ++ ["app"] <+: l := by
  obtain ⟨out, hout, hmanifest⟩ : ∃ out, emitLock openEnv twoBinds = .ok out ∧
      out.bindManifest = [("/stack/d/link", "app/link"), ("/stack/passwd", "app/passwd")] :=
    exists_ok_of_map (by decide +kernel)
  have hrun : materialise 64 stackSources ["stage"] out.bindManifest hostDisk =
      [[["stage", "app"], ["stage", "app", "link"], ["stage", "app", "link"],
        ["stage", "app", "link", "passwd"]], [["stage", "app", "passwd"]]] := by
    rw [hmanifest]
    decide +kernel
  have hbinds : docBinds twoBinds.doc twoBinds.composePath =
      [⟨"app", "/stack/d/link", "/y", "link"⟩, ⟨"app", "/stack/passwd", "/x", "passwd"⟩] := by
    decide +kernel
  have hstage : StageAt ["stage"] hostDisk := by
    constructor
    · intro p hp hne
      have hnil : p = [] := by
        rcases List.prefix_concat_iff.mp (show p <+: [] ++ ["stage"] from hp) with h | h
        · exact absurd h hne
        · exact List.prefix_nil.mp h
      rw [hnil]
      decide
    · decide
  have hclear : ClearRun 64 stackSources ["stage"] (docBinds twoBinds.doc twoBinds.composePath)
      hostDisk := by
    simp only [hbinds, ClearRun]
    refine ⟨⟨by decide, by decide, ?_⟩, ⟨by decide, by decide +kernel, ?_⟩, trivial⟩
    · intro t ht
      obtain rfl : Tree.dir 0o755 [("passwd", .file [0x65] 0o644)] = t := by
        simpa [stackSources] using ht
      refine ⟨?_, ?_, trivial⟩ <;> (show ¬ hostDisk.LinkAt _; decide)
    · intro t ht
      obtain rfl : Tree.file [0x65] 0o644 = t := by simpa [stackSources] using ht
      show ¬ Disk.LinkAt _ _
      decide +kernel
  refine ⟨out, hout, hrun, fun locs hlocs => ?_⟩
  have hconfined := binds_confined hout stackSources_proper hstage hclear
  rw [hbinds, hrun] at hconfined
  rw [hrun] at hlocs
  rcases List.mem_pair.mp hlocs with rfl | rfl
  · exact hconfined 0 _ _ rfl rfl
  · exact hconfined 1 _ _ rfl rfl

/-- Two stacks whose binds are written outside the staging directory. -/
theorem binds_escape :
    (∃ out, emitLock openEnv (namedService "/etc" ["./passwd:/x"]) = .ok out ∧
      materialise 64 stackSources ["stage"] out.bindManifest hostDisk =
        [[["etc", "passwd"]]]) ∧
    ∃ out, emitLock openEnv (namedService "app" ["./link:/x", "./d/link:/y"]) = .ok out ∧
      materialise 64 stackSources ["stage"] out.bindManifest hostDisk =
        [[["stage", "app"], ["stage", "app", "link"]], [["etc", "passwd"]]] := by
  constructor
  · -- the service is called `/etc`
    obtain ⟨out, hout, hmanifest⟩ : ∃ out,
        emitLock openEnv (namedService "/etc" ["./passwd:/x"]) = .ok out ∧
          out.bindManifest = [("/stack/passwd", "/etc/passwd")] :=
      exists_ok_of_map (by decide +kernel)
    refine ⟨out, hout, ?_⟩
    rw [hmanifest]
    decide +kernel
  · -- a link to `/etc` is bound first, and a directory to the same name
    obtain ⟨out, hout, hmanifest⟩ : ∃ out,
        emitLock openEnv (namedService "app" ["./link:/x", "./d/link:/y"]) = .ok out ∧
          out.bindManifest = [("/stack/link", "app/link"), ("/stack/d/link", "app/link")] :=
      exists_ok_of_map (by decide +kernel)
    refine ⟨out, hout, ?_⟩
    rw [hmanifest]
    decide +kernel

end Tdvmm.Build
