import Mathlib.Data.List.Induction
import Tdvmm.Compose.Validate

/-!
# Compose.Lock — from an accepted document to the lock

`emitLock` validates again, pins images, drops `build`, `ports` and `pull_policy`, rewrites
relative binds to their in-guest destinations and gives every service the two harness binds.

A destination is named after the basename of the source; the map that rewrites entries is keyed
by service and mount target.
-/

namespace Tdvmm.Compose

open Lib (bind_ok)
open Lib.Text

def EVENT_FIFO : String := "/run/tdvmm/events"

def CONTROL_DIR : String := "/run/tdvmm/ctl"

def BINDS_BASE : String := "/var/lib/tdvmm-stack/binds"

structure EmitLockRequest where
  doc : Yaml
  composePath : String
  digests : String → Option String
  bindsBase : String
  project : String

/-- Host source and destination below the bind base, per bind. -/
abbrev BindManifest := List (String × String)

/-- In-guest destinations by service and mount target, the last one written first. -/
abbrev BindDests := List ((String × String) × String)

/-- The tree that stands in the lock file under its header line, and the copy manifest. -/
structure LockOutput where
  lock : Yaml
  bindManifest : BindManifest

/-- Where the guest finds a bind. -/
def Bind.dest (bindsBase : String) (b : Bind) : String := s!"{bindsBase}/{b.service}/{b.basename}"

/-- Where the bake puts it, relative to the staging directory. -/
def Bind.destRel (b : Bind) : String := s!"{b.service}/{b.basename}"

def bindDests (binds : List Bind) (bindsBase : String) : BindManifest × BindDests :=
  binds.foldl
    (fun acc b => (acc.1 ++ [(b.src, b.destRel)],
      ((b.service, b.target), b.dest bindsBase) :: acc.2)) ([], [])

def pinServiceImage (sname : String) (scfg : Fields) (digests : String → Option String) :
    Except ValidateError Fields :=
  if scfg.contains "build" then
    let tag := buildOutputTag sname scfg
    match digests tag with
    | some pin => .ok ((scfg.remove "build").insert "image" (.str pin))
    | none => .error (.internal
        (s!"service '{sname}' build output '{tag}' was not baked/pinned " ++
         "(no digest supplied to emit-lock)."))
  else
    match (scfg.get? "image").bind Yaml.asStr with
    | some img =>
      match digests img with
      | some pin => .ok (scfg.insert "image" (.str pin))
      | none => .ok scfg
    | none => .ok scfg

/-- `ro` when one of the comma-separated options is. -/
def normMode (mode : String) : String := if (split ',' mode).contains "ro" then "ro" else "rw"

def volumeEntry (dest target mode : String) : String := s!"{dest}:{target}:{mode}"

def rewriteEntry (sname : String) (destOf : BindDests) (entry : Yaml) : Yaml :=
  match splitBind entry with
  | some (src, target, mode) =>
    if isHostPath src then entry
    else
      match destOf.lookup (sname, target) with
      | some dest => .str (volumeEntry dest target (normMode mode))
      | none => entry
  | none => entry

def harnessBinds : List Yaml :=
  [.str (volumeEntry EVENT_FIFO EVENT_FIFO "rw"), .str (volumeEntry CONTROL_DIR CONTROL_DIR "rw")]

def rewriteVolumes (sname : String) (scfg : Fields) (destOf : BindDests) : List Yaml :=
  (volumesOf scfg).map (rewriteEntry sname destOf) ++ harnessBinds

def emitService (sname : String) (scfg : Fields) (digests : String → Option String)
    (destOf : BindDests) : Except ValidateError Fields := do
  let pinned ← pinServiceImage sname scfg digests
  let stripped := (pinned.remove "ports").remove "pull_policy"
  .ok (stripped.insert "volumes" (.seq (rewriteVolumes sname stripped destOf)))

def emitServices (digests : String → Option String) (destOf : BindDests) :
    List (Yaml × Yaml) → Except ValidateError (List (Yaml × Yaml))
  | [] => .ok []
  | (skey, cfg) :: rest =>
    match skey.asStr with
    | none => do
      let done ← emitServices digests destOf rest
      .ok ((skey, cfg) :: done)
    | some sname =>
      match cfg with
      | .map scfg => do
        let scfg ← emitService sname scfg digests destOf
        let done ← emitServices digests destOf rest
        .ok ((skey, .map scfg) :: done)
      | _ => .error (.internal s!"service '{sname}' not a mapping")

def emitLock (env : Env) (req : EmitLockRequest) : Except ValidateError LockOutput := do
  let validated ← validate env req.doc req.composePath
  let dests := bindDests validated.binds req.bindsBase
  match req.doc with
  | .map fields =>
    let m := Fields.insert fields "name" (.str req.project)
    match m.get? "services" with
    | some (.map services) => do
      let services ← emitServices req.digests dests.2 services
      .ok { lock := .map (m.insert "services" (.map services)), bindManifest := dests.1 }
    | _ => .error (.internal "services missing")
  | _ => .error (.internal "top level is not a mapping")

/-! ## Destinations -/

section Dests

variable {binds : List Bind} {bindsBase : String}

theorem bindDests_concat (b : Bind) :
    bindDests (binds ++ [b]) bindsBase =
      ((bindDests binds bindsBase).1 ++ [(b.src, b.destRel)],
        ((b.service, b.target), b.dest bindsBase) :: (bindDests binds bindsBase).2) := by
  simp [bindDests]

theorem bindDests_manifest :
    (bindDests binds bindsBase).1 = binds.map fun b => (b.src, b.destRel) := by
  induction binds using List.reverseRecOn with
  | nil => rfl
  | append_singleton binds b ih => rw [bindDests_concat, ih, List.map_append]; rfl

/-- What the rewriting finds for a service and target is the destination of the last bind of
that service and target. -/
theorem lookup_bindDests {key : String × String} {dest : String}
    (h : (bindDests binds bindsBase).2.lookup key = some dest) :
    ∃ pre b post, binds = pre ++ b :: post ∧ (b.service, b.target) = key ∧
      b.dest bindsBase = dest ∧ ∀ c ∈ post, (c.service, c.target) ≠ key := by
  induction binds using List.reverseRecOn with
  | nil => simp [bindDests] at h
  | append_singleton binds b ih =>
    rw [bindDests_concat, List.lookup_cons] at h
    by_cases hkey : key = (b.service, b.target)
    · refine ⟨binds, b, [], rfl, hkey.symm, ?_, by simp⟩
      simpa [hkey] using h
    · have hne : (key == (b.service, b.target)) = false := by simpa using hkey
      rw [hne] at h
      obtain ⟨pre, b', post, rfl, hb', hdest, hlast⟩ := ih h
      refine ⟨pre, b', post ++ [b], by simp, hb', hdest, ?_⟩
      intro c hc
      rcases List.mem_append.mp hc with hc | hc
      · exact hlast c hc
      · rw [List.mem_singleton.mp hc]
        exact Ne.symm hkey

theorem lookup_bindDests_isSome {b : Bind} (hb : b ∈ binds) :
    ∃ dest, (bindDests binds bindsBase).2.lookup (b.service, b.target) = some dest := by
  induction binds using List.reverseRecOn with
  | nil => cases hb
  | append_singleton binds b' ih =>
    rw [bindDests_concat, List.lookup_cons]
    split
    · exact ⟨_, rfl⟩
    · rename_i hne
      rcases List.mem_append.mp hb with hb | hb
      · exact ih hb
      · rw [List.mem_singleton.mp hb] at hne
        simp at hne

end Dests

/-! ## What the lock holds -/

section Emitted

variable {sname : String} {scfg scfg' : Fields} {digests : String → Option String}
  {destOf : BindDests}

theorem get?_of_not_contains {key : String} (h : ¬ scfg.contains key = true) :
    scfg.get? key = none := by
  unfold Fields.get?
  rw [Option.map_eq_none_iff, List.find?_eq_none]
  intro f hf hkey
  exact h (List.any_eq_true.mpr ⟨f, hf, hkey⟩)

theorem pinServiceImage_ok (h : pinServiceImage sname scfg digests = .ok scfg') :
    scfg'.get? "build" = none ∧
      ∀ key, key ≠ "build" → key ≠ "image" → scfg'.get? key = scfg.get? key := by
  unfold pinServiceImage at h
  split at h
  · simp only at h
    split at h
    · rename_i pin hpin
      rw [← Except.ok.inj h]
      constructor
      · rw [Fields.get?_insert (by decide), Fields.get?_remove_self]
      · intro key hbuild himage
        rw [Fields.get?_insert himage, Fields.get?_remove hbuild]
    · cases h
  · rename_i hno
    have hbuild := get?_of_not_contains hno
    have hsame : scfg' = scfg ∨ ∃ pin, scfg' = scfg.insert "image" (.str pin) := by
      split at h
      · split at h
        · exact .inr ⟨_, (Except.ok.inj h).symm⟩
        · exact .inl (Except.ok.inj h).symm
      · exact .inl (Except.ok.inj h).symm
    rcases hsame with rfl | ⟨pin, rfl⟩
    · exact ⟨hbuild, fun _ _ _ => rfl⟩
    · constructor
      · rw [Fields.get?_insert (by decide), hbuild]
      · intro key _ himage
        exact Fields.get?_insert himage

theorem pinServiceImage_image (h : pinServiceImage sname scfg digests = .ok scfg')
    (hadm : Admitted scfg) : ∃ img, scfg'.get? "image" = some (.str img) := by
  unfold pinServiceImage at h
  split at h
  · simp only at h
    split at h
    · rw [← Except.ok.inj h]
      exact ⟨_, Fields.get?_insert_self⟩
    · cases h
  · rename_i hno
    obtain ⟨img, himg⟩ := hadm.image (get?_of_not_contains hno)
    simp only [himg, Option.bind_some, Yaml.asStr] at h
    split at h
    · rw [← Except.ok.inj h]
      exact ⟨_, Fields.get?_insert_self⟩
    · rw [← Except.ok.inj h]
      exact ⟨img, himg⟩

/-- The keys that emission takes away or writes. -/
def touchedKeys : List String := ["build", "image", "ports", "pull_policy", "volumes"]

/-- A service of the lock: `volumes` rewritten, the host-only keys gone, an image, and
everything else as it was. -/
structure Emitted (sname : String) (destOf : BindDests) (scfg scfg' : Fields) : Prop where
  volumes : scfg'.get? "volumes" = some (.seq (rewriteVolumes sname scfg destOf))
  build : scfg'.get? "build" = none
  ports : scfg'.get? "ports" = none
  pullPolicy : scfg'.get? "pull_policy" = none
  image : Admitted scfg → ∃ img, scfg'.get? "image" = some (.str img)
  others : ∀ key, key ∉ touchedKeys → scfg'.get? key = scfg.get? key

theorem emitService_ok (h : emitService sname scfg digests destOf = .ok scfg') :
    Emitted sname destOf scfg scfg' := by
  obtain ⟨pinned, hpin, h⟩ := bind_ok.mp h
  obtain ⟨hbuild, hsame⟩ := pinServiceImage_ok hpin
  rw [← Except.ok.inj h]
  have hvols : volumesOf ((pinned.remove "ports").remove "pull_policy") = volumesOf scfg := by
    unfold volumesOf
    rw [Fields.get?_remove (by decide), Fields.get?_remove (by decide),
      hsame "volumes" (by decide) (by decide)]
  constructor
  · rw [Fields.get?_insert_self]
    unfold rewriteVolumes
    rw [hvols]
  · rw [Fields.get?_insert (by decide), Fields.get?_remove (by decide),
      Fields.get?_remove (by decide), hbuild]
  · rw [Fields.get?_insert (by decide), Fields.get?_remove (by decide), Fields.get?_remove_self]
  · rw [Fields.get?_insert (by decide), Fields.get?_remove_self]
  · intro hadm
    rw [Fields.get?_insert (by decide), Fields.get?_remove (by decide),
      Fields.get?_remove (by decide)]
    exact pinServiceImage_image hpin hadm
  · intro key hkey
    simp only [touchedKeys, List.mem_cons, List.not_mem_nil, or_false, not_or] at hkey
    obtain ⟨hb, hi, hp, hpp, hv⟩ := hkey
    rw [Fields.get?_insert hv, Fields.get?_remove hpp, Fields.get?_remove hp, hsame key hb hi]

theorem emitServices_get? {services services' : Fields}
    (h : emitServices digests destOf services = .ok services') (name : String) :
    match services.get? name with
    | none => services'.get? name = none
    | some (.map scfg) => ∃ scfg', services'.get? name = some (.map scfg') ∧
        Emitted name destOf scfg scfg'
    | some _ => False := by
  induction services generalizing services' with
  | nil =>
    rw [← Except.ok.inj h]
    rfl
  | cons s rest ih =>
    obtain ⟨skey, cfg⟩ := s
    unfold emitServices at h
    have hskip : ∀ {cfg' : Yaml} {done : Fields}, skey.isKey name = false →
        Fields.get? ((skey, cfg') :: done) name = Fields.get? done name := by
      intro cfg' done hne
      simp [Fields.get?, hne]
    split at h
    · rename_i hkey
      obtain ⟨done, hdone, h⟩ := bind_ok.mp h
      rw [← Except.ok.inj h]
      have hne : skey.isKey name = false := by simp [Yaml.isKey, hkey]
      rw [hskip hne, hskip hne]
      exact ih hdone
    · rename_i sname hkey
      cases cfg <;> simp only at h <;> try cases h
      rename_i scfg
      obtain ⟨scfg', hservice, h⟩ := bind_ok.mp h
      obtain ⟨done, hdone, h⟩ := bind_ok.mp h
      rw [← Except.ok.inj h]
      by_cases hname : sname = name
      · subst hname
        have hself : skey.isKey sname = true := by simp [Yaml.isKey, hkey]
        have hget : ∀ {cfg' : Yaml} {done : Fields},
            Fields.get? ((skey, cfg') :: done) sname = some cfg' := by
          intro cfg' done
          simp [Fields.get?, hself]
        rw [hget, hget]
        exact ⟨scfg', rfl, emitService_ok hservice⟩
      · have hne : skey.isKey name = false := by simp [Yaml.isKey, hkey, hname]
        rw [hskip hne, hskip hne]
        exact ih hdone

/-- A lock comes from an accepted document: its services are those of the document,
emitted with the destinations of the document's binds. -/
theorem emitLock_ok {env : Env} {req : EmitLockRequest} {out : LockOutput}
    (h : emitLock env req = .ok out) :
    ∃ v services, validate env req.doc req.composePath = .ok v ∧
      out.bindManifest = (bindDests v.binds req.bindsBase).1 ∧
      (docFields out.lock).get? "services" = some (.map services) ∧
      emitServices req.digests (bindDests v.binds req.bindsBase).2 (servicesOf req.doc) =
        .ok services := by
  obtain ⟨v, hv, h⟩ := bind_ok.mp h
  refine ⟨v, ?_⟩
  obtain ⟨hservices, -, -⟩ := validate_ok hv
  simp only at h
  split at h
  · rename_i fields hdoc
    rw [hdoc] at hservices ⊢
    rw [Fields.get?_insert (by decide), show Fields.get? fields "services" = _ from hservices] at h
    obtain ⟨services, hemit, h⟩ := bind_ok.mp h
    rw [← Except.ok.inj h]
    exact ⟨services, hdoc ▸ hv, rfl, Fields.get?_insert_self, hemit⟩
  · cases h

end Emitted

end Tdvmm.Compose
