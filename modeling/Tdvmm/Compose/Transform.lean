import Mathlib.Data.List.Forall2
import Tdvmm.Compose.Volume

/-!
# Compose.Transform — the lock of an accepted document

* `Transformed`: one service of the lock against the service it comes from.
* `Locked`: the lock against the document.
* `lock_transforms`: with a digest for every image and build tag a lock comes out and is the
  document transformed; without a digest for some build tag, or when the document is rejected,
  none comes out.
-/

namespace Tdvmm.Compose

open Lib (bind_ok exists_ok_of_map)

/-- The image a service runs: the output of its build, or the one it names. -/
def imageRef (sname : String) (scfg : Fields) : Option String :=
  if scfg.contains "build" then some (buildOutputTag sname scfg)
  else (scfg.get? "image").bind Yaml.asStr

/-- An entry of the document's volumes, and the one that stands for it in the lock: a bind goes
to the destination recorded for its target and keeps its mode, any other volume stays. -/
inductive LockVolume (req : EmitLockRequest) (sname : String) : Yaml → Yaml → Prop
  | bind {entry : Yaml} {src target dest : String} {ro : Bool} (hbind : IsBind entry src target ro)
      (hdest : Recorded req sname target dest) :
      LockVolume req sname entry (.str (dest ++ ":" ++ target ++ ":" ++ modeText ro))
  | volume {entry : Yaml} (hvolume : ∀ src target ro, ¬ IsBind entry src target ro) :
      LockVolume req sname entry entry

structure Transformed (req : EmitLockRequest) (sname : String) (scfg scfg' : Fields) : Prop where
  image : ∃ ref pin, imageRef sname scfg = some ref ∧ req.digests ref = some pin ∧
    scfg'.get? "image" = some (.str pin)
  build : scfg'.get? "build" = none
  ports : scfg'.get? "ports" = none
  pullPolicy : scfg'.get? "pull_policy" = none
  volumes : ∃ vols, scfg'.get? "volumes" = some (.seq (vols ++ harnessEntries.map .str)) ∧
    List.Forall₂ (LockVolume req sname) (volumesOf scfg) vols
  others : ∀ key, key ∉ ["build", "image", "ports", "pull_policy", "volumes"] →
    scfg'.get? key = scfg.get? key

/-- A service of the document and the one in its place in the lock. -/
def LockService (req : EmitLockRequest) (s s' : Yaml × Yaml) : Prop :=
  ∃ sname scfg scfg', s = (.str sname, .map scfg) ∧ s' = (.str sname, .map scfg') ∧
    Transformed req sname scfg scfg'

structure Locked (req : EmitLockRequest) (lock : Yaml) : Prop where
  name : (docFields lock).get? "name" = some (.str req.project)
  services : ∃ services, (docFields lock).get? "services" = some (.map services) ∧
    List.Forall₂ (LockService req) (servicesOf req.doc) services
  others : ∀ key, key ≠ "name" → key ≠ "services" →
    (docFields lock).get? key = (docFields req.doc).get? key

structure Covers (digests : String → Option String) (v : Validated) : Prop where
  images : ∀ img ∈ v.images, ∃ pin, digests img = some pin
  builds : ∀ ctx ∈ v.builds, ∃ pin, digests ctx.imageTag = some pin

/-! ## One service -/

section Service

variable {req : EmitLockRequest} {sname : String} {scfg : Fields} {destOf : BindDests}
  {digests : String → Option String} {ref pin : String}

theorem pinServiceImage_pinned (href : imageRef sname scfg = some ref)
    (hpin : digests ref = some pin) :
    ∃ scfg', pinServiceImage sname scfg digests = .ok scfg' ∧
      scfg'.get? "image" = some (.str pin) := by
  unfold imageRef at href
  unfold pinServiceImage
  split at href
  · rename_i hbuild
    rw [if_pos hbuild, Option.some.inj href]
    simp only [hpin]
    exact ⟨_, rfl, Fields.get?_insert_self⟩
  · rename_i hbuild
    rw [if_neg hbuild, href]
    simp only [hpin]
    exact ⟨_, rfl, Fields.get?_insert_self⟩

/-- What the gate and the digests give a service: a pinned image, and a recorded destination
for every bind. -/
structure Ready (req : EmitLockRequest) (destOf : BindDests) (sname : String) (scfg : Fields) :
    Prop where
  image : ∃ ref pin, imageRef sname scfg = some ref ∧ req.digests ref = some pin
  binds : ∀ entry ∈ volumesOf scfg, ∀ src target mode,
    splitBind entry = some (src, target, mode) → ∃ dest, Recorded req sname target dest ∧
      rewriteEntry sname destOf entry = .str (volumeEntry dest target (normMode mode))

theorem rewriteEntry_lockVolume (hready : Ready req destOf sname scfg) {entry : Yaml}
    (hentry : entry ∈ volumesOf scfg) :
    LockVolume req sname entry (rewriteEntry sname destOf entry) := by
  cases hsplit : splitBind entry with
  | none =>
    rw [show rewriteEntry sname destOf entry = entry by simp [rewriteEntry, hsplit]]
    refine .volume fun src target ro hbind => ?_
    obtain ⟨mode, hmode⟩ := splitBind_of_isBind hbind
    rw [hsplit] at hmode
    cases hmode
  | some parts =>
    obtain ⟨src, target, mode⟩ := parts
    obtain ⟨dest, hdest, heq⟩ := hready.binds entry hentry src target mode hsplit
    obtain ⟨ro, hbind, hmode⟩ := isBind_of_splitBind hsplit
    have htext : volumeEntry dest target (normMode mode) =
        dest ++ ":" ++ target ++ ":" ++ modeText ro := by
      simp [volumeEntry, hmode, toString]
    rw [heq, htext]
    exact .bind hbind hdest

theorem emitService_transforms (hready : Ready req destOf sname scfg) :
    ∃ scfg', emitService sname scfg req.digests destOf = .ok scfg' ∧
      Transformed req sname scfg scfg' := by
  obtain ⟨ref, pin, href, hpin⟩ := hready.image
  obtain ⟨pinned, hok, himage⟩ := pinServiceImage_pinned href hpin
  have hemit : ∃ scfg', emitService sname scfg req.digests destOf = .ok scfg' ∧
      scfg'.get? "image" = pinned.get? "image" := by
    refine ⟨_, bind_ok.mpr ⟨pinned, hok, rfl⟩, ?_⟩
    rw [Fields.get?_insert (by decide), Fields.get?_remove (by decide),
      Fields.get?_remove (by decide)]
  obtain ⟨scfg', hemit, hsame⟩ := hemit
  have hem := emitService_ok hemit
  have hvols := hem.volumes
  rw [rewriteVolumes, harnessBinds_eq] at hvols
  refine ⟨scfg', hemit, ⟨ref, pin, href, hpin, hsame.trans himage⟩, hem.build, hem.ports,
    hem.pullPolicy, ⟨_, hvols, ?_⟩, hem.others⟩
  rw [List.forall₂_map_right_iff, List.forall₂_same]
  intro entry hentry
  exact rewriteEntry_lockVolume hready hentry

theorem emitService_unpinned (hbuild : scfg.contains "build" = true)
    (hno : digests (buildOutputTag sname scfg) = none) :
    ∃ e, emitService sname scfg digests destOf = .error e := by
  unfold emitService pinServiceImage
  rw [if_pos hbuild]
  simp only [hno]
  exact ⟨_, rfl⟩

end Service

/-! ## All services -/

section Services

variable {req : EmitLockRequest} {digests : String → Option String} {destOf : BindDests}
  {services : List (Yaml × Yaml)}

theorem emitServices_transforms
    (hready : ∀ s ∈ services, ∃ sname scfg, s = (.str sname, .map scfg) ∧
      Ready req destOf sname scfg) :
    ∃ services', emitServices req.digests destOf services = .ok services' ∧
      List.Forall₂ (LockService req) services services' := by
  induction services with
  | nil => exact ⟨[], rfl, .nil⟩
  | cons s rest ih =>
    obtain ⟨sname, scfg, rfl, hs⟩ := hready s List.mem_cons_self
    obtain ⟨scfg', hservice, ht⟩ := emitService_transforms hs
    obtain ⟨done, hdone, hall⟩ := ih fun s hs => hready s (List.mem_cons_of_mem _ hs)
    refine ⟨(.str sname, .map scfg') :: done, ?_, .cons ⟨sname, scfg, scfg', rfl, rfl, ht⟩ hall⟩
    simp only [emitServices, Yaml.asStr, hservice, hdone]
    rfl

theorem emitServices_unpinned {sname : String} {scfg : Fields}
    (hs : (Yaml.str sname, Yaml.map scfg) ∈ services) (hbuild : scfg.contains "build" = true)
    (hno : digests (buildOutputTag sname scfg) = none) :
    ∃ e, emitServices digests destOf services = .error e := by
  -- an emission that comes to its end has emitted this service too
  cases hemit : emitServices digests destOf services with
  | error e => exact ⟨e, rfl⟩
  | ok services' =>
    exfalso
    induction services generalizing services' with
    | nil => cases hs
    | cons s rest ih =>
      obtain ⟨skey, cfg⟩ := s
      unfold emitServices at hemit
      split at hemit
      · rename_i hkey
        obtain ⟨done, hdone, -⟩ := bind_ok.mp hemit
        rcases List.mem_cons.mp hs with heq | hs
        · cases heq
          cases hkey
        · exact ih hs done hdone
      · rename_i name hkey
        cases cfg <;> simp only at hemit <;> try cases hemit
        obtain ⟨fields', hservice, hemit⟩ := bind_ok.mp hemit
        obtain ⟨done, hdone, -⟩ := bind_ok.mp hemit
        rcases List.mem_cons.mp hs with heq | hs
        · cases heq
          cases hkey
          obtain ⟨e, he⟩ := @emitService_unpinned _ _ destOf _ hbuild hno
          rw [he] at hservice
          cases hservice
        · exact ih hs done hdone

end Services

/-! ## The document -/

section Document

variable {env : Env} {req : EmitLockRequest} {v : Validated}

theorem imageRef_listed (hv : validate env req.doc req.composePath = .ok v) {sname : String}
    {scfg : Fields} (hs : (Yaml.str sname, Yaml.map scfg) ∈ servicesOf req.doc) :
    ∃ ref, imageRef sname scfg = some ref ∧
      (ref ∈ v.images ∨ ∃ ctx ∈ v.builds, ctx.imageTag = ref) := by
  obtain ⟨-, -, hmem, -⟩ := validateServices_mem (validate_services hv)
  obtain ⟨before, after, hservice, hbuilds, himages⟩ := hmem sname scfg hs
  unfold imageRef
  rcases validateService_refs hservice with
    ⟨build, ctx, hbuild, hctx, hadd, -⟩ | ⟨img, hbuild, himg, -, hin, -⟩
  · rw [if_pos (Fields.contains_iff.mpr ⟨_, hbuild⟩)]
    refine ⟨_, rfl, .inr ⟨ctx, hbuilds ?_, validateBuild_tag hctx⟩⟩
    simp [hadd]
  · have hno : ¬ scfg.contains "build" = true := by
      intro hcontains
      obtain ⟨y, hy⟩ := Fields.contains_iff.mp hcontains
      rw [hbuild] at hy
      cases hy
    rw [if_neg hno, himg]
    exact ⟨img, rfl, .inl (himages hin)⟩

theorem ready_of_validate (hv : validate env req.doc req.composePath = .ok v)
    (hcov : Covers req.digests v) {s : Yaml × Yaml} (hs : s ∈ servicesOf req.doc) :
    ∃ sname scfg, s = (.str sname, .map scfg) ∧
      Ready req (bindDests v.binds req.bindsBase).2 sname scfg := by
  obtain ⟨-, -, hadm⟩ := validate_ok hv
  obtain ⟨sname, scfg, rfl, -⟩ := hadm s hs
  refine ⟨sname, scfg, rfl, ?_, ?_⟩
  · obtain ⟨ref, href, himg | ⟨ctx, hctx, rfl⟩⟩ := imageRef_listed hv hs
    · obtain ⟨pin, hpin⟩ := hcov.images ref himg
      exact ⟨ref, pin, href, hpin⟩
    · obtain ⟨pin, hpin⟩ := hcov.builds ctx hctx
      exact ⟨_, pin, href, hpin⟩
  · intro entry hentry src target mode hsplit
    obtain ⟨b, -, -, -, hdest, heq⟩ := rewriteEntry_of_bind hv hs hentry hsplit
    exact ⟨_, recorded_of_lookup hv hdest, heq⟩

theorem emitLock_eq (hv : validate env req.doc req.composePath = .ok v) :
    ∃ fields, req.doc = .map fields ∧
      emitLock env req =
        emitServices req.digests (bindDests v.binds req.bindsBase).2 (servicesOf req.doc) >>=
          fun services => .ok
            { lock := .map ((Fields.insert fields "name" (.str req.project)).insert "services"
                (.map services)),
              bindManifest := (bindDests v.binds req.bindsBase).1 } := by
  obtain ⟨hservices, -, -⟩ := validate_ok hv
  unfold emitLock
  rw [hv]
  cases hdoc : req.doc with
  | map fields =>
    refine ⟨fields, rfl, ?_⟩
    rw [hdoc] at hservices
    simp only [bind, Except.bind]
    rw [Fields.get?_insert (by decide), show Fields.get? fields "services" = _ from hservices]
  | _ =>
    rw [hdoc] at hservices
    cases hservices

/-- The lock of an accepted document with all digests is the document transformed; a build
tag without a digest, or a rejected document, gives no lock. -/
theorem lock_transforms (env : Env) (req : EmitLockRequest) :
    (∀ v, validate env req.doc req.composePath = .ok v →
      (Covers req.digests v → ∃ out, emitLock env req = .ok out ∧ Locked req out.lock) ∧
      ((∃ ctx ∈ v.builds, req.digests ctx.imageTag = none) →
        ∃ e, emitLock env req = .error e)) ∧
    ∀ e, validate env req.doc req.composePath = .error e → emitLock env req = .error e := by
  refine ⟨fun v hv => ⟨?_, ?_⟩, ?_⟩
  · intro hcov
    obtain ⟨fields, hdoc, hemit⟩ := emitLock_eq hv
    obtain ⟨services, hservices, hall⟩ := emitServices_transforms fun s => ready_of_validate hv hcov
    rw [hemit, hservices]
    refine ⟨_, rfl, ?_, ⟨services, Fields.get?_insert_self, hall⟩, ?_⟩
    · simp only [docFields]
      rw [Fields.get?_insert (by decide), Fields.get?_insert_self]
    · intro key hname hsvc
      rw [hdoc]
      simp only [docFields]
      rw [Fields.get?_insert hsvc, Fields.get?_insert hname]
  · rintro ⟨ctx, hctx, hno⟩
    obtain ⟨sname, scfg, build, hs, hbuild, hok⟩ := validate_build hv hctx
    rw [validateBuild_tag hok] at hno
    obtain ⟨fields, -, hemit⟩ := emitLock_eq hv
    obtain ⟨e, he⟩ := emitServices_unpinned hs (Fields.contains_iff.mpr ⟨_, hbuild⟩) hno
    rw [hemit, he]
    exact ⟨e, rfl⟩
  · intro e he
    unfold emitLock
    rw [he]
    rfl

end Document

def builderEnv : Env where
  present := fun _ => true
  isDir := fun _ => true
  isFile := fun _ => true
  readToString := fun _ => .ok "FROM alpine@sha256:0a\n"
  floatText := fun _ => ""
  numberText := fun _ => ""

/-- One pulled and one built service, a bind in each form, a named volume and an extra key. -/
def webDoc : Yaml :=
  .map [(.str "x-note", .str "kept"), (.str "services", .map
    [(.str "db", .map [(.str "image", .str "postgres"), (.str "ports", .seq [.str "5432:5432"]),
        (.str "volumes", .seq [.str "data:/data", .str "./init:/init:ro"])]),
      (.str "web", .map [(.str "build", .str "ctx"), (.str "user", .str "www"),
        (.str "volumes", .seq [.map [(.str "type", .str "bind"), (.str "source", .str "site"),
          (.str "target", .str "/srv")]])])])]

def webRequest (pins : List (String × String)) : EmitLockRequest where
  doc := webDoc
  composePath := "/stack/compose.yml"
  digests := fun ref => pins.lookup ref
  bindsBase := "/binds"
  project := "demo"

def webPins : List (String × String) :=
  [("postgres", "postgres@sha256:1b"), ("localhost/tdvmm-build-web:baked", "web@sha256:2c")]

def lockVolumes (lock : Yaml) : List (List (Option String)) :=
  (servicesOf lock).map fun s => (volumesOf (docFields s.2)).map Yaml.asStr

theorem lock_transforms_web :
    (∃ out, emitLock builderEnv (webRequest webPins) = .ok out ∧
        Locked (webRequest webPins) out.lock ∧
        lockVolumes out.lock =
          [[some "data:/data", some "/binds/db/init:/init:ro",
              some "/run/tdvmm/events:/run/tdvmm/events:rw",
              some "/run/tdvmm/ctl:/run/tdvmm/ctl:rw"],
            [some "/binds/web/site:/srv:rw", some "/run/tdvmm/events:/run/tdvmm/events:rw",
              some "/run/tdvmm/ctl:/run/tdvmm/ctl:rw"]]) ∧
      ∃ e, emitLock builderEnv (webRequest (webPins.take 1)) = .error e := by
  -- its lock with both digests, and none without that of the build
  obtain ⟨v, hv, hrefs⟩ := exists_ok_of_map (show
    ((validate builderEnv webDoc "/stack/compose.yml").toOption.map fun v =>
      (v.images, v.builds.map (·.imageTag))) =
        some (["postgres"], ["localhost/tdvmm-build-web:baked"]) by decide +kernel)
  obtain ⟨himages, hbuilds⟩ := Prod.mk.injEq .. ▸ hrefs
  constructor
  · have hcov : Covers (webRequest webPins).digests v := by
      constructor
      · intro img himg
        obtain rfl : img = "postgres" := by simpa [himages] using himg
        exact ⟨_, rfl⟩
      · intro ctx hctx
        have htag := List.mem_map_of_mem (f := (·.imageTag)) hctx
        rw [hbuilds, List.mem_singleton] at htag
        rw [htag]
        exact ⟨_, rfl⟩
    obtain ⟨out, hout, hlocked⟩ :=
      ((lock_transforms builderEnv (webRequest webPins)).1 v hv).1 hcov
    refine ⟨out, hout, hlocked, ?_⟩
    have hvols : (emitLock builderEnv (webRequest webPins)).toOption.map (lockVolumes ·.lock) =
        some [[some "data:/data", some "/binds/db/init:/init:ro",
            some "/run/tdvmm/events:/run/tdvmm/events:rw",
            some "/run/tdvmm/ctl:/run/tdvmm/ctl:rw"],
          [some "/binds/web/site:/srv:rw", some "/run/tdvmm/events:/run/tdvmm/events:rw",
            some "/run/tdvmm/ctl:/run/tdvmm/ctl:rw"]] := by decide +kernel
    rw [hout] at hvols
    exact Option.some.inj hvols
  · refine ((lock_transforms builderEnv (webRequest (webPins.take 1))).1 v hv).2 ?_
    have hmem : "localhost/tdvmm-build-web:baked" ∈ v.builds.map (·.imageTag) := by simp [hbuilds]
    obtain ⟨ctx, hctx, htag⟩ := List.mem_map.mp hmem
    refine ⟨ctx, hctx, ?_⟩
    rw [htag]
    decide +kernel

end Tdvmm.Compose
