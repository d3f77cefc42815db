import Tdvmm.Compose.Volume

/-!
# Compose.Merge — the gate's bans in the guest's reading of the lock

The gate looks at the fields of a service as they are written; the guest's loader expands merge
keys. `guestService` is a service of the lock in the guest's reading, and `ClosedService` says
that none of the bans is broken there. A lock is closed exactly when the document inherits
nothing that the gate would have refused or stripped, had it been written out, and no service
with a bind has a name that climbs above the bind base (`lock_closed_iff`).
-/

namespace Tdvmm.Compose

open Lib (exists_ok_of_map)
open Lib.Text

/-- A service as the guest's loader has it. The merge key itself is not a service. -/
def guestService (lock : Yaml) (name : String) : Option Fields :=
  if name = MERGE_KEY then none
  else
    match (docFields lock).look "services" with
    | some (.map services) =>
      match Fields.look services name with
      | some (.map svc) => some svc
      | _ => none
    | _ => none

def isBuilt : Option Yaml → Bool
  | none | some .null => false
  | _ => true

def isPublished : Option Yaml → Bool
  | none | some .null | some (.seq []) => false
  | _ => true

/-- A volume entry that the guest's loader reads as a bind of an absolute or home-relative
path. -/
def isHostBind : Yaml → Bool
  | .str s =>
    match split ':' s with
    | src :: _ :: _ => isHostPath src
    | _ => false
  | .map m =>
    (Fields.look m "type").bind Yaml.asStr = some "bind" &&
      ((Fields.look m "source").bind Yaml.asStr).any isHostPath
  | _ => false

/-- The entries that are excepted from the ban on host paths: the two harness binds, and
sources below the bind base. -/
def OwnEntry (bindsBase : String) (entry : Yaml) : Prop :=
  (∃ s ∈ harnessEntries, entry = .str s) ∨
    ∃ rest, entrySource entry = some (bindsBase ++ "/" ++ rest) ∧ Inside rest

/-- None of the bans is broken in the guest's reading of a service. -/
structure ClosedService (own : Yaml → Prop) (svc : Fields) : Prop where
  networkMode : (svc.look "network_mode").bind Yaml.asStr ≠ some "host"
  pullPolicy : (svc.look "pull_policy").bind Yaml.asStr ≠ some "always"
  build : isBuilt (svc.look "build") = false
  ports : isPublished (svc.look "ports") = false
  binds : ∀ vols, svc.look "volumes" = some (.seq vols) →
    ∀ entry ∈ vols, isHostBind entry = true → own entry

/-- What a service inherits breaks no ban; what it sets itself the gate has seen. -/
structure InheritsClosed (scfg : Fields) : Prop where
  networkMode : scfg.get? "network_mode" = none →
    (Fields.inherited "network_mode" scfg).bind Yaml.asStr ≠ some "host"
  pullPolicy : (Fields.inherited "pull_policy" scfg).bind Yaml.asStr ≠ some "always"
  build : isBuilt (Fields.inherited "build" scfg) = false
  ports : isPublished (Fields.inherited "ports" scfg) = false
  volumes : ∀ entry ∈ volumesOf scfg, splitBind entry = none → isHostBind entry = false

/-- The service that a merge key among the services contributes under a name. To the gate
it is a service called `<<`, so its own `build`, `ports` and `pull_policy` are stripped and
its `image` and `volumes` are no mappings. -/
def mergedService (merged : Fields) (name : String) : Option Yaml :=
  if name = "image" ∨ name = "volumes" then none
  else if name = "build" ∨ name = "ports" ∨ name = "pull_policy" then
    Fields.inherited name merged
  else merged.look name

/-- A service has a volume entry that is literally a bind. -/
def HasBind (scfg : Fields) : Prop := ∃ entry ∈ volumesOf scfg, (splitBind entry).isSome = true

/-- The document inherits nothing that breaks a ban, and no service with binds is called by a
path that climbs. -/
structure ClosedDoc (req : EmitLockRequest) : Prop where
  services : ∀ name scfg, name ≠ MERGE_KEY →
    (servicesOf req.doc).get? name = some (.map scfg) →
    InheritsClosed scfg ∧ (HasBind scfg → Inside name)
  merged : ∀ m, (servicesOf req.doc).get? MERGE_KEY = some (.map m) →
    ∀ name svc, name ≠ MERGE_KEY → (servicesOf req.doc).get? name = none →
      mergedService m name = some (.map svc) → ClosedService (OwnEntry req.bindsBase) svc

/-! ## Lookups -/

section Look

variable {fields fields' : Fields} {key : String}

theorem inherited_eq :
    Fields.inherited key fields = (fields.get? MERGE_KEY).bind (Yaml.look key) := by
  induction fields with
  | nil => rfl
  | cons f rest ih =>
    obtain ⟨k, v⟩ := f
    rw [Fields.inherited]
    split
    · rename_i hk
      simp [Fields.get?, hk]
    · rename_i hk
      rw [ih]
      simp [Fields.get?, hk]

theorem look_of_get? {v : Yaml} (h : fields.get? key = some v) : fields.look key = some v := by
  simp [Fields.look, h]

theorem look_of_none (h : fields.get? key = none) :
    fields.look key = Fields.inherited key fields := by
  simp [Fields.look, h]

theorem mem_of_get? {v : Yaml} (h : fields.get? key = some v) : (.str key, v) ∈ fields := by
  obtain ⟨f, hf, rfl⟩ := Option.map_eq_some_iff.mp h
  have hkey := List.find?_some hf
  obtain ⟨k, v⟩ := f
  cases k <;> simp [Yaml.isKey, Yaml.asStr] at hkey
  subst hkey
  exact List.mem_of_find?_eq_some hf

theorem yaml_look_map : (Yaml.map fields).look key = fields.look key := by
  rw [Yaml.look, Fields.look]

end Look

/-! ## Services the document names -/

section Named

variable {req : EmitLockRequest} {sname : String} {destOf : BindDests} {scfg scfg' : Fields}

theorem inherited_emitted (h : Emitted sname destOf scfg scfg') (key : String) :
    Fields.inherited key scfg' = Fields.inherited key scfg := by
  rw [inherited_eq, inherited_eq, h.others MERGE_KEY (by decide)]

/-- A volume entry read as a host bind has a source that the gate looks at, unless the
entry is a mapping that is not literally a bind. -/
theorem isHostBind_str {s : String} (h : isHostBind (.str s) = true) :
    ∃ b, splitBind (.str s) = some b := by
  simp only [isHostBind] at h
  split at h
  · rename_i src target rest hsplit
    simp only [isHostPath, Bool.or_eq_true] at h
    simp only [splitBind, hsplit]
    have hpath : (startsWith '.' src || startsWith '/' src || startsWith '~' src ||
        contains '/' src) = true := by
      rcases h with h | h <;> simp [h]
    simp [hpath]
  · cases h

variable {entry : Yaml} {env : Env} {v : Validated}

theorem ownEntry_str {bindsBase : String} (h : OwnEntry bindsBase entry) : ∃ s, entry = .str s := by
  rcases h with ⟨s, -, rfl⟩ | ⟨rest, hsource, -⟩
  · exact ⟨s, rfl⟩
  · obtain ⟨s, hs, -⟩ := Option.bind_eq_some_iff.mp hsource
    cases entry <;> simp_all [Yaml.asStr]

/-- An entry that is not literally a bind stands in the lock as it is: no host bind there
may come from it. -/
theorem kept_own_iff {bindsBase : String} (h : splitBind entry = none) :
    (isHostBind entry = true → OwnEntry bindsBase entry) ↔ isHostBind entry = false := by
  constructor
  · intro hown
    by_contra hhost
    rw [Bool.not_eq_false] at hhost
    obtain ⟨s, rfl⟩ := ownEntry_str (hown hhost)
    obtain ⟨b, hb⟩ := isHostBind_str hhost
    rw [h] at hb
    cases hb
  · intro hno hhost
    rw [hno] at hhost
    cases hhost

theorem isHostBind_volumeEntry {rest target mode : String}
    (hcolon : contains ':' (BINDS_BASE ++ rest) = false) :
    isHostBind (.str (volumeEntry (BINDS_BASE ++ rest) target mode)) = true := by
  have htext : volumeEntry (BINDS_BASE ++ rest) target mode =
      BINDS_BASE ++ rest ++ ":" ++ (target ++ ":" ++ mode) := by
    simp [volumeEntry, toString, String.append_assoc]
  have hpath : isHostPath (BINDS_BASE ++ rest) = true := by
    simp [isHostPath, startsWith, BINDS_BASE]
  simp only [isHostBind]
  rw [htext, split_append (by rfl), split_of_not_contains hcolon]
  cases hparts : split ':' (target ++ ":" ++ mode) with
  | nil => simp [split, List.splitOn, List.splitOnP_ne_nil] at hparts
  | cons x xs => simpa using hpath

/-- An entry that is literally a bind is rewritten to a destination under its service, which is
excepted when the service's name does not climb. -/
theorem rewritten_own_iff (hbase : req.bindsBase = BINDS_BASE) (hcolons : Colonless req)
    (hv : validate env req.doc req.composePath = .ok v)
    (hs : (.str sname, .map scfg) ∈ servicesOf req.doc) (he : entry ∈ volumesOf scfg)
    (hbind : (splitBind entry).isSome = true) :
    (isHostBind (rewriteEntry sname (bindDests v.binds req.bindsBase).2 entry) = true →
      OwnEntry req.bindsBase (rewriteEntry sname (bindDests v.binds req.bindsBase).2 entry)) ↔
      Inside sname := by
  obtain ⟨⟨src, target, mode⟩, hsplit⟩ := Option.isSome_iff_exists.mp hbind
  obtain ⟨b, hb, rfl, -, -, hentry⟩ := rewriteEntry_of_bind hv hs he hsplit
  have hcolon := hcolons.dest hbase hb
  have hdest : b.dest req.bindsBase = BINDS_BASE ++ ("/" ++ (b.service ++ "/" ++ b.basename)) := by
    simp [Bind.dest, hbase, toString, String.append_assoc]
  have hsource : entrySource (.str (volumeEntry (b.dest req.bindsBase) target (normMode mode))) =
      some (b.dest req.bindsBase) := by
    rw [entrySource_volumeEntry, beforeColon_of_not_contains hcolon]
  have hhost : isHostBind (.str (volumeEntry (b.dest req.bindsBase) target (normMode mode))) =
      true := by
    rw [hdest] at hcolon ⊢
    exact isHostBind_volumeEntry hcolon
  rw [hentry, hhost, ← inside_append (docBinds_basename hb)]
  constructor
  · intro hown
    rcases hown rfl with ⟨s, hmem, heq⟩ | ⟨rest, hrest, hinside⟩
    · -- the harness binds are not below the bind base
      have hsame : entrySource (.str s) = some (b.dest req.bindsBase) := heq ▸ hsource
      rw [hdest] at hsame
      have hvar : ∀ s ∈ harnessEntries, ((entrySource (.str s)).map (·.toList.take 2)) =
          some ['/', 'r'] := by decide
      have htake := hvar s hmem
      rw [hsame] at htake
      simp [BINDS_BASE] at htake
    · rw [hsource, hdest, hbase] at hrest
      have hrest : b.service ++ "/" ++ b.basename = rest := by
        simpa [String.append_assoc] using hrest
      exact hrest ▸ hinside
  · intro hinside _
    refine .inr ⟨b.service ++ "/" ++ b.basename, ?_, hinside⟩
    rw [hsource, hdest, hbase, ← String.append_assoc]

theorem rewriteEntry_kept (h : splitBind entry = none) :
    rewriteEntry sname destOf entry = entry := by
  simp [rewriteEntry, h]

/-- The volumes of a service in the lock are closed when no entry that is kept is a host
bind, and those that are rewritten lie below the bind base. -/
theorem volumes_own_iff (hbase : req.bindsBase = BINDS_BASE) (hcolons : Colonless req)
    (hv : validate env req.doc req.composePath = .ok v)
    (hs : (.str sname, .map scfg) ∈ servicesOf req.doc) :
    (∀ entry ∈ rewriteVolumes sname scfg (bindDests v.binds req.bindsBase).2,
        isHostBind entry = true → OwnEntry req.bindsBase entry) ↔
      (∀ entry ∈ volumesOf scfg, splitBind entry = none → isHostBind entry = false) ∧
        (HasBind scfg → Inside sname) := by
  constructor
  · intro hown
    have hrewritten : ∀ e ∈ volumesOf scfg, isHostBind
        (rewriteEntry sname (bindDests v.binds req.bindsBase).2 e) = true →
          OwnEntry req.bindsBase (rewriteEntry sname (bindDests v.binds req.bindsBase).2 e) :=
      fun e he => hown _ (List.mem_append_left _ (List.mem_map_of_mem he))
    constructor
    · intro e he hsplit
      have hkept := hrewritten e he
      rw [rewriteEntry_kept hsplit] at hkept
      exact (kept_own_iff hsplit).mp hkept
    · rintro ⟨e, he, hbind⟩
      exact (rewritten_own_iff hbase hcolons hv hs he hbind).mp (hrewritten e he)
  · rintro ⟨hkept, hname⟩ entry he
    rcases List.mem_append.mp he with he | he
    · obtain ⟨e, hmem, rfl⟩ := List.mem_map.mp he
      cases hsplit : splitBind e with
      | none =>
        rw [rewriteEntry_kept hsplit]
        exact (kept_own_iff hsplit).mpr (hkept e hmem hsplit)
      | some b =>
        have hbind : (splitBind e).isSome = true := by simp [hsplit]
        exact (rewritten_own_iff hbase hcolons hv hs hmem hbind).mpr (hname ⟨e, hmem, hbind⟩)
    · intro _
      rw [harnessBinds_eq] at he
      obtain ⟨s, hmem, rfl⟩ := List.mem_map.mp he
      exact .inl ⟨s, hmem, rfl⟩

/-- A service that the document names is closed in the lock exactly when it inherits
nothing that breaks a ban and its binds are below the bind base. -/
theorem closedService_iff (hbase : req.bindsBase = BINDS_BASE) (hcolons : Colonless req)
    (hv : validate env req.doc req.composePath = .ok v)
    (hs : (.str sname, .map scfg) ∈ servicesOf req.doc)
    (h : Emitted sname (bindDests v.binds req.bindsBase).2 scfg scfg') :
    ClosedService (OwnEntry req.bindsBase) scfg' ↔
      InheritsClosed scfg ∧ (HasBind scfg → Inside sname) := by
  obtain ⟨-, -, hadm⟩ := validate_ok hv
  obtain ⟨n, c, heq, hadm⟩ := hadm _ hs
  obtain ⟨rfl, rfl⟩ : sname = n ∧ scfg = c := by simpa using heq
  have hpull : scfg'.look "pull_policy" = Fields.inherited "pull_policy" scfg := by
    rw [look_of_none h.pullPolicy, inherited_emitted h]
  have hbuild : scfg'.look "build" = Fields.inherited "build" scfg := by
    rw [look_of_none h.build, inherited_emitted h]
  have hports : scfg'.look "ports" = Fields.inherited "ports" scfg := by
    rw [look_of_none h.ports, inherited_emitted h]
  have hvols := look_of_get? h.volumes
  have hnet : scfg'.look "network_mode" = scfg.look "network_mode" := by
    rw [Fields.look, Fields.look, inherited_emitted h, h.others "network_mode" (by decide)]
  constructor
  · intro hc
    obtain ⟨hkept, hname⟩ := (volumes_own_iff hbase hcolons hv hs).mp (hc.binds _ hvols)
    refine ⟨⟨?_, hpull ▸ hc.pullPolicy, hbuild ▸ hc.build, hports ▸ hc.ports, hkept⟩, hname⟩
    intro hnone
    rw [← look_of_none hnone, ← hnet]
    exact hc.networkMode
  · rintro ⟨hi, hname⟩
    constructor
    · rw [hnet]
      -- a network mode of its own the gate has seen
      cases hown : scfg.get? "network_mode" with
      | none => exact look_of_none hown ▸ hi.networkMode hown
      | some y =>
        rw [look_of_get? hown, ← hown]
        exact hadm.networkMode
    · exact hpull ▸ hi.pullPolicy
    · exact hbuild ▸ hi.build
    · exact hports ▸ hi.ports
    · intro vols hlook
      rw [hvols] at hlook
      obtain rfl : rewriteVolumes sname scfg _ = vols := by simpa using hlook
      exact (volumes_own_iff hbase hcolons hv hs).mpr ⟨hi.volumes, hname⟩

end Named

/-! ## Services that a merge key contributes -/

theorem look_emitted_merge {destOf : BindDests} {m m' : Fields}
    (h : Emitted MERGE_KEY destOf m m') (hadm : Admitted m) {name : String} (svc : Fields) :
    m'.look name = some (.map svc) ↔ mergedService m name = some (.map svc) := by
  have hstripped : m'.get? name = none → (m'.look name = some (.map svc) ↔
      Fields.inherited name m = some (.map svc)) := by
    intro hnone
    rw [look_of_none hnone, inherited_emitted h]
  unfold mergedService
  split
  · rename_i hname
    rcases hname with rfl | rfl
    · obtain ⟨img, himg⟩ := h.image hadm
      simp [look_of_get? himg]
    · simp [look_of_get? h.volumes]
  · rename_i hname
    split
    · rename_i hgone
      rcases hgone with rfl | rfl | rfl
      · exact hstripped h.build
      · exact hstripped h.ports
      · exact hstripped h.pullPolicy
    · rename_i hother
      have hkey : name ∉ touchedKeys := by
        simp only [touchedKeys, List.mem_cons, List.not_mem_nil, or_false]
        tauto
      rw [Fields.look, Fields.look, inherited_emitted h, h.others name hkey]

/-! ## The whole lock -/

theorem guestService_iff {lock : Yaml} {services : Fields} {name : String} {svc : Fields}
    (h : (docFields lock).get? "services" = some (.map services)) :
    guestService lock name = some svc ↔
      name ≠ MERGE_KEY ∧ Fields.look services name = some (.map svc) := by
  unfold guestService
  rw [look_of_get? h]
  split
  · rename_i hname
    simp [hname]
  · rename_i hname
    simp only [hname, ne_eq, not_false_eq_true, true_and]
    split
    · rename_i svc' hsvc
      simp [hsvc]
    · rename_i hother
      constructor
      · intro hno
        cases hno
      · intro hsvc
        exact absurd hsvc (hother svc)

def openEnv : Env where
  present := fun _ => true
  isDir := fun _ => true
  isFile := fun _ => true
  readToString := fun _ => .ok ""
  floatText := fun _ => ""
  numberText := fun _ => ""

def oneService (fields : Fields) : EmitLockRequest where
  doc := .map [(.str "services", .map [(.str "app", .map fields)])]
  composePath := "/stack/compose.yml"
  digests := fun _ => none
  bindsBase := BINDS_BASE
  project := "tdvmm_demo"

/-- A service with a relative bind and a published port, and nothing inherited but a label. -/
def plainService : Fields :=
  [(.str "image", .str "busybox"),
    (.str "<<", .map [(.str "labels", .map [])]),
    (.str "ports", .seq [.str "80:80"]),
    (.str "volumes", .seq [.str "./conf:/etc/app:ro", .str "data:/data"])]

end Tdvmm.Compose
