import Tdvmm.Compose.Yaml
import Tdvmm.Lib.Except
import Tdvmm.Lib.Text

/-!
# Compose.Validate — the whitelist gate

`validate` reads an untrusted compose document and either rejects it or returns what the bake
needs next: images, build contexts, relative binds and warnings. It inspects the fields that are
literally there; a merge key is a field like any other. What it asks of the disk, and how it
displays a float, is the record `Env`.
-/

namespace Tdvmm.Compose

open Lib (bind_ok)
open Lib.Text

inductive ValidateError where
  | reject (msg : String)
  | io (what source : String)
  | internal (msg : String)
deriving DecidableEq, Repr

structure Env where
  present : String → Bool
  isDir : String → Bool
  isFile : String → Bool
  readToString : String → Except String String
  /-- A float as `f64` displays it. -/
  floatText : UInt64 → String
  /-- A float as the YAML library displays it. -/
  numberText : UInt64 → String

structure BuildCtx where
  service : String
  context : String
  dockerfile : String
  imageTag : String
  bases : List String
deriving DecidableEq, Repr

/-- A relative bind to materialise into the guest image; `src` is normalised. -/
structure Bind where
  service : String
  src : String
  target : String
  basename : String
deriving DecidableEq, Repr

structure Validated where
  images : List String := []
  builds : List BuildCtx := []
  binds : List Bind := []
  warnings : List String := []
deriving DecidableEq, Repr

/-! ## What the lock cannot reproduce -/

/-- Not finite, zero, or of a magnitude in `[1e-4, 1e16)`; the order of positive floats is
the order of their bits. -/
def floatIsRepresentable (bits : UInt64) : Bool :=
  let a := bits &&& 0x7FFFFFFFFFFFFFFF
  0x7FF0000000000000 ≤ a || a == 0 || (0x3F1A36E2EB1C432D ≤ a && a < 0x4341C37937E08000)

mutual

/-- Refuse tags, floats of scientific notation and keys that are not strings. -/
def rejectUnrepresentable (env : Env) : Yaml → Except ValidateError Unit
  | .tagged tag _ => .error (.reject
      (s!"compose uses a custom YAML tag '{tag}'. Custom tags are outside the " ++
       "supported subset and cannot be emitted to the lock; remove it."))
  | .float bits =>
    if floatIsRepresentable bits then .ok ()
    else .error (.reject
      (s!"compose contains the float {env.floatText bits}, which YAML renders in " ++
       "scientific notation and cannot be reproduced byte-for-byte " ++
       "in the lock. Use an integer or a value in [0.0001, 1e16)."))
  | .seq items => rejectItems env items
  | .map fields => rejectFields env fields
  | _ => .ok ()

def rejectItems (env : Env) : List Yaml → Except ValidateError Unit
  | [] => .ok ()
  | y :: ys => do
    rejectUnrepresentable env y
    rejectItems env ys

def rejectFields (env : Env) : List (Yaml × Yaml) → Except ValidateError Unit
  | [] => .ok ()
  | (k, v) :: rest =>
    if k.asStr.isNone then
      .error (.reject ("compose has a mapping key that is not a string; only string keys " ++
                       "are supported and a non-string key cannot be reproduced in the lock."))
    else do
      rejectUnrepresentable env k
      rejectUnrepresentable env v
      rejectFields env rest

end

/-- Whether a network's `external` field declares it so. -/
def isExternal : Option Yaml → Bool
  | some (.bool true) | some (.map _) | some (.str _) => true
  | _ => false

def rejectExternalNetwork (net : Yaml × Yaml) : Except ValidateError Unit :=
  match net.2 with
  | .map nm =>
    if isExternal (Fields.get? nm "external") then
      match net.1.asStr with
      | none => .error (.reject "a network name is not a string")
      | some nn => .error (.reject
          (s!"network '{nn}' is declared external:. The closed-world guest " ++
           "cannot join a pre-existing host network. Remove 'external: true' " ++
           "and let compose create a private network."))
    else .ok ()
  | _ => .ok ()

def rejectExternalNetworks (doc : Fields) : Except ValidateError Unit :=
  match doc.get? "networks" with
  | some (.map nets) => nets.forM rejectExternalNetwork
  | _ => .ok ()

/-! ## Paths -/

/-- One component onto a normalised path, kept with its last component first. -/
def normStep (isAbs : Bool) (out : List String) : Component → List String
  | .rootDir => []
  | .curDir => out
  | .parentDir =>
    match out with
    | [] => if isAbs then [] else [".."]
    | last :: rest => if last = ".." ∧ ¬ isAbs then ".." :: out else rest
  | .normal name => name :: out

/-- Resolve `.` and `..` by the text alone. -/
def normpath (p : String) : String :=
  let isAbs := startsWith '/' p
  let joined := String.intercalate "/" ((components p).foldl (normStep isAbs) []).reverse
  if isAbs then "/" ++ joined else if joined = "" then "." else joined

def composeBase (composePath : String) : String := (parent composePath).getD "."

/-! ## Volumes -/

/-- Source, target and mode of an entry of `volumes` that is a bind; none for a named or
anonymous volume. -/
def splitBind : Yaml → Option (String × String × String)
  | .str s =>
    match split ':' s with
    | src :: target :: rest =>
      if startsWith '.' src || startsWith '/' src || startsWith '~' src || contains '/' src then
        some (src, target, rest.head?.getD "rw")
      else none
    | _ => none
  | .map m =>
    let vtype := ((Fields.get? m "type").bind Yaml.asStr).getD "volume"
    if vtype = "bind" then
      let ro := ((Fields.get? m "read_only").bind Yaml.asBool).getD false
      some (((Fields.get? m "source").bind Yaml.asStr).getD "",
        ((Fields.get? m "target").bind Yaml.asStr).getD "", if ro then "ro" else "rw")
    else none
  | _ => none

def isHostPath (src : String) : Bool := startsWith '/' src || startsWith '~' src

def bindBasename (src : String) : String := (fileName (trimEndMatches '/' src)).getD ""

/-- A relative bind to materialise, or none, or a reject. -/
def classifyBind (env : Env) (composePath sname : String) (entry : Yaml) :
    Except ValidateError (Option Bind) :=
  match splitBind entry with
  | none => .ok none
  | some (src, target, _) =>
    if isHostPath src then
      .error (.reject
        (s!"service '{sname}' binds absolute host path '{src}'. The " ++
         "closed-world guest has no host filesystem. Only RELATIVE " ++
         "binds (materialized into the guest image) are supported."))
    else
      let abssrc := normpath (join (composeBase composePath) src)
      if env.present abssrc then
        .ok (some { service := sname, src := abssrc, target, basename := bindBasename src })
      else
        .error (.reject
          (s!"service '{sname}' bind source '{src}' does not exist next to " ++
           s!"the compose file ({abssrc})."))

def classifyBinds (env : Env) (composePath sname : String) (out : List Bind) :
    List Yaml → Except ValidateError (List Bind)
  | [] => .ok out
  | entry :: rest => do
    let bind ← classifyBind env composePath sname entry
    classifyBinds env composePath sname (out ++ bind.toList) rest

/-! ## Build contexts -/

def isSafeTagChar (c : Char) : Bool :=
  ('a' ≤ c ∧ c ≤ 'z') ∨ ('A' ≤ c ∧ c ≤ 'Z') ∨ ('0' ≤ c ∧ c ≤ '9') ∨ c = '-' ∨ c = '_' ∨ c = '.'

def buildOutputTag (sname : String) (scfg : Fields) : String :=
  match (scfg.get? "image").bind Yaml.asStr with
  | some img => img
  | none =>
    let safe := String.ofList (sname.toList.map fun c => if isSafeTagChar c then c else '-')
    s!"localhost/tdvmm-build-{safe}:baked"

/-- The stage aliases seen so far and the external bases, after one line of a Dockerfile. -/
def fromLine (acc : List String × List String) (raw : String) : List String × List String :=
  let line := trim raw
  if line = "" ∨ startsWith '#' line then acc
  else
    match splitWhitespace line with
    | kw :: r :: rest =>
      if eqIgnoreAsciiCase kw "FROM" then
        let stages :=
          match rest with
          | as :: stage :: _ => if eqIgnoreAsciiCase as "AS" then stage :: acc.1 else acc.1
          | _ => acc.1
        (stages, if stages.contains r then acc.2 else acc.2 ++ [r])
      else acc
    | _ => acc

def parseDockerfileFroms (env : Env) (dockerfile : String) : Except ValidateError (List String) :=
  match env.readToString dockerfile with
  | .error e => .error (.io s!"reading {dockerfile}" e)
  | .ok text => .ok ((lines text).foldl fromLine ([], [])).2

def buildPaths (sname : String) : Yaml → Except ValidateError (String × String)
  | .str s => .ok (s, "Dockerfile")
  | .map m =>
    match (Fields.names m).find? fun ks => ks ≠ "context" ∧ ks ≠ "dockerfile" with
    | some ks => .error (.reject
        (s!"service '{sname}' build: uses unsupported key(s) [\"{ks}\"]. " ++
         "Only 'context' and 'dockerfile' are supported (build args/target " ++
         "would compromise closed-world reproducibility). Remove them."))
    | none => .ok (((Fields.get? m "context").bind Yaml.asStr).getD ".",
        ((Fields.get? m "dockerfile").bind Yaml.asStr).getD "Dockerfile")
  | _ => .error (.reject s!"service '{sname}' build: must be a path or a mapping.")

def pinnedBases (env : Env) (sname dockerfile absDf : String) :
    Except ValidateError (List String) := do
  let bases ← parseDockerfileFroms env absDf
  if bases = [] then
    .error (.reject s!"service '{sname}' build {dockerfile} has no FROM instruction.")
  else
    match bases.find? fun b => !hasPart "@sha256:" b with
    | some b => .error (.reject
        (s!"service '{sname}' build base image '{b}' is NOT digest-pinned. " ++
         "Every external FROM must be pinned by @sha256:<digest> so the " ++
         "host-side build is reproducible + closed-world. Pin it."))
    | none => .ok bases

def validateBuild (env : Env) (composePath sname : String) (scfg : Fields) (build : Yaml) :
    Except ValidateError BuildCtx := do
  let paths ← buildPaths sname build
  let context := paths.1
  let dockerfile := paths.2
  if isHostPath context then
    .error (.reject
      (s!"service '{sname}' build context '{context}' is absolute. Only a " ++
       "RELATIVE build context (next to the compose file) is supported, so " ++
       "the bake is self-contained and closed-world."))
  else
    let absCtx := normpath (join (composeBase composePath) context)
    if !env.isDir absCtx then
      .error (.reject
        s!"service '{sname}' build context '{context}' is not a directory ({absCtx}).")
    else
      let absDf := normpath (join absCtx dockerfile)
      if !env.isFile absDf then
        .error (.reject (s!"service '{sname}' build dockerfile '{dockerfile}' not found " ++
                         s!"in the context ({absDf})."))
      else do
        let bases ← pinnedBases env sname dockerfile absDf
        .ok { service := sname, context := absCtx, dockerfile := absDf,
              imageTag := buildOutputTag sname scfg, bases }

/-! ## Services -/

mutual

/-- A `ports` value as the warning shows it. -/
def flowRepr (env : Env) : Yaml → String
  | .seq items => "[" ++ String.intercalate ", " (flowItems env items) ++ "]"
  | .str s => "'" ++ s ++ "'"
  | .int i => toString i
  | .float bits => env.numberText bits
  | .bool b => if b then "True" else "False"
  | .null => "None"
  | .map _ => "\x7b...\x7d"
  | .tagged _ _ => ""

def flowItems (env : Env) : List Yaml → List String
  | [] => []
  | y :: ys => flowRepr env y :: flowItems env ys

end

/-- The images and builds with those of one service: `build:` wins over `image:`. -/
def validateImage (env : Env) (composePath sname : String) (scfg : Fields) (out : Validated) :
    Except ValidateError Validated :=
  match scfg.get? "build" with
  | some build => do
    let ctx ← validateBuild env composePath sname scfg build
    .ok { out with builds := out.builds ++ [ctx] }
  | none =>
    match (scfg.get? "image").bind Yaml.asStr with
    | none => .error (.reject
        (s!"service '{sname}' has no image: and no build:. A service must " ++
         "reference a pulled image: or provide a build: context."))
    | some img =>
      .ok { out with images := if img ∈ out.images then out.images else out.images ++ [img] }

def rejectFieldsOf (sname : String) (scfg : Fields) : Except ValidateError Unit :=
  if (scfg.get? "pull_policy").bind Yaml.asStr = some "always" then
    .error (.reject
      (s!"service '{sname}' sets pull_policy: always. The guest runs " ++
       "--pull=never in a closed world; an always-pull can never be " ++
       "satisfied offline. Remove pull_policy or set it to 'never'."))
  else if (scfg.get? "network_mode").bind Yaml.asStr = some "host" then
    .error (.reject
      (s!"service '{sname}' uses network_mode: host. The closed world " ++
       "forbids host networking. Use a private compose network."))
  else .ok ()

def portsWarning (env : Env) (sname : String) (scfg : Fields) : List String :=
  match scfg.get? "ports" with
  | none | some .null => []
  | some ports =>
    [(s!"service '{sname}': published ports {flowRepr env ports} STRIPPED " ++
      "(closed world has no host to publish to).")]

def volumesOf (scfg : Fields) : List Yaml :=
  match scfg.get? "volumes" with
  | some (.seq vols) => vols
  | _ => []

def validateService (env : Env) (composePath sname : String) (scfg : Fields) (out : Validated) :
    Except ValidateError Validated := do
  let out ← validateImage env composePath sname scfg out
  rejectFieldsOf sname scfg
  let binds ← classifyBinds env composePath sname out.binds (volumesOf scfg)
  .ok { out with binds, warnings := out.warnings ++ portsWarning env sname scfg }

def validateServices (env : Env) (composePath : String) (out : Validated) :
    List (Yaml × Yaml) → Except ValidateError Validated
  | [] => .ok out
  | (skey, scfg) :: rest =>
    match skey.asStr with
    | none => .error (.reject "a service name is not a string")
    | some sname =>
      match scfg with
      | .map m => do
        let out ← validateService env composePath sname m out
        validateServices env composePath out rest
      | _ => .error (.reject s!"service '{sname}': not a mapping")

/-- The fields of a document; one that is not a mapping has none. -/
def docFields : Yaml → Fields
  | .map fields => fields
  | _ => []

def validate (env : Env) (doc : Yaml) (composePath : String) : Except ValidateError Validated := do
  rejectUnrepresentable env doc
  match (docFields doc).get? "services" with
  | some (.map (s :: services)) => do
    rejectExternalNetworks (docFields doc)
    validateServices env composePath {} (s :: services)
  | _ => .error (.reject s!"{composePath}: no services defined")

/-! ## What an accepted document is like -/

/-- The bind that a volume entry is, when it is one. -/
def bindOf (composePath sname : String) (entry : Yaml) : Option Bind :=
  (splitBind entry).map fun b =>
    { service := sname, src := normpath (join (composeBase composePath) b.1), target := b.2.1
      basename := bindBasename b.1 }

def serviceBinds (composePath : String) (s : Yaml × Yaml) : List Bind :=
  match s.1.asStr, s.2 with
  | some sname, .map scfg => (volumesOf scfg).filterMap (bindOf composePath sname)
  | _, _ => []

def RelativeBinds (vols : List Yaml) : Prop :=
  ∀ entry ∈ vols, ∀ b, splitBind entry = some b → isHostPath b.1 = false

/-- What the gate has seen of a service it let pass. -/
structure Admitted (scfg : Fields) : Prop where
  image : scfg.get? "build" = none → ∃ img, scfg.get? "image" = some (.str img)
  pullPolicy : (scfg.get? "pull_policy").bind Yaml.asStr ≠ some "always"
  networkMode : (scfg.get? "network_mode").bind Yaml.asStr ≠ some "host"
  volumes : RelativeBinds (volumesOf scfg)

section Accepted

variable {env : Env} {composePath sname : String} {scfg : Fields} {out out' : Validated}

theorem classifyBind_ok {entry : Yaml} {found : Option Bind}
    (h : classifyBind env composePath sname entry = .ok found) :
    found = bindOf composePath sname entry ∧
      ∀ b, splitBind entry = some b → isHostPath b.1 = false := by
  unfold classifyBind at h
  unfold bindOf
  cases hsplit : splitBind entry with
  | none =>
    rw [hsplit] at h
    exact ⟨(Except.ok.inj h).symm, by simp⟩
  | some b =>
    rw [hsplit] at h
    simp only at h
    split at h
    · cases h
    · rename_i hrel
      split at h
      · refine ⟨(Except.ok.inj h).symm, ?_⟩
        intro b' hb'
        rw [Option.some.inj hb'] at hrel
        simpa using hrel
      · cases h

theorem classifyBinds_ok {vols : List Yaml} {found binds : List Bind}
    (h : classifyBinds env composePath sname found vols = .ok binds) :
    binds = found ++ vols.filterMap (bindOf composePath sname) ∧ RelativeBinds vols := by
  induction vols generalizing found with
  | nil =>
    have hsame : found = binds := Except.ok.inj h
    simp [hsame, RelativeBinds]
  | cons entry rest ih =>
    obtain ⟨b, hb, hrest⟩ := bind_ok.mp h
    obtain ⟨hfound, hrel⟩ := classifyBind_ok hb
    obtain ⟨hbinds, hrels⟩ := ih hrest
    constructor
    · rw [hbinds, hfound, List.append_assoc]
      congr 1
      cases hb : bindOf composePath sname entry with
      | none => simp [hb]
      | some b => simp [hb]
    · intro e he
      rcases List.mem_cons.mp he with rfl | he
      · exact hrel
      · exact hrels e he

theorem validateImage_ok (h : validateImage env composePath sname scfg out = .ok out') :
    out'.binds = out.binds ∧
      (scfg.get? "build" = none → ∃ img, scfg.get? "image" = some (.str img)) := by
  unfold validateImage at h
  split at h
  · rename_i build hbuild
    obtain ⟨ctx, -, hout⟩ := bind_ok.mp h
    rw [← Except.ok.inj hout]
    exact ⟨rfl, by simp [hbuild]⟩
  · split at h
    · cases h
    · rename_i img himg
      rw [← Except.ok.inj h]
      refine ⟨rfl, fun _ => ⟨img, ?_⟩⟩
      obtain ⟨y, hy, hstr⟩ := Option.bind_eq_some_iff.mp himg
      cases y <;> simp_all [Yaml.asStr]

theorem rejectFieldsOf_ok (h : rejectFieldsOf sname scfg = .ok ()) :
    (scfg.get? "pull_policy").bind Yaml.asStr ≠ some "always" ∧
      (scfg.get? "network_mode").bind Yaml.asStr ≠ some "host" := by
  unfold rejectFieldsOf at h
  split at h
  · cases h
  · rename_i hpull
    split at h
    · cases h
    · rename_i hnet
      exact ⟨hpull, hnet⟩

theorem validateService_ok (h : validateService env composePath sname scfg out = .ok out') :
    out'.binds = out.binds ++ (volumesOf scfg).filterMap (bindOf composePath sname) ∧
      Admitted scfg := by
  obtain ⟨mid, himage, h⟩ := bind_ok.mp h
  obtain ⟨⟨⟩, hfields, h⟩ := bind_ok.mp h
  obtain ⟨binds, hvols, h⟩ := bind_ok.mp h
  obtain ⟨hsame, himg⟩ := validateImage_ok himage
  obtain ⟨hpull, hnet⟩ := rejectFieldsOf_ok hfields
  obtain ⟨hbinds, hrel⟩ := classifyBinds_ok hvols
  rw [← Except.ok.inj h]
  exact ⟨by rw [hbinds, hsame], himg, hpull, hnet, hrel⟩

theorem validateServices_ok {services : List (Yaml × Yaml)}
    (h : validateServices env composePath out services = .ok out') :
    out'.binds = out.binds ++ services.flatMap (serviceBinds composePath) ∧
      ∀ s ∈ services, ∃ sname scfg, s = (.str sname, .map scfg) ∧ Admitted scfg := by
  induction services generalizing out with
  | nil =>
    have hsame : out = out' := Except.ok.inj h
    simp [hsame]
  | cons s rest ih =>
    obtain ⟨skey, cfg⟩ := s
    unfold validateServices at h
    cases skey <;> simp only [Yaml.asStr] at h <;> try cases h
    rename_i sname
    cases cfg <;> simp only at h <;> try cases h
    rename_i scfg
    obtain ⟨mid, hservice, hrest⟩ := bind_ok.mp h
    obtain ⟨hbinds, hadm⟩ := validateService_ok hservice
    obtain ⟨hbinds', hadms⟩ := ih hrest
    constructor
    · rw [hbinds', hbinds, List.flatMap_cons, List.append_assoc]
      rfl
    · intro s hs
      rcases List.mem_cons.mp hs with rfl | hs
      · exact ⟨sname, scfg, rfl, hadm⟩
      · exact hadms s hs

def servicesOf (doc : Yaml) : Fields :=
  match (docFields doc).get? "services" with
  | some (.map services) => services
  | _ => []

theorem validate_ok {doc : Yaml} {v : Validated} (h : validate env doc composePath = .ok v) :
    (docFields doc).get? "services" = some (.map (servicesOf doc)) ∧
      v.binds = (servicesOf doc).flatMap (serviceBinds composePath) ∧
      ∀ s ∈ servicesOf doc, ∃ sname scfg, s = (.str sname, .map scfg) ∧ Admitted scfg := by
  obtain ⟨-, -, h⟩ := bind_ok.mp h
  split at h
  · rename_i s services hservices
    obtain ⟨-, -, h⟩ := bind_ok.mp h
    obtain ⟨hbinds, hadm⟩ := validateServices_ok h
    have hof : servicesOf doc = s :: services := by simp [servicesOf, hservices]
    rw [hof]
    exact ⟨hservices, by simpa using hbinds, hadm⟩
  · cases h

theorem validate_binds {doc : Yaml} {v : Validated} (h : validate env doc composePath = .ok v)
    (b : Bind) :
    b ∈ v.binds ↔ ∃ sname scfg, (.str sname, .map scfg) ∈ servicesOf doc ∧
      ∃ entry ∈ volumesOf scfg, bindOf composePath sname entry = some b := by
  obtain ⟨-, hbinds, hadm⟩ := validate_ok h
  rw [hbinds, List.mem_flatMap]
  constructor
  · rintro ⟨s, hs, hb⟩
    obtain ⟨sname, scfg, rfl, -⟩ := hadm s hs
    exact ⟨sname, scfg, hs, List.mem_filterMap.mp hb⟩
  · rintro ⟨sname, scfg, hs, hb⟩
    exact ⟨(.str sname, .map scfg), hs, List.mem_filterMap.mpr hb⟩

/-! ## Where its images come from -/

theorem validateService_refs (h : validateService env composePath sname scfg out = .ok out') :
    (∃ build ctx, scfg.get? "build" = some build ∧
        validateBuild env composePath sname scfg build = .ok ctx ∧
        out'.builds = out.builds ++ [ctx] ∧ out'.images = out.images) ∨
      (∃ img, scfg.get? "build" = none ∧ scfg.get? "image" = some (.str img) ∧
        out'.builds = out.builds ∧ img ∈ out'.images ∧ out.images ⊆ out'.images) := by
  obtain ⟨mid, himage, h⟩ := bind_ok.mp h
  obtain ⟨⟨⟩, -, h⟩ := bind_ok.mp h
  obtain ⟨binds, -, h⟩ := bind_ok.mp h
  rw [← Except.ok.inj h]
  obtain ⟨-, himg⟩ := validateImage_ok himage
  unfold validateImage at himage
  split at himage
  · rename_i build hbuild
    obtain ⟨ctx, hctx, hmid⟩ := bind_ok.mp himage
    rw [← Except.ok.inj hmid]
    exact .inl ⟨build, ctx, hbuild, hctx, rfl, rfl⟩
  · rename_i hbuild
    obtain ⟨img, himg⟩ := himg hbuild
    simp only [himg, Option.bind_some, Yaml.asStr] at himage
    rw [← Except.ok.inj himage]
    refine .inr ⟨img, hbuild, himg, rfl, ?_, ?_⟩
    · dsimp only
      split
      · assumption
      · simp
    · intro i hi
      dsimp only
      split
      · exact hi
      · exact List.mem_append_left _ hi

theorem validateServices_mem {services : List (Yaml × Yaml)}
    (h : validateServices env composePath out services = .ok out') :
    out.builds ⊆ out'.builds ∧ out.images ⊆ out'.images ∧
      (∀ sname scfg, (Yaml.str sname, Yaml.map scfg) ∈ services → ∃ before after,
        validateService env composePath sname scfg before = .ok after ∧
          after.builds ⊆ out'.builds ∧ after.images ⊆ out'.images) ∧
      ∀ ctx ∈ out'.builds, ctx ∈ out.builds ∨ ∃ sname scfg build,
        (Yaml.str sname, Yaml.map scfg) ∈ services ∧ Fields.get? scfg "build" = some build ∧
          validateBuild env composePath sname scfg build = .ok ctx := by
  induction services generalizing out with
  | nil =>
    have hsame : out = out' := Except.ok.inj h
    simp [hsame]
  | cons s rest ih =>
    obtain ⟨skey, cfg⟩ := s
    unfold validateServices at h
    cases skey <;> simp only [Yaml.asStr] at h <;> try cases h
    rename_i sname
    cases cfg <;> simp only at h <;> try cases h
    rename_i scfg
    obtain ⟨mid, hservice, hrest⟩ := bind_ok.mp h
    obtain ⟨hbuilds, himages, hmem, hfrom⟩ := ih hrest
    have hgrow : out.builds ⊆ mid.builds ∧ out.images ⊆ mid.images := by
      rcases validateService_refs hservice with ⟨_, _, _, _, hb, hi⟩ | ⟨_, _, _, hb, _, hi⟩
      · exact ⟨by simp [hb], by simp [hi]⟩
      · exact ⟨by simp [hb], hi⟩
    refine ⟨List.Subset.trans hgrow.1 hbuilds, List.Subset.trans hgrow.2 himages, ?_, ?_⟩
    · intro sname' scfg' hs
      rcases List.mem_cons.mp hs with heq | hs
      · cases heq
        exact ⟨out, mid, hservice, hbuilds, himages⟩
      · exact hmem sname' scfg' hs
    · intro ctx hctx
      rcases hfrom ctx hctx with hmid | ⟨sname', scfg', build, hs, hrest⟩
      · rcases validateService_refs hservice with ⟨build, ctx', hb, hok, hadd, -⟩ | ⟨_, _, _, hb, _⟩
        · rw [hadd, List.mem_append, List.mem_singleton] at hmid
          rcases hmid with hmid | rfl
          · exact .inl hmid
          · exact .inr ⟨sname, scfg, build, List.mem_cons_self, hb, hok⟩
        · exact .inl (hb ▸ hmid)
      · exact .inr ⟨sname', scfg', build, List.mem_cons_of_mem _ hs, hrest⟩

theorem validate_services {doc : Yaml} {v : Validated}
    (h : validate env doc composePath = .ok v) :
    validateServices env composePath {} (servicesOf doc) = .ok v := by
  obtain ⟨-, -, h⟩ := bind_ok.mp h
  split at h
  · rename_i s services hservices
    obtain ⟨-, -, h⟩ := bind_ok.mp h
    rwa [show servicesOf doc = s :: services by simp [servicesOf, hservices]]
  · cases h

theorem validateBuild_tag {build : Yaml} {ctx : BuildCtx}
    (h : validateBuild env composePath sname scfg build = .ok ctx) :
    ctx.imageTag = buildOutputTag sname scfg := by
  obtain ⟨paths, -, h⟩ := bind_ok.mp h
  simp only at h
  split at h
  · cases h
  · split at h
    · cases h
    · split at h
      · cases h
      · obtain ⟨bases, -, h⟩ := bind_ok.mp h
        rw [← Except.ok.inj h]

theorem validate_build {doc : Yaml} {v : Validated} {ctx : BuildCtx}
    (h : validate env doc composePath = .ok v) (hctx : ctx ∈ v.builds) :
    ∃ sname scfg build, (Yaml.str sname, Yaml.map scfg) ∈ servicesOf doc ∧
      Fields.get? scfg "build" = some build ∧
      validateBuild env composePath sname scfg build = .ok ctx := by
  obtain ⟨-, -, -, hfrom⟩ := validateServices_mem (validate_services h)
  rcases hfrom ctx hctx with hno | hfrom
  · cases hno
  · exact hfrom

end Accepted

end Tdvmm.Compose
