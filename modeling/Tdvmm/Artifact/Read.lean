import Tdvmm.Artifact.Tar
import Tdvmm.Build.TreeHash

/-!
# Artifact.Read — the three readers of an artifact

`inspect` reads the first manifest of an archive (`readManifest`), `run` the last manifest and
the last member of each payload name (`readForRun`), and `verify` compares the first member of
every name that the last manifest lists with the hash listed for it.

Where every member can be read, each reader is a function of the list of names and contents
(`contents`): `readManifest_eq`, `readForRun_eq` and `verify_eq` say which.
-/

namespace Tdvmm.Artifact

open Lib

/-! ## The manifest -/

structure Member where
  name : Bytes
  size : Nat
  sha256 : String
deriving DecidableEq, Repr

structure ComposeEngine where
  version : String
  sha256 : String
deriving DecidableEq, Repr

structure ImagePin where
  upstream : String
  pinned : String
  policy : String
  contentId : String
  sizeMib : UInt64
deriving DecidableEq, Repr

structure Toolchain where
  builders : List String
  alpine : String
  compose : String
deriving DecidableEq, Repr

structure Anchors where
  cpuidSha256 : String
  cpuidProfile : String
  composeEngine : ComposeEngine
  images : List ImagePin
  toolchain : Toolchain
  ramEstimateMib : UInt64
  agentSha256 : String
  agentBuildHash : String
deriving DecidableEq, Repr

structure RunDefaults where
  memMib : UInt64
  cmdline : String
  fastForward : Bool
  maxVirtualTime : Option String
deriving DecidableEq, Repr

structure Manifest where
  formatVersion : UInt32
  stack : String
  project : String
  members : List Member
  anchors : Anchors
  runDefaults : RunDefaults
deriving DecidableEq, Repr

/-- What the artifact code uses of other libraries: the hash, and JSON of the manifest. -/
structure Codec where
  sha256Hex : Bytes → String
  toVecPretty : Manifest → Option Bytes
  fromSlice : Bytes → Option Manifest

def FORMAT_VERSION : UInt32 := 1

def MEMBER_MANIFEST : Bytes := utf8 "manifest.json"

def MEMBER_COMPOSE_LOCK : Bytes := utf8 "compose.lock.yml"

def MEMBER_KERNEL : Bytes := utf8 "kernel"

def MEMBER_INITRAMFS : Bytes := utf8 "initramfs"

variable (c : Codec)

namespace Manifest

/-- Parse `manifest.json`; only the known format is taken. -/
def fromBytes (bytes : Bytes) : Except ArtifactError Manifest :=
  match c.fromSlice bytes with
  | none => .error (.manifest "parsing manifest.json")
  | some m =>
    if m.formatVersion ≠ FORMAT_VERSION then .error (.malformed (.formatVersion m.formatVersion))
    else .ok m

def toCanonicalJson (m : Manifest) : Except ArtifactError Bytes :=
  match c.toVecPretty m with
  | none => .error (.manifest "serializing manifest.json")
  | some v => .ok (v ++ [10])

def member (m : Manifest) (name : Bytes) : Option Member := m.members.find? fun r => r.name == name

end Manifest

/-! ## The readers -/

def readManifestLoop (file : Bytes) :
    List (Except ArtifactError Entry) → Except ArtifactError Manifest
  | [] => .error (.malformed (.missing MEMBER_MANIFEST))
  | .error err :: _ => .error err
  | .ok e :: rest =>
    if e.name = MEMBER_MANIFEST then do
      let bytes ← readContent file e
      Manifest.fromBytes c bytes
    else readManifestLoop file rest

def readManifest (file : Bytes) : Except ArtifactError Manifest :=
  readManifestLoop c file (entries file)

/-- A loop over all members; it ends at the first error. -/
def forEntries {σ : Type} (step : σ → Entry → Except ArtifactError σ) :
    List (Except ArtifactError Entry) → σ → Except ArtifactError σ
  | [], s => .ok s
  | .error err :: _, _ => .error err
  | .ok e :: rest, s => do
    let s ← step s e
    forEntries step rest s

structure Found where
  manifest : Option Manifest
  kernel : Option Bytes
  initramfs : Option Bytes
  composeLock : Option Bytes
deriving DecidableEq

def runStep (file : Bytes) (st : Found) (e : Entry) : Except ArtifactError Found :=
  if e.name = MEMBER_MANIFEST then do
    let bytes ← readContent file e
    let manifest ← Manifest.fromBytes c bytes
    .ok { st with manifest := some manifest }
  else if e.name = MEMBER_KERNEL then do
    let bytes ← readContent file e
    .ok { st with kernel := some bytes }
  else if e.name = MEMBER_INITRAMFS then do
    let bytes ← readContent file e
    .ok { st with initramfs := some bytes }
  else if e.name = MEMBER_COMPOSE_LOCK then do
    let bytes ← readContent file e
    .ok { st with composeLock := some bytes }
  else .ok st

structure RunPayload where
  manifest : Manifest
  kernel : Bytes
  initramfs : Bytes
  composeLock : Bytes
deriving DecidableEq

/-- `ok_or_else` with the error of a missing member. -/
def orMissing {α : Type} (name : Bytes) : Option α → Except ArtifactError α
  | some a => .ok a
  | none => .error (.malformed (.missing name))

/-- Nothing may be missing in the end. -/
def Found.payload (st : Found) : Except ArtifactError RunPayload := do
  let manifest ← orMissing MEMBER_MANIFEST st.manifest
  let kernel ← orMissing MEMBER_KERNEL st.kernel
  let initramfs ← orMissing MEMBER_INITRAMFS st.initramfs
  let composeLock ← orMissing MEMBER_COMPOSE_LOCK st.composeLock
  .ok { manifest, kernel, initramfs, composeLock }

def readForRun (file : Bytes) : Except ArtifactError RunPayload := do
  let st ← forEntries (runStep c file) (entries file)
    { manifest := none, kernel := none, initramfs := none, composeLock := none }
  st.payload

namespace RunPayload

def payloads (p : RunPayload) : List (Bytes × Bytes) :=
  [(MEMBER_KERNEL, p.kernel), (MEMBER_INITRAMFS, p.initramfs), (MEMBER_COMPOSE_LOCK, p.composeLock)]

def verifyMember (p : RunPayload) (m : Bytes × Bytes) : Except ArtifactError Unit :=
  match p.manifest.member m.1 with
  | none => .error (.malformed (.noRecord m.1))
  | some want =>
    if c.sha256Hex m.2 ≠ want.sha256 then
      .error (.malformed (.hashMismatch m.1 want.sha256 (c.sha256Hex m.2)))
    else .ok ()

def verifyMembers (p : RunPayload) : Except ArtifactError Unit := forM p.payloads (p.verifyMember c)

end RunPayload

structure MemberCheck where
  name : Bytes
  expected : String
  actual : String
  ok : Bool
deriving DecidableEq

structure VerifyReport where
  fileSha256 : String
  checks : List MemberCheck
  missing : List Bytes
deriving DecidableEq

def VerifyReport.allOk (r : VerifyReport) : Bool := r.missing.isEmpty && r.checks.all (·.ok)

abbrev Hashed := Option Manifest × List (Bytes × String)

def verifyStep (file : Bytes) (st : Hashed) (e : Entry) : Except ArtifactError Hashed :=
  if e.name = MEMBER_MANIFEST then do
    let bytes ← readContent file e
    let manifest ← Manifest.fromBytes c bytes
    .ok (some manifest, st.2)
  else do
    let bytes ← readContent file e
    .ok (st.1, st.2 ++ [(e.name, c.sha256Hex bytes)])

def checkRecords (actual : List (Bytes × String)) :
    List Member → List MemberCheck × List Bytes → List MemberCheck × List Bytes
  | [], acc => acc
  | m :: ms, (checks, missing) =>
    match actual.find? fun a => a.1 == m.name with
    | some (_, act) =>
      checkRecords actual ms
        (checks ++ [{ name := m.name, expected := m.sha256, actual := act, ok := act == m.sha256 }],
          missing)
    | none => checkRecords actual ms (checks, missing ++ [m.name])

def verify (file : Bytes) : Except ArtifactError VerifyReport := do
  let (manifest, actual) ← forEntries (verifyStep c file) (entries file) (none, [])
  let manifest ← orMissing MEMBER_MANIFEST manifest
  let (checks, missing) := checkRecords actual manifest.members ([], [])
  .ok { fileSha256 := c.sha256Hex file, checks, missing }

/-! ## The readers as functions of names and contents -/

section Contents

variable {c} {file : Bytes} {σ : Type}

/-- The members of a file are these names and contents. -/
def Contents (file : Bytes) (ms : List (Bytes × Bytes)) : Prop :=
  ∃ es, entries file = es.map .ok ∧
    List.Forall₂ (fun m e => e.name = m.1 ∧ readContent file e = .ok m.2) ms es

variable {ms : List (Bytes × Bytes)} {m : Bytes × Bytes} {name : Bytes} {p : RunPayload}

theorem contents_archive (hfits : ∀ m ∈ ms, MemberFits m) :
    Contents (archive ms) ms := by
  obtain ⟨es, hes, hstands⟩ := entries_of_archive hfits
  exact ⟨es, hes, hstands.imp fun m e h => ⟨h.name, h.content⟩⟩

theorem forEntries_ok {step : σ → Entry → Except ArtifactError σ}
    {xs : List (Except ArtifactError Entry)} {s s' : σ} (h : forEntries step xs s = .ok s') :
    ∃ es : List Entry, xs = es.map .ok := by
  induction xs generalizing s with
  | nil => exact ⟨[], rfl⟩
  | cons x xs ih =>
    cases x with
    | error err => cases h
    | ok e =>
      rw [forEntries] at h
      cases hstep : step s e with
      | error err =>
        rw [hstep] at h
        cases h
      | ok s₁ =>
        rw [hstep] at h
        obtain ⟨es, rfl⟩ := ih h
        exact ⟨e :: es, rfl⟩

theorem forEntries_eq {step : σ → Entry → Except ArtifactError σ}
    {step' : σ → Bytes × Bytes → Except ArtifactError σ}
    (hstep : ∀ s m e, e.name = m.1 → readContent file e = .ok m.2 → step s e = step' s m)
    (h : Contents file ms) (s : σ) :
    forEntries step (entries file) s = ms.foldlM step' s := by
  obtain ⟨es, hes, hreads⟩ := h
  rw [hes]
  clear hes
  induction hreads generalizing s with
  | nil => rfl
  | cons hm _ ih =>
    rw [List.map_cons, forEntries, List.foldlM_cons, hstep _ _ _ hm.1 hm.2]
    congr 1
    funext s
    exact ih s

def lastNamed (name : Bytes) : List (Bytes × Bytes) → Option Bytes
  | [] => none
  | m :: ms => (lastNamed name ms).or (if m.1 = name then some m.2 else none)

def firstNamed (name : Bytes) : List (Bytes × Bytes) → Option Bytes
  | [] => none
  | m :: ms => if m.1 = name then some m.2 else firstNamed name ms

/-- The manifest in a content that has one. -/
def manifestIn (c : Codec) (bytes : Bytes) : Option Manifest :=
  (Manifest.fromBytes c bytes).toOption

def Parses (c : Codec) (ms : List (Bytes × Bytes)) : Prop :=
  ∀ m ∈ ms, m.1 = MEMBER_MANIFEST → (manifestIn c m.2).isSome

theorem fromBytes_of_isSome {bytes : Bytes} (h : (manifestIn c bytes).isSome = true) :
    ∃ m, Manifest.fromBytes c bytes = .ok m ∧ manifestIn c bytes = some m := by
  unfold manifestIn at h ⊢
  cases hb : Manifest.fromBytes c bytes with
  | error err =>
    rw [hb] at h
    cases h
  | ok m => exact ⟨m, rfl, rfl⟩

theorem lastNamed_self
    (h : m.1 = name) : lastNamed name (m :: ms) = (lastNamed name ms).or (some m.2) := by
  rw [lastNamed, if_pos h]

theorem lastNamed_other
    (h : m.1 ≠ name) : lastNamed name (m :: ms) = lastNamed name ms := by
  rw [lastNamed, if_neg h, Option.or_none]

theorem mem_of_lastNamed {data : Bytes}
    (h : lastNamed name ms = some data) : (name, data) ∈ ms := by
  induction ms with
  | nil => cases h
  | cons m ms ih =>
    by_cases hm : m.1 = name
    · rw [lastNamed_self hm] at h
      cases hl : lastNamed name ms with
      | some d =>
        rw [hl] at h
        obtain rfl : d = data := Option.some_inj.mp h
        exact List.mem_cons_of_mem _ (ih hl)
      | none =>
        rw [hl] at h
        obtain rfl : m.2 = data := Option.some_inj.mp h
        rw [← hm]
        exact List.mem_cons_self
    · rw [lastNamed_other hm] at h
      exact List.mem_cons_of_mem _ (ih h)

def lastManifest (c : Codec) (ms : List (Bytes × Bytes)) : Option Manifest :=
  (lastNamed MEMBER_MANIFEST ms).bind (manifestIn c)

theorem lastManifest_cons {x : Manifest}
    (hparses : Parses c ms) (hm : m.1 = MEMBER_MANIFEST) (hx : manifestIn c m.2 = some x) :
    lastManifest c (m :: ms) = (lastManifest c ms).or (some x) := by
  unfold lastManifest
  rw [lastNamed_self hm]
  cases hl : lastNamed MEMBER_MANIFEST ms with
  | none =>
    rw [Option.none_or, Option.bind_some, hx]
    rfl
  | some d =>
    obtain ⟨y, -, hy⟩ := fromBytes_of_isSome (hparses _ (mem_of_lastNamed hl) rfl)
    rw [Option.some_or, Option.bind_some, hy]
    rfl

/-- The step of `run`, on a name and a content. -/
def takeMember (c : Codec) (st : Found) (m : Bytes × Bytes) : Except ArtifactError Found :=
  if m.1 = MEMBER_MANIFEST then
    (Manifest.fromBytes c m.2).map fun x => { st with manifest := some x }
  else if m.1 = MEMBER_KERNEL then .ok { st with kernel := some m.2 }
  else if m.1 = MEMBER_INITRAMFS then .ok { st with initramfs := some m.2 }
  else if m.1 = MEMBER_COMPOSE_LOCK then .ok { st with composeLock := some m.2 }
  else .ok st

theorem foldlM_takeMember (hparses : Parses c ms) (st : Found) :
    ms.foldlM (takeMember c) st =
      .ok { manifest := (lastManifest c ms).or st.manifest,
            kernel := (lastNamed MEMBER_KERNEL ms).or st.kernel,
            initramfs := (lastNamed MEMBER_INITRAMFS ms).or st.initramfs,
            composeLock := (lastNamed MEMBER_COMPOSE_LOCK ms).or st.composeLock } := by
  induction ms generalizing st with
  | nil => rfl
  | cons m ms ih =>
    have hrest : Parses c ms := fun m hm => hparses m (List.mem_cons_of_mem _ hm)
    have hmanifest : m.1 ≠ MEMBER_MANIFEST → lastManifest c (m :: ms) = lastManifest c ms := by
      intro hm
      rw [lastManifest, lastNamed_other hm, lastManifest]
    -- each name has its own field, and a later member wins
    rw [List.foldlM_cons, takeMember]
    by_cases h₁ : m.1 = MEMBER_MANIFEST
    · obtain ⟨x, hx, hin⟩ := fromBytes_of_isSome (hparses m List.mem_cons_self h₁)
      rw [if_pos h₁, hx, lastManifest_cons hrest h₁ hin]
      rw [lastNamed_other (h₁ ▸ by decide), lastNamed_other (h₁ ▸ by decide),
        lastNamed_other (h₁ ▸ by decide)]
      refine (ih hrest _).trans ?_
      simp
    · rw [if_neg h₁, hmanifest h₁]
      by_cases h₂ : m.1 = MEMBER_KERNEL
      · rw [if_pos h₂, lastNamed_self h₂, lastNamed_other (h₂ ▸ by decide),
          lastNamed_other (h₂ ▸ by decide)]
        refine (ih hrest _).trans ?_
        simp
      · rw [if_neg h₂, lastNamed_other h₂]
        by_cases h₃ : m.1 = MEMBER_INITRAMFS
        · rw [if_pos h₃, lastNamed_self h₃, lastNamed_other (h₃ ▸ by decide)]
          refine (ih hrest _).trans ?_
          simp
        · rw [if_neg h₃, lastNamed_other h₃]
          by_cases h₄ : m.1 = MEMBER_COMPOSE_LOCK
          · rw [if_pos h₄, lastNamed_self h₄]
            refine (ih hrest _).trans ?_
            simp
          · rw [if_neg h₄, lastNamed_other h₄]
            exact ih hrest st

theorem readForRun_eq (h : Contents file ms) (hparses : Parses c ms) :
    readForRun c file = Found.payload
      { manifest := lastManifest c ms, kernel := lastNamed MEMBER_KERNEL ms,
        initramfs := lastNamed MEMBER_INITRAMFS ms,
        composeLock := lastNamed MEMBER_COMPOSE_LOCK ms } := by
  have hstep : ∀ s m e, e.name = m.1 → readContent file e = .ok m.2 →
      runStep c file s e = takeMember c s m := by
    intro s m e hname hread
    unfold runStep takeMember
    rw [hname, hread]
    rfl
  unfold readForRun
  rw [forEntries_eq hstep h, foldlM_takeMember hparses]
  simp only [Option.or_none]
  rfl

theorem payload_ok {st : Found} :
    st.payload = .ok p ↔ st = { manifest := some p.manifest, kernel := some p.kernel,
                                initramfs := some p.initramfs
                                composeLock := some p.composeLock } := by
  constructor
  · intro h
    obtain ⟨manifest, kernel, initramfs, composeLock⟩ := st
    cases manifest with
    | none => cases h
    | some x =>
      cases kernel with
      | none => cases h
      | some k =>
        cases initramfs with
        | none => cases h
        | some i =>
          cases composeLock with
          | none => cases h
          | some l =>
            cases h
            rfl
  · rintro rfl
    rfl

theorem verifyMember_ok :
    p.verifyMember c m = .ok () ↔
      ∃ want, p.manifest.member m.1 = some want ∧ c.sha256Hex m.2 = want.sha256 := by
  unfold RunPayload.verifyMember
  cases p.manifest.member m.1 with
  | none => simp
  | some want =>
    simp only [Option.some_inj, exists_eq_left']
    by_cases h : c.sha256Hex m.2 = want.sha256
    · simp [h]
    · simp [h]

theorem verifyMembers_ok :
    p.verifyMembers c = .ok () ↔ ∀ m ∈ p.payloads, p.verifyMember c m = .ok () := by
  unfold RunPayload.verifyMembers
  generalize p.payloads = ms
  induction ms with
  | nil => simp [pure, Except.pure]
  | cons m ms ih =>
    rw [List.forM_cons, List.forall_mem_cons, ← ih]
    cases h : p.verifyMember c m with
    | error err | ok u => simp [bind, Except.bind]

theorem readManifest_eq (h : Contents file ms) :
    readManifest c file = match firstNamed MEMBER_MANIFEST ms with
      | some bytes => Manifest.fromBytes c bytes
      | none => .error (.malformed (.missing MEMBER_MANIFEST)) := by
  obtain ⟨es, hes, hreads⟩ := h
  unfold readManifest
  rw [hes]
  clear hes
  induction hreads with
  | nil => rfl
  | cons hm hrest ih =>
    rename_i m e ms es
    rw [List.map_cons, readManifestLoop, firstNamed, hm.1]
    by_cases hname : m.1 = MEMBER_MANIFEST
    · rw [if_pos hname, if_pos hname, hm.2]
      rfl
    · rw [if_neg hname, if_neg hname]
      exact ih

def hashes (c : Codec) (ms : List (Bytes × Bytes)) : List (Bytes × String) :=
  (ms.filter fun m => m.1 ≠ MEMBER_MANIFEST).map fun m => (m.1, c.sha256Hex m.2)

/-- The step of `verify`, on a name and a content. -/
def hashMember (c : Codec) (st : Hashed) (m : Bytes × Bytes) : Except ArtifactError Hashed :=
  if m.1 = MEMBER_MANIFEST then (Manifest.fromBytes c m.2).map fun x => (some x, st.2)
  else .ok (st.1, st.2 ++ [(m.1, c.sha256Hex m.2)])

theorem foldlM_hashMember (hparses : Parses c ms) (st : Hashed) :
    ms.foldlM (hashMember c) st = .ok ((lastManifest c ms).or st.1, st.2 ++ hashes c ms) := by
  induction ms generalizing st with
  | nil => simp [lastManifest, lastNamed, hashes, pure, Except.pure]
  | cons m ms ih =>
    have hrest : Parses c ms := fun m hm => hparses m (List.mem_cons_of_mem _ hm)
    rw [List.foldlM_cons, hashMember, hashes]
    by_cases hm : m.1 = MEMBER_MANIFEST
    · obtain ⟨x, hx, hin⟩ := fromBytes_of_isSome (hparses m List.mem_cons_self hm)
      rw [if_pos hm, hx, lastManifest_cons hrest hm hin,
        List.filter_cons_of_neg (by simpa using hm)]
      refine (ih hrest _).trans ?_
      simp [hashes]
    · rw [if_neg hm, lastManifest, lastNamed_other hm, List.filter_cons_of_pos (by simpa using hm)]
      refine (ih hrest _).trans ?_
      simp [hashes, lastManifest]

theorem parses_of_foldlM {st st' : Hashed}
    (h : ms.foldlM (hashMember c) st = .ok st') : Parses c ms := by
  induction ms generalizing st with
  | nil =>
    intro m hm
    cases hm
  | cons m ms ih =>
    rw [List.foldlM_cons] at h
    cases hstep : hashMember c st m with
    | error err =>
      rw [hstep] at h
      cases h
    | ok st₁ =>
      rw [hstep] at h
      intro x hx hname
      rcases List.mem_cons.mp hx with rfl | hx
      · rw [hashMember, if_pos hname] at hstep
        unfold manifestIn
        cases hb : Manifest.fromBytes c x.2 with
        | error err =>
          rw [hb] at hstep
          cases hstep
        | ok y => rfl
      · exact ih h x hx hname

theorem verifyStep_eq (s : Hashed) (m : Bytes × Bytes) (e : Entry) (hname : e.name = m.1)
    (hread : readContent file e = .ok m.2) : verifyStep c file s e = hashMember c s m := by
  unfold verifyStep hashMember
  rw [hname, hread]
  rfl

theorem contents_of_verify {st st' : Hashed}
    (h : forEntries (verifyStep c file) (entries file) st = .ok st') :
    ∃ ms, Contents file ms ∧ Parses c ms := by
  obtain ⟨es, hes⟩ := forEntries_ok h
  have hreads : ∃ ms : List (Bytes × Bytes),
      List.Forall₂ (fun m e => e.name = m.1 ∧ readContent file e = .ok m.2) ms es := by
    rw [hes] at h
    clear hes
    induction es generalizing st with
    | nil => exact ⟨[], List.Forall₂.nil⟩
    | cons e es ih =>
      rw [List.map_cons, forEntries] at h
      cases hread : readContent file e with
      | error err =>
        rw [verifyStep, hread] at h
        split at h <;> cases h
      | ok bytes =>
        cases hstep : verifyStep c file st e with
        | error err =>
          rw [hstep] at h
          cases h
        | ok st₁ =>
          rw [hstep] at h
          obtain ⟨ms, hms⟩ := ih h
          exact ⟨(e.name, bytes) :: ms, List.Forall₂.cons ⟨rfl, hread⟩ hms⟩
  obtain ⟨ms, hms⟩ := hreads
  have hcontents : Contents file ms := ⟨es, hes, hms⟩
  rw [forEntries_eq verifyStep_eq hcontents] at h
  exact ⟨ms, hcontents, parses_of_foldlM h⟩

/-! ## What `verify` checks -/

theorem checkRecords_ok {actual : List (Bytes × String)} {rs : List Member}
    {acc out : List MemberCheck × List Bytes} (h : checkRecords actual rs acc = out) :
    (out.2.isEmpty && out.1.all (·.ok)) = true ↔ (acc.2.isEmpty && acc.1.all (·.ok)) = true ∧
      ∀ r ∈ rs, (actual.find? fun a => a.1 == r.name).map (·.2) = some r.sha256 := by
  induction rs generalizing acc with
  | nil =>
    rw [checkRecords] at h
    rw [h]
    simp
  | cons r rs ih =>
    obtain ⟨checks, missing⟩ := acc
    rw [checkRecords] at h
    rw [List.forall_mem_cons]
    split at h
    · rename_i n act hfind
      rw [ih h, hfind]
      simp [and_assoc]
    · rename_i hfind
      rw [ih h, hfind]
      simp

theorem names_checkRecords {actual : List (Bytes × String)} {rs : List Member}
    {acc out : List MemberCheck × List Bytes} (h : checkRecords actual rs acc = out)
    (name : Bytes) :
    name ∈ out.1.map (·.name) ∨ name ∈ out.2 ↔
      (name ∈ acc.1.map (·.name) ∨ name ∈ acc.2) ∨ name ∈ rs.map (·.name) := by
  induction rs generalizing acc with
  | nil =>
    rw [checkRecords] at h
    rw [h]
    simp
  | cons r rs ih =>
    obtain ⟨checks, missing⟩ := acc
    rw [checkRecords] at h
    split at h
    · rw [ih h]
      simp only [List.map_append, List.mem_append, List.map_cons, List.map_nil, List.mem_cons,
        List.not_mem_nil, or_false]
      tauto
    · rw [ih h]
      simp only [List.mem_append, List.map_cons, List.mem_cons, List.not_mem_nil, or_false]
      tauto

theorem find_hashes (hname : name ≠ MEMBER_MANIFEST) :
    ((hashes c ms).find? fun a => a.1 == name).map (·.2) =
      (firstNamed name ms).map c.sha256Hex := by
  induction ms with
  | nil => rfl
  | cons m ms ih =>
    rw [firstNamed, hashes]
    by_cases hm : m.1 = name
    · have hne : m.1 ≠ MEMBER_MANIFEST := hm ▸ hname
      rw [if_pos hm, List.filter_cons_of_pos (by simpa using hne), List.map_cons,
        List.find?_cons_of_pos (by simpa using hm)]
      rfl
    · rw [if_neg hm, ← ih]
      by_cases hman : m.1 = MEMBER_MANIFEST
      · rw [List.filter_cons_of_neg (by simpa using hman)]
        rfl
      · rw [List.filter_cons_of_pos (by simpa using hman), List.map_cons,
          List.find?_cons_of_neg (by simpa using hm)]
        rfl

theorem verify_eq (h : Contents file ms) (hparses : Parses c ms) :
    verify c file = match lastManifest c ms with
      | some x => .ok { fileSha256 := c.sha256Hex file,
                        checks := (checkRecords (hashes c ms) x.members ([], [])).1,
                        missing := (checkRecords (hashes c ms) x.members ([], [])).2 }
      | none => .error (.malformed (.missing MEMBER_MANIFEST)) := by
  unfold verify
  rw [forEntries_eq verifyStep_eq h, foldlM_hashMember hparses]
  simp only [Option.or_none, List.nil_append]
  cases lastManifest c ms with
  | none => rfl
  | some x => rfl

theorem verify_ok {report : VerifyReport} (h : verify c file = .ok report) :
    ∃ ms x, Contents file ms ∧ Parses c ms ∧ lastManifest c ms = some x ∧
      checkRecords (hashes c ms) x.members ([], []) = (report.checks, report.missing) := by
  cases hloop : forEntries (verifyStep c file) (entries file) (none, []) with
  | error err =>
    rw [verify, hloop] at h
    cases h
  | ok st =>
    obtain ⟨ms, hcontents, hparses⟩ := contents_of_verify hloop
    rw [verify_eq hcontents hparses] at h
    cases hman : lastManifest c ms with
    | none =>
      rw [hman] at h
      cases h
    | some x =>
      rw [hman] at h
      cases h
      exact ⟨ms, x, hcontents, hparses, hman, rfl⟩

end Contents

/-! ## A manifest and its JSON -/

/-- The libraries on given inputs: a document is read with or without a line end. -/
def Codec.ofTables (hashes : List (Bytes × String))
    (documents : List (Manifest × Bytes)) : Codec where
  sha256Hex bytes := (hashes.lookup bytes).getD ""
  toVecPretty m := documents.lookup m
  fromSlice bytes := (documents.find? fun d => d.2 = bytes || d.2 ++ [10] = bytes).map (·.1)

/-- The manifest of an artifact whose payloads are the bytes 1, 2 and 3. -/
def sampleManifest (stack : String) : Manifest where
  formatVersion := 1
  stack
  project := "shop"
  members :=
    [⟨MEMBER_COMPOSE_LOCK, 1, "4bf5122f344554c53bde2ebb8cd2b7e3d1600ad631c385a5d7cce23c7785459a"⟩,
     ⟨MEMBER_KERNEL, 1, "dbc1b4c900ffe48d575b5da5c638040125f65db0fe3e24494b76ea986457d986"⟩,
     ⟨MEMBER_INITRAMFS, 1, "084fed08b978af4d7d196a7446a86b58009e636b611db16211b65a9aadff29c5"⟩]
  anchors :=
    { cpuidSha256 := "", cpuidProfile := "", composeEngine := { version := "v2", sha256 := "" },
      images := [], toolchain := { builders := [], alpine := "", compose := "" },
      ramEstimateMib := 64, agentSha256 := "", agentBuildHash := "" }
  runDefaults := { memMib := 512, cmdline := "", fastForward := true, maxVirtualTime := none }

def sampleJson (stack : String) : Bytes :=
  utf8 "\x7b" ++ ["  \"format_version\": 1,", "  \"stack\": \"" ++ stack ++ "\",",
    "  \"project\": \"shop\",", "  \"members\": [",
    "    \x7b", "      \"name\": \"compose.lock.yml\",", "      \"size\": 1,",
    "      \"sha256\": \"4bf5122f344554c53bde2ebb8cd2b7e3d1600ad631c385a5d7cce23c7785459a\"",
    "    \x7d,",
    "    \x7b", "      \"name\": \"kernel\",", "      \"size\": 1,",
    "      \"sha256\": \"dbc1b4c900ffe48d575b5da5c638040125f65db0fe3e24494b76ea986457d986\"",
    "    \x7d,",
    "    \x7b", "      \"name\": \"initramfs\",", "      \"size\": 1,",
    "      \"sha256\": \"084fed08b978af4d7d196a7446a86b58009e636b611db16211b65a9aadff29c5\"",
    "    \x7d",
    "  ],", "  \"anchors\": \x7b", "    \"cpuid_sha256\": \"\",", "    \"cpuid_profile\": \"\",",
    "    \"compose_engine\": \x7b", "      \"version\": \"v2\",", "      \"sha256\": \"\"",
    "    \x7d,", "    \"images\": [],", "    \"toolchain\": \x7b", "      \"builders\": [],",
    "      \"alpine\": \"\",", "      \"compose\": \"\"", "    \x7d,",
    "    \"ram_estimate_mib\": 64,", "    \"agent_sha256\": \"\",",
    "    \"agent_build_hash\": \"\"",
    "  \x7d,", "  \"run_defaults\": \x7b", "    \"mem_mib\": 512,", "    \"cmdline\": \"\",",
    "    \"fast_forward\": true,", "    \"max_virtual_time\": null", "  \x7d", "\x7d"].flatMap
      fun line => 10 :: utf8 line

def sampleMembers : List (Bytes × Bytes) :=
  [(MEMBER_MANIFEST, sampleJson "web" ++ [10]), (MEMBER_COMPOSE_LOCK, [1]), (MEMBER_KERNEL, [2]),
    (MEMBER_INITRAMFS, [3])]

def otherManifest : Bytes × Bytes := (MEMBER_MANIFEST, sampleJson "api" ++ [10])

/-- SHA-256 and `serde_json` on the sample, and on it with the other manifest behind. -/
def sampleCodec : Codec :=
  .ofTables [([1], "4bf5122f344554c53bde2ebb8cd2b7e3d1600ad631c385a5d7cce23c7785459a"),
      ([2], "dbc1b4c900ffe48d575b5da5c638040125f65db0fe3e24494b76ea986457d986"),
      ([3], "084fed08b978af4d7d196a7446a86b58009e636b611db16211b65a9aadff29c5"),
      (archive sampleMembers, "48ff21dd249ab714d84325e27141e744f1e7571d3517ac41779647f1fba6f301"),
      (archive (sampleMembers ++ [otherManifest]),
        "274c7651761806f7a39c0523c2c14d9740aa7e3c2b8f4ac7985c49792469e73b")]
    [(sampleManifest "web", sampleJson "web"), (sampleManifest "api", sampleJson "api")]

theorem fits_sampleMembers : ∀ m ∈ sampleMembers ++ [otherManifest], MemberFits m := by
  have hfits : ∀ m ∈ sampleMembers ++ [otherManifest], utf8Valid m.1 = true ∧ 0 ∉ m.1 ∧
      m.1.length ≤ 100 ∧ m.2.length ≤ MAX_MEMBER_SIZE := by
    decide +kernel
  intro m hm
  obtain ⟨hvalid, hnul, hlen, hsize⟩ := hfits m hm
  exact ⟨⟨hvalid, hnul, hlen⟩, hsize⟩

end Tdvmm.Artifact
