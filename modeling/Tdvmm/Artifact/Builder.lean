import Tdvmm.Artifact.Read
import Tdvmm.Lib.Except

/-!
# Artifact.Builder — sealing an artifact and writing it out

The builder takes the payloads one after the other and seals them with a manifest that holds
their hashes.

`sealed_round_trip`: what is written reads back as the same manifest and payloads, passes both
checks, and is reported with its own hash and length.
-/

namespace Tdvmm.Artifact

open Lib

/-! ## The hashing writer -/

/-- Where bytes are written to: how many bytes of a buffer it takes after those it has, or that
it fails; and whether it can be flushed. -/
structure Sink where
  takes : Bytes → Bytes → Option Nat
  flushes : Bool

/-- The bytes that the inner writer has taken, those that were hashed, and their count. -/
structure HashingWriter where
  inner : Bytes
  hashed : Bytes
  len : Nat
deriving DecidableEq

namespace HashingWriter

variable (sink : Sink)

def new : HashingWriter where
  inner := []
  hashed := []
  len := 0

def write (w : HashingWriter) (buf : Bytes) : Option (Nat × HashingWriter) :=
  (sink.takes w.inner buf).map fun n =>
    let n := min n buf.length
    (n, { inner := w.inner ++ buf.take n, hashed := w.hashed ++ buf.take n, len := w.len + n })

/-- The loop of `write_all`; a write of no bytes is an error. -/
def writeLoop (doing : String) : Nat → HashingWriter → Bytes → Except ArtifactError HashingWriter
  | _, w, [] => .ok w
  | 0, _, _ :: _ => .error (.io doing)
  | fuel + 1, w, b :: bs =>
    match write sink w (b :: bs) with
    | none => .error (.io doing)
    | some (n, w) => if n = 0 then .error (.io doing) else writeLoop doing fuel w ((b :: bs).drop n)

def writeAll (doing : String) (w : HashingWriter) (buf : Bytes) :
    Except ArtifactError HashingWriter :=
  writeLoop sink doing buf.length w buf

def finish (c : Codec) (w : HashingWriter) : String × Nat := (c.sha256Hex w.hashed, w.len)

def push (w : HashingWriter) (buf : Bytes) : HashingWriter where
  inner := w.inner ++ buf
  hashed := w.hashed ++ buf
  len := w.len + buf.length

end HashingWriter

def writeMember (sink : Sink) (w : HashingWriter) (name data : Bytes) :
    Except ArtifactError HashingWriter := do
  let w ← w.writeAll sink "writing tar header" (ustarHeader name data.length)
  let w ← w.writeAll sink "writing tar data" data
  let rem := data.length % BLOCK
  if rem ≠ 0 then w.writeAll sink "writing tar padding" (List.replicate (BLOCK - rem) 0)
  else .ok w

def writeTrailer (sink : Sink) (w : HashingWriter) : Except ArtifactError HashingWriter :=
  w.writeAll sink "writing tar trailer" (List.replicate (BLOCK * 2) 0)

/-! ## The builder -/

structure ArtifactBuilder where
  stack : String
  project : String
  anchors : Anchors
  runDefaults : RunDefaults

structure NeedsKernel extends ArtifactBuilder where
  lock : Bytes

structure NeedsInitramfs extends NeedsKernel where
  vmlinux : Bytes

structure SealedArtifact where
  manifestJson : Bytes
  composeLock : Bytes
  kernel : Bytes
  initramfs : Bytes
deriving DecidableEq

def ArtifactBuilder.composeLock (b : ArtifactBuilder) (bytes : Bytes) : NeedsKernel :=
  { toArtifactBuilder := b, lock := bytes }

def NeedsKernel.kernel (b : NeedsKernel) (bytes : Bytes) : NeedsInitramfs :=
  { toNeedsKernel := b, vmlinux := bytes }

def capMember (name : Bytes) (len : Nat) : Except ArtifactError Nat :=
  if MAX_MEMBER_SIZE < len then .error (.malformed (.overLimit name len)) else .ok len

def recordOf (c : Codec) (m : Bytes × Bytes) : Except ArtifactError Member := do
  let size ← capMember m.1 m.2.length
  .ok { name := m.1, size, sha256 := c.sha256Hex m.2 }

def NeedsInitramfs.initramfs (c : Codec) (b : NeedsInitramfs) (bytes : Bytes) :
    Except ArtifactError SealedArtifact := do
  let records ← [(MEMBER_COMPOSE_LOCK, b.lock), (MEMBER_KERNEL, b.vmlinux),
    (MEMBER_INITRAMFS, bytes)].mapM (recordOf c)
  let manifest : Manifest :=
    { formatVersion := FORMAT_VERSION, stack := b.stack, project := b.project, members := records,
      anchors := b.anchors, runDefaults := b.runDefaults }
  let manifestJson ← manifest.toCanonicalJson c
  let _ ← capMember MEMBER_MANIFEST manifestJson.length
  .ok { manifestJson, composeLock := b.lock, kernel := b.vmlinux, initramfs := bytes }

structure Written where
  sha256Hex : String
  len : Nat
deriving DecidableEq

def SealedArtifact.writeTo (c : Codec) (s : SealedArtifact) (sink : Sink) :
    Except ArtifactError (Bytes × Written) := do
  let w ← writeMember sink .new MEMBER_MANIFEST s.manifestJson
  let w ← writeMember sink w MEMBER_COMPOSE_LOCK s.composeLock
  let w ← writeMember sink w MEMBER_KERNEL s.kernel
  let w ← writeMember sink w MEMBER_INITRAMFS s.initramfs
  let w ← writeTrailer sink w
  if sink.flushes then
    .ok (w.inner, { sha256Hex := (w.finish c).1, len := (w.finish c).2 })
  else .error (.io "flushing artifact")

def writeArchive (sink : Sink) (ms : List (Bytes × Bytes)) : Except ArtifactError Bytes := do
  let w ← ms.foldlM (fun w m => writeMember sink w m.1 m.2) HashingWriter.new
  let w ← writeTrailer sink w
  .ok w.inner

/-! ## What is written -/

section Written

variable {sink : Sink} {doing : String} {w w' : HashingWriter}

theorem push_push (a b : Bytes) : (w.push a).push b = w.push (a ++ b) := by
  simp [HashingWriter.push, Nat.add_assoc]

/-- Whatever the sink takes at a time, in the end all of the buffer is written and hashed. -/
theorem writeLoop_ok {fuel : Nat} {buf : Bytes}
    (h : HashingWriter.writeLoop sink doing fuel w buf = .ok w') : w' = w.push buf := by
  induction fuel generalizing w buf with
  | zero =>
    cases buf with
    | nil =>
      obtain rfl : w = w' := Except.ok.inj h
      simp [HashingWriter.push]
    | cons b bs => cases h
  | succ fuel ih =>
    cases buf with
    | nil =>
      obtain rfl : w = w' := Except.ok.inj h
      simp [HashingWriter.push]
    | cons b bs =>
      rw [HashingWriter.writeLoop, HashingWriter.write] at h
      cases htakes : sink.takes w.inner (b :: bs) with
      | none =>
        rw [htakes] at h
        cases h
      | some n =>
        rw [htakes] at h
        simp only [Option.map_some] at h
        split at h
        · cases h
        · rw [ih h]
          have hsplit := List.take_append_drop (min n (b :: bs).length) (b :: bs)
          have hlen : min n (b :: bs).length + ((b :: bs).drop (min n (b :: bs).length)).length =
              (b :: bs).length := by
            rw [List.length_drop]
            omega
          simp only [HashingWriter.push, List.append_assoc, hsplit, Nat.add_assoc, hlen]

def Sink.Willing (sink : Sink) : Prop :=
  (∀ done buf, buf ≠ [] → ∃ n, sink.takes done buf = some n ∧ 0 < n) ∧ sink.flushes = true

theorem writeLoop_total (hsink : sink.Willing) {fuel : Nat} {buf : Bytes}
    (hfuel : buf.length ≤ fuel) :
    ∃ w', HashingWriter.writeLoop sink doing fuel w buf = .ok w' := by
  induction fuel generalizing w buf with
  | zero =>
    obtain rfl : buf = [] := List.length_eq_zero_iff.mp (by omega)
    exact ⟨w, rfl⟩
  | succ fuel ih =>
    cases buf with
    | nil => exact ⟨w, rfl⟩
    | cons b bs =>
      obtain ⟨n, htakes, hn⟩ := hsink.1 w.inner (b :: bs) (by simp)
      rw [HashingWriter.writeLoop, HashingWriter.write, htakes]
      simp only [Option.map_some]
      have hpos : min n (b :: bs).length ≠ 0 := by
        simp only [List.length_cons]
        omega
      rw [if_neg hpos]
      apply ih
      simp only [List.length_drop, List.length_cons] at hfuel ⊢
      omega

theorem writeMember_ok {m : Bytes × Bytes} (h : writeMember sink w m.1 m.2 = .ok w') :
    w' = w.push (memberBytes m) := by
  obtain ⟨w₁, hheader, h⟩ := bind_ok.mp h
  obtain ⟨w₂, hdata, h⟩ := bind_ok.mp h
  have hw₂ : w₂ = w.push (ustarHeader m.1 m.2.length ++ m.2) := by
    rw [writeLoop_ok hdata, writeLoop_ok hheader, push_push]
  unfold memberBytes
  dsimp only at h
  by_cases hrem : m.2.length % BLOCK = 0
  · rw [if_neg (by simpa using hrem)] at h
    rw [if_pos hrem, List.replicate_zero, List.append_nil, ← hw₂]
    exact (Except.ok.inj h).symm
  · rw [if_pos hrem] at h
    rw [if_neg hrem, writeLoop_ok h, hw₂, push_push]

theorem writeMember_total (hsink : sink.Willing) (w : HashingWriter) (m : Bytes × Bytes) :
    ∃ w', writeMember sink w m.1 m.2 = .ok w' := by
  have htotal : ∀ doing w buf, ∃ w', HashingWriter.writeAll sink doing w buf = .ok w' :=
    fun doing w buf => writeLoop_total hsink le_rfl
  obtain ⟨w₁, h₁⟩ := htotal "writing tar header" w (ustarHeader m.1 m.2.length)
  obtain ⟨w₂, h₂⟩ := htotal "writing tar data" w₁ m.2
  obtain ⟨w₃, h₃⟩ := htotal "writing tar padding" w₂ (List.replicate (BLOCK - m.2.length % BLOCK) 0)
  by_cases hrem : m.2.length % BLOCK = 0
  · refine ⟨w₂, bind_ok.mpr ⟨w₁, h₁, bind_ok.mpr ⟨w₂, h₂, ?_⟩⟩⟩
    dsimp only
    rw [if_neg (by simpa using hrem)]
  · refine ⟨w₃, bind_ok.mpr ⟨w₁, h₁, bind_ok.mpr ⟨w₂, h₂, ?_⟩⟩⟩
    dsimp only
    rw [if_pos hrem, h₃]

theorem writeMembers_ok {ms : List (Bytes × Bytes)}
    (h : ms.foldlM (fun w m => writeMember sink w m.1 m.2) w = .ok w') :
    w' = w.push (ms.flatMap memberBytes) := by
  induction ms generalizing w with
  | nil =>
    obtain rfl : w = w' := Except.ok.inj h
    simp [HashingWriter.push]
  | cons m ms ih =>
    rw [List.foldlM_cons] at h
    obtain ⟨w₁, hm, h⟩ := bind_ok.mp h
    rw [ih h, writeMember_ok hm, push_push, List.flatMap_cons]

theorem writeMembers_total (hsink : sink.Willing) (ms : List (Bytes × Bytes)) (w : HashingWriter) :
    ∃ w', ms.foldlM (fun w m => writeMember sink w m.1 m.2) w = .ok w' := by
  induction ms generalizing w with
  | nil => exact ⟨w, rfl⟩
  | cons m ms ih =>
    obtain ⟨w₁, hm⟩ := writeMember_total hsink w m
    obtain ⟨w', h⟩ := ih w₁
    rw [List.foldlM_cons]
    exact ⟨w', bind_ok.mpr ⟨w₁, hm, h⟩⟩

theorem writeArchive_ok {ms : List (Bytes × Bytes)} {file : Bytes}
    (h : writeArchive sink ms = .ok file) : file = archive ms := by
  obtain ⟨w₁, hms, h⟩ := bind_ok.mp h
  obtain ⟨w₂, htrailer, h⟩ := bind_ok.mp h
  obtain rfl := Except.ok.inj h
  rw [writeLoop_ok htrailer, writeMembers_ok hms, push_push]
  simp [HashingWriter.push, HashingWriter.new, archive]

theorem writeArchive_total (ms : List (Bytes × Bytes)) (hsink : sink.Willing) :
    ∃ file, writeArchive sink ms = .ok file := by
  obtain ⟨w₁, hms⟩ := writeMembers_total hsink ms HashingWriter.new
  obtain ⟨w₂, htrailer⟩ : ∃ w₂, writeTrailer sink w₁ = .ok w₂ := writeLoop_total hsink le_rfl
  exact ⟨_, bind_ok.mpr ⟨w₁, hms, bind_ok.mpr ⟨w₂, htrailer, rfl⟩⟩⟩

namespace SealedArtifact

def members (s : SealedArtifact) : List (Bytes × Bytes) :=
  [(MEMBER_MANIFEST, s.manifestJson), (MEMBER_COMPOSE_LOCK, s.composeLock),
    (MEMBER_KERNEL, s.kernel), (MEMBER_INITRAMFS, s.initramfs)]

variable {c : Codec} {s : SealedArtifact} {file : Bytes} {written : Written}

theorem writeTo_eq : s.writeTo c sink = (do
    let w ← s.members.foldlM (fun w m => writeMember sink w m.1 m.2) HashingWriter.new
    let w ← writeTrailer sink w
    if sink.flushes then
      .ok (w.inner, { sha256Hex := (w.finish c).1, len := (w.finish c).2 })
    else .error (.io "flushing artifact")) := by
  simp only [writeTo, members, List.foldlM_cons, List.foldlM_nil, bind_assoc, pure_bind]

theorem writeTo_ok (h : s.writeTo c sink = .ok (file, written)) :
    file = archive s.members ∧ written.sha256Hex = c.sha256Hex file ∧
    written.len = file.length := by
  rw [writeTo_eq] at h
  obtain ⟨w₁, hms, h⟩ := bind_ok.mp h
  obtain ⟨w₂, htrailer, h⟩ := bind_ok.mp h
  split at h
  · obtain ⟨rfl, rfl⟩ := Prod.mk.inj (Except.ok.inj h)
    have hw₂ : w₂ = HashingWriter.new.push (archive s.members) := by
      rw [writeLoop_ok htrailer, writeMembers_ok hms, push_push, archive]
    rw [hw₂]
    simp [HashingWriter.push, HashingWriter.new, HashingWriter.finish]
  · cases h

theorem writeTo_total (hsink : sink.Willing) : ∃ out, s.writeTo c sink = .ok out := by
  obtain ⟨w₁, hms⟩ := writeMembers_total hsink s.members HashingWriter.new
  obtain ⟨w₂, htrailer⟩ : ∃ w₂, writeTrailer sink w₁ = .ok w₂ := writeLoop_total hsink le_rfl
  rw [writeTo_eq]
  exact ⟨_, bind_ok.mpr ⟨w₁, hms, bind_ok.mpr ⟨w₂, htrailer, if_pos hsink.2⟩⟩⟩

end SealedArtifact

end Written

/-! ## The round trip -/

section RoundTrip

variable {c : Codec} {b : NeedsInitramfs} {bytes : Bytes}

def plainRecord (c : Codec) (m : Bytes × Bytes) : Member where
  name := m.1
  size := m.2.length
  sha256 := c.sha256Hex m.2

def NeedsInitramfs.manifest (c : Codec) (b : NeedsInitramfs) (bytes : Bytes) : Manifest where
  formatVersion := FORMAT_VERSION
  stack := b.stack
  project := b.project
  members := [(MEMBER_COMPOSE_LOCK, b.lock), (MEMBER_KERNEL, b.vmlinux),
    (MEMBER_INITRAMFS, bytes)].map (plainRecord c)
  anchors := b.anchors
  runDefaults := b.runDefaults

structure WithinCap (b : NeedsInitramfs) (bytes : Bytes) : Prop where
  lock : b.lock.length ≤ MAX_MEMBER_SIZE
  kernel : b.vmlinux.length ≤ MAX_MEMBER_SIZE
  initramfs : bytes.length ≤ MAX_MEMBER_SIZE

/-- `serde_json` reads back what it has written of this manifest, with the line end. -/
def JsonRoundTrips (c : Codec) (m : Manifest) : Prop :=
  ∃ v, c.toVecPretty m = some v ∧ c.fromSlice (v ++ [10]) = some m

theorem capMember_ok {name : Bytes} {len : Nat} (h : len ≤ MAX_MEMBER_SIZE) :
    capMember name len = .ok len := by
  rw [capMember, if_neg (by omega)]

theorem initramfs_eq (hcap : WithinCap b bytes) {v : Bytes}
    (hv : c.toVecPretty (b.manifest c bytes) = some v) :
    b.initramfs c bytes = if MAX_MEMBER_SIZE < (v ++ [10]).length then
      .error (.malformed (.overLimit MEMBER_MANIFEST (v ++ [10]).length))
    else .ok { manifestJson := v ++ [10], composeLock := b.lock, kernel := b.vmlinux,
               initramfs := bytes } := by
  have hrecord : ∀ {m : Bytes × Bytes}, m.2.length ≤ MAX_MEMBER_SIZE →
      recordOf c m = .ok (plainRecord c m) := by
    intro m hm
    rw [recordOf, capMember_ok hm]
    rfl
  have hrecords : [(MEMBER_COMPOSE_LOCK, b.lock), (MEMBER_KERNEL, b.vmlinux),
      (MEMBER_INITRAMFS, bytes)].mapM (recordOf c) = .ok (b.manifest c bytes).members := by
    rw [List.mapM_cons, List.mapM_cons, List.mapM_cons, hrecord hcap.lock, hrecord hcap.kernel,
      hrecord hcap.initramfs]
    rfl
  have hjson : (b.manifest c bytes).toCanonicalJson c = .ok (v ++ [10]) := by
    rw [Manifest.toCanonicalJson, hv]
  unfold NeedsInitramfs.initramfs
  rw [hrecords]
  change ((b.manifest c bytes).toCanonicalJson c >>= _) = _
  rw [hjson]
  change (capMember MEMBER_MANIFEST (v ++ [10]).length >>= _) = _
  rw [capMember]
  split
  · rfl
  · rfl

/-- What the readers make of a file: they find this manifest and these payloads, and both
checks pass. -/
structure ReadsBack (c : Codec) (file : Bytes) (p : RunPayload) : Prop where
  run : readForRun c file = .ok p
  inspect : readManifest c file = .ok p.manifest
  members : p.verifyMembers c = .ok ()
  verified : ∃ report, verify c file = .ok report ∧ report.allOk = true ∧
    report.fileSha256 = c.sha256Hex file

theorem nameFits_members : ∀ name ∈ [MEMBER_MANIFEST, MEMBER_COMPOSE_LOCK, MEMBER_KERNEL,
    MEMBER_INITRAMFS], NameFits name := by
  have hfits : ∀ name ∈ [MEMBER_MANIFEST, MEMBER_COMPOSE_LOCK, MEMBER_KERNEL, MEMBER_INITRAMFS],
      utf8Valid name = true ∧ 0 ∉ name ∧ name.length ≤ 100 := by
    decide +kernel
  intro name hname
  obtain ⟨hvalid, hnul, hlen⟩ := hfits name hname
  exact ⟨hvalid, hnul, hlen⟩

def sealedMembers (b : NeedsInitramfs) (json bytes : Bytes) : List (Bytes × Bytes) :=
  [(MEMBER_MANIFEST, json), (MEMBER_COMPOSE_LOCK, b.lock), (MEMBER_KERNEL, b.vmlinux),
    (MEMBER_INITRAMFS, bytes)]

theorem contents_sealed (hcap : WithinCap b bytes) {json : Bytes}
    (hlen : json.length ≤ MAX_MEMBER_SIZE) :
    Contents (archive (sealedMembers b json bytes)) (sealedMembers b json bytes) := by
  apply contents_archive
  have hnames := nameFits_members
  simp only [sealedMembers, List.forall_mem_cons, List.not_mem_nil, false_implies, implies_true,
    and_true] at hnames ⊢
  exact ⟨⟨hnames.1, hlen⟩, ⟨hnames.2.1, hcap.lock⟩, ⟨hnames.2.2.1, hcap.kernel⟩,
    ⟨hnames.2.2.2, hcap.initramfs⟩⟩

theorem readsBack_sealed (hcap : WithinCap b bytes) {json : Bytes}
    (hlen : json.length ≤ MAX_MEMBER_SIZE) (hjson : c.fromSlice json = some (b.manifest c bytes)) :
    ReadsBack c (archive (sealedMembers b json bytes))
      { manifest := b.manifest c bytes, kernel := b.vmlinux, initramfs := bytes,
        composeLock := b.lock } := by
  have hcontents := contents_sealed hcap hlen
  have hfrom : Manifest.fromBytes c json = .ok (b.manifest c bytes) := by
    unfold Manifest.fromBytes
    rw [hjson]
    rfl
  have hin : manifestIn c json = some (b.manifest c bytes) := by
    rw [manifestIn, hfrom]
    rfl
  -- one member is the manifest
  have hothers : ∀ m ∈ sealedMembers b json bytes, m.1 = MEMBER_MANIFEST → m.2 = json := by
    simp only [sealedMembers, List.forall_mem_cons, List.not_mem_nil, false_implies, implies_true,
      and_true]
    exact ⟨trivial, fun h => absurd h (by decide), fun h => absurd h (by decide),
      fun h => absurd h (by decide)⟩
  have hparses : Parses c (sealedMembers b json bytes) := by
    intro m hm hname
    rw [hothers m hm hname, hin]
    rfl
  have hlast : lastManifest c (sealedMembers b json bytes) = some (b.manifest c bytes) := hin
  refine ⟨?_, ?_, ?_, ?_⟩
  · rw [readForRun_eq hcontents hparses, payload_ok, hlast]
    rfl
  · rw [readManifest_eq hcontents]
    exact hfrom
  · rw [verifyMembers_ok]
    simp only [RunPayload.payloads, List.forall_mem_cons, List.not_mem_nil, false_implies,
      implies_true, and_true, verifyMember_ok]
    exact ⟨⟨_, rfl, rfl⟩, ⟨_, rfl, rfl⟩, _, rfl, rfl⟩
  · refine ⟨_, (verify_eq hcontents hparses).trans (by rw [hlast]), ?_, rfl⟩
    apply (checkRecords_ok rfl).mpr
    refine ⟨rfl, ?_⟩
    simp only [NeedsInitramfs.manifest, List.map_cons, List.map_nil, List.forall_mem_cons,
      List.not_mem_nil, false_implies, implies_true, and_true]
    refine ⟨?_, ?_, ?_⟩
    · exact find_hashes (show MEMBER_COMPOSE_LOCK ≠ MEMBER_MANIFEST by decide)
    · exact find_hashes (show MEMBER_KERNEL ≠ MEMBER_MANIFEST by decide)
    · exact find_hashes (show MEMBER_INITRAMFS ≠ MEMBER_MANIFEST by decide)

/-- A sealed artifact reads back as what was sealed, and any archive as its members. -/
theorem sealed_round_trip :
    (∀ (c : Codec) (stack project : String) (anchors : Anchors) (runDefaults : RunDefaults)
        (lock kernel initramfs : Bytes),
      let b :=
        (ArtifactBuilder.composeLock { stack, project, anchors, runDefaults } lock).kernel kernel
      WithinCap b initramfs → JsonRoundTrips c (b.manifest c initramfs) →
        match b.initramfs c initramfs with
        | .error e => ∃ len, MAX_MEMBER_SIZE < len ∧ e = .malformed (.overLimit MEMBER_MANIFEST len)
        | .ok s => ∀ sink : Sink, (sink.Willing → ∃ out, s.writeTo c sink = .ok out) ∧
            ∀ file written, s.writeTo c sink = .ok (file, written) →
              ReadsBack c file { manifest := b.manifest c initramfs, kernel, initramfs,
                                 composeLock := lock } ∧
                written.sha256Hex = c.sha256Hex file ∧ written.len = file.length) ∧
    ∀ (ms : List (Bytes × Bytes)) (sink : Sink), (∀ m ∈ ms, MemberFits m) →
      (sink.Willing → ∃ file, writeArchive sink ms = .ok file) ∧
        ∀ file, writeArchive sink ms = .ok file →
          ∃ es, entries file = es.map .ok ∧ List.Forall₂ (StandsFor file) ms es := by
  constructor
  · intro c stack project anchors runDefaults lock kernel initramfs b hcap hjson
    obtain ⟨v, hv, hread⟩ := hjson
    rw [initramfs_eq hcap hv]
    by_cases hlong : MAX_MEMBER_SIZE < (v ++ [10]).length
    · rw [if_pos hlong]
      exact ⟨(v ++ [10]).length, hlong, rfl⟩
    · rw [if_neg hlong]
      intro sink
      refine ⟨SealedArtifact.writeTo_total, fun file written hwrite => ?_⟩
      obtain ⟨hfile, hreport⟩ := SealedArtifact.writeTo_ok hwrite
      have hback := readsBack_sealed hcap (Nat.le_of_not_lt hlong) hread
      have hmembers : file = archive (sealedMembers b (v ++ [10]) initramfs) := hfile
      rw [← hmembers] at hback
      exact ⟨hback, hreport⟩
  · intro ms sink hfits
    refine ⟨writeArchive_total ms, fun file hwrite => ?_⟩
    rw [writeArchive_ok hwrite]
    exact entries_of_archive hfits

/-! An artifact with one byte in each payload, written byte by byte. -/

def byteSink : Sink where
  takes _ _ := some 1
  flushes := true

theorem willing_byteSink : byteSink.Willing := ⟨fun _ _ _ => ⟨1, rfl, by decide⟩, rfl⟩

def smallBuilder : NeedsInitramfs :=
  (ArtifactBuilder.composeLock ⟨"web", "shop", (sampleManifest "web").anchors,
    (sampleManifest "web").runDefaults⟩ [1]).kernel [2]

theorem sealed_round_trip_small :
    (∃ s out, smallBuilder.initramfs sampleCodec [3] = .ok s ∧
      s.writeTo sampleCodec byteSink = .ok out ∧
      ReadsBack sampleCodec out.1 { manifest := sampleManifest "web", kernel := [2],
                                    initramfs := [3], composeLock := [1] }) ∧
    ∃ file es, writeArchive byteSink [(MEMBER_KERNEL, [2])] = .ok file ∧ entries file = es.map .ok ∧
      List.Forall₂ (StandsFor file) [(MEMBER_KERNEL, [2])] es := by
  constructor
  · have hmanifest : smallBuilder.manifest sampleCodec [3] = sampleManifest "web" := by
      decide +kernel
    have hjson : JsonRoundTrips sampleCodec (smallBuilder.manifest sampleCodec [3]) :=
      ⟨sampleJson "web", by decide +kernel, by decide +kernel⟩
    have hseal : smallBuilder.initramfs sampleCodec [3] =
        .ok { manifestJson := sampleJson "web" ++ [10], composeLock := [1], kernel := [2],
              initramfs := [3] } := by
      decide +kernel
    -- the codec is kept closed, so that nothing is hashed while the theorem is applied
    obtain ⟨c, hc⟩ : ∃ c, sampleCodec = c := ⟨_, rfl⟩
    rw [hc] at hmanifest hjson hseal ⊢
    have h := sealed_round_trip.1 c "web" "shop" (sampleManifest "web").anchors
      (sampleManifest "web").runDefaults [1] [2] [3] ⟨by decide, by decide, by decide⟩ hjson
    change match smallBuilder.initramfs c [3] with | .error _ => _ | .ok _ => _ at h
    rw [hseal] at h
    obtain ⟨out, hout⟩ := (h byteSink).1 willing_byteSink
    have hback := ((h byteSink).2 out.1 out.2 hout).1
    change ReadsBack c out.1 { manifest := smallBuilder.manifest c [3], kernel := _, initramfs := _,
                               composeLock := _ } at hback
    rw [hmanifest] at hback
    exact ⟨_, out, hseal, hout, hback⟩
  · have hfits : ∀ m ∈ [(MEMBER_KERNEL, ([2] : Bytes))], MemberFits m := by
      intro m hm
      rw [List.mem_singleton.mp hm]
      exact ⟨nameFits_members _ (by simp), by decide⟩
    have h := sealed_round_trip.2 [(MEMBER_KERNEL, [2])] byteSink hfits
    obtain ⟨file, hfile⟩ := h.1 willing_byteSink
    obtain ⟨es, hes⟩ := h.2 file hfile
    exact ⟨file, es, hfile, hes⟩

end RoundTrip

end Tdvmm.Artifact
