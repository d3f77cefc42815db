import Tdvmm.Artifact.Read

/-!
# Artifact.Agree — do the three readers see the same artifact?

`verify` looks at the first member of a name, `run` at the last one; `inspect` at the first
manifest, the other two at the last one; and `verify` checks what the manifest lists, while
`run` needs the three payloads. `agreement_iff` says for which archives that `verify` accepts
all of this comes to the same.
-/

namespace Tdvmm.Artifact

open Lib

variable {c : Codec} {file : Bytes} {report : VerifyReport}

def named (name : Bytes) : Except ArtifactError Entry → Bool
  | .ok e => e.name == name
  | .error _ => false

/-- The content of the first member of a name: the one that `verify` compares with a record. -/
def FirstMember (file name data : Bytes) : Prop :=
  ∃ e, (entries file).find? (named name) = some (.ok e) ∧ readContent file e = .ok data

/-- What is needed to run an artifact that `verify` has reported on: it is read and passes the
check of its members, its payloads are the contents that `verify` has checked, and its manifest
is the one that `inspect` shows. -/
def Agreement (c : Codec) (file : Bytes) (report : VerifyReport) : Prop :=
  ∃ p, readForRun c file = .ok p ∧ p.verifyMembers c = .ok () ∧
    readManifest c file = .ok p.manifest ∧
    ∀ m ∈ p.payloads, (∃ check ∈ report.checks, check.name = m.1) ∧ FirstMember file m.1 m.2

/-- The payloads are listed in the manifest, no other content stands under the name of a
payload, and the first manifest is the last one. -/
def Consistent (c : Codec) (file : Bytes) : Prop :=
  ∃ ms x, Contents file ms ∧ lastManifest c ms = some x ∧
    (firstNamed MEMBER_MANIFEST ms).bind (manifestIn c) = some x ∧
    ∀ name ∈ [MEMBER_KERNEL, MEMBER_INITRAMFS, MEMBER_COMPOSE_LOCK],
      name ∈ x.members.map (·.name) ∧ firstNamed name ms = lastNamed name ms

variable {ms : List (Bytes × Bytes)} {x : Manifest}

theorem contents_unique {ms' : List (Bytes × Bytes)} (h : Contents file ms)
    (h' : Contents file ms') : ms = ms' := by
  obtain ⟨es, hes, hreads⟩ := h
  obtain ⟨es', hes', hreads'⟩ := h'
  have hsame : es = es' := by
    apply List.map_injective_iff.mpr (fun a b hab => Except.ok.inj hab)
    rw [← hes, ← hes']
  subst hsame
  clear hes hes'
  induction hreads generalizing ms' with
  | nil =>
    cases hreads'
    rfl
  | cons hm _ ih =>
    cases hreads' with
    | cons hm' hrest' =>
      rw [ih hrest']
      congr 1
      exact Prod.ext (hm.1.symm.trans hm'.1) (Except.ok.inj (hm.2.symm.trans hm'.2))

theorem firstMember_iff (h : Contents file ms) (name data : Bytes) :
    FirstMember file name data ↔ firstNamed name ms = some data := by
  obtain ⟨es, hes, hreads⟩ := h
  unfold FirstMember
  rw [hes]
  clear hes
  induction hreads with
  | nil => simp [firstNamed]
  | cons hm hrest ih =>
    rename_i m e ms es
    rw [firstNamed, List.map_cons]
    by_cases hname : m.1 = name
    · rw [if_pos hname, List.find?_cons_of_pos (by simp [named, hm.1, hname])]
      constructor
      · rintro ⟨e', he', hread⟩
        obtain rfl : e = e' := Except.ok.inj (Option.some_inj.mp he')
        rw [hm.2] at hread
        exact congrArg some (Except.ok.inj hread)
      · intro hdata
        refine ⟨e, rfl, ?_⟩
        rw [hm.2, Option.some_inj.mp hdata]
    · rw [if_neg hname, List.find?_cons_of_neg (by simp [named, hm.1, hname])]
      exact ih

theorem first_of_listed (hok : report.allOk = true)
    (hchecks : checkRecords (hashes c ms) x.members ([], []) = (report.checks, report.missing))
    {r : Member} (hr : r ∈ x.members) (hname : r.name ≠ MEMBER_MANIFEST) :
    ∃ data, firstNamed r.name ms = some data ∧ c.sha256Hex data = r.sha256 := by
  have hall := ((checkRecords_ok hchecks).mp hok).2 r hr
  rw [find_hashes hname] at hall
  simpa [Option.map_eq_some_iff] using hall

theorem check_of_listed (hok : report.allOk = true)
    (hchecks : checkRecords (hashes c ms) x.members ([], []) = (report.checks, report.missing))
    {name : Bytes} (hlisted : name ∈ x.members.map (·.name)) :
    ∃ check ∈ report.checks, check.name = name := by
  have hmissing : report.missing = [] := by
    rw [VerifyReport.allOk, Bool.and_eq_true, List.isEmpty_iff] at hok
    exact hok.1
  rcases (names_checkRecords hchecks name).mpr (.inr hlisted) with h | h
  · exact List.mem_map.mp h
  · rw [hmissing] at h
    cases h

theorem consistent_of_agreement (hcontents : Contents file ms)
    (hparses : Parses c ms) (h : Agreement c file report) : Consistent c file := by
  obtain ⟨p, hrun, hmembers, hinspect, hused⟩ := h
  rw [readForRun_eq hcontents hparses, payload_ok, Found.mk.injEq] at hrun
  obtain ⟨hmanifest, hkernel, hinitramfs, hlock⟩ := hrun
  refine ⟨ms, p.manifest, hcontents, hmanifest, ?_, ?_⟩
  · rw [readManifest_eq hcontents] at hinspect
    cases hfirst : firstNamed MEMBER_MANIFEST ms with
    | none =>
      rw [hfirst] at hinspect
      cases hinspect
    | some bytes =>
      rw [hfirst] at hinspect
      rw [Option.bind_some, manifestIn,
        show Manifest.fromBytes c bytes = .ok p.manifest from hinspect]
      rfl
  · have hpayload : ∀ m ∈ p.payloads, m.1 ∈ p.manifest.members.map (·.name) ∧
        firstNamed m.1 ms = some m.2 := by
      intro m hm
      refine ⟨?_, (firstMember_iff hcontents _ _).mp (hused m hm).2⟩
      obtain ⟨want, hwant, -⟩ := verifyMember_ok.mp (verifyMembers_ok.mp hmembers m hm)
      rw [Manifest.member] at hwant
      have hname : want.name = m.1 := by simpa using List.find?_some hwant
      rw [← hname]
      exact List.mem_map_of_mem (List.mem_of_find?_eq_some hwant)
    simp only [RunPayload.payloads, List.forall_mem_cons, List.not_mem_nil, false_implies,
      implies_true, and_true] at hpayload ⊢
    rw [hkernel, hinitramfs, hlock]
    exact hpayload

theorem agreement_of_consistent
    (hcontents : Contents file ms) (hparses : Parses c ms) (hlast : lastManifest c ms = some x)
    (hok : report.allOk = true)
    (hchecks : checkRecords (hashes c ms) x.members ([], []) = (report.checks, report.missing))
    (h : Consistent c file) : Agreement c file report := by
  obtain ⟨ms', x', hcontents', hlast', hfirst, hnames⟩ := h
  obtain rfl := contents_unique hcontents hcontents'
  obtain rfl : x = x' := Option.some_inj.mp (hlast.symm.trans hlast')
  have hnotManifest : ∀ name ∈ [MEMBER_KERNEL, MEMBER_INITRAMFS, MEMBER_COMPOSE_LOCK],
      name ≠ MEMBER_MANIFEST := by
    decide
  -- every payload is there, and checked against its record
  have hpayload : ∀ name ∈ [MEMBER_KERNEL, MEMBER_INITRAMFS, MEMBER_COMPOSE_LOCK],
      ∃ data want, firstNamed name ms = some data ∧ lastNamed name ms = some data ∧
        x.member name = some want ∧ c.sha256Hex data = want.sha256 := by
    intro name hname
    obtain ⟨hlisted, hsame⟩ := hnames name hname
    obtain ⟨r, hr, hrname⟩ := List.mem_map.mp hlisted
    obtain ⟨want, hwant⟩ : ∃ want, x.member name = some want := by
      rw [← Option.isSome_iff_exists, Manifest.member, List.find?_isSome]
      exact ⟨r, hr, by simpa using hrname⟩
    have hwantname : want.name = name := by simpa using List.find?_some hwant
    have hne : want.name ≠ MEMBER_MANIFEST := by
      rw [hwantname]
      exact hnotManifest name hname
    obtain ⟨data, hdata, hsha⟩ := first_of_listed hok hchecks (List.mem_of_find?_eq_some hwant) hne
    rw [hwantname] at hdata
    exact ⟨data, want, hdata, hsame ▸ hdata, hwant, hsha⟩
  obtain ⟨k, wk, hk, hk', hwk, hshak⟩ := hpayload MEMBER_KERNEL (by simp)
  obtain ⟨i, wi, hi, hi', hwi, hshai⟩ := hpayload MEMBER_INITRAMFS (by simp)
  obtain ⟨l, wl, hl, hl', hwl, hshal⟩ := hpayload MEMBER_COMPOSE_LOCK (by simp)
  refine ⟨{ manifest := x, kernel := k, initramfs := i, composeLock := l }, ?_, ?_, ?_, ?_⟩
  · rw [readForRun_eq hcontents hparses, payload_ok, hlast, hk', hi', hl']
  · rw [verifyMembers_ok]
    simp only [RunPayload.payloads, List.forall_mem_cons, List.not_mem_nil, false_implies,
      implies_true, and_true, verifyMember_ok]
    exact ⟨⟨wk, hwk, hshak⟩, ⟨wi, hwi, hshai⟩, wl, hwl, hshal⟩
  · rw [readManifest_eq hcontents]
    obtain ⟨bytes, hbytes, hin⟩ := Option.bind_eq_some_iff.mp hfirst
    obtain ⟨y, hy, hiny⟩ := fromBytes_of_isSome (by rw [hin]; rfl)
    rw [hbytes]
    rw [hin, Option.some_inj] at hiny
    rw [hiny]
    exact hy
  · simp only [RunPayload.payloads, List.forall_mem_cons, List.not_mem_nil, false_implies,
      implies_true, and_true, firstMember_iff hcontents]
    refine ⟨⟨?_, hk⟩, ⟨?_, hi⟩, ?_, hl⟩
    · exact check_of_listed hok hchecks (hnames _ (by simp)).1
    · exact check_of_listed hok hchecks (hnames _ (by simp)).1
    · exact check_of_listed hok hchecks (hnames _ (by simp)).1

/-- The three readers agree on an archive that `verify` accepts exactly if it is consistent. -/
theorem agreement_iff (h : verify c file = .ok report) (hok : report.allOk = true) :
    Agreement c file report ↔ Consistent c file := by
  obtain ⟨ms, x, hcontents, hparses, hlast, hchecks⟩ := verify_ok h
  constructor
  · exact consistent_of_agreement hcontents hparses
  · exact agreement_of_consistent hcontents hparses hlast hok hchecks

/-! The sample artifact with another manifest behind, and as it should be. -/

theorem manifest_swapped :
    ∃ (c : Codec) (file : Bytes) (report : VerifyReport), verify c file = .ok report ∧
      report.allOk = true ∧ ¬ Agreement c file report := by
  have hcontents := contents_archive fits_sampleMembers
  have hparses : Parses sampleCodec (sampleMembers ++ [otherManifest]) := by
    unfold Parses
    decide +kernel
  have hlast : lastManifest sampleCodec (sampleMembers ++ [otherManifest]) =
      some (sampleManifest "api") := by decide +kernel
  have hverify := verify_eq hcontents hparses
  rw [hlast] at hverify
  refine ⟨sampleCodec, _, _, hverify, by decide +kernel, ?_⟩
  intro h
  obtain ⟨ms, x, hcontents', hrun, hfirst, -⟩ := consistent_of_agreement hcontents hparses h
  obtain rfl := contents_unique hcontents hcontents'
  -- `inspect` sees the manifest in front, `verify` and `run` the one behind
  have hdiff : (firstNamed MEMBER_MANIFEST (sampleMembers ++ [otherManifest])).bind
      (manifestIn sampleCodec) ≠ some (sampleManifest "api") := by
    decide +kernel
  exact hdiff (hfirst.trans (hrun.symm.trans hlast))

theorem agreement_iff_plain :
    ∃ report, verify sampleCodec (archive sampleMembers) = .ok report ∧ report.allOk = true ∧
      report.fileSha256 = "48ff21dd249ab714d84325e27141e744f1e7571d3517ac41779647f1fba6f301" ∧
      Agreement sampleCodec (archive sampleMembers) report := by
  have hcontents := contents_archive fun m hm => fits_sampleMembers m (List.mem_append_left _ hm)
  have hparses : Parses sampleCodec sampleMembers := by
    unfold Parses
    decide +kernel
  have hlast : lastManifest sampleCodec sampleMembers = some (sampleManifest "web") := by
    decide +kernel
  have hverify := verify_eq hcontents hparses
  rw [hlast] at hverify
  refine ⟨_, hverify, by decide +kernel, by decide +kernel,
    (agreement_iff hverify (by decide +kernel)).mpr ?_⟩
  exact ⟨sampleMembers, sampleManifest "web", hcontents, hlast, by decide +kernel,
    by decide +kernel⟩

end Tdvmm.Artifact
