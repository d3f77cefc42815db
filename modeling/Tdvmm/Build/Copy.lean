import Tdvmm.Build.Rootfs

/-!
# Build.Copy — what a copy leaves in the tree

A copy makes the nodes of its tree one after the other (`copyTree_eq`), until the host
refuses a call. A file that it got to is there, whole unless the copy stopped in it
(`copy_result`); a copy that succeeds was allowed everything (`copy_allowed`).
-/

namespace Tdvmm.Build.Rootfs

open Lib Lib.Fs Lib.Eff

mutual

/-- The nodes of a tree that is put at `d`, in the order in which they are made. -/
def visits (d : Place) : Tree Name → List (Place × Node)
  | .file bytes mode => [(d, .file bytes mode)]
  | .link target => [(d, .link target)]
  | .dir mode entries => (d, .dir mode) :: visitsEntries d entries

def visitsEntries (d : Place) : List (Name × Tree Name) → List (Place × Node)
  | [] => []
  | (name, t) :: rest => visits (d ++ [name]) t ++ visitsEntries d rest

end

def visit (host : Host) (v : Place × Node) : Eff Errno Rootfs Unit :=
  match v.2 with
  | .file bytes mode => copyFile host bytes mode v.1
  | .link target => copyLink (calls host) target v.1
  | .dir mode => copyDir (calls host) mode v.1

/-- The host refuses no call that makes this node. -/
def Allowed (host : Host) (v : Place × Node) : Prop :=
  match v.2 with
  | .file _ _ => host.refuses .copy v.1 = none
  | .link _ => host.refuses .symlink v.1 = none
  | .dir _ => host.refuses .createDir v.1 = none ∧ host.refuses .setMode v.1 = none ∧
      host.refuses .readSource v.1 = none

instance (host : Host) (v : Place × Node) : Decidable (Allowed host v) := by
  unfold Allowed
  cases v.2 <;> infer_instance

/-- The copy gets to a file and writes all of it: nothing is refused before it, and it is
either not refused itself or only after its last byte. -/
def Written (host : Host) (vs : List (Place × Node)) (p : Place) (bytes : List UInt8) : Prop :=
  ∃ pre mode post, vs = pre ++ (p, .file bytes mode) :: post ∧ (∀ v ∈ pre, Allowed host v) ∧
    (Allowed host (p, .file bytes mode) ∨ ∃ k, host.leaves p = some k ∧ bytes.length ≤ k)

section Copy

variable {host : Host} {s : Rootfs} {p d : Place}

mutual

/-- A copy makes the nodes of the tree one after the other. -/
theorem copyTree_eq : ∀ (t : Tree Name) (d : Place),
    copyTree (calls host) t d = forM (visits d t) (visit host)
  | .file bytes mode, d => by
    unfold copyTree visits
    simp [visit, calls]
  | .link target, d => by
    unfold copyTree visits
    simp [visit]
  | .dir mode entries, d => by
    unfold copyTree visits
    rw [copyEntries_eq entries d]
    simp [visit]

theorem copyEntries_eq : ∀ (entries : List (Name × Tree Name)) (d : Place),
    copyEntries (calls host) entries d = forM (visitsEntries d entries) (visit host)
  | [], d => by
    unfold copyEntries visitsEntries
    simp
  | (name, t) :: rest, d => by
    unfold copyEntries visitsEntries
    rw [copyTree_eq t, copyEntries_eq rest, List.forM_append]
    rfl

end

theorem moves_visit (v : Place × Node) : Moves (· = v.1) (visit host v) := by
  unfold visit
  split
  · exact moves_copyFile
  · exact moves_copyLink
  · exact moves_copyDir

theorem moves_forM_visit (vs : List (Place × Node)) :
    Moves (· ∈ vs.map (·.1)) (forM vs (visit host)) := by
  apply moves_forM
  intro v hv
  exact (moves_visit v).mono fun _ heq => heq ▸ List.mem_map_of_mem hv

/-! One node, made in a directory that is there and where nothing is yet. -/

theorem create_run {n : Node} (hparent : s.hasParent p = true) (hnone : s.get? p = none) :
    (create p n).run s = (.ok (), s.put p n) := by
  unfold create
  rw [run_read_bind]
  simp [hparent, hnone]

theorem ask_run {c : Call} (h : host.refuses c p = none) : (ask host c p).run s = (.ok (), s) := by
  unfold ask
  rw [h]
  rfl

theorem ask_refused {c : Call} (h : host.refuses c p ≠ none) :
    ∃ e, (ask host c p).run s = (.error e, s) := by
  unfold ask
  cases hr : host.refuses c p with
  | none => exact absurd hr h
  | some e => exact ⟨e, rfl⟩

theorem copyLink_run {target : String} (hnone : s.get? p = none) :
    (copyLink (calls host) target p).run s = (symlink host target p).run s := by
  have hremove : (attempt (removeFile p)).run s = (.ok (.ok ()), s) := by
    simp [removeFile, hnone]
  exact run_bind_ok hremove

variable {mode : Nat} {v : Place × Node} {vs : List (Place × Node)} {bytes : List UInt8}

theorem copyDir_run (hnone : s.get? p = none) :
    (copyDir (calls host) mode p).run s = (do
      createDir host p
      setMode host p (mode % 0o10000)
      ask host .readSource p).run s := by
  unfold copyDir
  rw [run_read_bind]
  simp [calls, hnone, Eff.when]

theorem createDir_run (hask : host.refuses .createDir p = none) (hparent : s.hasParent p = true)
    (hnone : s.get? p = none) : (createDir host p).run s = (.ok (), s.put p (.dir 0o777)) := by
  unfold createDir
  rw [run_bind_ok (ask_run hask), create_run hparent hnone]

theorem setMode_run {m : Nat} (hask : host.refuses .setMode p = none)
    (hdir : s.get? p = some (.dir m)) :
    (setMode host p mode).run s = (.ok (), s.put p (.dir mode)) := by
  unfold setMode
  rw [run_bind_ok (ask_run hask), run_read_bind, hdir]
  rfl

theorem visit_allowed (ha : Allowed host v) (hparent : s.hasParent v.1 = true)
    (hnone : s.get? v.1 = none) :
    ∃ s' n, (visit host v).run s = (.ok (), s') ∧ s'.get? v.1 = some n ∧ n.isDir = v.2.isDir ∧
      ∀ bytes mode, v.2 = .file bytes mode → n = v.2 := by
  obtain ⟨p, n⟩ := v
  unfold Allowed at ha
  unfold visit
  cases n with
  | file bytes mode =>
    dsimp only at ha ⊢
    unfold copyFile
    rw [ha]
    exact ⟨_, _, create_run hparent hnone, get?_put_self, rfl, fun _ _ _ => rfl⟩
  | link target =>
    dsimp only at ha ⊢
    rw [copyLink_run hnone, symlink, run_bind_ok (ask_run ha)]
    exact ⟨_, _, create_run hparent hnone, get?_put_self, rfl, fun _ _ h => by cases h⟩
  | dir mode =>
    obtain ⟨hcreate, hmode, hread⟩ := ha
    dsimp only
    rw [copyDir_run hnone, run_bind_ok (createDir_run hcreate hparent hnone),
      run_bind_ok (setMode_run hmode get?_put_self), ask_run hread]
    exact ⟨_, _, rfl, get?_put_self, rfl, fun _ _ h => by cases h⟩

theorem visit_refused (ha : ¬ Allowed host v) (hparent : s.hasParent v.1 = true)
    (hnone : s.get? v.1 = none) :
    ∃ e s', (visit host v).run s = (.error e, s') ∧ ∀ bytes mode, v.2 = .file bytes mode →
      s'.get? v.1 = (host.leaves v.1).map fun k => .file (bytes.take k) mode := by
  -- one that it refuses stops the copy, and of a file a part may be there
  obtain ⟨p, n⟩ := v
  unfold Allowed at ha
  unfold visit
  cases n with
  | file bytes mode =>
    dsimp only at ha ⊢
    unfold copyFile
    obtain ⟨e, he⟩ := Option.ne_none_iff_exists'.mp ha
    rw [he]
    cases hleft : host.leaves p with
    | none =>
      refine ⟨e, s, rfl, ?_⟩
      intro bytes' mode' _
      rw [hnone]
      rfl
    | some k =>
      dsimp only
      rw [run_bind_ok (create_run hparent hnone)]
      refine ⟨e, _, rfl, ?_⟩
      rintro bytes' mode' ⟨⟩
      exact get?_put_self
  | link target =>
    dsimp only at ha ⊢
    obtain ⟨e, he⟩ := ask_refused ha (s := s)
    rw [copyLink_run hnone, symlink, run_bind_error he]
    exact ⟨e, _, rfl, fun _ _ h => by cases h⟩
  | dir mode =>
    dsimp only at ha ⊢
    rw [copyDir_run hnone]
    -- the first of the three calls that is refused
    by_cases hcreate : host.refuses .createDir p = none
    · rw [run_bind_ok (createDir_run hcreate hparent hnone)]
      by_cases hmode : host.refuses .setMode p = none
      · have hread : host.refuses .readSource p ≠ none := fun h => ha ⟨hcreate, hmode, h⟩
        rw [run_bind_ok (setMode_run hmode get?_put_self)]
        obtain ⟨e, he⟩ := @ask_refused host ((s.put p (.dir 0o777)).put p (.dir (mode % 0o10000))) p
          .readSource hread
        exact ⟨e, _, he, fun _ _ h => by cases h⟩
      · obtain ⟨e, he⟩ := @ask_refused host (s.put p (.dir 0o777)) p .setMode hmode
        refine ⟨e, s.put p (.dir 0o777), ?_, fun _ _ h => by cases h⟩
        rw [run_bind_error]
        unfold setMode
        exact run_bind_error he
    · obtain ⟨e, he⟩ := @ask_refused host s p .createDir hcreate
      refine ⟨e, s, ?_, fun _ _ h => by cases h⟩
      rw [run_bind_error]
      unfold createDir
      exact run_bind_error he

/-! A list of nodes, each in a directory that was there before or is made before it. -/

/-- Every node goes into a known directory; a directory is known once it is made. -/
def Parented : List Place → List (Place × Node) → Prop
  | _, [] => True
  | known, v :: vs => v.1 ≠ [] ∧ v.1.dropLast ∈ known ∧
      Parented (if v.2.isDir then v.1 :: known else known) vs

theorem Parented.mono {known known' : List Place}
    (h : Parented known vs) (hsub : known ⊆ known') : Parented known' vs := by
  induction vs generalizing known known' with
  | nil => trivial
  | cons v vs ih =>
    obtain ⟨hne, hparent, hrest⟩ := h
    refine ⟨hne, hsub hparent, ih hrest ?_⟩
    split
    · exact List.cons_subset_cons _ hsub
    · exact hsub

theorem Parented.append {known : List Place} {ws : List (Place × Node)}
    (hvs : Parented known vs) (hws : Parented known ws) : Parented known (vs ++ ws) := by
  induction vs generalizing known with
  | nil => exact hws
  | cons v vs ih =>
    obtain ⟨hne, hparent, hrest⟩ := hvs
    refine ⟨hne, hparent, ih hrest (hws.mono ?_)⟩
    split
    · exact List.subset_cons_self _ _
    · exact List.Subset.refl _

mutual

theorem parented_visits : ∀ (t : Tree Name) {d : Place} {name : Name} {known : List Place},
    d ∈ known → Parented known (visits (d ++ [name]) t)
  | .file _ _, d, name, known, hd => by
    unfold visits
    exact ⟨by simp, by simpa using hd, trivial⟩
  | .link _, d, name, known, hd => by
    unfold visits
    exact ⟨by simp, by simpa using hd, trivial⟩
  | .dir _ entries, d, name, known, hd => by
    unfold visits
    refine ⟨by simp, by simpa using hd, ?_⟩
    exact parented_visitsEntries entries (by simp [Node.isDir])

theorem parented_visitsEntries : ∀ (entries : List (Name × Tree Name)) {d : Place}
    {known : List Place}, d ∈ known → Parented known (visitsEntries d entries)
  | [], d, known, _ => by
    unfold visitsEntries
    trivial
  | (name, t) :: rest, d, known, hd => by
    unfold visitsEntries
    exact (parented_visits t hd).append (parented_visitsEntries rest hd)

end

theorem written_cons_ne
    (hne : v.1 ≠ p) :
    Written host (v :: vs) p bytes ↔ Allowed host v ∧ Written host vs p bytes := by
  constructor
  · rintro ⟨pre, mode, post, heq, hpre, hlast⟩
    cases pre with
    | nil =>
      rw [List.nil_append, List.cons.injEq] at heq
      exact absurd (congrArg Prod.fst heq.1) hne
    | cons w pre =>
      rw [List.cons_append, List.cons.injEq] at heq
      obtain ⟨rfl, rfl⟩ := heq
      exact ⟨hpre v (by simp), pre, mode, post, rfl, fun w hw => hpre w (by simp [hw]), hlast⟩
  · rintro ⟨hv, pre, mode, post, rfl, hpre, hlast⟩
    refine ⟨v :: pre, mode, post, rfl, ?_, hlast⟩
    intro w hw
    rcases List.mem_cons.mp hw with rfl | hw
    · exact hv
    · exact hpre w hw

theorem written_cons_self
    (hp : p ∉ vs.map (·.1)) : Written host ((p, .file bytes mode) :: vs) p bytes ↔
      Allowed host (p, .file bytes mode) ∨ ∃ k, host.leaves p = some k ∧ bytes.length ≤ k := by
  constructor
  · rintro ⟨pre, mode', post, heq, -, hlast⟩
    cases pre with
    | nil =>
      rw [List.nil_append, List.cons.injEq] at heq
      rwa [heq.1]
    | cons w pre =>
      exfalso
      rw [List.cons_append, List.cons.injEq] at heq
      exact hp (by simp [heq.2])
  · exact fun hlast => ⟨[], mode, vs, rfl, by simp, hlast⟩

/-- A list of nodes that can be made in a tree: their directories are known, and nothing is
at their places. -/
structure Copyable (s : Rootfs) (known : List Place) (vs : List (Place × Node)) : Prop where
  parented : Parented known vs
  known : ∀ k ∈ known, s.isDir k = true
  nodup : (vs.map (·.1)).Nodup
  fresh : ∀ v ∈ vs, s.get? v.1 = none

section Copyable

variable {known : List Place} {v : Place × Node} {vs : List (Place × Node)}

theorem Copyable.hasParent (h : Copyable s known (v :: vs)) : s.hasParent v.1 = true := by
  simp [Rootfs.hasParent, h.known _ h.parented.2.1]

theorem Copyable.not_mem (h : Copyable s known (v :: vs)) : v.1 ∉ vs.map (·.1) :=
  (List.nodup_cons.mp h.nodup).1

theorem Copyable.ne {w : Place × Node} (h : Copyable s known (v :: vs)) (hw : w ∈ vs) :
    w.1 ≠ v.1 := by
  intro heq
  have hv := h.not_mem
  rw [← heq] at hv
  exact hv (List.mem_map.mpr ⟨w, hw, rfl⟩)

theorem Copyable.allowed (h : Copyable s known (v :: vs)) (ha : Allowed host v) :
    ∃ s', (visit host v).run s = (.ok (), s') ∧
      (∀ bytes mode, v.2 = .file bytes mode → s'.get? v.1 = some v.2) ∧
      Copyable s' (if v.2.isDir then v.1 :: known else known) vs := by
  obtain ⟨s', n, hrun, hget, hkind, hfile⟩ :=
    visit_allowed ha h.hasParent (h.fresh v List.mem_cons_self)
  have hmoved : Changes (· = v.1) s s' := by
    have hmoves := @moves_visit host v s
    rwa [hrun] at hmoves
  refine ⟨s', hrun, ?_, h.parented.2.2, ?_, (List.nodup_cons.mp h.nodup).2, ?_⟩
  · intro bytes mode hv
    rw [hget, hfile bytes mode hv]
  · intro k hk
    split at hk
    · rename_i hdir
      rcases List.mem_cons.mp hk with rfl | hk
      · simp [isDir, hget, hkind, hdir]
      · exact hmoved.isDir (h.known k hk)
    · exact hmoved.isDir (h.known k hk)
  · intro w hw
    rw [hmoved.get? (h.ne hw)]
    exact h.fresh w (List.mem_cons_of_mem _ hw)

/-- What a copy leaves of a file: nothing when it did not get there, else a first part of
it, and all of it exactly when the file was written. -/
theorem copy_result (h : Copyable s known vs) {bytes : List UInt8} {mode : Nat}
    (hmem : (p, .file bytes mode) ∈ vs) :
    (((forM vs (visit host)).run s).2.get? p = none ∧ ¬ Written host vs p bytes) ∨
      ∃ part, ((forM vs (visit host)).run s).2.get? p = some (.file part mode) ∧ part <+: bytes ∧
        (Written host vs p bytes ↔ part = bytes) := by
  induction vs generalizing s known with
  | nil => cases hmem
  | cons v vs ih =>
    rw [List.forM_cons]
    by_cases ha : Allowed host v
    · obtain ⟨s', hrun, hfile, hrest⟩ := h.allowed ha
      rw [run_bind_ok hrun]
      rcases List.mem_cons.mp hmem with rfl | hmem
      · -- this file: nothing after it is at its place
        refine .inr ⟨bytes, ?_, List.prefix_rfl, ?_⟩
        · rw [(moves_forM_visit vs s').get? h.not_mem, hfile bytes mode rfl]
        · simp [written_cons_self h.not_mem, ha]
      · rw [written_cons_ne (h.ne hmem).symm]
        simp only [ha, true_and]
        exact ih hrest hmem
    · obtain ⟨e, s', hrun, hfile⟩ :=
        visit_refused ha h.hasParent (h.fresh v List.mem_cons_self)
      have hmoved : Changes (· = v.1) s s' := by
        have hmoves := @moves_visit host v s
        rwa [hrun] at hmoves
      rw [run_bind_error hrun]
      rcases List.mem_cons.mp hmem with rfl | hmem
      · rw [hfile bytes mode rfl, written_cons_self h.not_mem]
        cases hleft : host.leaves p with
        | none => exact .inl ⟨rfl, by simp [ha]⟩
        | some k =>
          refine .inr ⟨bytes.take k, rfl, List.take_prefix _ _, ?_⟩
          simp [ha, List.take_eq_self_iff]
      · refine .inl ⟨?_, by simp [written_cons_ne (h.ne hmem).symm, ha]⟩
        rw [hmoved.get? (h.ne hmem)]
        exact h.fresh _ (List.mem_cons_of_mem _ hmem)

theorem copy_allowed (h : Copyable s known vs)
    (hok : ((forM vs (visit host)).run s).1 = .ok ()) : ∀ v ∈ vs, Allowed host v := by
  induction vs generalizing s known with
  | nil => simp
  | cons v vs ih =>
    rw [List.forM_cons] at hok
    by_cases ha : Allowed host v
    · obtain ⟨s', hrun, -, hrest⟩ := h.allowed ha
      rw [run_bind_ok hrun] at hok
      intro w hw
      rcases List.mem_cons.mp hw with rfl | hw
      · exact ha
      · exact ih hrest hok w hw
    · obtain ⟨e, s', hrun, -⟩ := visit_refused ha h.hasParent (h.fresh v List.mem_cons_self)
      rw [run_bind_error hrun] at hok
      cases hok

end Copyable

theorem written_of_allowed (hall : ∀ v ∈ vs, Allowed host v)
    (hmem : (p, .file bytes mode) ∈ vs) :
    Written host vs p bytes := by
  obtain ⟨pre, post, rfl⟩ := List.append_of_mem hmem
  exact ⟨pre, mode, post, rfl, fun v hv => hall v (by simp [hv]), .inl (hall _ hmem)⟩

end Copy

/-! ## Trees without two entries of one name -/

mutual

/-- No two entries of a directory share a name. -/
def Distinct : Tree Name → Prop
  | .dir _ entries => DistinctEntries entries
  | _ => True

def DistinctEntries : List (Name × Tree Name) → Prop
  | [] => True
  | (name, t) :: rest => name ∉ rest.map (·.1) ∧ Distinct t ∧ DistinctEntries rest

end

section Distinct

variable {s : Rootfs} {d : Place}

mutual

theorem prefix_of_mem_visits : ∀ (t : Tree Name) {d : Place} {v : Place × Node},
    v ∈ visits d t → d <+: v.1
  | .file _ _, d, v, hv => by
    unfold visits at hv
    rw [List.mem_singleton.mp hv]
  | .link _, d, v, hv => by
    unfold visits at hv
    rw [List.mem_singleton.mp hv]
  | .dir _ entries, d, v, hv => by
    unfold visits at hv
    rcases List.mem_cons.mp hv with rfl | hv
    · exact List.prefix_rfl
    · obtain ⟨name, -, hpre⟩ := prefix_of_mem_visitsEntries entries hv
      exact (List.prefix_append d [name]).trans hpre

theorem prefix_of_mem_visitsEntries : ∀ (entries : List (Name × Tree Name)) {d : Place}
    {v : Place × Node}, v ∈ visitsEntries d entries →
      ∃ name ∈ entries.map (·.1), d ++ [name] <+: v.1
  | [], d, v, hv => by
    unfold visitsEntries at hv
    cases hv
  | (name, t) :: rest, d, v, hv => by
    unfold visitsEntries at hv
    rcases List.mem_append.mp hv with hv | hv
    · exact ⟨name, by simp, prefix_of_mem_visits t hv⟩
    · obtain ⟨other, hother, hpre⟩ := prefix_of_mem_visitsEntries rest hv
      exact ⟨other, by simp only [List.map_cons, List.mem_cons, hother, or_true], hpre⟩

end

mutual

theorem nodup_visits : ∀ (t : Tree Name) {d : Place}, Distinct t →
    ((visits d t).map (·.1)).Nodup
  | .file _ _, d, _ => by
    unfold visits
    exact List.nodup_singleton _
  | .link _, d, _ => by
    unfold visits
    exact List.nodup_singleton _
  | .dir _ entries, d, hdistinct => by
    unfold visits
    unfold Distinct at hdistinct
    refine List.nodup_cons.mpr ⟨?_, nodup_visitsEntries entries hdistinct⟩
    intro hmem
    obtain ⟨v, hv, heq⟩ := List.mem_map.mp hmem
    obtain ⟨name, -, hpre⟩ := prefix_of_mem_visitsEntries entries hv
    -- a place below `d` is not `d`
    rw [heq] at hpre
    have hlen := hpre.length_le
    simp only [List.length_append, List.length_singleton] at hlen
    omega

theorem nodup_visitsEntries : ∀ (entries : List (Name × Tree Name)) {d : Place},
    DistinctEntries entries → ((visitsEntries d entries).map (·.1)).Nodup
  | [], d, _ => by
    unfold visitsEntries
    exact List.nodup_nil
  | (name, t) :: rest, d, hdistinct => by
    unfold visitsEntries
    unfold DistinctEntries at hdistinct
    obtain ⟨hname, ht, hrest⟩ := hdistinct
    rw [List.map_append, List.nodup_append]
    refine ⟨nodup_visits t ht, nodup_visitsEntries rest hrest, ?_⟩
    rintro p hp q hq rfl
    obtain ⟨v, hv, rfl⟩ := List.mem_map.mp hp
    obtain ⟨w, hw, heq⟩ := List.mem_map.mp hq
    have hpre := prefix_of_mem_visits t hv
    obtain ⟨other, hother, hpre'⟩ := prefix_of_mem_visitsEntries rest hw
    rw [heq] at hpre'
    have heq : d ++ [name] = d ++ [other] :=
      (List.prefix_of_prefix_length_le hpre hpre' (by simp)).eq_of_length (by simp)
    have hnames : name = other := by simpa using heq
    exact hname (hnames ▸ hother)

end

/-- A tree can be copied to a name of a directory below which there is nothing yet. -/
theorem copyable_visits {t : Tree Name} {name : Name} (ht : Distinct t) (hd : s.isDir d = true)
    (hfresh : ∀ q, d ++ [name] <+: q → s.get? q = none) :
    Copyable s [d] (visits (d ++ [name]) t) where
  parented := parented_visits t (by simp)
  known := by simpa using hd
  nodup := nodup_visits t ht
  fresh := fun v hv => hfresh v.1 (prefix_of_mem_visits t hv)

theorem copyable_visitsEntries {entries : List (Name × Tree Name)}
    (hentries : DistinctEntries entries)
    (hd : s.isDir d = true) (hfresh : ∀ q, d <+: q → q ≠ d → s.get? q = none) :
    Copyable s [d] (visitsEntries d entries) where
  parented := parented_visitsEntries entries (by simp)
  known := by simpa using hd
  nodup := nodup_visitsEntries entries hentries
  fresh := by
    intro v hv
    obtain ⟨name, -, hpre⟩ := prefix_of_mem_visitsEntries entries hv
    apply hfresh v.1 ((List.prefix_append d [name]).trans hpre)
    intro heq
    rw [heq] at hpre
    have hlen := hpre.length_le
    simp only [List.length_append, List.length_singleton] at hlen
    omega

end Distinct

end Tdvmm.Build.Rootfs
