import Mathlib.Data.List.Perm.Subperm
import Tdvmm.Build.Rootfs

/-!
# Build.Walk — the files that a walk lists

`walkFiles` keeps the directories it has still to list on a stack. In a shaped tree it
lists every regular file below its directory (`mem_walkFiles`), each once
(`nodup_walkFiles`), and with the fuel it is given it comes to its end (`walkFiles_total`).
So what it lists is a directory as it is hashed (`walked`).
-/

namespace Tdvmm.Build.Rootfs

open Lib Lib.Text Lib.Fs Lib.Eff

section Walk

variable {host : Host} {s : Rootfs} {d p q : Place}

theorem mem_children : p ∈ s.children d ↔ (∃ n, s.get? p = some n) ∧ p ≠ [] ∧ p.dropLast = d := by
  unfold children
  rw [List.mem_filter, mem_keys]
  simp

theorem concat_of_child (h : p ∈ s.children d) : ∃ x, p = d ++ [x] := by
  obtain ⟨-, hne, rfl⟩ := mem_children.mp h
  exact ⟨p.getLast hne, (List.dropLast_append_getLast hne).symm⟩

theorem nodup_children (hs : Shaped s) : (s.children d).Nodup := hs.nodup.filter _

theorem isDir_eq_false_of_isFile (h : s.isFile p = true) : s.isDir p = false := by
  unfold isFile at h
  unfold isDir
  split at h
  · rename_i hget
    rw [hget]
    rfl
  · cases h

/-- The files that a walk from these directories can reach. -/
def Reach (s : Rootfs) (stack : List Place) (p : Place) : Prop :=
  s.isFile p = true ∧ ∃ d ∈ stack, d <+: p ∧ s.isDir d = true

variable {files out stack : List Place} {n : Nat}

theorem reach_cons (hs : Shaped s) (hd : s.isDir d = true) :
    Reach s (d :: stack) p ↔
      p ∈ (s.children d).filter (s.isFile ·) ∨
        Reach s (((s.children d).filter (s.isDir ·)).reverse ++ stack) p := by
  -- listing a directory finds its files, and leaves its directories to be listed
  constructor
  · rintro ⟨hfile, d', hd', hpre, hdir⟩
    rcases List.mem_cons.mp hd' with rfl | hd'
    · -- the file is a child, or below the child that the path goes through
      obtain ⟨rest, rfl⟩ := hpre
      cases rest with
      | nil =>
        rw [List.append_nil] at hfile
        rw [isDir_eq_false_of_isFile hfile] at hdir
        cases hdir
      | cons x rest =>
        obtain ⟨n, hn⟩ : ∃ n, s.get? (d' ++ x :: rest) = some n := by
          unfold isFile at hfile
          split at hfile
          · exact ⟨_, by assumption⟩
          · cases hfile
        by_cases hnil : rest = []
        · subst hnil
          refine .inl (List.mem_filter.mpr ⟨mem_children.mpr ⟨⟨n, hn⟩, by simp, by simp⟩, hfile⟩)
        · have hchild : d' ++ [x] <+: d' ++ x :: rest := ⟨rest, by simp⟩
          have hdirx := hs.above hn hchild (by simpa using Ne.symm hnil)
          have hmem : d' ++ [x] ∈ s.children d' := by
            refine mem_children.mpr ⟨?_, by simp, by simp⟩
            cases hx : s.get? (d' ++ [x]) with
            | none => simp [isDir, hx] at hdirx
            | some m => exact ⟨m, rfl⟩
          refine .inr ⟨hfile, d' ++ [x], ?_, hchild, hdirx⟩
          simp [hmem, hdirx]
    · exact .inr ⟨hfile, d', by simp [hd'], hpre, hdir⟩
  · rintro (hp | ⟨hfile, d', hd', hpre, hdir⟩)
    · obtain ⟨hchild, hfile⟩ := List.mem_filter.mp hp
      obtain ⟨x, rfl⟩ := concat_of_child hchild
      exact ⟨hfile, d, by simp, List.prefix_append _ _, hd⟩
    · rcases List.mem_append.mp hd' with hd' | hd'
      · obtain ⟨hchild, -⟩ := List.mem_filter.mp (List.mem_reverse.mp hd')
        obtain ⟨x, rfl⟩ := concat_of_child hchild
        exact ⟨hfile, d, by simp, (List.prefix_append _ _).trans hpre, hd⟩
      · exact ⟨hfile, d', by simp [hd'], hpre, hdir⟩

/-- A walk that ends has listed what it could reach. -/
theorem mem_walkLoop (hs : Shaped s)
    (h : walkLoop host s n stack out = .ok files) : p ∈ files ↔ p ∈ out ∨ Reach s stack p := by
  induction n generalizing stack out with
  | zero =>
    cases stack with
    | nil =>
      obtain rfl : out = files := Except.ok.inj h
      simp [Reach]
    | cons d stack => cases h
  | succ n ih =>
    cases stack with
    | nil =>
      obtain rfl : out = files := Except.ok.inj h
      simp [Reach]
    | cons d stack =>
      rw [walkLoop] at h
      split at h
      · rename_i hdir
        rw [ih h]
        -- what is not a directory is passed over
        have hskip : Reach s (d :: stack) p ↔ Reach s stack p := by
          unfold Reach
          simp [show s.isDir d = false by simpa using hdir]
        rw [hskip]
      · rename_i hdir
        split at h
        · cases h
        · rw [ih h, reach_cons hs (by simpa using hdir), List.mem_append, or_assoc]

theorem walkFiles_eq (hlink : s.throughLink d = false) :
    walkFiles host s d = walkLoop host s (s.length + 1) [d] [] := by
  simp [walkFiles, hlink]

theorem mem_walkFiles (hs : Shaped s) (hlink : s.throughLink d = false)
    (h : walkFiles host s d = .ok files) :
    p ∈ files ↔ s.isFile p = true ∧ d <+: p ∧ s.isDir d = true := by
  rw [walkFiles_eq hlink] at h
  rw [mem_walkLoop hs h]
  simp [Reach]

theorem throughLink_of_isDir (hs : Shaped s) (hd : s.isDir d = true) : s.throughLink d = false := by
  unfold throughLink
  rw [List.any_eq_false]
  intro q hq hlink
  obtain ⟨n, hn⟩ : ∃ n, s.get? d = some n := by
    cases hget : s.get? d with
    | none => simp [isDir, hget] at hd
    | some n => exact ⟨n, rfl⟩
  have hdir : s.isDir q = true := by
    by_cases heq : q = d
    · rwa [heq]
    · exact hs.above hn ((List.mem_inits q d).mp hq) heq
  unfold isLink at hlink
  split at hlink
  · rename_i hget
    simp [isDir, hget, Node.isDir] at hdir
  · cases hlink

/-! A directory is listed once, so that no file is found twice and the fuel is enough. -/

structure Pending (stack out : List Place) : Prop where
  apart : stack.Pairwise Apart
  nodup : out.Nodup
  ahead : ∀ d ∈ stack, ∀ f ∈ out, ¬ d <+: f

theorem apart_child {r : Place} (h : Apart d r) (x : Name) : Apart (d ++ [x]) r := by
  constructor
  · intro hpre
    exact h.1 ((List.prefix_append _ _).trans hpre)
  · intro hpre
    rcases List.prefix_concat_iff.mp hpre with rfl | hpre
    · exact h.1 (List.prefix_append _ _)
    · exact h.2 hpre

theorem apart_of_children {c c' : Place} (hc : c ∈ s.children d) (hc' : c' ∈ s.children d)
    (hne : c ≠ c') : Apart c c' := by
  obtain ⟨x, rfl⟩ := concat_of_child hc
  obtain ⟨y, rfl⟩ := concat_of_child hc'
  constructor
  · intro hpre
    exact hne (hpre.eq_of_length (by simp))
  · intro hpre
    exact hne (hpre.eq_of_length (by simp)).symm

theorem Pending.list (hs : Shaped s) (h : Pending (d :: stack) out) :
    Pending (((s.children d).filter (s.isDir ·)).reverse ++ stack)
      (out ++ (s.children d).filter (s.isFile ·)) := by
  obtain ⟨hd, hstack⟩ := List.pairwise_cons.mp h.apart
  have hkids := (nodup_children hs).filter (s.isDir ·) (l := s.children d)
  constructor
  · rw [List.pairwise_append]
    refine ⟨?_, hstack, ?_⟩
    · refine (List.nodup_reverse.mpr hkids).imp_of_mem fun hc hc' hne => ?_
      rw [List.mem_reverse] at hc hc'
      exact apart_of_children (List.mem_filter.mp hc).1 (List.mem_filter.mp hc').1 hne
    · intro c hc r hr
      obtain ⟨x, rfl⟩ := concat_of_child (List.mem_filter.mp (List.mem_reverse.mp hc)).1
      exact apart_child (hd r hr) x
  · rw [List.nodup_append]
    refine ⟨h.nodup, (nodup_children hs).filter _, ?_⟩
    rintro f hf _ hf' rfl
    obtain ⟨x, rfl⟩ := concat_of_child (List.mem_filter.mp hf').1
    exact h.ahead d (by simp) _ hf (List.prefix_append _ _)
  · intro c hc f hf hpre
    rcases List.mem_append.mp hc with hc | hc
    · obtain ⟨hchild, hdir⟩ := List.mem_filter.mp (List.mem_reverse.mp hc)
      rcases List.mem_append.mp hf with hf | hf
      · obtain ⟨x, rfl⟩ := concat_of_child hchild
        exact h.ahead d (by simp) f hf ((List.prefix_append _ _).trans hpre)
      · obtain ⟨hchild', hfile⟩ := List.mem_filter.mp hf
        by_cases heq : c = f
        · rw [heq, isDir_eq_false_of_isFile hfile] at hdir
          cases hdir
        · exact (apart_of_children hchild hchild' heq).1 hpre
    · rcases List.mem_append.mp hf with hf | hf
      · exact h.ahead c (by simp [hc]) f hf hpre
      · obtain ⟨x, rfl⟩ := concat_of_child (List.mem_filter.mp hf).1
        exact (apart_child (hd c hc) x).2 hpre

theorem nodup_walkLoop (hs : Shaped s)
    (hpending : Pending stack out) (h : walkLoop host s n stack out = .ok files) : files.Nodup := by
  induction n generalizing stack out with
  | zero =>
    cases stack with
    | nil => exact Except.ok.inj h ▸ hpending.nodup
    | cons d stack => cases h
  | succ n ih =>
    cases stack with
    | nil => exact Except.ok.inj h ▸ hpending.nodup
    | cons d stack =>
      rw [walkLoop] at h
      split at h
      · have hrest : Pending stack out :=
          ⟨hpending.apart.tail, hpending.nodup, fun d' hd' => hpending.ahead d' (by simp [hd'])⟩
        exact ih hrest h
      · split at h
        · cases h
        · exact ih (hpending.list hs) h

theorem nodup_walkFiles (hs : Shaped s) (hlink : s.throughLink d = false)
    (h : walkFiles host s d = .ok files) : files.Nodup :=
  nodup_walkLoop hs ⟨List.pairwise_singleton _ _, List.nodup_nil, by simp⟩ (walkFiles_eq hlink ▸ h)

theorem Pending.mark (h : Pending (d :: stack) out) (hs : Shaped s) :
    Pending (((s.children d).filter (s.isDir ·)).reverse ++ stack) (out ++ [d]) := by
  refine ⟨(h.list hs).apart, ?_, ?_⟩
  · rw [List.nodup_append]
    refine ⟨h.nodup, List.nodup_singleton d, ?_⟩
    rintro f hf _ hd rfl
    exact h.ahead d (by simp) f hf (List.mem_singleton.mp hd ▸ List.prefix_rfl)
  · intro c hc f hf hpre
    rcases List.mem_append.mp hc with hc | hc
    · obtain ⟨x, rfl⟩ := concat_of_child (List.mem_filter.mp (List.mem_reverse.mp hc)).1
      rcases List.mem_append.mp hf with hf | hf
      · exact h.ahead d (by simp) f hf ((List.prefix_append _ _).trans hpre)
      · rw [List.mem_singleton.mp hf] at hpre
        have hlen := hpre.length_le
        simp only [List.length_append, List.length_singleton] at hlen
        omega
    · rcases List.mem_append.mp hf with hf | hf
      · exact h.ahead c (by simp [hc]) f hf hpre
      · exact ((List.pairwise_cons.mp h.apart).1 c hc).2 (List.mem_singleton.mp hf ▸ hpre)

theorem walkLoop_total (hs : Shaped s) (hlists : ∀ d, host.refuses .readDir d = none)
    {listed : List Place} (h : Pending stack listed) (hdirs : ∀ d ∈ stack, s.isDir d = true)
    (hkeys : listed ⊆ s.map (·.1)) (hn : s.length < n + listed.length) :
    ∃ files, walkLoop host s n stack out = .ok files := by
  -- each step is spent on another directory, of which there are as many as nodes at most
  induction n generalizing stack out listed with
  | zero =>
    have hle := (List.subperm_of_subset h.nodup hkeys).length_le
    rw [List.length_map] at hle
    omega
  | succ n ih =>
    cases stack with
    | nil => exact ⟨out, by simp [walkLoop]⟩
    | cons d stack =>
      have hd := hdirs d (by simp)
      rw [walkLoop, if_neg (by simp [hd]), hlists d]
      refine ih (h.mark hs) ?_ ?_ ?_
      · intro c hc
        rcases List.mem_append.mp hc with hc | hc
        · exact (List.mem_filter.mp (List.mem_reverse.mp hc)).2
        · exact hdirs c (by simp [hc])
      · rw [List.append_subset]
        refine ⟨hkeys, ?_⟩
        rw [List.cons_subset, mem_keys]
        refine ⟨?_, List.nil_subset _⟩
        cases hget : s.get? d with
        | none => simp [isDir, hget] at hd
        | some n => exact ⟨n, rfl⟩
      · rw [List.length_append, List.length_singleton]
        omega

theorem walkFiles_total (hs : Shaped s) (hlink : s.throughLink d = false)
    (hlists : ∀ d, host.refuses .readDir d = none) :
    ∃ files, walkFiles host s d = .ok files := by
  rw [walkFiles_eq hlink]
  by_cases hd : s.isDir d = true
  · exact walkLoop_total hs hlists ⟨List.pairwise_singleton _ _, List.nodup_nil, by simp⟩ (by simpa)
      (List.nil_subset _) (by simp)
  · rw [walkLoop, if_pos (by simp [hd]), walkLoop]
    exact ⟨[], rfl⟩

end Walk

/-- In a tree that calls have made, and from any place that no link leads to, a walk ends with
every regular file below it, each once. -/
theorem walk_exact {S : Place → Prop} {host : Host} {s : Rootfs} (hs : Changes S [] s)
    (hlists : ∀ d, host.refuses .readDir d = none) (d : Place) (hlink : s.throughLink d = false) :
    ∃ files, walkFiles host s d = .ok files ∧ files.Nodup ∧
      ∀ p, p ∈ files ↔ s.isFile p = true ∧ d <+: p ∧ s.isDir d = true := by
  have hshaped := hs.shaped shaped_nil
  obtain ⟨files, hfiles⟩ := walkFiles_total hshaped hlink hlists
  exact ⟨files, hfiles, nodup_walkFiles hshaped hlink hfiles,
    fun _ => mem_walkFiles hshaped hlink hfiles⟩

/-- Files in two directories, and a link to one of these. -/
def makeStack : Eff Errno Rootfs Unit := do
  createDirAll willing (place "stack/app/conf")
  writeFile willing (place "stack/compose.yml") [1]
  symlink willing "conf" (place "stack/app/current")
  writeFile willing (place "stack/app/conf/a") [2]
  writeFile willing (place "other") [3]

theorem moves_makeStack : Moves (fun _ => True) makeStack := by
  have hany : ∀ {S : Place → Prop} {m : Eff Errno Rootfs Unit}, Moves S m →
      Moves (fun _ => True) m := fun h => h.mono fun _ _ => trivial
  refine (hany moves_createDirAll).bind fun _ => (hany moves_writeFile).bind fun _ => ?_
  refine ((moves_ask _).bind fun _ => hany moves_create).bind fun _ => ?_
  exact (hany moves_writeFile).bind fun _ => hany moves_writeFile

theorem walk_stack : walkFiles willing (makeStack.run []).2 (place "stack") =
    .ok [place "stack/compose.yml", place "stack/app/conf/a"] := by
  decide +kernel

theorem walk_exact_stack :
    walkFiles willing (makeStack.run []).2 (place "stack") =
        .ok [place "stack/compose.yml", place "stack/app/conf/a"] ∧
      ∀ p, (makeStack.run []).2.isFile p = true ∧ place "stack" <+: p →
        p = place "stack/compose.yml" ∨ p = place "stack/app/conf/a" := by
  obtain ⟨files, hfiles, -, hmem⟩ := @walk_exact _ willing _ (moves_makeStack [])
    (fun _ => rfl) (place "stack") (by decide +kernel)
  rw [walk_stack] at hfiles
  refine ⟨walk_stack, fun p hp => ?_⟩
  have hlisted := (hmem p).mpr ⟨hp.1, hp.2, by decide +kernel⟩
  rw [← Except.ok.inj hfiles] at hlisted
  simpa using hlisted

/-! ## The directory that is hashed -/

section Walked

variable {host : Host} {s : Rootfs} {d : Place} {files : List Place}

theorem exists_rel (hs : Shaped s) (hd : s.isDir d = true) (h : walkFiles host s d = .ok files)
    {p : Place} (hp : p ∈ files) : p = d ++ p.drop d.length ∧ p.drop d.length ≠ [] := by
  obtain ⟨hfile, ⟨r, rfl⟩, -⟩ := (mem_walkFiles hs (throughLink_of_isDir hs hd) h).mp hp
  rw [List.drop_left]
  refine ⟨rfl, ?_⟩
  rintro rfl
  rw [List.append_nil] at hfile
  rw [isDir_eq_false_of_isFile hfile] at hd
  cases hd

/-- What a walk lists, as a directory with paths relative to its own. -/
def walked (hs : Shaped s) (hd : s.isDir d = true) (h : walkFiles host s d = .ok files)
    (hnames : ∀ p ∈ files, ∀ n ∈ p, 47 ∉ n ∧ 0 ∉ n)
    (hvalid : ∀ p ∈ files, utf8Valid (relBytes (p.drop d.length)) = true) : Utf8Dir where
  node r := s.get? (d ++ r)
  files := files.map (·.drop d.length)
  mem_files r := by
    have hmem := mem_walkFiles hs (throughLink_of_isDir hs hd) h (p := d ++ r)
    have hlisted : r ∈ files.map (·.drop d.length) ↔ d ++ r ∈ files := by
      constructor
      · intro hr
        obtain ⟨p, hp, rfl⟩ := List.mem_map.mp hr
        rwa [← (exists_rel hs hd h hp).1]
      · intro hr
        exact List.mem_map.mpr ⟨_, hr, List.drop_left⟩
    rw [hlisted, hmem]
    simp only [List.prefix_append, hd, and_true, isFile]
    split <;> simp_all
  names r hr := by
    obtain ⟨p, hp, rfl⟩ := List.mem_map.mp hr
    exact ⟨(exists_rel hs hd h hp).2, fun n hn => hnames p hp n (List.mem_of_mem_drop hn)⟩
  nodup := by
    refine (nodup_walkFiles hs (throughLink_of_isDir hs hd) h).map_on fun p hp q hq heq => ?_
    rw [(exists_rel hs hd h hp).1, (exists_rel hs hd h hq).1, heq]
  valid r hr := by
    obtain ⟨p, hp, rfl⟩ := List.mem_map.mp hr
    exact hvalid p hp

end Walked

def stackDir : Utf8Dir :=
  walked ((moves_makeStack []).shaped shaped_nil) (by decide +kernel)
    walk_stack (by decide +kernel) (by decide +kernel)

def confDir : Utf8Dir :=
  walked ((moves_makeStack []).shaped shaped_nil) (by decide +kernel)
    (show walkFiles willing _ (place "stack/app/conf") = .ok [place "stack/app/conf/a"] by
      decide +kernel)
    (by decide +kernel) (by decide +kernel)

/-- SHA-256 on the contents of these files. -/
def stackSha : Digest where
  hex bytes := utf8 <|
    if bytes = [1] then "4bf5122f344554c53bde2ebb8cd2b7e3d1600ad631c385a5d7cce23c7785459a"
    else if bytes = [2] then "dbc1b4c900ffe48d575b5da5c638040125f65db0fe3e24494b76ea986457d986"
    else ""
  digits _ := by split_ifs <;> decide +kernel

theorem treeText_eq_iff_stack :
    treeText stackSha [] stackDir.toDir ≠ treeText stackSha [] confDir.toDir := by
  -- equal texts list the same files, and `compose.yml` is in one of the two directories only
  intro htext
  have hlisted :=
    (treeText_eq_iff stackSha [] stackDir confDir).mp htext [utf8 "compose.yml"] (stackSha.hex [1])
  obtain ⟨_, _, hnode, -, -⟩ := hlisted.mp ⟨[1], 0o644, by decide +kernel, by simp, rfl⟩
  have hnone : confDir.node [utf8 "compose.yml"] = none := by decide +kernel
  rw [hnone] at hnode
  cases hnode

end Tdvmm.Build.Rootfs
