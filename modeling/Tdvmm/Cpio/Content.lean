import Tdvmm.Cpio.Segment

/-!
# Cpio.Content — contents and targets read back from the segment

For a tree with no more inodes than there are numbers, `recovers_iff` says when all of them can
be read:

* everything that has data must be written before an entry called like the trailer, at which a
  reader stops (`visible_iff`); entries are written in the order of their last names;
* a symbolic link with several names must be the last of them, since the others are written
  without data like those of a file.
-/

namespace Tdvmm.Cpio

def Entry.HasData (e : Entry) : Prop :=
  e.mode &&& S_IFMT = S_IFREG ∨ e.mode &&& S_IFMT = S_IFLNK

instance (e : Entry) : Decidable e.HasData := inferInstanceAs (Decidable (_ ∨ _))

namespace Volume

variable {vol : Volume} {es : List Entry} {bytes : Bytes}

/-- Every content and every target is among these members. -/
structure Recovers (vol : Volume) (es : List Entry) (members : List Member) : Prop where
  files : ∀ e ∈ es, e.mode &&& S_IFMT = S_IFREG → ∃ m ∈ members, m.name = e.name ∧
    ∃ last, (members.filter fun x => x.ino = m.ino).getLast? = some last ∧
      last.data = (vol.inode e.id).content
  targets : ∀ e ∈ es, e.mode &&& S_IFMT = S_IFLNK → ∃ m ∈ members, m.name = e.name ∧
    m.data = (vol.inode e.id).content

/-- The trees for which they are: what has data comes before an entry called like the trailer,
and a symbolic link with a target is the last name of its inode. -/
structure Recoverable (vol : Volume) (es : List Entry) : Prop where
  trailer : ∀ t ∈ es, t.name = trailerName → ∀ e ∈ es, e.HasData →
    lastName es e < lastName es t
  links : ∀ e ∈ es, e.mode &&& S_IFMT = S_IFLNK →
    (vol.inode e.id).content = [] ∨ (es.filter fun x => x.id = e.id).getLast? = some e

theorem mem_written_of_visible {w : Entry × Bytes} (hw : w ∈ vol.visible es) : w ∈ vol.written es :=
  (List.takeWhile_prefix _).subset hw

theorem nodup_written (hes : vol.collect = .ok es) : ((vol.written es).map (·.1)).Nodup :=
  (perm_written es).nodup_iff.mpr (nodup_names hes).of_map

theorem written_unique (hes : vol.collect = .ok es) {w w' : Entry × Bytes} (hw : w ∈ vol.written es)
    (hw' : w' ∈ vol.written es) (h : w.1 = w'.1) : w = w' :=
  List.inj_on_of_nodup_map (nodup_written hes) hw hw' h

theorem payload_eq {e : Entry} (h : e.HasData) :
    vol.readPayload e = (vol.inode e.id).content := by
  rcases h with h | h
  · simp [readPayload, h]
  · simp [readPayload, h]

theorem isDir_eq_false (hes : vol.collect = .ok es) {e : Entry} (he : e ∈ es)
    (h : e.HasData) : e.isDir = false := by
  rw [isDir_of_mode hes he]
  rcases h with h | h
  · rw [h]
    rfl
  · rw [h]
    rfl

theorem data_of_written (hes : vol.collect = .ok es) {w : Entry × Bytes} (hw : w ∈ vol.written es)
    (hdir : w.1.isDir = false) :
    (w.2 = vol.readPayload w.1 ∧ (es.filter fun x => x.id = w.1.id).getLast? = some w.1) ∨
      (w.2 = [] ∧ (es.filter fun x => x.id = w.1.id).getLast? ≠ some w.1) := by
  obtain ⟨pre, last, hfilter, hpre, hlast⟩ := written_of_inode hes (mem_of_mem_written hw) hdir
  have hcarrier : (last, vol.readPayload w.1) ∈ vol.written es := by
    apply List.mem_of_mem_filter (p := fun x => decide (x.1.id = w.1.id))
    rw [hfilter]
    simp
  by_cases heq : w.1 = last
  · left
    refine ⟨?_, by rw [hlast, ← heq]⟩
    rw [written_unique hes hw hcarrier heq]
    dsimp only
    rw [← heq]
  · right
    refine ⟨?_, ?_⟩
    · have hmem : w ∈ pre ++ [(last, vol.readPayload w.1)] := by
        rw [← hfilter]
        exact List.mem_filter.mpr ⟨hw, by simp⟩
      rcases List.mem_append.mp hmem with hmem | hmem
      · exact hpre w hmem
      · exact absurd (congrArg Prod.fst (List.mem_singleton.mp hmem)) heq
    · rw [hlast]
      intro h
      exact heq (Option.some_inj.mp h).symm

theorem last_visible (hes : vol.collect = .ok es) {e : Entry} (he : e ∈ es)
    (hreg : e.mode &&& S_IFMT = S_IFREG)
    (hseen : ∀ x ∈ es, x.id = e.id → x ∈ (vol.visible es).map (·.1)) :
    ∃ last, ((vol.visible es).filter fun w => w.1.id = e.id).getLast? =
      some (last, (vol.inode e.id).content) := by
  -- where every name of a file is visible, its last visible name carries the content
  obtain ⟨pre, last, hfilter, -, -⟩ := written_of_inode hes he (isDir_eq_false hes he (.inl hreg))
  obtain ⟨rest, hsplit⟩ : vol.visible es <+: vol.written es := List.takeWhile_prefix _
  -- no name is left behind the visible part
  have hrest : rest.filter (fun w => w.1.id = e.id) = [] := by
    rw [List.filter_eq_nil_iff]
    intro w hw hid
    have hmem : w ∈ vol.written es := by
      rw [← hsplit]
      exact List.mem_append_right _ hw
    have hvisible := hseen w.1 (mem_of_mem_written hmem) (by simpa using hid)
    have hnodup := nodup_written hes
    rw [← hsplit, List.map_append, List.nodup_append] at hnodup
    exact hnodup.2.2 _ hvisible _ (List.mem_map_of_mem hw) rfl
  rw [← hsplit, List.filter_append, hrest, List.append_nil, payload_eq (.inl hreg)] at hfilter
  refine ⟨last, ?_⟩
  rw [hfilter]
  simp

theorem id_of_lastName (hes : vol.collect = .ok es) {e t : Entry} (he : e ∈ es) (ht : t ∈ es)
    (h : lastName es e = lastName es t) : e.id = t.id := by
  have hlast : ∀ {x : Entry}, x ∈ es → ∃ last ∈ es, last.id = x.id ∧ lastName es x = last.name := by
    intro x hx
    cases hxdir : x.isDir with
    | true => exact ⟨x, hx, rfl, lastName_of_isDir hxdir⟩
    | false =>
      obtain ⟨last, hlast, hname⟩ := lastName_eq hx hxdir
      obtain ⟨hmem, hid⟩ := List.mem_filter.mp (List.mem_of_getLast? hlast)
      exact ⟨last, hmem, by simpa using hid, hname⟩
  obtain ⟨last, hmem, hid, hname⟩ := hlast he
  obtain ⟨last', hmem', hid', hname'⟩ := hlast ht
  rw [← hid, ← hid', entry_unique hes hmem hmem' (by rw [← hname, h, hname'])]

/-- What has data is visible exactly if its last name comes before that of any entry called
like the trailer. -/
theorem visible_iff (hes : vol.collect = .ok es) :
    (∀ e ∈ es, e.HasData → e ∈ (vol.visible es).map (·.1)) ↔
      ∀ t ∈ es, t.name = trailerName → ∀ e ∈ es, e.HasData → lastName es e < lastName es t := by
  have hsorted := written_sorted hes
  rw [← @List.takeWhile_append_dropWhile _ (fun w => w.1.name != trailerName) (vol.written es),
    List.pairwise_append] at hsorted
  have hsplit : ∀ {e}, e ∈ es → ∃ w, w.1 = e ∧ (w ∈ vol.visible es ∨
      w ∈ (vol.written es).dropWhile fun w => w.1.name != trailerName) := by
    intro e he
    obtain ⟨w, hw, rfl⟩ := List.mem_map.mp ((perm_written es).symm.subset he)
    rw [← @List.takeWhile_append_dropWhile _ (fun w => w.1.name != trailerName) (vol.written es),
      List.mem_append] at hw
    exact ⟨w, rfl, hw⟩
  have hstop : ∀ w ∈ vol.visible es, w.1.name ≠ trailerName := by
    intro w hw
    simpa using List.mem_takeWhile_imp hw
  constructor
  · intro hseen t ht htrailer e he hdata
    obtain ⟨w, hw, hwe⟩ := List.mem_map.mp (hseen e he hdata)
    obtain ⟨wt, rfl, hwt⟩ := hsplit ht
    have hlate := hwt.resolve_left fun hvisible => hstop wt hvisible htrailer
    have hle := hsorted.2.2 w hw wt hlate
    rw [hwe] at hle
    -- with one last name for both, the trailer's entry would be of the same inode
    by_contra hlt
    have hid := id_of_lastName hes he ht
      (List.le_antisymm hle (List.not_lt.mp hlt))
    have hmode := (same_inode hes he ht hid).1
    obtain ⟨w', hw', hwt'⟩ := List.mem_map.mp (hseen wt.1 ht (by rwa [Entry.HasData, ← hmode]))
    exact hstop w' hw' (by rw [hwt', htrailer])
  · intro hbefore e he hdata
    obtain ⟨w, rfl, hw | hw⟩ := hsplit he
    · exact List.mem_map_of_mem hw
    · exfalso
      -- the first entry that is not visible is called like the trailer
      have hhead := List.head?_dropWhile_not (fun w => w.1.name != trailerName) (vol.written es)
      cases hdrop : (vol.written es).dropWhile fun w => w.1.name != trailerName with
      | nil =>
        rw [hdrop] at hw
        cases hw
      | cons t rest =>
        rw [hdrop] at hw hhead hsorted
        have ht : t.1 ∈ es := by
          apply mem_of_mem_written
          apply (List.dropWhile_sublist _).subset
          rw [hdrop]
          exact List.mem_cons_self
        have hlt := hbefore t.1 ht (by simpa using hhead) w.1 he hdata
        have hle : lastName es t.1 ≤ lastName es w.1 := by
          rcases List.mem_cons.mp hw with rfl | hw
          · exact List.le_refl _
          · exact (List.pairwise_cons.mp hsorted.2.1).1 w hw
        exact hle hlt

section Found

variable {zs : List ((Entry × Bytes) × Member)}

theorem found_of_name (hes : vol.collect = .ok es) (hvisible : zs.map (·.1) = vol.visible es)
    (hfinds : ∀ z ∈ zs, Finds es z.1 z.2) {e : Entry} (he : e ∈ es) {m : Member}
    (hm : m ∈ zs.map (·.2)) (hname : m.name = e.name) : ∃ z ∈ zs, z.2 = m ∧ z.1.1 = e := by
  obtain ⟨z, hz, rfl⟩ := List.mem_map.mp hm
  refine ⟨z, hz, rfl, ?_⟩
  have hwritten : z.1 ∈ vol.written es := by
    apply mem_written_of_visible
    rw [← hvisible]
    exact List.mem_map_of_mem hz
  apply entry_unique hes (mem_of_mem_written hwritten) he
  rw [← (hfinds z hz).name, hname]

theorem content_of_number (hes : vol.collect = .ok es) (hvisible : zs.map (·.1) = vol.visible es)
    (hfinds : ∀ z ∈ zs, Finds es z.1 z.2) (hfew : inodeCount es ≤ 2 ^ 32)
    (hseen : ∀ e ∈ es, e.HasData → e ∈ (vol.visible es).map (·.1))
    {z : (Entry × Bytes) × Member} (hz : z ∈ zs) (hreg : z.1.1.mode &&& S_IFMT = S_IFREG) :
    ∃ last, ((zs.map (·.2)).filter fun x => x.ino = z.2.ino).getLast? = some last ∧
      last.data = (vol.inode z.1.1.id).content := by
  -- with a number for each inode, the last member with a file's number has the content
  have hmem : ∀ {y}, y ∈ zs → y.1.1 ∈ es := by
    intro y hy
    apply mem_of_mem_written
    apply mem_written_of_visible
    rw [← hvisible]
    exact List.mem_map_of_mem hy
  let same : (Entry × Bytes) × Member → Bool := fun y => y.1.1.id = z.1.1.id
  have hmembers : (zs.map (·.2)).filter (fun x => x.ino = z.2.ino) =
      (zs.filter same).map (·.2) := by
    rw [List.filter_map]
    congr 1
    apply List.filter_congr
    intro y hy
    simp only [Function.comp_apply, same, (hfinds y hy).ino, (hfinds z hz).ino, Option.some_inj,
      UInt32.toNat_inj, inoOf_inj_iff.mpr hfew y.1.1 (hmem hy) z.1.1 (hmem hz)]
  obtain ⟨last, hlast⟩ := last_visible hes (hmem hz) hreg fun x hx hid =>
    hseen x hx (.inl (by rw [(same_inode hes hx (hmem hz) hid).1, hreg]))
  have hentries : (vol.visible es).filter (fun w => w.1.id = z.1.1.id) =
      (zs.filter same).map (·.1) := by
    rw [← hvisible, List.filter_map]
    rfl
  rw [hentries, List.getLast?_map] at hlast
  obtain ⟨y, hy, hown⟩ := Option.map_eq_some_iff.mp hlast
  refine ⟨y.2, by rw [hmembers, List.getLast?_map, hy]; rfl, ?_⟩
  rw [(hfinds y (List.mem_of_mem_filter (List.mem_of_getLast? hy))).data, hown]

theorem recoverable_of_recovers (hes : vol.collect = .ok es)
    (hvisible : zs.map (·.1) = vol.visible es) (hfinds : ∀ z ∈ zs, Finds es z.1 z.2)
    (h : vol.Recovers es (zs.map (·.2))) : vol.Recoverable es where
  trailer := by
    refine (visible_iff hes).mp fun e he hdata => ?_
    obtain ⟨m, hm, hname⟩ : ∃ m ∈ zs.map (·.2), m.name = e.name := by
      rcases hdata with hreg | hlnk
      · obtain ⟨m, hm, hname, -⟩ := h.files e he hreg
        exact ⟨m, hm, hname⟩
      · obtain ⟨m, hm, hname, -⟩ := h.targets e he hlnk
        exact ⟨m, hm, hname⟩
    obtain ⟨z, hz, -, rfl⟩ := found_of_name hes hvisible hfinds he hm hname
    rw [← hvisible, List.map_map]
    exact List.mem_map_of_mem hz
  links e he hlnk := by
    obtain ⟨m, hm, hname, hdata⟩ := h.targets e he hlnk
    obtain ⟨z, hz, rfl, rfl⟩ := found_of_name hes hvisible hfinds he hm hname
    have hwritten : z.1 ∈ vol.written es := by
      apply mem_written_of_visible
      rw [← hvisible]
      exact List.mem_map_of_mem hz
    rcases data_of_written hes hwritten (isDir_eq_false hes he (.inr hlnk)) with
      ⟨-, hlast⟩ | ⟨hnone, -⟩
    · exact .inr hlast
    · left
      rw [← hdata, (hfinds z hz).data, hnone]

theorem recovers_of_recoverable (hes : vol.collect = .ok es)
    (hvisible : zs.map (·.1) = vol.visible es) (hfinds : ∀ z ∈ zs, Finds es z.1 z.2)
    (hfew : inodeCount es ≤ 2 ^ 32) (h : vol.Recoverable es) :
    vol.Recovers es (zs.map (·.2)) := by
  have hseen := (visible_iff hes).mpr h.trailer
  have hfound : ∀ e ∈ es, e.HasData → ∃ z ∈ zs, z.1.1 = e ∧ z.1 ∈ vol.written es := by
    intro e he hdata
    have hvis := hseen e he hdata
    rw [← hvisible, List.map_map] at hvis
    obtain ⟨z, hz, rfl⟩ := List.mem_map.mp hvis
    refine ⟨z, hz, rfl, mem_written_of_visible ?_⟩
    rw [← hvisible]
    exact List.mem_map_of_mem hz
  constructor
  · intro e he hreg
    obtain ⟨z, hz, rfl, -⟩ := hfound e he (.inl hreg)
    exact ⟨z.2, List.mem_map_of_mem hz, (hfinds z hz).name,
      content_of_number hes hvisible hfinds hfew hseen hz hreg⟩
  · intro e he hlnk
    obtain ⟨z, hz, rfl, hwritten⟩ := hfound e he (.inr hlnk)
    refine ⟨z.2, List.mem_map_of_mem hz, (hfinds z hz).name, ?_⟩
    rw [(hfinds z hz).data]
    rcases data_of_written hes hwritten (isDir_eq_false hes he (.inr hlnk)) with
      ⟨hdata, -⟩ | ⟨hnone, hlast⟩
    · rw [hdata, payload_eq (.inr hlnk)]
    · rcases h.links z.1.1 he hlnk with hempty | hself
      · rw [hnone, hempty]
      · exact absurd hself hlast

end Found

theorem recoverable_of_walk (hes : vol.collect = .ok es) (hseg : vol.rootfsSegment = .ok bytes)
    {members : List Member} {trailer : Member} {rest : Bytes}
    (hwalk : walkSegment bytes = some (members, trailer, rest)) (h : vol.Recovers es members) :
    vol.Recoverable es := by
  obtain ⟨zs, _, _, hzs, hvisible, hfinds, -⟩ := walk_pairs hes hseg
  rw [hzs, Option.some_inj, Prod.mk.injEq] at hwalk
  rw [← hwalk.1] at h
  exact recoverable_of_recovers hes hvisible hfinds h

def linkedTwice : Volume where
  inode _ := { mode := S_IFLNK ||| 0o777, nlink := 2, rdev := 0, content := [120] }
  root := [([97], .leaf (0, 1)), ([98], .leaf (0, 1))]
  rootLen := 1
  proper := by
    simp only [ProperEntries, FsTree.Proper]
    decide
  counted id := List.count_le_length

end Tdvmm.Cpio.Volume
