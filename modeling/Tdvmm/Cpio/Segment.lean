import Mathlib.Data.List.Dedup
import Mathlib.Data.List.Forall2
import Mathlib.Data.List.Perm.Basic
import Mathlib.Data.List.TakeWhile
import Tdvmm.Cpio.Emit

/-!
# Cpio.Segment — what a reader of the segment finds

A reader that walks the segment by its headers finds what was written, up to the first entry
that is called like the trailer (`walk_written`).

* `framed_iff`: where no entry is called so, it finds one member per collected entry, in an
  order in which directories come first, the last name of a regular file with its content and
  the others without; the members have one inode number exactly for one inode if there are at
  most 2³² inodes, the numbers being 32 bits wide.
* `recovers_iff`: when the content of every file and the target of every symbolic link can be
  read from the segment.
-/

namespace Tdvmm.Cpio

open Lib

/-! ## Inode numbers -/

def firstIds (es : List Entry) (ids : List InodeId) : List InodeId :=
  es.foldl (fun ids e => if e.id ∈ ids then ids else ids ++ [e.id]) ids

def numbered (ids : List InodeId) : List (InodeId × UInt32) :=
  ids.zipIdx.map fun p => (p.1, UInt32.ofNat p.2)

variable {ids : List InodeId} {id : InodeId} {es : List Entry}

theorem lookup_zipIdx (n : Nat) :
    ((ids.zipIdx n).map fun p => (p.1, UInt32.ofNat p.2)).lookup id =
      if id ∈ ids then some (UInt32.ofNat (n + ids.idxOf id)) else none := by
  induction ids generalizing n with
  | nil => simp
  | cons i ids ih =>
    rw [List.zipIdx_cons, List.map_cons, List.lookup_cons, ih (n + 1)]
    by_cases hid : id = i
    · subst hid
      simp
    · have hbeq : (id == i) = false := beq_eq_false_iff_ne.mpr hid
      have hidx : n + (i :: ids).idxOf id = n + 1 + ids.idxOf id := by
        rw [List.idxOf_cons_ne _ (Ne.symm hid)]
        omega
      rw [hbeq, hidx]
      simp only [List.mem_cons, hid, false_or]

theorem lookup_numbered :
    (numbered ids).lookup id = if id ∈ ids then some (UInt32.ofNat (ids.idxOf id)) else none := by
  rw [numbered, lookup_zipIdx, Nat.zero_add]

theorem renumber_eq {es : List Entry} {ids : List InodeId} :
    renumber es (UInt32.ofNat ids.length) (numbered ids) = numbered (firstIds es ids) := by
  induction es generalizing ids with
  | nil => rfl
  | cons e es ih =>
    rw [renumber, lookup_numbered, firstIds, List.foldl_cons]
    by_cases hmem : e.id ∈ ids
    · rw [if_pos hmem, if_pos hmem, Option.isSome_some, if_pos rfl]
      exact ih
    · rw [if_neg hmem, if_neg hmem, if_neg (by simp)]
      have hnext : UInt32.ofNat ids.length + 1 = UInt32.ofNat (ids ++ [e.id]).length := by
        simp [UInt32.ofNat_add]
      have hpush : numbered ids ++ [(e.id, UInt32.ofNat ids.length)] =
          numbered (ids ++ [e.id]) := by
        simp [numbered, List.zipIdx_append]
      rw [hnext, hpush]
      exact ih

theorem mem_firstIds {es : List Entry} {ids : List InodeId} {id : InodeId} :
    id ∈ firstIds es ids ↔ id ∈ ids ∨ id ∈ es.map (·.id) := by
  induction es generalizing ids with
  | nil => simp [firstIds]
  | cons e es ih =>
    rw [firstIds, List.foldl_cons]
    change id ∈ firstIds es _ ↔ _
    rw [ih, List.map_cons, List.mem_cons]
    split
    · rename_i hmem
      constructor
      · rintro (h | h)
        · exact .inl h
        · exact .inr (.inr h)
      · rintro (h | rfl | h)
        · exact .inl h
        · exact .inl hmem
        · exact .inr h
    · rw [List.mem_append, List.mem_singleton, or_assoc]

theorem nodup_firstIds (h : ids.Nodup) :
    (firstIds es ids).Nodup := by
  induction es generalizing ids with
  | nil => exact h
  | cons e es ih =>
    rw [firstIds, List.foldl_cons]
    apply ih
    split
    · exact h
    · rename_i hmem
      rw [List.nodup_append]
      refine ⟨h, List.nodup_singleton _, fun a ha b hb => ?_⟩
      rw [List.mem_singleton.mp hb]
      rintro rfl
      exact hmem ha

def inodeCount (es : List Entry) : Nat := (es.map (·.id)).dedup.length

theorem length_firstIds (es : List Entry) : (firstIds es []).length = inodeCount es := by
  apply List.Perm.length_eq
  rw [List.perm_ext_iff_of_nodup (nodup_firstIds List.nodup_nil) (List.nodup_dedup _)]
  intro id
  rw [mem_firstIds, List.mem_dedup]
  simp

theorem inoOf_eq (h : id ∈ es.map (·.id)) :
    inoOf es id = UInt32.ofNat ((firstIds es []).idxOf id) := by
  have hnum : renumber es 0 [] = numbered (firstIds es []) := @renumber_eq es []
  rw [inoOf, hnum, lookup_numbered, if_pos (mem_firstIds.mpr (.inr h))]
  rfl

theorem inoOf_inj_iff :
    (∀ a ∈ es, ∀ b ∈ es, inoOf es a.id = inoOf es b.id ↔ a.id = b.id) ↔ inodeCount es ≤ 2 ^ 32 := by
  rw [← length_firstIds]
  constructor
  · intro hinj
    by_contra hlong
    have hfirst : 0 < (firstIds es []).length := by omega
    have hwrap : 2 ^ 32 < (firstIds es []).length := by omega
    -- the first inode, and the one that is given its number again
    have hmem : ∀ (i : Nat) (hi : i < (firstIds es []).length),
        ∃ e ∈ es, e.id = (firstIds es [])[i] := by
      intro i hi
      have hid := mem_firstIds.mp (List.getElem_mem hi)
      simpa using hid
    obtain ⟨a, ha, haid⟩ := hmem 0 hfirst
    obtain ⟨b, hb, hbid⟩ := hmem (2 ^ 32) hwrap
    have hnodup : (firstIds es []).Nodup := nodup_firstIds List.nodup_nil
    have hsame : inoOf es a.id = inoOf es b.id := by
      rw [inoOf_eq (List.mem_map_of_mem ha), inoOf_eq (List.mem_map_of_mem hb), haid, hbid,
        hnodup.idxOf_getElem, hnodup.idxOf_getElem]
      decide
    have heq := (hinj a ha b hb).mp hsame
    rw [haid, hbid, hnodup.getElem_inj_iff] at heq
    omega
  · intro hfew a ha b hb
    constructor
    · intro hsame
      have haid : a.id ∈ es.map (·.id) := List.mem_map_of_mem ha
      have hbid : b.id ∈ es.map (·.id) := List.mem_map_of_mem hb
      rw [inoOf_eq haid, inoOf_eq hbid] at hsame
      have hlt := List.idxOf_lt_length_of_mem ((@mem_firstIds es [] a.id).mpr (.inr haid))
      have hlt' := List.idxOf_lt_length_of_mem ((@mem_firstIds es [] b.id).mpr (.inr hbid))
      have hidx : (firstIds es []).idxOf a.id = (firstIds es []).idxOf b.id := by
        have h := congrArg UInt32.toNat hsame
        rw [UInt32.toNat_ofNat', UInt32.toNat_ofNat', Nat.mod_eq_of_lt (by omega),
          Nat.mod_eq_of_lt (by omega)] at h
        exact h
      exact (List.idxOf_inj (mem_firstIds.mpr (.inr haid))).mp hidx
    · intro hid
      rw [hid]

/-! ## What a reader finds -/

namespace Volume

variable {vol : Volume} {es : List Entry} {bytes : Bytes}

theorem rootfsSegment_eq (hes : vol.collect = .ok es) :
    vol.rootfsSegment = .ok bytes ↔ (∀ w ∈ vol.written es, w.2.length < 2 ^ 32) ∧
      bytes = segment (records (inoOf es) (vol.written es)) := by
  have hemit : emitEntries vol.readPayload (inoOf es) (groupTotal es) es
      { deferred := fun _ => [], seen := fun _ => 0, out := [] } =
        writeAll (inoOf es) [] (vol.written es) :=
    emitEntries_eq (Midway.start es).held
  unfold rootfsSegment
  rw [hes]
  change (emitEntries vol.readPayload (inoOf es) (groupTotal es) es _ >>= _) = _ ↔ _
  rw [hemit]
  cases hall : writeAll (inoOf es) [] (vol.written es) with
  | error e =>
    constructor
    · intro h
      cases h
    · rintro ⟨hfit, -⟩
      rw [writeAll_ok.mpr ⟨hfit, rfl⟩] at hall
      cases hall
  | ok out =>
    obtain ⟨hfit, rfl⟩ := writeAll_ok.mp hall
    constructor
    · intro h
      exact ⟨hfit, (Except.ok.inj h).symm⟩
    · rintro ⟨-, rfl⟩
      rfl

/-- What is written before an entry that is called like the trailer. -/
def visible (vol : Volume) (es : List Entry) : List (Entry × Bytes) :=
  (vol.written es).takeWhile fun w => w.1.name != trailerName

structure Finds (es : List Entry) (w : Entry × Bytes) (m : Member) : Prop where
  ino : m.ino = some (inoOf es w.1.id).toNat
  mode : m.mode = some w.1.mode.toNat
  name : m.name = w.1.name
  data : m.data = w.2
  aligned : m.offset % 4 = 0 ∧ m.dataOffset % 4 = 0

theorem perm_written (es : List Entry) : ((vol.written es).map (·.1)).Perm es := by
  rw [List.perm_iff_count]
  intro x
  rw [written, count_emission (Midway.start es)]
  simp

theorem mem_of_mem_written {w : Entry × Bytes} (hw : w ∈ vol.written es) : w.1 ∈ es :=
  (perm_written es).subset (List.mem_map_of_mem hw)

theorem walk_written (hes : vol.collect = .ok es) (hseg : vol.rootfsSegment = .ok bytes) :
    ∃ members trailer rest, walkSegment bytes = some (members, trailer, rest) ∧
      List.Forall₂ (Finds es) (vol.visible es) members ∧ trailer.name = trailerName ∧
      trailer.offset % 4 = 0 ∧ ((∀ e ∈ es, e.name ≠ trailerName) → ∀ b ∈ rest, b = 0) := by
  obtain ⟨hfit, rfl⟩ := (rootfsSegment_eq hes).mp hseg
  have hfits : ∀ r ∈ records (inoOf es) (vol.written es), Fits r.1 r.2 := by
    intro r hr
    obtain ⟨w, hw, rfl⟩ := List.mem_map.mp hr
    have hshort := short_of_mem hes (mem_of_mem_written hw)
    have hsize := hfit w hw
    constructor
    · simp only [Short, PATH_MAX] at hshort
      simp only [headerOf]
      omega
    · simp only [headerOf]
      rw [UInt32.toNat_ofNat', Nat.mod_eq_of_lt hsize]
  obtain ⟨t, rest, hwalk, ht, halign, hrest⟩ := walkSegment_segment hfits
  refine ⟨_, t, rest, hwalk, ?_, ht, halign, fun hname => hrest fun r hr => ?_⟩
  · have hcut : (records (inoOf es) (vol.written es)).takeWhile notTrailer =
        records (inoOf es) (vol.visible es) := by
      rw [records, List.takeWhile_map]
      rfl
    rw [hcut]
    have hshows := @layout_shows (records (inoOf es) (vol.visible es)) 0 rfl
    rw [records, List.forall₂_map_left_iff] at hshows
    refine hshows.imp fun w m hm => ⟨?_, ?_, hm.name, hm.data, hm.aligned⟩
    · rw [Member.ino, hm.fields]
      rfl
    · rw [Member.mode, hm.fields]
      rfl
  · obtain ⟨w, hw, rfl⟩ := List.mem_map.mp hr
    have hne := hname w.1 (mem_of_mem_written hw)
    simpa [notTrailer, headerOf] using hne

theorem visible_eq (hname : ∀ e ∈ es, e.name ≠ trailerName) : vol.visible es = vol.written es := by
  rw [visible, List.takeWhile_eq_self_iff]
  intro w hw
  simpa using hname w.1 (mem_of_mem_written hw)

/-! ## Who carries the data -/

theorem same_inode (hes : vol.collect = .ok es) {a b : Entry} (ha : a ∈ es) (hb : b ∈ es)
    (hid : a.id = b.id) : a.mode = b.mode ∧ a.nlink = b.nlink ∧ a.isDir = b.isDir := by
  rw [entry_eq hes ha, entry_eq hes hb, hid]
  exact ⟨rfl, rfl, rfl⟩

theorem hard_of_same (hes : vol.collect = .ok es) {a b : Entry} (ha : a ∈ es) (hb : b ∈ es)
    (hid : a.id = b.id) : a.hard = b.hard := by
  obtain ⟨-, hnlink, hdir⟩ := same_inode hes ha hb hid
  rw [Entry.hard, Entry.hard, hnlink, hdir]

theorem payload_of_same (hes : vol.collect = .ok es) {a b : Entry} (ha : a ∈ es) (hb : b ∈ es)
    (hid : a.id = b.id) : vol.readPayload a = vol.readPayload b := by
  rw [readPayload, readPayload, hid, (same_inode hes ha hb hid).1]

theorem filter_of_hard (hes : vol.collect = .ok es) {e : Entry} (he : e ∈ es)
    (hhard : e.hard = true) : es.filter (inGroup e.id) = es.filter fun x => x.id = e.id := by
  apply List.filter_congr
  intro x hx
  rw [inGroup]
  by_cases hid : x.id = e.id
  · rw [hard_of_same hes hx he hid, hhard, hid]
    simp
  · simp [hid]

theorem filter_of_not_hard (hes : vol.collect = .ok es) {e : Entry} (he : e ∈ es)
    (hdir : e.isDir = false) (hhard : e.hard ≠ true) :
    es.filter (fun x => x.id = e.id) = [e] := by
  have hnlink : e.nlink.toNat ≤ 1 := by
    have hle : ¬ 1 < e.nlink := by
      intro hlt
      exact hhard (by simp [Entry.hard, hdir, hlt])
    have hnat := UInt32.le_iff_toNat_le.mp (UInt32.not_lt.mp hle)
    simpa using hnat
  have hcount : (es.filter fun x => x.id = e.id).length ≤ 1 := by
    have hle := countP_le_nlink hes e.id
    rw [List.countP_eq_length_filter] at hle
    have hlinks : es.filter (isLink e.id) = es.filter fun x => x.id = e.id := by
      apply List.filter_congr
      intro x hx
      rw [isLink]
      by_cases hid : x.id = e.id
      · rw [(same_inode hes hx he hid).2.2, hdir, hid]
        simp
      · simp [hid]
    have hinode : (vol.inode e.id).nlink = e.nlink := by
      rw [entry_eq hes he]
      rfl
    rw [hlinks, hinode] at hle
    omega
  have hmem : e ∈ es.filter fun x => x.id = e.id := List.mem_filter.mpr ⟨he, by simp⟩
  have hpos := List.length_pos_of_mem hmem
  obtain ⟨x, hx⟩ := List.length_eq_one_iff.mp (Nat.le_antisymm hcount hpos)
  rw [hx] at hmem ⊢
  rw [List.mem_singleton.mp hmem]

/-- What is written of the names of an inode that is no directory: the last one carries the
data, and the others carry none. -/
theorem written_of_inode (hes : vol.collect = .ok es) {e : Entry} (he : e ∈ es)
    (hdir : e.isDir = false) :
    ∃ pre last,
      (vol.written es).filter (fun w => w.1.id = e.id) = pre ++ [(last, vol.readPayload e)] ∧
      (∀ w ∈ pre, w.2 = []) ∧ (es.filter fun x => x.id = e.id).getLast? = some last := by
  by_cases hhard : e.hard = true
  · have hwritten : (vol.written es).filter (fun w => w.1.id = e.id) =
        (vol.written es).filter fun w => inGroup e.id w.1 := by
      apply List.filter_congr
      intro w hw
      rw [inGroup]
      by_cases hid : w.1.id = e.id
      · rw [hard_of_same hes (mem_of_mem_written hw) he hid, hhard, hid]
        simp
      · simp [hid]
    have hpos : 0 < es.countP (inGroup e.id) :=
      List.countP_pos_iff.mpr ⟨e, he, by simp [inGroup, hhard]⟩
    obtain ⟨pre, last, hfilter, hpre, hlast⟩ :=
      @emission_group vol.readPayload (groupTotal es) es _ _ (Midway.start es) e.id hpos
    rw [filter_of_hard hes he hhard] at hlast
    have hmem := List.mem_filter.mp (List.mem_of_getLast? hlast)
    refine ⟨pre, last, ?_, hpre, hlast⟩
    rw [hwritten, written, hfilter, payload_of_same hes hmem.1 he (by simpa using hmem.2)]
  · have hes' := filter_of_not_hard hes he hdir hhard
    have hperm : (((vol.written es).filter fun w => w.1.id = e.id).map (·.1)).Perm
        (es.filter fun x => x.id = e.id) := by
      have h := (@perm_written vol es).filter fun x => decide (x.id = e.id)
      rwa [List.filter_map] at h
    rw [hes', List.perm_singleton] at hperm
    obtain ⟨w, hw, hwe⟩ := List.map_eq_singleton_iff.mp hperm
    refine ⟨[], e, ?_, by simp, by rw [hes']; rfl⟩
    have hmem : w ∈ (vol.written es).filter fun w => w.1.id = e.id := by
      rw [hw]
      exact List.mem_singleton_self w
    have hdata := data_of_not_hard (Midway.start es) (List.mem_of_mem_filter hmem) (by rwa [hwe])
    rw [hw, List.nil_append, ← hwe, ← hdata]

/-! ## In which order -/

/-- The last name of an entry's inode; of a directory, its own name. -/
def lastName (es : List Entry) (e : Entry) : Bytes :=
  if e.isDir then e.name
  else ((es.filter fun x => x.id = e.id).getLast?.map (·.name)).getD e.name

theorem lastName_of_isDir {e : Entry} (h : e.isDir = true) : lastName es e = e.name := by
  rw [lastName, if_pos h]

theorem lastName_eq {e : Entry} (he : e ∈ es) (hdir : e.isDir = false) :
    ∃ last, (es.filter fun x => x.id = e.id).getLast? = some last ∧ lastName es e = last.name := by
  have hne : es.filter (fun x => x.id = e.id) ≠ [] :=
    List.ne_nil_of_mem (List.mem_filter.mpr ⟨he, by simp⟩)
  obtain ⟨last, hlast⟩ := Option.isSome_iff_exists.mp (List.getLast?_isSome.mpr hne)
  refine ⟨last, hlast, ?_⟩
  rw [lastName, hdir, hlast]
  rfl

theorem keyed_lastName (hes : vol.collect = .ok es) : Keyed (lastName es) es fun _ => [] where
  single e he hhard := by
    cases hdir : e.isDir with
    | true => exact lastName_of_isDir hdir
    | false =>
      rw [lastName, hdir, filter_of_not_hard hes he hdir hhard]
      rfl
  group e he hhard := by
    have he : e ∈ es := he.resolve_right List.not_mem_nil
    have hdir : e.isDir = false := by
      cases hdir : e.isDir
      · rfl
      · simp [Entry.hard, hdir] at hhard
    rw [filter_of_hard hes he hhard]
    exact lastName_eq he hdir

theorem written_sorted (hes : vol.collect = .ok es) :
    (vol.written es).Pairwise fun a b => lastName es a.1 ≤ lastName es b.1 :=
  emission_sorted (Midway.start es) (collect_perm hes).2 (keyed_lastName hes)

theorem le_lastName (hes : vol.collect = .ok es) {e : Entry} (he : e ∈ es) :
    e.name ≤ lastName es e := by
  cases hdir : e.isDir with
  | true =>
    rw [lastName_of_isDir hdir]
    exact List.le_refl _
  | false =>
    obtain ⟨last, hlast, heq⟩ := lastName_eq he hdir
    obtain ⟨pre, hpre⟩ := List.getLast?_eq_some_iff.mp hlast
    have hsorted := (collect_perm hes).2.filter fun x => decide (x.id = e.id)
    have hmem : e ∈ es.filter fun x => x.id = e.id := List.mem_filter.mpr ⟨he, by simp⟩
    rw [hpre] at hsorted hmem
    rw [heq]
    rcases List.mem_append.mp hmem with hmem | hmem
    · exact (List.pairwise_append.mp hsorted).2.2 e hmem last (List.mem_singleton_self _)
    · rw [List.mem_singleton.mp hmem]
      exact List.le_refl _

theorem written_dirs (hes : vol.collect = .ok es) :
    (vol.written es).Pairwise fun a b => ¬ Above b.1 a.1 := by
  refine (written_sorted hes).imp_of_mem fun {a b} ha _ hle habove => ?_
  rw [lastName_of_isDir habove.1] at hle
  have hname := le_lastName hes (mem_of_mem_written ha)
  exact not_above_of_le (List.le_trans hname hle) habove

/-- The segment as its reader finds it: `pairs` are the collected entries, in the order in
which they are written, with their members. -/
structure Framing (vol : Volume) (es : List Entry) (bytes : Bytes)
    (pairs : List (Entry × Member)) : Prop where
  walk : ∃ trailer rest, walkSegment bytes = some (pairs.map (·.2), trailer, rest) ∧
    trailer.name = trailerName ∧ trailer.offset % 4 = 0 ∧ ∀ b ∈ rest, b = 0
  entries : (pairs.map (·.1)).Perm es
  shown : ∀ p ∈ pairs, p.2.name = p.1.name ∧ p.2.mode = some p.1.mode.toNat
  aligned : ∀ p ∈ pairs, p.2.offset % 4 = 0 ∧ p.2.dataOffset % 4 = 0
  blocks : bytes.length % 512 = 0
  dirs : pairs.Pairwise fun p q => ¬ Above q.1 p.1
  inodes : ∀ p ∈ pairs, ∀ q ∈ pairs, p.2.ino = q.2.ino ↔ p.1.id = q.1.id
  carriers : ∀ e ∈ es, e.mode &&& S_IFMT = S_IFREG → ∃ pre last,
    pairs.filter (fun p => p.1.id = e.id) = pre ++ [last] ∧
      last.2.data = (vol.inode e.id).content ∧ ∀ p ∈ pre, p.2.data = []

theorem isDir_of_mode (hes : vol.collect = .ok es) {e : Entry} (he : e ∈ es) :
    e.isDir = (e.mode &&& S_IFMT == S_IFDIR) := by
  rw [entry_eq hes he]
  rfl

theorem inodes_iff {pairs : List (Entry × Member)} (hperm : (pairs.map (·.1)).Perm es)
    (hino : ∀ p ∈ pairs, p.2.ino = some (inoOf es p.1.id).toNat) :
    (∀ p ∈ pairs, ∀ q ∈ pairs, p.2.ino = q.2.ino ↔ p.1.id = q.1.id) ↔ inodeCount es ≤ 2 ^ 32 := by
  rw [← inoOf_inj_iff]
  have hnum : ∀ p ∈ pairs, ∀ q ∈ pairs,
      (p.2.ino = q.2.ino ↔ inoOf es p.1.id = inoOf es q.1.id) := by
    intro p hp q hq
    rw [hino p hp, hino q hq, Option.some_inj, UInt32.toNat_inj]
  constructor
  · intro h a ha b hb
    obtain ⟨p, hp, rfl⟩ := List.mem_map.mp (hperm.symm.subset ha)
    obtain ⟨q, hq, rfl⟩ := List.mem_map.mp (hperm.symm.subset hb)
    rw [← hnum p hp q hq]
    exact h p hp q hq
  · intro h p hp q hq
    rw [hnum p hp q hq]
    exact h p.1 (hperm.subset (List.mem_map_of_mem hp)) q.1 (hperm.subset (List.mem_map_of_mem hq))

theorem entry_unique (hes : vol.collect = .ok es) {a b : Entry} (ha : a ∈ es) (hb : b ∈ es)
    (hname : a.name = b.name) : a = b :=
  List.inj_on_of_nodup_map (nodup_names hes) ha hb hname

theorem walk_pairs (hes : vol.collect = .ok es) (hseg : vol.rootfsSegment = .ok bytes) :
    ∃ zs : List ((Entry × Bytes) × Member), ∃ trailer rest,
      walkSegment bytes = some (zs.map (·.2), trailer, rest) ∧ zs.map (·.1) = vol.visible es ∧
      (∀ z ∈ zs, Finds es z.1 z.2) ∧ trailer.name = trailerName ∧ trailer.offset % 4 = 0 ∧
      ((∀ e ∈ es, e.name ≠ trailerName) → ∀ b ∈ rest, b = 0) := by
  obtain ⟨members, trailer, rest, hwalk, hfinds, hrest⟩ := walk_written hes hseg
  obtain ⟨hlen, hfinds⟩ := List.forall₂_iff_zip.mp hfinds
  refine ⟨(vol.visible es).zip members, trailer, rest, ?_, ?_, fun z hz => hfinds hz, hrest⟩
  · rw [List.map_snd_zip hlen.ge]
    exact hwalk
  · exact List.map_fst_zip hlen.le

theorem ino_of_framing (hes : vol.collect = .ok es) (hseg : vol.rootfsSegment = .ok bytes)
    {pairs : List (Entry × Member)} (h : vol.Framing es bytes pairs) :
    ∀ p ∈ pairs, p.2.ino = some (inoOf es p.1.id).toNat := by
  intro p hp
  obtain ⟨zs, _, _, hwalk, hvisible, hfinds, -⟩ := walk_pairs hes hseg
  obtain ⟨_, _, hwalk', -⟩ := h.walk
  rw [hwalk, Option.some_inj, Prod.mk.injEq] at hwalk'
  have hmem : p.2 ∈ zs.map (·.2) := by
    rw [hwalk'.1]
    exact List.mem_map_of_mem hp
  obtain ⟨z, hz, hzp⟩ := List.mem_map.mp hmem
  have hz₁ : z.1 ∈ vol.written es := by
    apply (List.takeWhile_prefix _).subset
    rw [← visible, ← hvisible]
    exact List.mem_map_of_mem hz
  -- the entry is the one that was written under this name
  have hsame : z.1.1 = p.1 := by
    apply entry_unique hes (mem_of_mem_written hz₁) (h.entries.subset (List.mem_map_of_mem hp))
    rw [← (hfinds z hz).name, hzp, (h.shown p hp).1]
  rw [← hzp, (hfinds z hz).ino, hsame]

theorem framing_of_inodes (hes : vol.collect = .ok es) (hseg : vol.rootfsSegment = .ok bytes)
    (hname : ∀ e ∈ es, e.name ≠ trailerName) (hfew : inodeCount es ≤ 2 ^ 32) :
    ∃ pairs, vol.Framing es bytes pairs := by
  obtain ⟨zs, trailer, rest, hwalk, hvisible, hfinds, htrailer, halign, hrest⟩ :=
    walk_pairs hes hseg
  rw [visible_eq hname] at hvisible
  -- the pairs of entries and members, without the data that was written
  let entryMember : (Entry × Bytes) × Member → Entry × Member := fun z => (z.1.1, z.2)
  have hsnd : (zs.map entryMember).map (·.2) = zs.map (·.2) := by
    rw [List.map_map]
    rfl
  have hfst : (zs.map entryMember).map (·.1) = (vol.written es).map (·.1) := by
    rw [← hvisible, List.map_map, List.map_map]
    rfl
  have hperm : ((zs.map entryMember).map (·.1)).Perm es := by
    rw [hfst]
    exact perm_written es
  have hino : ∀ p ∈ zs.map entryMember, p.2.ino = some (inoOf es p.1.id).toNat := by
    intro p hp
    obtain ⟨z, hz, rfl⟩ := List.mem_map.mp hp
    exact (hfinds z hz).ino
  refine ⟨zs.map entryMember, ?_, hperm, ?_, ?_, ?_, ?_, (inodes_iff hperm hino).mpr hfew, ?_⟩
  · refine ⟨trailer, rest, ?_, htrailer, halign, hrest hname⟩
    rw [hsnd, hwalk]
  · intro p hp
    obtain ⟨z, hz, rfl⟩ := List.mem_map.mp hp
    exact ⟨(hfinds z hz).name, (hfinds z hz).mode⟩
  · intro p hp
    obtain ⟨z, hz, rfl⟩ := List.mem_map.mp hp
    exact (hfinds z hz).aligned
  · rw [((rootfsSegment_eq hes).mp hseg).2]
    exact length_segment _
  · have hdirs := written_dirs hes
    rw [← hvisible, List.pairwise_map] at hdirs
    rw [List.pairwise_map]
    exact hdirs
  · -- of the names of a regular file, the last one written has its content
    intro e he hreg
    have hdir : e.isDir = false := by
      rw [isDir_of_mode hes he, hreg]
      rfl
    obtain ⟨pre, last, hfilter, hpre, -⟩ := written_of_inode hes he hdir
    rw [← hvisible, List.filter_map] at hfilter
    obtain ⟨zpre, zlast, hsplit, hzpre, hzlast⟩ := List.map_eq_append_iff.mp hfilter
    obtain ⟨z, rfl, hz⟩ := List.map_eq_singleton_iff.mp hzlast
    have hmem : ∀ y ∈ zpre ++ [z], y ∈ zs := by
      intro y hy
      rw [← hsplit] at hy
      exact List.mem_of_mem_filter hy
    refine ⟨zpre.map entryMember, entryMember z, ?_, ?_, ?_⟩
    · rw [List.filter_map]
      have h := congrArg (List.map entryMember) hsplit
      rw [List.map_append] at h
      exact h
    · have hdata := (hfinds z (hmem z (by simp))).data
      rw [hz] at hdata
      change z.2.data = _
      rw [hdata]
      simp [readPayload, hreg]
    · intro p hp
      obtain ⟨y, hy, rfl⟩ := List.mem_map.mp hp
      change y.2.data = []
      rw [(hfinds y (hmem y (List.mem_append_left _ hy))).data]
      apply hpre
      rw [← hzpre]
      exact List.mem_map_of_mem hy

/-- Where no entry is called like the trailer, the segment is framed as it should be exactly
if the tree has no more inodes than there are numbers. -/
theorem framed_iff (hes : vol.collect = .ok es) (hseg : vol.rootfsSegment = .ok bytes)
    (hname : ∀ e ∈ es, e.name ≠ trailerName) :
    (∃ pairs, vol.Framing es bytes pairs) ↔ inodeCount es ≤ 2 ^ 32 := by
  constructor
  · rintro ⟨pairs, h⟩
    exact (inodes_iff h.entries (ino_of_framing hes hseg h)).mp h.inodes
  · exact framing_of_inodes hes hseg hname

/-- A directory `d` with a file `d/x`, the file `y` that is the same inode, and a symbolic link
`z`. -/
def sample : Volume where
  inode id :=
    if id = (0, 1) then { mode := S_IFDIR ||| 0o755, nlink := 2, rdev := 0, content := [] }
    else if id = (0, 2) then
      { mode := S_IFREG ||| 0o644, nlink := 2, rdev := 0, content := [104, 105] }
    else { mode := S_IFLNK ||| 0o777, nlink := 1, rdev := 0, content := [121] }
  root := [([100], .dir (0, 1) [([120], .leaf (0, 2))]), ([121], .leaf (0, 2)),
    ([122], .leaf (0, 3))]
  rootLen := 1
  proper := by
    simp only [ProperEntries, FsTree.Proper]
    decide
  counted id := by
    simp only [linksOf, FsTree.links, List.append_nil, List.nil_append, List.cons_append,
      List.count_cons, List.count_nil]
    by_cases h1 : id = (0, 1)
    · subst h1
      decide
    · by_cases h2 : id = (0, 2)
      · subst h2
        decide
      · rw [if_neg h1, if_neg h2]
        have hne : ((0, 2) == id) = false := beq_eq_false_iff_ne.mpr (Ne.symm h2)
        rw [hne]
        split <;> decide

def sampleEntries : List Entry :=
  [sample.entryOf [100] (0, 1), sample.entryOf [100, 47, 120] (0, 2), sample.entryOf [121] (0, 2),
    sample.entryOf [122] (0, 3)]

theorem collect_sample : sample.collect = .ok sampleEntries := by decide +kernel

theorem framed_iff_sample : ∃ bytes, sample.rootfsSegment = .ok bytes ∧
    ∃ pairs, sample.Framing sampleEntries bytes pairs := by
  have hseg := (rootfsSegment_eq collect_sample).mpr ⟨by decide +kernel, rfl⟩
  exact ⟨_, hseg, (framed_iff collect_sample hseg (by decide +kernel)).mpr (by decide +kernel)⟩

/-! A directory without subdirectories, with as many files as needed. -/

def flatName (i : Nat) : Bytes := numeral 16 9 i

theorem flatName_inj {i j : Nat} (h : flatName i = flatName j) : i = j := by
  have hread := congrArg (readNumeral 16) h
  rw [flatName, flatName, readNumeral_numeral (by decide) (by decide),
    readNumeral_numeral (by decide) (by decide)] at hread
  exact Option.some_inj.mp hread

theorem slash_notMem_flatName (i : Nat) : 47 ∉ flatName i := by
  intro h
  obtain ⟨d, -, hd⟩ := digitValue_of_mem_numeral (by decide) (by decide) h
  cases hd

theorem length_flatName {i : Nat} (hi : i < 16 ^ 9) : (flatName i).length = 9 :=
  length_numeral (by decide) hi

def flatEntries (is : List Nat) : List (Bytes × FsTree) :=
  is.map fun i => (flatName i, .leaf (0, UInt64.ofNat i))

def emptyFile : Inode where
  mode := S_IFREG ||| 0o644
  nlink := 1
  rdev := 0
  content := []

theorem proper_flatEntries {is : List Nat} (hnodup : is.Nodup) (hlt : ∀ i ∈ is, i < 16 ^ 9) :
    ProperEntries (fun _ => emptyFile) (flatEntries is) := by
  induction is with
  | nil =>
    unfold flatEntries ProperEntries
    trivial
  | cons i is ih =>
    obtain ⟨hfresh, hnodup⟩ := List.nodup_cons.mp hnodup
    unfold flatEntries
    rw [List.map_cons, ProperEntries]
    refine ⟨⟨?_, slash_notMem_flatName i⟩, ?_, ?_,
      ih hnodup fun i hi => hlt i (List.mem_cons_of_mem _ hi)⟩
    · rw [← List.length_pos_iff, length_flatName (hlt i List.mem_cons_self)]
      decide
    · intro hmem
      obtain ⟨e, he, heq⟩ := List.mem_map.mp hmem
      obtain ⟨j, hj, rfl⟩ := List.mem_map.mp he
      exact hfresh (flatName_inj heq ▸ hj)
    · unfold FsTree.Proper
      decide

theorem linksOf_flatEntries (is : List Nat) :
    linksOf (flatEntries is) = is.map fun i => (0, UInt64.ofNat i) := by
  induction is with
  | nil => rfl
  | cons i is ih =>
    unfold flatEntries at ih ⊢
    rw [List.map_cons, linksOf, ih, FsTree.links]
    rfl

theorem flatId_inj {i j : Nat} (hi : i < 16 ^ 9) (hj : j < 16 ^ 9)
    (h : ((0, UInt64.ofNat i) : InodeId) = (0, UInt64.ofNat j)) : i = j := by
  have hnat := congrArg (fun id => id.2.toNat) h
  dsimp only at hnat
  rw [UInt64.toNat_ofNat', UInt64.toNat_ofNat', Nat.mod_eq_of_lt (by omega),
    Nat.mod_eq_of_lt (by omega)] at hnat
  exact hnat

theorem nodup_flatIds {is : List Nat} (hnodup : is.Nodup) (hlt : ∀ i ∈ is, i < 16 ^ 9) :
    (is.map fun i => ((0, UInt64.ofNat i) : InodeId)).Nodup :=
  hnodup.map_on fun i hi j hj h => flatId_inj (hlt i hi) (hlt j hj) h

def flat (n : Nat) (hn : n ≤ 16 ^ 9) : Volume where
  inode _ := emptyFile
  root := flatEntries (List.range n)
  rootLen := 1
  proper := proper_flatEntries List.nodup_range fun i hi => (List.mem_range.mp hi).trans_le hn
  counted id := by
    rw [linksOf_flatEntries]
    exact List.nodup_iff_count_le_one.mp
      (nodup_flatIds List.nodup_range fun i hi => (List.mem_range.mp hi).trans_le hn) id

theorem dirEntries_flat {n : Nat} (hn : n ≤ 16 ^ 9) {is : List Nat} (hlt : ∀ i ∈ is, i < 16 ^ 9) :
    (flat n hn).dirEntries [] (flatEntries is) =
      is.map fun i => (flat n hn).entryOf (flatName i) (0, UInt64.ofNat i) := by
  induction is with
  | nil =>
    unfold flatEntries dirEntries
    rfl
  | cons i is ih =>
    have hkept : excluded (flatName i) = false := by
      have hlen := length_flatName (hlt i List.mem_cons_self)
      rw [excluded, Bool.or_eq_false_iff]
      constructor
      · rw [beq_eq_false_iff_ne]
        intro h
        rw [h] at hlen
        cases hlen
      · rw [← Bool.not_eq_true, List.isPrefixOf_iff_prefix]
        intro h
        exact slash_notMem_flatName i (h.subset (by simp))
    unfold flatEntries at ih ⊢
    rw [List.map_cons, dirEntries, ih fun i hi => hlt i (List.mem_cons_of_mem _ hi)]
    simp only [relName, if_true, hkept, Bool.false_eq_true, if_false, treeEntries, List.map_cons,
      List.singleton_append]

theorem flat_segment {n : Nat} (hn : n ≤ 16 ^ 9) :
    ∃ es bytes, (flat n hn).collect = .ok es ∧ (flat n hn).rootfsSegment = .ok bytes ∧
      (∀ e ∈ es, e.name ≠ trailerName) ∧ inodeCount es = n := by
  have hlt : ∀ i ∈ List.range n, i < 16 ^ 9 := fun i hi => (List.mem_range.mp hi).trans_le hn
  have hall : (flat n hn).dirEntries [] (flat n hn).root =
      (List.range n).map fun i => (flat n hn).entryOf (flatName i) (0, UInt64.ofNat i) :=
    dirEntries_flat hn hlt
  have hlen : ∀ e ∈ (flat n hn).dirEntries [] (flat n hn).root, e.name.length = 9 := by
    intro e he
    rw [hall] at he
    obtain ⟨i, hi, rfl⟩ := List.mem_map.mp he
    exact length_flatName (hlt i hi)
  obtain ⟨es, hes⟩ := @collect_total (flat n hn) fun e he => by
    have h := hlen e he
    change 1 + 1 + e.name.length < PATH_MAX
    rw [h]
    decide
  have hperm := (collect_perm hes).1
  -- no file has a second name or content
  have hempty : ∀ w ∈ (flat n hn).written es, w.2.length < 2 ^ 32 := by
    intro w hw
    have hsingle : w.1.hard ≠ true := by
      rw [entry_eq hes (mem_of_mem_written hw)]
      simp [Entry.hard, entryOf, flat, emptyFile]
    have hdata : w.2 = (flat n hn).readPayload w.1 := data_of_not_hard (Midway.start es) hw hsingle
    have hnone : (flat n hn).readPayload w.1 = [] := by
      rw [entry_eq hes (mem_of_mem_written hw)]
      simp [readPayload, entryOf, flat, emptyFile]
    rw [hdata, hnone]
    decide
  refine ⟨es, _, hes, (rootfsSegment_eq hes).mpr ⟨hempty, rfl⟩, fun e he htrailer => ?_, ?_⟩
  · have h := hlen e (hperm.subset he)
    rw [htrailer] at h
    cases h
  · have hids : (es.map (·.id)).Perm ((List.range n).map fun i => (0, UInt64.ofNat i)) := by
      refine (hperm.map _).trans ?_
      rw [hall, List.map_map]
      rfl
    rw [inodeCount, (hids.nodup_iff.mpr (nodup_flatIds List.nodup_range hlt)).dedup, hids.length_eq]
    simp

/-- With one inode more than there are numbers, two files have one inode number. -/
theorem inode_number_reused :
    ∃ (vol : Volume) (es : List Entry) (bytes : Bytes), vol.collect = .ok es ∧
      vol.rootfsSegment = .ok bytes ∧ (∀ e ∈ es, e.name ≠ trailerName) ∧
        ¬ ∃ pairs, vol.Framing es bytes pairs := by
  have hn : 2 ^ 32 + 1 ≤ 16 ^ 9 := by norm_num
  obtain ⟨es, bytes, hes, hseg, hname, hcount⟩ := flat_segment hn
  refine ⟨_, es, bytes, hes, hseg, hname, ?_⟩
  rintro ⟨pairs, h⟩
  have hfew := (inodes_iff h.entries (ino_of_framing hes hseg h)).mp h.inodes
  omega

end Volume

end Tdvmm.Cpio
