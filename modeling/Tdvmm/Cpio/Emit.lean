import Mathlib.Logic.Function.Basic
import Tdvmm.Cpio.Collect
import Tdvmm.Cpio.Newc

/-!
# Cpio.Emit — the segment of a directory tree

`rootfsSegment` writes the collected entries in the order of their names, except that the names
of an inode with several links are held back until the last of them: then the earlier ones are
written in reverse without data, and the last one with the content.

`emission` is the list of what is written.

* `emission_perm`: each entry is written once.
* `emission_sorted`: entries are written in the order of the last names of their inodes.
* `emission_group`: of the names of an inode, the last one written carries its data.
-/

namespace Tdvmm.Cpio

open Lib Function

def BUILD_EPOCH : UInt32 := 1785542400

def rdevOf (rdev : UInt64) (mode : UInt32) : UInt32 × UInt32 :=
  let t := mode &&& S_IFMT
  if t == S_IFCHR || t == S_IFBLK then
    (((rdev >>> 8) &&& 0xfff).toUInt32,
      (rdev &&& 0xff).toUInt32 ||| ((rdev >>> 12) &&& ~~~0xff).toUInt32)
  else (0, 0)

def Volume.readPayload (vol : Volume) (e : Entry) : Bytes :=
  let t := e.mode &&& S_IFMT
  if t == S_IFREG || t == S_IFLNK then (vol.inode e.id).content else []

def headerOf (e : Entry) (ino : UInt32) (payload : Bytes) : NewcHeader where
  ino
  mode := e.mode
  nlink := if e.isDir then 2 else e.nlink
  mtime := BUILD_EPOCH
  filesize := UInt32.ofNat payload.length
  devmajor := 0
  devminor := 0
  rdevmajor := (rdevOf e.rdev e.mode).1
  rdevminor := (rdevOf e.rdev e.mode).2
  name := e.name

def writeEntry (out : Out) (e : Entry) (ino : UInt32) (payload : Bytes) : Except CpioError Out :=
  if payload.length < 2 ^ 32 then
    let out := out.header (headerOf e ino payload)
    .ok (if payload.isEmpty then out else out.data payload)
  else .error (.tooLarge (utf8Lossy e.name) payload.length)

/-- Number inodes by first appearance; the numbers wrap around. -/
def renumber : List Entry → UInt32 → List (InodeId × UInt32) → List (InodeId × UInt32)
  | [], _, map => map
  | e :: es, counter, map =>
    if (map.lookup e.id).isSome then renumber es counter map
    else renumber es (counter + 1) (map ++ [(e.id, counter)])

def inoOf (es : List Entry) (id : InodeId) : UInt32 := ((renumber es 0 []).lookup id).getD 0

def Entry.hard (e : Entry) : Bool := !e.isDir && 1 < e.nlink

def inGroup (id : InodeId) (e : Entry) : Bool := e.hard && e.id == id

def groupTotal (es : List Entry) (id : InodeId) : Nat := es.countP (inGroup id)

structure Pass where
  deferred : InodeId → List Entry
  seen : InodeId → Nat
  out : Out

section Emit

variable (payload : Entry → Bytes) (ino : InodeId → UInt32) (total : InodeId → Nat)

def emitEntries : List Entry → Pass → Except CpioError Out
  | [], st => .ok st.out
  | e :: es, st =>
    if e.hard then
      let seen := update st.seen e.id (st.seen e.id + 1)
      if seen e.id < total e.id then
        emitEntries es
          { st with seen, deferred := update st.deferred e.id (st.deferred e.id ++ [e]) }
      else do
        let out ← (st.deferred e.id).reverse.foldlM
          (fun out d => writeEntry out d (ino e.id) []) st.out
        let out ← writeEntry out e (ino e.id) (payload e)
        emitEntries es { seen, deferred := update st.deferred e.id [], out }
    else do
      let out ← writeEntry st.out e (ino e.id) (payload e)
      emitEntries es { st with out }

/-- What the second pass writes: entries with their data. -/
def emission : List Entry → (InodeId → List Entry) → (InodeId → Nat) → List (Entry × Bytes)
  | [], _, _ => []
  | e :: es, deferred, seen =>
    if e.hard then
      let seen := update seen e.id (seen e.id + 1)
      if seen e.id < total e.id then
        emission es (update deferred e.id (deferred e.id ++ [e])) seen
      else
        ((deferred e.id).reverse.map fun d => (d, [])) ++ (e, payload e) ::
          emission es (update deferred e.id []) seen
    else (e, payload e) :: emission es deferred seen

end Emit

namespace Volume

def rootfsSegment (vol : Volume) : Except CpioError Out := do
  let es ← vol.collect
  let out ← emitEntries vol.readPayload (inoOf es) (groupTotal es) es
    { deferred := fun _ => [], seen := fun _ => 0, out := [] }
  .ok (out.trailer.padTo512)

def written (vol : Volume) (es : List Entry) : List (Entry × Bytes) :=
  emission vol.readPayload (groupTotal es) es (fun _ => []) (fun _ => 0)

end Volume

/-! ## The segment is the encoding of what is written -/

section Encode

variable {payload : Entry → Bytes} {ino : InodeId → UInt32} {total : InodeId → Nat}

def records (ino : InodeId → UInt32) (ws : List (Entry × Bytes)) : List Record :=
  ws.map fun w => (headerOf w.1 (ino w.1.id) w.2, w.2)

def writeAll (ino : InodeId → UInt32) (out : Out) (ws : List (Entry × Bytes)) :
    Except CpioError Out :=
  ws.foldlM (fun out w => writeEntry out w.1 (ino w.1.id) w.2) out

theorem writeEntry_ok {out out' : Out} {e : Entry} {n : UInt32} {data : Bytes} :
    writeEntry out e n data = .ok out' ↔
      data.length < 2 ^ 32 ∧ out' = out ++ frame (headerOf e n data) data := by
  unfold writeEntry
  have hframe : (if data.isEmpty then out.header (headerOf e n data)
      else (out.header (headerOf e n data)).data data) = out ++ frame (headerOf e n data) data := by
    cases data with
    | nil => simp [frame_nil, ← header_eq]
    | cons b data =>
      rw [frame, ← List.append_assoc, ← header_eq, ← data_eq]
      rfl
  split
  · rename_i hlt
    simp only [hframe]
    constructor
    · intro h
      exact ⟨hlt, (Except.ok.inj h).symm⟩
    · rintro ⟨-, rfl⟩
      rfl
  · rename_i hlt
    constructor
    · intro h
      cases h
    · rintro ⟨h, -⟩
      exact absurd h hlt

theorem writeAll_ok {out out' : Out} {ws : List (Entry × Bytes)} :
    writeAll ino out ws = .ok out' ↔
      (∀ w ∈ ws, w.2.length < 2 ^ 32) ∧ out' = out ++ frames (records ino ws) := by
  induction ws generalizing out with
  | nil => simp [writeAll, records, frames, pure, Except.pure, eq_comm]
  | cons w ws ih =>
    have hstep : writeAll ino out (w :: ws) =
        writeEntry out w.1 (ino w.1.id) w.2 >>= fun out => writeAll ino out ws := by
      simp [writeAll]
    rw [hstep]
    cases hw : writeEntry out w.1 (ino w.1.id) w.2 with
    | error e =>
      have hlong : ¬ w.2.length < 2 ^ 32 := by
        intro hlt
        rw [writeEntry_ok.mpr ⟨hlt, rfl⟩] at hw
        cases hw
      constructor
      · intro h
        cases h
      · rintro ⟨h, -⟩
        exact absurd (h w List.mem_cons_self) hlong
    | ok out₁ =>
      obtain ⟨hlt, rfl⟩ := writeEntry_ok.mp hw
      change writeAll ino _ ws = .ok out' ↔ _
      rw [ih, List.forall_mem_cons, and_iff_right hlt]
      simp [records, frames, List.append_assoc]

theorem writeAll_append {out : Out} {ws ws' : List (Entry × Bytes)} :
    writeAll ino out (ws ++ ws') = writeAll ino out ws >>= fun out => writeAll ino out ws' := by
  simp [writeAll, List.foldlM_append]

def Held (deferred : InodeId → List Entry) : Prop :=
  ∀ id, ∀ d ∈ deferred id, d.id = id ∧ d.hard = true

theorem Held.push {deferred : InodeId → List Entry} (h : Held deferred) {e : Entry}
    (he : e.hard = true) : Held (update deferred e.id (deferred e.id ++ [e])) := by
  intro id d hd
  by_cases hid : id = e.id
  · subst hid
    rw [update_self, List.mem_append, List.mem_singleton] at hd
    rcases hd with hd | rfl
    · exact h _ d hd
    · exact ⟨rfl, he⟩
  · rw [update_of_ne hid] at hd
    exact h id d hd

theorem Held.clear {deferred : InodeId → List Entry} (h : Held deferred) (key : InodeId) :
    Held (update deferred key []) := by
  intro id d hd
  by_cases hid : id = key
  · subst hid
    rw [update_self] at hd
    cases hd
  · rw [update_of_ne hid] at hd
    exact h id d hd

theorem foldlM_deferred {out : Out} {ds : List Entry} {id : InodeId} (hds : ∀ d ∈ ds, d.id = id) :
    ds.foldlM (fun out d => writeEntry out d (ino id) []) out =
      writeAll ino out (ds.map fun d => (d, [])) := by
  induction ds generalizing out with
  | nil => rfl
  | cons d ds ih =>
    simp only [writeAll, List.map_cons, List.foldlM_cons] at ih ⊢
    rw [hds d List.mem_cons_self]
    congr 1
    funext out
    exact ih fun d hd => hds d (List.mem_cons_of_mem _ hd)

theorem emitEntries_eq {es : List Entry} {st : Pass} (hheld : Held st.deferred) :
    emitEntries payload ino total es st =
      writeAll ino st.out (emission payload total es st.deferred st.seen) := by
  induction es generalizing st with
  | nil => rfl
  | cons e es ih =>
    rw [emitEntries, emission]
    by_cases he : e.hard = true
    · simp only [he, if_true]
      split
      · exact ih (hheld.push he)
      · have hids : ∀ d ∈ (st.deferred e.id).reverse, d.id = e.id := fun d hd =>
          (hheld e.id d (List.mem_reverse.mp hd)).1
        rw [foldlM_deferred hids, writeAll_append]
        congr 1
        funext out
        have hcons : ∀ ws, writeAll ino out ((e, payload e) :: ws) =
            writeEntry out e (ino e.id) (payload e) >>= fun out => writeAll ino out ws := by
          intro ws
          simp [writeAll]
        rw [hcons]
        congr 1
        funext out
        exact ih (hheld.clear e.id)
    · simp only [he, if_false, Bool.false_eq_true]
      have hcons : ∀ ws, writeAll ino st.out ((e, payload e) :: ws) =
          writeEntry st.out e (ino e.id) (payload e) >>= fun out => writeAll ino out ws := by
        intro ws
        simp [writeAll]
      rw [hcons]
      congr 1
      funext out
      exact ih hheld

end Encode

/-! ## What is written, and in which order -/

section Order

variable {payload : Entry → Bytes} {total : InodeId → Nat}

/-- Where the pass stands before these entries: what it has seen and what is still to come
make up the group, and a group with entries held back is not complete. -/
structure Midway (total : InodeId → Nat) (es : List Entry) (deferred : InodeId → List Entry)
    (seen : InodeId → Nat) : Prop where
  held : Held deferred
  counts : ∀ id, seen id + es.countP (inGroup id) = total id
  incomplete : ∀ id, deferred id ≠ [] → 0 < es.countP (inGroup id)

namespace Midway

variable {e : Entry} {es : List Entry} {deferred : InodeId → List Entry} {seen : InodeId → Nat}

theorem start (es : List Entry) : Midway (groupTotal es) es (fun _ => []) fun _ => 0 where
  held := by
    intro id d hd
    cases hd
  counts := by
    intro id
    simp [groupTotal]
  incomplete := by
    intro id h
    exact absurd rfl h

theorem countP_self (he : e.hard = true) :
    (e :: es).countP (inGroup e.id) = es.countP (inGroup e.id) + 1 :=
  List.countP_cons_of_pos (by simp [inGroup, he])

theorem countP_other {id : InodeId} (hid : e.hard = true → id ≠ e.id) :
    (e :: es).countP (inGroup id) = es.countP (inGroup id) := by
  apply List.countP_cons_of_neg
  intro h
  rw [inGroup, Bool.and_eq_true, beq_iff_eq] at h
  exact hid h.1 h.2.symm

theorem pass (h : Midway total (e :: es) deferred seen) (he : e.hard ≠ true) :
    Midway total es deferred seen where
  held := h.held
  counts id := by
    rw [← h.counts id, countP_other fun hc => absurd hc he]
  incomplete id hne := by
    rw [← countP_other (e := e) fun hc => absurd hc he]
    exact h.incomplete id hne

theorem push (h : Midway total (e :: es) deferred seen) (he : e.hard = true)
    (hlt : seen e.id + 1 < total e.id) :
    Midway total es (update deferred e.id (deferred e.id ++ [e]))
      (update seen e.id (seen e.id + 1)) where
  held := h.held.push he
  counts id := by
    have hc := h.counts id
    by_cases hid : id = e.id
    · subst hid
      rw [countP_self he] at hc
      rw [update_self]
      omega
    · rw [countP_other fun _ => hid] at hc
      rw [update_of_ne hid]
      exact hc
  incomplete id hne := by
    by_cases hid : id = e.id
    · subst hid
      have hc := h.counts e.id
      rw [countP_self he] at hc
      omega
    · rw [update_of_ne hid] at hne
      rw [← countP_other (e := e) fun _ => hid]
      exact h.incomplete id hne

theorem flush (h : Midway total (e :: es) deferred seen) (he : e.hard = true)
    (hlt : ¬ seen e.id + 1 < total e.id) :
    es.countP (inGroup e.id) = 0 ∧ Midway total es (update deferred e.id [])
      (update seen e.id (seen e.id + 1)) := by
  have hself := h.counts e.id
  rw [countP_self he] at hself
  refine ⟨by omega, h.held.clear e.id, fun id => ?_, fun id hne => ?_⟩
  · have hc := h.counts id
    by_cases hid : id = e.id
    · subst hid
      rw [update_self]
      omega
    · rw [countP_other fun _ => hid] at hc
      rw [update_of_ne hid]
      exact hc
  · by_cases hid : id = e.id
    · subst hid
      rw [update_self] at hne
      exact absurd rfl hne
    · rw [update_of_ne hid] at hne
      rw [← countP_other (e := e) fun _ => hid]
      exact h.incomplete id hne

theorem filter_flush (h : Midway total (e :: es) deferred seen) (he : e.hard = true)
    (hlt : ¬ seen e.id + 1 < total e.id) : es.filter (inGroup e.id) = [] :=
  List.filter_eq_nil_iff.mpr (List.countP_eq_zero.mp (h.flush he hlt).1)

end Midway

section Emission

variable {e : Entry} {es : List Entry} {deferred : InodeId → List Entry} {seen : InodeId → Nat}

theorem emission_pass (he : e.hard ≠ true) :
    emission payload total (e :: es) deferred seen =
      (e, payload e) :: emission payload total es deferred seen := by
  rw [emission, if_neg he]

theorem emission_push (he : e.hard = true) (hlt : seen e.id + 1 < total e.id) :
    emission payload total (e :: es) deferred seen =
      emission payload total es (update deferred e.id (deferred e.id ++ [e]))
        (update seen e.id (seen e.id + 1)) := by
  rw [emission, if_pos he, if_pos (by rwa [update_self])]

theorem emission_flush (he : e.hard = true) (hlt : ¬ seen e.id + 1 < total e.id) :
    emission payload total (e :: es) deferred seen =
      ((deferred e.id).reverse.map fun d => (d, [])) ++ (e, payload e) ::
        emission payload total es (update deferred e.id [])
          (update seen e.id (seen e.id + 1)) := by
  rw [emission, if_pos he, if_neg (by rwa [update_self])]

theorem count_emission (h : Midway total es deferred seen) (x : Entry) :
    ((emission payload total es deferred seen).map (·.1)).count x =
      es.count x + (deferred x.id).count x := by
  -- every entry still to come or held back is written, as often as it stands there
  induction es generalizing deferred seen with
  | nil =>
    have hnil : deferred x.id = [] := by
      by_contra hne
      exact absurd (h.incomplete x.id hne) (by simp)
    simp [emission, hnil]
  | cons e es ih =>
    by_cases he : e.hard = true
    · by_cases hlt : seen e.id + 1 < total e.id
      · rw [emission_push he hlt, ih (h.push he hlt), List.count_cons]
        by_cases hid : x.id = e.id
        · rw [hid, update_self, List.count_append, List.count_singleton]
          omega
        · have hne : (e == x) = false := by
            rw [beq_eq_false_iff_ne]
            rintro rfl
            exact hid rfl
          rw [update_of_ne hid, hne]
          simp
      · rw [emission_flush he hlt, List.map_append, List.map_cons, List.count_append,
          List.count_cons, ih (h.flush he hlt).2, List.count_cons]
        have hmap : ((deferred e.id).reverse.map fun d => (d, ([] : Bytes))).map (·.1) =
            (deferred e.id).reverse := by
          rw [List.map_map]
          exact List.map_id _
        rw [hmap, List.count_reverse]
        dsimp only
        by_cases hid : x.id = e.id
        · rw [hid, update_self, List.count_nil]
          omega
        · -- nothing held back for another inode is `x`
          have hnone : (deferred e.id).count x = 0 := by
            rw [List.count_eq_zero]
            intro hx
            exact hid (h.held e.id x hx).1
          rw [update_of_ne hid, hnone]
          omega
    · rw [emission_pass he, List.map_cons, List.count_cons, ih (h.pass he), List.count_cons]
      dsimp only
      omega

theorem mem_emission (h : Midway total es deferred seen) {w : Entry × Bytes}
    (hw : w ∈ emission payload total es deferred seen) : w.1 ∈ es ∨ w.1 ∈ deferred w.1.id := by
  have hcount := @count_emission payload total es deferred seen h w.1
  have hpos : 0 < ((emission payload total es deferred seen).map (·.1)).count w.1 :=
    List.count_pos_iff.mpr (List.mem_map_of_mem hw)
  rw [hcount] at hpos
  by_cases hes : w.1 ∈ es
  · exact .inl hes
  · rw [List.count_eq_zero.mpr hes, Nat.zero_add] at hpos
    exact .inr (List.count_pos_iff.mp hpos)

/-- `a` is a directory, and `b` is below it. -/
def Above (a b : Entry) : Prop := a.isDir = true ∧ a.name ++ [47] <+: b.name

theorem not_above_of_le {a b : Entry} (hle : nameLe b a) : ¬ Above a b := by
  rintro ⟨-, s, hs⟩
  have hlt : a.name ++ [] < a.name ++ ([47] ++ s) := List.append_left_lt (List.nil_lt_cons _ _)
  rw [List.append_nil, ← List.append_assoc, hs] at hlt
  exact absurd hle (by simpa [nameLe] using hlt)

/-- A key for the order of what is written: the name of an entry, or for one of several links
the last name that is still to come. -/
structure Keyed (key : Entry → Bytes) (es : List Entry)
    (deferred : InodeId → List Entry) : Prop where
  single : ∀ x ∈ es, x.hard ≠ true → key x = x.name
  group : ∀ x, x ∈ es ∨ x ∈ deferred x.id → x.hard = true →
    ∃ last, (es.filter (inGroup x.id)).getLast? = some last ∧ key x = last.name

variable {key : Entry → Bytes}

theorem Keyed.tail (hk : Keyed key (e :: es) deferred) {deferred' : InodeId → List Entry}
    (hfrom : ∀ x, x ∈ deferred' x.id → x = e ∨ x ∈ deferred x.id)
    (hmore : ∀ x, x ∈ es ∨ x ∈ deferred' x.id → x.hard = true → inGroup x.id e = true →
      0 < es.countP (inGroup x.id)) : Keyed key es deferred' where
  single x hx := hk.single x (List.mem_cons_of_mem _ hx)
  group x hx hhard := by
    have hbefore : x ∈ e :: es ∨ x ∈ deferred x.id := by
      rcases hx with hx | hx
      · exact .inl (List.mem_cons_of_mem _ hx)
      · rcases hfrom x hx with rfl | hx
        · exact .inl List.mem_cons_self
        · exact .inr hx
    obtain ⟨last, hlast, hkey⟩ := hk.group x hbefore hhard
    by_cases hsame : inGroup x.id e = true
    · have hne : es.filter (inGroup x.id) ≠ [] := by
        have hpos := hmore x hx hhard hsame
        rw [List.countP_eq_length_filter] at hpos
        exact List.length_pos_iff.mp hpos
      obtain ⟨y, hy⟩ := Option.isSome_iff_exists.mp (List.getLast?_isSome.mpr hne)
      rw [List.filter_cons_of_pos hsame, List.getLast?_cons, hy] at hlast
      obtain rfl : y = last := Option.some.inj hlast
      exact ⟨y, hy, hkey⟩
    · rw [List.filter_cons_of_neg hsame] at hlast
      exact ⟨last, hlast, hkey⟩

theorem Keyed.mem (hk : Keyed key es deferred) (h : Midway total es deferred seen)
    {w : Entry × Bytes} (hw : w ∈ emission payload total es deferred seen) :
    ∃ x ∈ es, key w.1 = x.name := by
  by_cases hhard : w.1.hard = true
  · obtain ⟨last, hlast, hkey⟩ := hk.group w.1 (mem_emission h hw) hhard
    exact ⟨last, List.mem_of_mem_filter (List.mem_of_getLast? hlast), hkey⟩
  · rcases mem_emission h hw with hes | hheld
    · exact ⟨w.1, hes, hk.single w.1 hes hhard⟩
    · exact absurd (h.held _ _ hheld).2 hhard

theorem Keyed.pass (hk : Keyed key (e :: es) deferred) (he : e.hard ≠ true) :
    Keyed key es deferred :=
  hk.tail (fun x hx => .inr hx) fun x _ _ hsame => by simp [inGroup, he] at hsame

theorem Keyed.push (hk : Keyed key (e :: es) deferred) (h : Midway total (e :: es) deferred seen)
    (he : e.hard = true) (hlt : seen e.id + 1 < total e.id) :
    Keyed key es (update deferred e.id (deferred e.id ++ [e])) := by
  refine hk.tail (fun x hx => ?_) fun x _ _ hsame => ?_
  · by_cases hid : x.id = e.id
    · rw [hid, update_self, List.mem_append, List.mem_singleton] at hx
      exact hx.symm.imp_right fun hx => hid ▸ hx
    · rw [update_of_ne hid] at hx
      exact .inr hx
  · -- not all of the group has been seen
    have hcounts := h.counts e.id
    rw [Midway.countP_self he] at hcounts
    rw [inGroup, Bool.and_eq_true, beq_iff_eq] at hsame
    rw [← hsame.2]
    omega

theorem Keyed.flush (hk : Keyed key (e :: es) deferred) :
    Keyed key es (update deferred e.id []) := by
  refine hk.tail (fun x hx => ?_) fun x hx hhard hsame => ?_
  · by_cases hid : x.id = e.id
    · rw [hid, update_self] at hx
      cases hx
    · rw [update_of_ne hid] at hx
      exact .inr hx
  · rw [inGroup, Bool.and_eq_true, beq_iff_eq] at hsame
    rcases hx with hx | hx
    · exact List.countP_pos_iff.mpr ⟨x, hx, by simp [inGroup, hhard]⟩
    · rw [← hsame.2, update_self] at hx
      cases hx

theorem Keyed.group_key (hk : Keyed key (e :: es) deferred)
    (h : Midway total (e :: es) deferred seen) (he : e.hard = true)
    (hlt : ¬ seen e.id + 1 < total e.id) {x : Entry} (hx : x = e ∨ x ∈ deferred e.id) :
    key x = e.name := by
  -- the whole group has the name of its last entry for a key
  obtain ⟨hown, hmem⟩ : (x.hard = true ∧ x.id = e.id) ∧ (x ∈ e :: es ∨ x ∈ deferred x.id) := by
    rcases hx with rfl | hx
    · exact ⟨⟨he, rfl⟩, .inl List.mem_cons_self⟩
    · have hheld := h.held _ _ hx
      exact ⟨hheld.symm, .inr (hheld.1 ▸ hx)⟩
  obtain ⟨last, hlast, hkey⟩ := hk.group x hmem hown.1
  rw [hown.2, List.filter_cons_of_pos (by simp [inGroup, he]), h.filter_flush he hlt] at hlast
  obtain rfl : e = last := Option.some.inj hlast
  exact hkey

/-- Entries are written in the order of their keys. -/
theorem emission_sorted (h : Midway total es deferred seen) (hsorted : es.Pairwise nameLe)
    (hk : Keyed key es deferred) :
    (emission payload total es deferred seen).Pairwise fun a b => key a.1 ≤ key b.1 := by
  induction es generalizing deferred seen with
  | nil => exact List.Pairwise.nil
  | cons e es ih =>
    obtain ⟨hfirst, hrest⟩ := List.pairwise_cons.mp hsorted
    -- the keys of what is written later are names that stand later
    have hlater : ∀ {deferred' seen'}, Midway total es deferred' seen' → Keyed key es deferred' →
        ∀ w ∈ emission payload total es deferred' seen', e.name ≤ key w.1 := by
      intro deferred' seen' h' hk' w hw
      obtain ⟨x, hx, hkey⟩ := hk'.mem h' hw
      exact hkey ▸ hfirst x hx
    by_cases he : e.hard = true
    · by_cases hlt : seen e.id + 1 < total e.id
      · rw [emission_push he hlt]
        exact ih (h.push he hlt) hrest (hk.push h he hlt)
      · have hmid := (h.flush he hlt).2
        rw [emission_flush he hlt, List.pairwise_append, List.pairwise_cons]
        refine ⟨?_, ⟨fun w hw => ?_, ih hmid hrest hk.flush⟩, ?_⟩
        · -- all that is held back has one key
          rw [List.pairwise_map]
          refine List.pairwise_of_forall_mem_list fun a ha b hb => ?_
          rw [hk.group_key h he hlt (.inr (List.mem_reverse.mp ha)),
            hk.group_key h he hlt (.inr (List.mem_reverse.mp hb))]
          exact List.le_refl _
        · rw [hk.group_key h he hlt (.inl rfl)]
          exact hlater hmid hk.flush w hw
        · intro a ha b hb
          obtain ⟨d, hd, rfl⟩ := List.mem_map.mp ha
          rw [hk.group_key h he hlt (.inr (List.mem_reverse.mp hd))]
          rcases List.mem_cons.mp hb with rfl | hb
          · rw [hk.group_key h he hlt (.inl rfl)]
            exact List.le_refl _
          · exact hlater hmid hk.flush b hb
    · rw [emission_pass he, List.pairwise_cons]
      refine ⟨fun w hw => ?_, ih (h.pass he) hrest (hk.pass he)⟩
      rw [hk.single e List.mem_cons_self he]
      exact hlater (h.pass he) (hk.pass he) w hw

/-- The last entry of an inode with several links is the last one written for it. It carries
the data, and the others carry none. -/
theorem emission_group (h : Midway total es deferred seen) {id : InodeId}
    (hcount : 0 < es.countP (inGroup id)) :
    ∃ pre last, (emission payload total es deferred seen).filter (fun w => inGroup id w.1) =
      pre ++ [(last, payload last)] ∧ (∀ w ∈ pre, w.2 = []) ∧
        (es.filter (inGroup id)).getLast? = some last := by
  induction es generalizing deferred seen with
  | nil => simp at hcount
  | cons e es ih =>
    by_cases he : e.hard = true
    · by_cases hid : id = e.id
      · subst hid
        by_cases hlt : seen e.id + 1 < total e.id
        · have hmore : 0 < es.countP (inGroup e.id) := by
            have hc := h.counts e.id
            rw [Midway.countP_self he] at hc
            omega
          obtain ⟨pre, last, hfilter, hpre, hlast⟩ := ih (h.push he hlt) hmore
          refine ⟨pre, last, ?_, hpre, ?_⟩
          · rw [emission_push he hlt, hfilter]
          · rw [List.filter_cons_of_pos (by simp [inGroup, he]), List.getLast?_cons, hlast]
            rfl
        · obtain ⟨hnone, hmid⟩ := h.flush he hlt
          -- the group ends here
          have hrest : (emission payload total es (update deferred e.id [])
              (update seen e.id (seen e.id + 1))).filter (fun w => inGroup e.id w.1) = [] := by
            rw [List.filter_eq_nil_iff]
            intro w hw hgroup
            rcases mem_emission hmid hw with hes | hheld
            · exact List.countP_eq_zero.mp hnone w.1 hes hgroup
            · rw [inGroup, Bool.and_eq_true, beq_iff_eq] at hgroup
              rw [hgroup.2, update_self] at hheld
              cases hheld
          refine ⟨(deferred e.id).reverse.map fun d => (d, []), e, ?_, ?_, ?_⟩
          · rw [emission_flush he hlt, List.filter_append,
              List.filter_cons_of_pos (by simp [inGroup, he]), hrest]
            congr 1
            rw [List.filter_eq_self]
            intro w hw
            obtain ⟨d, hd, rfl⟩ := List.mem_map.mp hw
            have hheld := h.held _ d (List.mem_reverse.mp hd)
            simp [inGroup, hheld.1, hheld.2]
          · intro w hw
            obtain ⟨d, -, rfl⟩ := List.mem_map.mp hw
            rfl
          · rw [List.filter_cons_of_pos (by simp [inGroup, he]), h.filter_flush he hlt]
            rfl
      · rw [Midway.countP_other fun _ => hid] at hcount
        have hskip : (e :: es).filter (inGroup id) = es.filter (inGroup id) :=
          List.filter_cons_of_neg (by simp [inGroup, Ne.symm hid])
        by_cases hlt : seen e.id + 1 < total e.id
        · rw [emission_push he hlt, hskip]
          exact ih (h.push he hlt) hcount
        · obtain ⟨pre, last, hfilter, hpre, hlast⟩ := ih (h.flush he hlt).2 hcount
          refine ⟨pre, last, ?_, hpre, hskip ▸ hlast⟩
          rw [emission_flush he hlt, List.filter_append,
            List.filter_cons_of_neg (by simp [inGroup, Ne.symm hid]), hfilter]
          -- what is held back for the other inode is not of this one
          have hother : ((deferred e.id).reverse.map fun d => (d, ([] : Bytes))).filter
              (fun w => inGroup id w.1) = [] := by
            rw [List.filter_eq_nil_iff]
            intro w hw hgroup
            obtain ⟨d, hd, rfl⟩ := List.mem_map.mp hw
            rw [inGroup, Bool.and_eq_true, beq_iff_eq] at hgroup
            exact hid (hgroup.2.symm.trans (h.held _ d (List.mem_reverse.mp hd)).1)
          rw [hother, List.nil_append]
    · rw [Midway.countP_other fun hc => absurd hc he] at hcount
      obtain ⟨pre, last, hfilter, hpre, hlast⟩ := ih (h.pass he) hcount
      refine ⟨pre, last, ?_, hpre, ?_⟩
      · rw [emission_pass he, List.filter_cons_of_neg (by simp [inGroup, he]), hfilter]
      · rw [List.filter_cons_of_neg (by simp [inGroup, he]), hlast]

theorem data_of_not_hard (h : Midway total es deferred seen) {w : Entry × Bytes}
    (hw : w ∈ emission payload total es deferred seen) (hsingle : w.1.hard ≠ true) :
    w.2 = payload w.1 := by
  induction es generalizing deferred seen with
  | nil => cases hw
  | cons e es ih =>
    by_cases he : e.hard = true
    · by_cases hlt : seen e.id + 1 < total e.id
      · rw [emission_push he hlt] at hw
        exact ih (h.push he hlt) hw
      · rw [emission_flush he hlt, List.mem_append, List.mem_cons] at hw
        rcases hw with hw | rfl | hw
        · obtain ⟨d, hd, rfl⟩ := List.mem_map.mp hw
          exact absurd (h.held _ d (List.mem_reverse.mp hd)).2 hsingle
        · rfl
        · exact ih (h.flush he hlt).2 hw
    · rw [emission_pass he, List.mem_cons] at hw
      rcases hw with rfl | hw
      · rfl
      · exact ih (h.pass he) hw

end Emission

end Order

end Tdvmm.Cpio
