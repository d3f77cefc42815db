import Tdvmm.Lib.Numeral

/-!
# Cpio.Newc — the newc archive format, written and read

A member is a header of a magic and thirteen fields of eight hexadecimal digits, its name with a
NUL, and its data; header with name and data are each filled up to four bytes. An archive ends
with a member called `TRAILER!!!`.

`walkMembers` reads an archive back by its headers alone, as an unpacker does, and notes the
offsets it finds. It returns what was written (`walkSegment_segment`), each header and each
content at a multiple of four.
-/

namespace Tdvmm.Cpio

open Lib

/-! ## Writing -/

/-- The fields of a header that are not always zero. -/
structure NewcHeader where
  ino : UInt32
  mode : UInt32
  nlink : UInt32
  mtime : UInt32
  filesize : UInt32
  devmajor : UInt32
  devminor : UInt32
  rdevmajor : UInt32
  rdevminor : UInt32
  name : List UInt8
deriving DecidableEq, Repr

/-- `070701` -/
def magic : List UInt8 := [48, 55, 48, 55, 48, 49]

/-- `TRAILER!!!` -/
def trailerName : List UInt8 := [84, 82, 65, 73, 76, 69, 82, 33, 33, 33]

abbrev Out := List UInt8

def Out.padZeros (out : Out) (n : Nat) : Out := out ++ List.replicate n 0

namespace NewcHeader

/-- The length of the name with its NUL, as it is stored. -/
def namesize (h : NewcHeader) : UInt32 := UInt32.ofNat h.name.length + 1

def fields (h : NewcHeader) : List UInt32 :=
  [h.ino, h.mode, 0, 0, h.nlink, h.mtime, h.filesize, h.devmajor, h.devminor, h.rdevmajor,
    h.rdevminor, h.namesize, 0]

end NewcHeader

namespace Out

def header (out : Out) (h : NewcHeader) : Out :=
  let out := out ++ magic ++ h.fields.flatMap (fun v => numeral 16 8 v.toNat)
  let out := out ++ h.name ++ [0]
  let hdrlen := 110 + h.namesize.toNat
  padZeros out ((4 - hdrlen % 4) % 4)

def data (out : Out) (d : List UInt8) : Out := padZeros (out ++ d) ((4 - d.length % 4) % 4)

def trailer (out : Out) : Out :=
  out.header
    { ino := 0, mode := 0, nlink := 1, mtime := 0, filesize := 0, devmajor := 0, devminor := 0,
      rdevmajor := 0, rdevminor := 0, name := trailerName }

def padTo512 (out : Out) : Out := out.padZeros ((512 - out.length % 512) % 512)

end Out

/-! ## Reading -/

/-- A member as a reader finds it: where its header and its data are, the fields of the
header, its name and its data. -/
structure Member where
  offset : Nat
  dataOffset : Nat
  fields : List Nat
  name : List UInt8
  data : List UInt8
deriving DecidableEq, Repr

def Member.ino (m : Member) : Option Nat := m.fields[0]?

def Member.mode (m : Member) : Option Nat := m.fields[1]?

def readFields : Nat → List UInt8 → Option (List Nat × List UInt8)
  | 0, bs => some ([], bs)
  | n + 1, bs => do
    let (digits, bs) ← cut 8 bs
    let v ← readNumeral 16 digits
    let (vs, bs) ← readFields n bs
    some (v :: vs, bs)

def readMember (off : Nat) (bs : List UInt8) : Option (Member × List UInt8) := do
  let (m, bs) ← cut 6 bs
  if m ≠ magic then none
  else
    let (fields, bs) ← readFields 13 bs
    let namesize ← fields[11]?
    let filesize ← fields[6]?
    let (name, bs) ← cut namesize bs
    let (_, bs) ← cut (padding 4 (110 + namesize)) bs
    let (data, bs) ← cut filesize bs
    let (_, bs) ← cut (padding 4 filesize) bs
    some ({ offset := off, dataOffset := off + 110 + namesize + padding 4 (110 + namesize), fields,
            name := name.dropLast, data }, bs)

def Member.end (m : Member) : Nat := m.dataOffset + m.data.length + padding 4 m.data.length

/-- The members up to the trailer, the trailer, and the bytes after it; the first argument
bounds the number of members. -/
def walkMembers : Nat → Nat → List UInt8 → Option (List Member × Member × List UInt8)
  | 0, _, _ => none
  | n + 1, off, bs => do
    let (m, bs) ← readMember off bs
    if m.name = trailerName then some ([], m, bs)
    else
      let (ms, t, bs) ← walkMembers n m.end bs
      some (m :: ms, t, bs)

def walkSegment (bs : List UInt8) : Option (List Member × Member × List UInt8) :=
  walkMembers bs.length 0 bs

/-! ## What is written is read -/

section RoundTrip

variable {h : NewcHeader} {d : List UInt8}

structure Fits (h : NewcHeader) (d : List UInt8) : Prop where
  name : h.name.length + 1 < 2 ^ 32
  filesize : h.filesize.toNat = d.length

def frame (h : NewcHeader) (d : List UInt8) : List UInt8 := (Out.header [] h) ++ (Out.data [] d)

def memberAt (off : Nat) (h : NewcHeader) (d : List UInt8) : Member where
  offset := off
  dataOffset := off + 110 + (h.name.length + 1) + padding 4 (110 + (h.name.length + 1))
  fields := h.fields.map (·.toNat)
  name := h.name
  data := d

theorem namesize_toNat (hfit : h.name.length + 1 < 2 ^ 32) :
    h.namesize.toNat = h.name.length + 1 := by
  unfold NewcHeader.namesize
  rw [UInt32.toNat_add, UInt32.toNat_ofNat']
  simp only [UInt32.toNat_one]
  omega

theorem header_eq (out : Out) : out.header h = out ++ Out.header [] h := by
  simp [Out.header, Out.padZeros]

theorem data_eq (out : Out) : out.data d = out ++ Out.data [] d := by
  simp [Out.data, Out.padZeros]

theorem readFields_fields (vs : List UInt32) (rest : List UInt8) :
    readFields vs.length (vs.flatMap (fun v => numeral 16 8 v.toNat) ++ rest) =
      some (vs.map (·.toNat), rest) := by
  induction vs with
  | nil => rfl
  | cons v vs ih =>
    have hlen : (numeral 16 8 v.toNat).length = 8 :=
      length_numeral (by decide) (by have := v.toNat_lt; omega)
    rw [List.flatMap_cons, List.append_assoc, List.length_cons, readFields, cut_append hlen]
    simp only [Option.bind_eq_bind, Option.bind_some]
    rw [readNumeral_numeral (by decide) (by decide), Option.bind_some, ih]
    rfl

theorem cut_replicate (n : Nat) (rest : List UInt8) :
    cut n (List.replicate n 0 ++ rest) = some (List.replicate n 0, rest) :=
  cut_append (List.length_replicate ..)

theorem readMember_frame (hfit : Fits h d) (off : Nat) (rest : List UInt8) :
    readMember off (frame h d ++ rest) = some (memberAt off h d, rest) := by
  have hname := namesize_toNat hfit.name
  have hframe : frame h d ++ rest = magic ++ (h.fields.flatMap (fun v => numeral 16 8 v.toNat) ++
      ((h.name ++ [0]) ++ (List.replicate (padding 4 (110 + (h.name.length + 1))) 0 ++
        (d ++ (List.replicate (padding 4 d.length) 0 ++ rest))))) := by
    simp [frame, Out.header, Out.data, Out.padZeros, padding, hname]
  have hfields : h.fields.length = 13 := rfl
  rw [hframe, readMember, cut_append (by rfl)]
  simp only [Option.bind_eq_bind, Option.bind_some, ne_eq, not_true_eq_false, if_false]
  rw [← hfields, readFields_fields]
  simp only [Option.bind_some]
  have h11 : (h.fields.map (·.toNat))[11]? = some (h.name.length + 1) := by
    simp [NewcHeader.fields, hname]
  have h6 : (h.fields.map (·.toNat))[6]? = some d.length := by
    simp [NewcHeader.fields, hfit.filesize]
  rw [h11, Option.bind_some, h6, Option.bind_some, cut_append (by simp)]
  simp only [Option.bind_some]
  rw [cut_replicate, Option.bind_some, cut_append rfl, Option.bind_some, cut_replicate]
  simp [memberAt]

abbrev Record := NewcHeader × List UInt8

def frames (rs : List Record) : List UInt8 := rs.flatMap fun r => frame r.1 r.2

def layout : Nat → List Record → List Member
  | _, [] => []
  | off, r :: rs => memberAt off r.1 r.2 :: layout (memberAt off r.1 r.2).end rs

def trailerHeader : NewcHeader where
  ino := 0
  mode := 0
  nlink := 1
  mtime := 0
  filesize := 0
  devmajor := 0
  devminor := 0
  rdevmajor := 0
  rdevminor := 0
  name := trailerName

theorem frame_nil : frame h [] = Out.header [] h := by
  simp [frame, Out.data, Out.padZeros]

theorem trailer_eq (out : Out) : out.trailer = out ++ frame trailerHeader [] := by
  rw [frame_nil, ← header_eq]
  rfl

theorem fits_trailer : Fits trailerHeader [] := ⟨by decide, rfl⟩

def notTrailer (r : Record) : Bool := r.1.name != trailerName

/-- The data of a member begins at a multiple of four if its header does, and the next
header too. -/
theorem memberAt_aligned {off : Nat} (hoff : off % 4 = 0) :
    (memberAt off h d).dataOffset % 4 = 0 ∧ (memberAt off h d).end % 4 = 0 := by
  have hname := @padding_dvd 4 (110 + (h.name.length + 1)) (by decide)
  have hdata := @padding_dvd 4 d.length (by decide)
  unfold Member.end memberAt
  dsimp only
  omega

theorem walkMembers_frames {rs : List Record} (hfits : ∀ r ∈ rs, Fits r.1 r.2) {n : Nat}
    (hn : rs.length < n) (off : Nat) (rest : List UInt8) :
    ∃ t rest', walkMembers n off (frames rs ++ (frame trailerHeader [] ++ rest)) =
      some (layout off (rs.takeWhile notTrailer), t, rest') ∧ t.name = trailerName ∧
        (off % 4 = 0 → t.offset % 4 = 0) ∧ ((∀ r ∈ rs, notTrailer r = true) → rest' = rest) := by
  induction rs generalizing n off with
  | nil =>
    cases n with
    | zero => simp at hn
    | succ n =>
      refine ⟨memberAt off trailerHeader [], rest, ?_, rfl, id, fun _ => rfl⟩
      rw [frames, List.flatMap_nil, List.nil_append, walkMembers, readMember_frame fits_trailer]
      simp only [Option.bind_eq_bind, Option.bind_some]
      rw [if_pos (show (memberAt off trailerHeader []).name = trailerName from rfl)]
      rfl
  | cons r rs ih =>
    cases n with
    | zero => simp at hn
    | succ n =>
      have hread := readMember_frame (hfits r List.mem_cons_self) off
        (frames rs ++ (frame trailerHeader [] ++ rest))
      have hcons : frames (r :: rs) ++ (frame trailerHeader [] ++ rest) =
          frame r.1 r.2 ++ (frames rs ++ (frame trailerHeader [] ++ rest)) := by
        simp [frames]
      rw [hcons, walkMembers, hread]
      simp only [Option.bind_eq_bind, Option.bind_some]
      by_cases hname : r.1.name = trailerName
      · -- called like the trailer: the reader stops here
        refine ⟨memberAt off r.1 r.2, frames rs ++ (frame trailerHeader [] ++ rest), ?_, hname, id,
          ?_⟩
        · rw [if_pos (by simpa [memberAt] using hname)]
          simp [notTrailer, hname, layout]
        · intro hall
          have hr := hall r List.mem_cons_self
          simp [notTrailer, hname] at hr
      · obtain ⟨t, rest', hwalk, ht, halign, hrest⟩ :=
          ih (fun r hr => hfits r (List.mem_cons_of_mem _ hr)) (by simpa using hn)
            (memberAt off r.1 r.2).end
        refine ⟨t, rest', ?_, ht, fun hoff => halign (memberAt_aligned hoff).2, fun hall =>
          hrest fun r hr => hall r (List.mem_cons_of_mem _ hr)⟩
        rw [if_neg (by simpa [memberAt] using hname), hwalk, Option.bind_some,
          List.takeWhile_cons_of_pos (by simpa [notTrailer] using hname), layout]

/-- What a reader finds for a record. -/
structure Shows (r : Record) (m : Member) : Prop where
  fields : m.fields = r.1.fields.map (·.toNat)
  name : m.name = r.1.name
  data : m.data = r.2
  aligned : m.offset % 4 = 0 ∧ m.dataOffset % 4 = 0

theorem layout_shows {rs : List Record} {off : Nat} (hoff : off % 4 = 0) :
    List.Forall₂ Shows rs (layout off rs) := by
  induction rs generalizing off with
  | nil => exact List.Forall₂.nil
  | cons r rs ih =>
    obtain ⟨hdata, hend⟩ := @memberAt_aligned r.1 r.2 off hoff
    exact List.Forall₂.cons ⟨rfl, rfl, rfl, hoff, hdata⟩ (ih hend)

theorem length_frames_lt (rs : List Record) (rest : List UInt8) :
    rs.length < (frames rs ++ (frame trailerHeader [] ++ rest)).length := by
  have hframe : ∀ h d, 1 ≤ (frame h d).length := by
    intro h d
    simp only [frame, Out.header, Out.data, Out.padZeros, List.length_append, List.length_singleton]
    omega
  have hframes : rs.length ≤ (frames rs).length := by
    induction rs with
    | nil => simp
    | cons r rs ih =>
      have hr := hframe r.1 r.2
      simp only [frames, List.flatMap_cons, List.length_append, List.length_cons] at ih ⊢
      omega
  have htrailer := hframe trailerHeader []
  simp only [List.length_append]
  omega

def segment (rs : List Record) : Out := (Out.trailer (frames rs)).padTo512

/-- A reader of a segment finds its records, up to the first that is called like the
trailer. -/
theorem walkSegment_segment {rs : List Record} (hfits : ∀ r ∈ rs, Fits r.1 r.2) :
    ∃ t rest, walkSegment (segment rs) = some (layout 0 (rs.takeWhile notTrailer), t, rest) ∧
      t.name = trailerName ∧ t.offset % 4 = 0 ∧
      ((∀ r ∈ rs, notTrailer r = true) → ∀ b ∈ rest, b = 0) := by
  have hbytes : segment rs = frames rs ++ (frame trailerHeader [] ++
      List.replicate ((512 - (Out.trailer (frames rs)).length % 512) % 512) 0) := by
    rw [segment, Out.padTo512, Out.padZeros]
    generalize (512 - (Out.trailer (frames rs)).length % 512) % 512 = k
    rw [trailer_eq, List.append_assoc]
  unfold walkSegment
  rw [hbytes]
  obtain ⟨t, rest, hwalk, ht, halign, hrest⟩ := walkMembers_frames hfits (length_frames_lt rs _) 0 _
  refine ⟨t, rest, hwalk, ht, halign rfl, fun hall b hb => ?_⟩
  rw [hrest hall] at hb
  exact List.eq_of_mem_replicate hb

theorem length_segment (rs : List Record) : (segment rs).length % 512 = 0 := by
  have hpad := @padding_dvd 512 (Out.trailer (frames rs)).length (by decide)
  simpa [segment, Out.padTo512, Out.padZeros, padding] using hpad

end RoundTrip

end Tdvmm.Cpio
