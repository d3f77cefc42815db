import Tdvmm.Lib.Except
import Tdvmm.Lib.Buffer
import Tdvmm.Lib.Numeral
import Tdvmm.Lib.Utf8

/-!
# Artifact.Tar — the USTAR codec of the container

A member is a header of 512 bytes, its content, and zeros up to the next block. An archive is
its members and two blocks of zeros.

`entries_archive` is the round trip: iterating over an archive yields its members, each with its
name, its size and a place from which its content is read.
-/

namespace Tdvmm.Artifact

open Lib

abbrev Bytes := List UInt8

def BLOCK : Nat := 512

/-- The largest size that eleven octal digits can hold. -/
def MAX_MEMBER_SIZE : Nat := 0o77777777777

inductive Malformed where
  /-- truncated tar header -/
  | truncatedHeader
  /-- not a .tdvmm artifact (bad tar magic) -/
  | badMagic
  /-- corrupt tar header (checksum mismatch) -/
  | checksumMismatch
  /-- bad octal tar field -/
  | badOctal (text : Bytes)
  /-- member claims so many bytes past end of archive -/
  | pastEnd (name : Bytes) (size : Nat)
  /-- truncated content for member -/
  | truncatedContent (name : Bytes)
  /-- unsupported .tdvmm format_version -/
  | formatVersion (version : UInt32)
  /-- no such member (not a .tdvmm artifact?), missing member -/
  | missing (name : Bytes)
  /-- manifest has no record for member -/
  | noRecord (name : Bytes)
  /-- member hash mismatch: manifest, actual -/
  | hashMismatch (name : Bytes) (want got : String)
  /-- member is over the USTAR limit -/
  | overLimit (name : Bytes) (len : Nat)
deriving DecidableEq, Repr

inductive ArtifactError where
  | io (doing : String)
  | malformed (what : Malformed)
  | manifest (doing : String)
deriving DecidableEq, Repr

/-! ## Writing -/

/-- `val` in octal digits, then a NUL. Digits that do not fit are cut off at the end. -/
def octalField (val digits : Nat) : Bytes := (numeral 8 digits val).take digits ++ [0]

def writeOctal (h : Bytes) (k val digits : Nat) : Bytes := put h k (octalField val digits)

def byteSum (h : Bytes) : Nat := (h.map (·.toNat)).sum

/-- `ustar` -/
def magic : Bytes := [117, 115, 116, 97, 114]

/-- The header before its checksum is written: spaces are in its place. -/
def headerDraft (name : Bytes) (size : Nat) : Bytes :=
  let h := put (List.replicate BLOCK 0) 0 name
  let h := writeOctal h 100 0o644 7
  let h := writeOctal h 108 0 7
  let h := writeOctal h 116 0 7
  let h := writeOctal h 124 size 11
  let h := writeOctal h 136 0 11
  let h := put h 148 (List.replicate 8 32)
  let h := put h 156 [48]
  let h := put h 257 (magic ++ [0])
  put h 263 [48, 48]

def ustarHeader (name : Bytes) (size : Nat) : Bytes :=
  let h := headerDraft name size
  let h := writeOctal h 148 (byteSum h) 6
  put h 155 [32]

/-! ## Reading -/

/-- A parsed header: name, content size, and where the content begins. -/
structure Entry where
  name : Bytes
  size : Nat
  dataOffset : Nat
deriving DecidableEq, Repr

def parseStr (field : Bytes) : Bytes := utf8Lossy (field.takeWhile (· ≠ 0))

def trimBlank (s : Bytes) : Bytes :=
  let blank : UInt8 → Bool := fun b => b == 32 || b == 0
  ((s.dropWhile blank).reverse.dropWhile blank).reverse

/-- `u64::from_str_radix(s, 8)`; a field is too short for an overflow. -/
def fromStrRadix8 : Bytes → Option Nat
  | [] => none
  | c :: cs =>
    if c = 43 then if cs = [] then none else readNumeral 8 cs else readNumeral 8 (c :: cs)

def parseOctal (field : Bytes) : Except ArtifactError Nat :=
  let s := trimBlank (parseStr field)
  if s.isEmpty then .ok 0
  else
    match fromStrRadix8 s with
    | some n => .ok n
    | none => .error (.malformed (.badOctal s))

/-- The header at an offset; none at the zero block that ends an archive, or at the end of the
file. -/
def readHeader (file : Bytes) (off : Nat) : Except ArtifactError (Option Entry) :=
  let hdr := (file.drop off).take BLOCK
  if hdr.length = 0 then .ok none
  else if hdr.length < BLOCK then .error (.malformed .truncatedHeader)
  else if hdr.all (· == 0) then .ok none
  else if slice hdr 257 262 ≠ magic then .error (.malformed .badMagic)
  else do
    let stored ← parseOctal (slice hdr 148 156)
    if byteSum (put hdr 148 (List.replicate 8 32)) ≠ stored then
      .error (.malformed .checksumMismatch)
    else
      let size ← parseOctal (slice hdr 124 136)
      .ok (some { name := parseStr (slice hdr 0 100), size, dataOffset := off + BLOCK })

def padded (size : Nat) : Nat := (size + (BLOCK - 1)) / BLOCK * BLOCK

/-- What `Entries::next` yields, call by call, from the header at `off` on. Every call seeks to
its own offset, so it does not matter what is read in between. The first argument bounds the
number of calls. -/
def entriesFrom (file : Bytes) : Nat → Nat → List (Except ArtifactError Entry)
  | 0, _ => []
  | n + 1, off =>
    match readHeader file off with
    | .ok none => []
    | .ok (some e) => .ok e :: entriesFrom file n (e.dataOffset + padded e.size)
    | .error err => [.error err]

/-- Every header takes a block of the file, so this bound is never reached. -/
def entries (file : Bytes) : List (Except ArtifactError Entry) :=
  entriesFrom file (file.length + 1) 0

def readContent (file : Bytes) (e : Entry) : Except ArtifactError Bytes :=
  if file.length < e.dataOffset + e.size then .error (.malformed (.pastEnd e.name e.size))
  else
    let buf := (file.drop e.dataOffset).take e.size
    if buf.length < e.size then .error (.malformed (.truncatedContent e.name)) else .ok buf

theorem readHeader_offset {file : Bytes} {off : Nat} {e : Entry}
    (h : readHeader file off = .ok (some e)) : e.dataOffset = off + BLOCK := by
  unfold readHeader at h
  dsimp only at h
  split_ifs at h
  · cases h
  · cases h
  · rcases bind_ok.mp h with ⟨stored, -, h⟩
    split_ifs at h
    rcases bind_ok.mp h with ⟨size, -, h⟩
    cases h
    rfl

theorem entriesFrom_stable {file : Bytes} {n off : Nat} (hn : file.length < off + n) (k : Nat) :
    entriesFrom file (n + k) off = entriesFrom file n off := by
  induction n generalizing off with
  | zero =>
    cases k with
    | zero => rfl
    | succ k =>
      have hend : readHeader file off = .ok none := by
        unfold readHeader
        rw [List.drop_eq_nil_of_le (by omega)]
        rfl
      simp only [entriesFrom, hend]
  | succ n ih =>
    rw [Nat.add_right_comm, entriesFrom, entriesFrom]
    split
    · rfl
    · rename_i e he
      rw [ih]
      rw [readHeader_offset he]
      unfold BLOCK
      omega
    · rfl

/-! ## What is written is read -/

section Octal

theorem length_numeral_le (digits val : Nat) : digits ≤ (numeral 8 digits val).length := by
  simp only [numeral, Nat.digitsAppend, List.length_map, List.length_reverse, List.length_append,
    List.length_replicate]
  omega

@[simp]
theorem length_octalField (val digits : Nat) : (octalField val digits).length = digits + 1 := by
  have hle := length_numeral_le digits val
  simp only [octalField, List.length_append, List.length_take, List.length_singleton]
  omega

theorem octal_digit {digits val : Nat} {c : UInt8} (hc : c ∈ numeral 8 digits val) :
    c ≠ 0 ∧ c ≠ 32 ∧ c ≠ 43 ∧ c < 0x80 := by
  obtain ⟨d, -, hd⟩ := digitValue_of_mem_numeral (by decide) (by decide) hc
  unfold digitValue at hd
  have hrange : 48 ≤ c.toNat ∧ c.toNat ≤ 70 := by
    split at hd
    · omega
    · split at hd
      · omega
      · cases hd
  refine ⟨?_, ?_, ?_, ?_⟩
  · rintro rfl
    simp at hrange
  · rintro rfl
    simp at hrange
  · rintro rfl
    simp at hrange
  · rw [UInt8.lt_iff_toNat_lt]
    simp only [UInt8.reduceToNat]
    omega

theorem trimBlank_of_none {s : Bytes} (hs : ∀ c ∈ s, c ≠ 0 ∧ c ≠ 32) : trimBlank s = s := by
  have hdrop : ∀ {l : Bytes}, (∀ c ∈ l, c ≠ 0 ∧ c ≠ 32) →
      l.dropWhile (fun b => b == 32 || b == 0) = l := by
    intro l hl
    cases l with
    | nil => rfl
    | cons c l =>
      obtain ⟨hnul, hblank⟩ := hl c List.mem_cons_self
      exact List.dropWhile_cons_of_neg (by simp [hnul, hblank])
  unfold trimBlank
  simp only
  rw [hdrop hs, hdrop fun c hc => hs c (List.mem_reverse.mp hc), List.reverse_reverse]

theorem parseOctal_octalField {val digits : Nat} (hval : val < 8 ^ digits) (hdigits : 0 < digits)
    (rest : Bytes) : parseOctal (octalField val digits ++ rest) = .ok val := by
  have hlen : (numeral 8 digits val).length = digits := length_numeral (by decide) hval
  have hfield : octalField val digits ++ rest = numeral 8 digits val ++ 0 :: rest := by
    rw [octalField, List.take_of_length_le hlen.le]
    simp
  have hstr : parseStr (numeral 8 digits val ++ 0 :: rest) = numeral 8 digits val := by
    unfold parseStr
    rw [List.takeWhile_append_of_pos fun c hc => by simpa using (octal_digit hc).1]
    rw [List.takeWhile_cons_of_neg (by simp), List.append_nil]
    exact utf8Lossy_of_valid (utf8Valid_of_ascii fun c hc => (octal_digit hc).2.2.2)
  have hradix : fromStrRadix8 (numeral 8 digits val) = some val := by
    have hread : readNumeral 8 (numeral 8 digits val) = some val :=
      readNumeral_numeral (by decide) (by decide)
    cases hn : numeral 8 digits val with
    | nil =>
      rw [hn] at hlen
      exact absurd hlen (by simpa using hdigits.ne)
    | cons c cs =>
      have hsign : c ≠ 43 :=
        (@octal_digit digits val c (by rw [hn]; exact List.mem_cons_self)).2.2.1
      rw [fromStrRadix8, if_neg hsign, ← hn, hread]
  have hne : (numeral 8 digits val).isEmpty = false := by
    rw [List.isEmpty_eq_false_iff, ← List.length_pos_iff, hlen]
    exact hdigits
  unfold parseOctal
  rw [hfield, hstr, trimBlank_of_none fun c hc => ⟨(octal_digit hc).1, (octal_digit hc).2.1⟩]
  simp only [hne, Bool.false_eq_true, if_false, hradix]

end Octal

section Header

variable {name : Bytes} {size : Nat}

@[simp]
theorem length_headerDraft : (headerDraft name size).length = BLOCK := by
  simp [headerDraft, writeOctal]

@[simp]
theorem length_ustarHeader : (ustarHeader name size).length = BLOCK := by
  simp [ustarHeader, writeOctal]

theorem byteSum_le (h : Bytes) : byteSum h ≤ 255 * h.length := by
  induction h with
  | nil => simp [byteSum]
  | cons b h ih =>
    have hb : b.toNat < 256 := b.toNat_lt
    simp only [byteSum, List.map_cons, List.sum_cons, List.length_cons] at ih ⊢
    omega

theorem slice_ustarHeader {a b : Nat} (h : b ≤ 148 ∨ 156 ≤ a) :
    slice (ustarHeader name size) a b = slice (headerDraft name size) a b := by
  unfold ustarHeader writeOctal
  simp only
  rw [slice_put_of_disjoint (by simp; omega), slice_put_of_disjoint (by simp; omega)]

theorem slice_magic : slice (ustarHeader name size) 257 262 = magic := by
  rw [slice_ustarHeader (by omega)]
  unfold headerDraft
  simp only
  rw [slice_put_of_disjoint (by omega)]
  -- the magic is written with its NUL
  generalize hh : put (put (writeOctal _ 136 0 11) 148 (List.replicate 8 32)) 156 [48] = h
  have hlen : h.length = BLOCK := by
    rw [← hh]
    simp [writeOctal]
  have hself := @slice_put_self UInt8 h (magic ++ [0]) 257 (by rw [hlen]; decide)
  have hcut : slice (put h 257 (magic ++ [0])) 257 262 =
      (slice (put h 257 (magic ++ [0])) 257 (257 + (magic ++ [0]).length)).take 5 := by
    simp only [slice, List.take_drop, List.take_take]
    rfl
  rw [hcut, hself]
  rfl

theorem slice_size : slice (ustarHeader name size) 124 136 = octalField size 11 := by
  rw [slice_ustarHeader (by omega)]
  unfold headerDraft writeOctal
  simp only
  rw [slice_put_of_disjoint (by omega), slice_put_of_disjoint (by omega),
    slice_put_of_disjoint (by omega), slice_put_of_disjoint (by omega),
    slice_put_of_disjoint (by omega)]
  generalize hh : put _ 116 (octalField 0 7) = h
  have hlen : h.length = BLOCK := by
    rw [← hh]
    simp
  have hself := @slice_put_self UInt8 h (octalField size 11) 124 (by rw [hlen]; simp [BLOCK])
  rwa [length_octalField] at hself

theorem slice_name (hname : name.length ≤ 100) :
    slice (ustarHeader name size) 0 100 = name ++ List.replicate (100 - name.length) 0 := by
  rw [slice_ustarHeader (by omega)]
  unfold headerDraft writeOctal
  simp only
  iterate 9 rw [slice_put_of_disjoint (by omega)]
  apply List.ext_getElem?
  intro i
  rw [getElem?_slice, getElem?_put, List.getElem?_append, Nat.zero_add, List.length_replicate,
    List.getElem?_replicate, List.getElem?_replicate]
  by_cases hi : i < name.length
  · rw [if_pos (by omega), if_pos ⟨by omega, by omega, by unfold BLOCK; omega⟩, if_pos hi,
      Nat.sub_zero]
  · by_cases hlt : i < 100
    · rw [if_pos hlt, if_neg (by omega), if_pos (by unfold BLOCK; omega), if_neg hi,
        if_pos (by omega)]
    · rw [if_neg hlt, if_neg hi, if_neg (by omega)]

theorem slice_checksum :
    slice (ustarHeader name size) 148 156 =
      octalField (byteSum (headerDraft name size)) 6 ++ [32] := by
  apply List.ext_getElem?
  intro i
  unfold ustarHeader writeOctal
  simp only
  rw [getElem?_slice, getElem?_put, getElem?_put, List.getElem?_append]
  simp only [length_put, length_headerDraft, length_octalField, List.length_singleton, BLOCK]
  by_cases hi : i < 7
  · rw [if_pos (by omega), if_neg (by omega), if_pos (by omega), if_pos (by omega)]
    simp
  · by_cases h7 : i = 7
    · subst h7
      simp
    · rw [if_neg (by omega), if_neg (by omega), List.getElem?_eq_none (by simp; omega)]

theorem put_blanks :
    put (ustarHeader name size) 148 (List.replicate 8 32) = headerDraft name size := by
  unfold ustarHeader writeOctal
  simp only
  rw [put_put_of_covered (by omega) (by simp), put_put_of_covered (by omega) (by simp)]
  apply put_slice_self
  unfold headerDraft
  simp only [List.length_replicate]
  rw [slice_put_of_disjoint (by omega), slice_put_of_disjoint (by omega),
    slice_put_of_disjoint (by omega)]
  generalize hh : writeOctal _ 136 0 11 = h
  have hlen : h.length = BLOCK := by
    rw [← hh]
    simp [writeOctal]
  have hself := @slice_put_self UInt8 h (List.replicate 8 32) 148 (by rw [hlen]; decide)
  rwa [List.length_replicate] at hself

/-- A name that is read back from its field. -/
structure NameFits (name : Bytes) : Prop where
  valid : utf8Valid name = true
  nulFree : 0 ∉ name
  length : name.length ≤ 100

theorem parseStr_name (h : NameFits name) :
    parseStr (name ++ List.replicate (100 - name.length) 0) = name := by
  have hcut : (name ++ List.replicate (100 - name.length) 0).takeWhile (· ≠ 0) = name := by
    rw [List.takeWhile_append_of_pos fun c hc => by
      simp only [decide_eq_true_eq]
      rintro rfl
      exact h.nulFree hc]
    cases 100 - name.length with
    | zero => simp
    | succ n => simp [List.replicate_succ]
  rw [parseStr, hcut, utf8Lossy_of_valid h.valid]

theorem readHeader_ustarHeader (hname : NameFits name) (hsize : size ≤ MAX_MEMBER_SIZE)
    {file rest : Bytes} {off : Nat} (hoff : file.drop off = ustarHeader name size ++ rest) :
    readHeader file off = .ok (some { name, size, dataOffset := off + BLOCK }) := by
  have htake : (file.drop off).take BLOCK = ustarHeader name size := by
    rw [hoff, List.take_left' length_ustarHeader]
  have hnonzero : (ustarHeader name size).all (· == 0) = false := by
    rw [← Bool.not_eq_true, List.all_eq_true]
    intro hall
    have hmem : (117 : UInt8) ∈ ustarHeader name size := by
      have h : (117 : UInt8) ∈ slice (ustarHeader name size) 257 262 := by
        rw [slice_magic]
        decide
      exact List.mem_of_mem_take (List.mem_of_mem_drop h)
    exact absurd (hall 117 hmem) (by decide)
  have hsum : byteSum (headerDraft name size) < 8 ^ 6 := by
    have hle := byteSum_le (headerDraft name size)
    rw [length_headerDraft] at hle
    unfold BLOCK at hle
    omega
  have hoctal : size < 8 ^ 11 := by
    unfold MAX_MEMBER_SIZE at hsize
    omega
  have hsizeField := parseOctal_octalField hoctal (by decide) []
  rw [List.append_nil] at hsizeField
  unfold readHeader
  simp only [htake, length_ustarHeader, hnonzero, slice_magic, slice_checksum, slice_size,
    slice_name hname.length, put_blanks, parseStr_name hname,
    parseOctal_octalField hsum (by decide), hsizeField]
  rw [if_neg (by decide), if_neg (Nat.lt_irrefl _), if_neg (by decide), if_neg (by simp)]
  simp only [bind, Except.bind, ne_eq, not_true_eq_false, if_false]

end Header

/-! ## Archives -/

def memberBytes (m : Bytes × Bytes) : Bytes :=
  ustarHeader m.1 m.2.length ++ m.2 ++
    List.replicate (if m.2.length % BLOCK = 0 then 0 else BLOCK - m.2.length % BLOCK) 0

def archive (ms : List (Bytes × Bytes)) : Bytes :=
  ms.flatMap memberBytes ++ List.replicate (BLOCK * 2) 0

theorem length_memberBytes (m : Bytes × Bytes) :
    (memberBytes m).length = BLOCK + padded m.2.length := by
  simp only [memberBytes, List.length_append, length_ustarHeader, List.length_replicate, padded]
  by_cases hrem : m.2.length % BLOCK = 0
  · rw [if_pos hrem]
    unfold BLOCK at hrem ⊢
    omega
  · rw [if_neg hrem]
    unfold BLOCK at hrem ⊢
    omega

/-- A member that can be read back. -/
structure MemberFits (m : Bytes × Bytes) : Prop where
  name : NameFits m.1
  size : m.2.length ≤ MAX_MEMBER_SIZE

/-- An entry of an archive file that stands for a member. -/
structure StandsFor (file : Bytes) (m : Bytes × Bytes) (e : Entry) : Prop where
  name : e.name = m.1
  size : e.size = m.2.length
  content : readContent file e = .ok m.2

theorem readContent_of_drop {file rest data : Bytes} {e : Entry} (hsize : e.size = data.length)
    (hdrop : file.drop e.dataOffset = data ++ rest) (hoff : e.dataOffset ≤ file.length) :
    readContent file e = .ok data := by
  have hlen := congrArg List.length hdrop
  rw [List.length_drop, List.length_append] at hlen
  have hbuf : (file.drop e.dataOffset).take e.size = data := by
    rw [hdrop, hsize, List.take_left' rfl]
  unfold readContent
  simp only [hbuf]
  rw [if_neg (by omega), if_neg (by omega)]

theorem readHeader_trailer (front : Bytes) :
    readHeader (front ++ List.replicate (BLOCK * 2) 0) front.length = .ok none := by
  have htake : ((front ++ List.replicate (BLOCK * 2) 0).drop front.length).take BLOCK =
      List.replicate BLOCK (0 : UInt8) := by
    rw [List.drop_left, List.take_replicate]
    rfl
  unfold readHeader
  simp only [htake, List.length_replicate]
  rw [if_neg (by decide), if_neg (Nat.lt_irrefl _), if_pos (by simp)]

theorem entriesFrom_archive {ms : List (Bytes × Bytes)} (hfits : ∀ m ∈ ms, MemberFits m)
    {front : Bytes} {n : Nat} (hn : ms.length < n) :
    ∃ es, entriesFrom (front ++ archive ms) n front.length = es.map .ok ∧
      List.Forall₂ (StandsFor (front ++ archive ms)) ms es := by
  induction ms generalizing front n with
  | nil =>
    cases n with
    | zero => simp at hn
    | succ n =>
      refine ⟨[], ?_, List.Forall₂.nil⟩
      have hend : readHeader (front ++ archive []) front.length = .ok none :=
        readHeader_trailer front
      rw [entriesFrom, hend]
      rfl
  | cons m ms ih =>
    cases n with
    | zero => simp at hn
    | succ n =>
      have hfile : front ++ archive (m :: ms) = (front ++ memberBytes m) ++ archive ms := by
        simp [archive, List.append_assoc]
      have hdrop : (front ++ archive (m :: ms)).drop front.length =
          memberBytes m ++ archive ms := by
        rw [hfile, List.append_assoc, List.drop_left]
      have hm := hfits m List.mem_cons_self
      have hhead : readHeader (front ++ archive (m :: ms)) front.length =
          .ok (some { name := m.1, size := m.2.length, dataOffset := front.length + BLOCK }) := by
        apply readHeader_ustarHeader hm.name hm.size
        rw [hdrop, memberBytes, List.append_assoc, List.append_assoc]
      -- the next header lies behind this member
      obtain ⟨es, hes, hstands⟩ := @ih (fun m hm => hfits m (List.mem_cons_of_mem _ hm))
        (front ++ memberBytes m) n (by simpa using hn)
      rw [← hfile] at hes hstands
      refine ⟨{ name := m.1, size := m.2.length, dataOffset := front.length + BLOCK } :: es, ?_,
        List.Forall₂.cons ⟨rfl, rfl, ?_⟩ hstands⟩
      · rw [entriesFrom, hhead]
        simp only
        rw [show front.length + BLOCK + padded m.2.length = (front ++ memberBytes m).length by
          rw [List.length_append, length_memberBytes, Nat.add_assoc], hes]
        rfl
      · -- the content follows its header
        apply readContent_of_drop rfl
        · rw [← List.drop_drop, hdrop, memberBytes, List.append_assoc, List.append_assoc,
            List.drop_left' length_ustarHeader]
        · rw [hfile, List.length_append, List.length_append, length_memberBytes]
          dsimp only
          omega

theorem entries_of_archive {ms : List (Bytes × Bytes)} (hfits : ∀ m ∈ ms, MemberFits m) :
    ∃ es, entries (archive ms) = es.map .ok ∧ List.Forall₂ (StandsFor (archive ms)) ms es := by
  have hn : ms.length < (archive ms).length + 1 := by
    have hle : ms.length ≤ (ms.flatMap memberBytes).length := by
      clear hfits
      induction ms with
      | nil => simp
      | cons m ms ih =>
        have hm := length_memberBytes m
        unfold BLOCK at hm
        simp only [List.flatMap_cons, List.length_append, List.length_cons] at ih ⊢
        omega
    rw [archive, List.length_append]
    omega
  simpa [entries] using @entriesFrom_archive ms hfits [] _ hn

end Tdvmm.Artifact
