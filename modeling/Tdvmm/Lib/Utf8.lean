import Mathlib.Data.List.Basic

/-!
# Lib.Utf8 — UTF-8 well-formedness and lossy decoding on byte strings

`utf8Seq` reads one leading sequence the way the standard decoder does: it
reports the length of the sequence and whether it is well formed; for an
ill-formed one the length is that of its longest well-formed beginning. Lossy
decoding replaces each ill-formed piece by one U+FFFD, so it leaves a well-formed
string as it is (`utf8Lossy_of_valid`).
-/

namespace Lib

def utf8 (s : String) : List UInt8 := s.toUTF8.data.toList

/-- Width of the sequence a lead byte starts and the range of its second byte.
`none` for a byte that starts no sequence of two or more bytes. -/
def utf8Lead (b : UInt8) : Option (Nat × UInt8 × UInt8) :=
  if 0xC2 ≤ b ∧ b ≤ 0xDF then some (2, 0x80, 0xBF)
  else if b = 0xE0 then some (3, 0xA0, 0xBF)
  else if b = 0xED then some (3, 0x80, 0x9F)
  else if 0xE1 ≤ b ∧ b ≤ 0xEF then some (3, 0x80, 0xBF)
  else if b = 0xF0 then some (4, 0x90, 0xBF)
  else if 0xF1 ≤ b ∧ b ≤ 0xF3 then some (4, 0x80, 0xBF)
  else if b = 0xF4 then some (4, 0x80, 0x8F)
  else none

/-- Read `n` continuation bytes after the `k` bytes already read. -/
def utf8Cont (k : Nat) : Nat → List UInt8 → Nat × Bool
  | 0, _ => (k, true)
  | _ + 1, [] => (k, false)
  | n + 1, c :: rest =>
    if 0x80 ≤ c ∧ c ≤ 0xBF then utf8Cont (k + 1) n rest else (k, false)

/-- The leading sequence of a byte string: its length and whether it is well
formed. -/
def utf8Seq : List UInt8 → Nat × Bool
  | [] => (0, true)
  | b :: rest =>
    if b < 0x80 then (1, true)
    else
      match utf8Lead b with
      | none => (1, false)
      | some (width, lo, hi) =>
        match rest with
        | [] => (1, false)
        | c :: rest' =>
          if lo ≤ c ∧ c ≤ hi then utf8Cont 2 (width - 2) rest' else (1, false)

/-- Lossy decoding, as bytes; `fuel` bounds the number of sequences. -/
def utf8LossyAux : Nat → List UInt8 → List UInt8
  | 0, _ => []
  | _ + 1, [] => []
  | fuel + 1, bs =>
    let (n, good) := utf8Seq bs
    (if good then bs.take n else [0xEF, 0xBF, 0xBD]) ++ utf8LossyAux fuel (bs.drop n)

/-- `String::from_utf8_lossy`, on the bytes of the string. -/
def utf8Lossy (bs : List UInt8) : List UInt8 := utf8LossyAux bs.length bs

example : utf8Lossy [0x61, 0xE2, 0x82, 0xAC] = [0x61, 0xE2, 0x82, 0xAC] := by decide
example : utf8Lossy [0x61, 0xE2, 0x82, 0x62] = [0x61, 0xEF, 0xBF, 0xBD, 0x62] := by decide

def utf8Char : List UInt8 → Char
  | [b] => Char.ofNat b.toNat
  | [b, c] => Char.ofNat (b.toNat % 32 * 64 + c.toNat % 64)
  | [b, c, d] => Char.ofNat (b.toNat % 16 * 4096 + c.toNat % 64 * 64 + d.toNat % 64)
  | [b, c, d, e] =>
    Char.ofNat (b.toNat % 8 * 262144 + c.toNat % 64 * 4096 + d.toNat % 64 * 64 + e.toNat % 64)
  | _ => Char.ofNat 0xFFFD

/-- Lossy decoding, as characters; `fuel` bounds the number of sequences. -/
def utf8LossyChars : Nat → List UInt8 → List Char
  | 0, _ => []
  | _ + 1, [] => []
  | fuel + 1, bs =>
    let (n, good) := utf8Seq bs
    (if good then utf8Char (bs.take n) else Char.ofNat 0xFFFD) :: utf8LossyChars fuel (bs.drop n)

def fromUtf8Lossy (bs : List UInt8) : String := String.ofList (utf8LossyChars bs.length bs)

example : fromUtf8Lossy [0x61, 0xE2, 0x82, 0xAC, 0xFF] = "a€\uFFFD" := by decide

/-- Every sequence is well formed; `fuel` bounds their number. -/
def utf8ValidAux : Nat → List UInt8 → Bool
  | 0, bs => bs.isEmpty
  | _ + 1, [] => true
  | fuel + 1, bs => (utf8Seq bs).2 && utf8ValidAux fuel (bs.drop (utf8Seq bs).1)

/-- What `String::from_utf8` accepts. -/
def utf8Valid (bs : List UInt8) : Bool := utf8ValidAux bs.length bs

theorem utf8LossyAux_of_valid {fuel : Nat} {bs : List UInt8} (h : utf8ValidAux fuel bs = true) :
    utf8LossyAux fuel bs = bs := by
  induction fuel generalizing bs with
  | zero =>
    have hnil : bs = [] := List.isEmpty_iff.mp h
    rw [hnil]
    rfl
  | succ fuel ih =>
    cases bs with
    | nil => rfl
    | cons b rest =>
      have hparts : (utf8Seq (b :: rest)).2 = true ∧
          utf8ValidAux fuel ((b :: rest).drop (utf8Seq (b :: rest)).1) = true :=
        Bool.and_eq_true_iff.mp h
      show (if (utf8Seq (b :: rest)).2 then (b :: rest).take (utf8Seq (b :: rest)).1
        else [0xEF, 0xBF, 0xBD]) ++
          utf8LossyAux fuel ((b :: rest).drop (utf8Seq (b :: rest)).1) = b :: rest
      rw [if_pos hparts.1, ih hparts.2, List.take_append_drop]

theorem utf8Lossy_of_valid {bs : List UInt8} (h : utf8Valid bs = true) : utf8Lossy bs = bs :=
  utf8LossyAux_of_valid h

theorem utf8Valid_of_ascii {bs : List UInt8} (h : ∀ b ∈ bs, b < 0x80) : utf8Valid bs = true := by
  unfold utf8Valid
  induction bs with
  | nil => rfl
  | cons b rest ih =>
    have hb : utf8Seq (b :: rest) = (1, true) := by
      rw [utf8Seq, if_pos (h b List.mem_cons_self)]
    show ((utf8Seq (b :: rest)).2 &&
      utf8ValidAux rest.length ((b :: rest).drop (utf8Seq (b :: rest)).1)) = true
    rw [hb]
    exact ih fun x hx => h x (List.mem_cons_of_mem _ hx)

theorem utf8Seq_pos (b : UInt8) (rest : List UInt8) : 1 ≤ (utf8Seq (b :: rest)).1 := by
  have hcont : ∀ (k n : Nat) (bs : List UInt8), k ≤ (utf8Cont k n bs).1 := by
    intro k n bs
    induction n generalizing k bs with
    | zero => exact Nat.le_refl k
    | succ n ih =>
      cases bs with
      | nil => exact Nat.le_refl k
      | cons c bs =>
        rw [utf8Cont]
        split
        · exact Nat.le_trans (Nat.le_succ k) (ih (k + 1) bs)
        · exact Nat.le_refl k
  rw [utf8Seq]
  split
  · exact Nat.le_refl 1
  · split
    · exact Nat.le_refl 1
    · split
      · exact Nat.le_refl 1
      · split
        · exact Nat.le_trans (by decide) (hcont 2 _ _)
        · exact Nat.le_refl 1

/-- What lossy decoding puts in the place of an ill-formed piece. -/
def utf8Replacement : List UInt8 := [0xEF, 0xBF, 0xBD]

theorem utf8LossyAux_cons (fuel : Nat) (b : UInt8) (rest : List UInt8) :
    utf8LossyAux (fuel + 1) (b :: rest) =
      (if (utf8Seq (b :: rest)).2 then (b :: rest).take (utf8Seq (b :: rest)).1
        else utf8Replacement) ++
      utf8LossyAux fuel ((b :: rest).drop (utf8Seq (b :: rest)).1) := rfl

theorem utf8LossyAux_exact {fuel : Nat} {bs : List UInt8} (hfuel : bs.length ≤ fuel)
    (h : ¬ utf8Replacement <:+: utf8LossyAux fuel bs) : utf8LossyAux fuel bs = bs := by
  induction fuel generalizing bs with
  | zero =>
    have hnil : bs = [] := by simpa using hfuel
    rw [hnil]
    rfl
  | succ fuel ih =>
    cases bs with
    | nil => rfl
    | cons b rest =>
      rw [utf8LossyAux_cons] at h ⊢
      have hpos := utf8Seq_pos b rest
      split at h
      · rename_i hgood
        rw [if_pos hgood, ih]
        · exact List.take_append_drop _ _
        · simp only [List.length_drop, List.length_cons] at hfuel ⊢
          omega
        · intro hin
          exact h (hin.trans (List.suffix_append _ _).isInfix)
      · exact absurd (List.prefix_append _ _).isInfix h

theorem utf8Lossy_exact {bs : List UInt8} (h : ¬ utf8Replacement <:+: utf8Lossy bs) :
    utf8Lossy bs = bs := utf8LossyAux_exact (Nat.le_refl _) h

theorem mem_utf8Lossy {b : UInt8} {bs : List UInt8} (h : b ∈ utf8Lossy bs) :
    b ∈ bs ∨ b ∈ utf8Replacement := by
  have haux : ∀ (fuel : Nat) (bs : List UInt8), b ∈ utf8LossyAux fuel bs →
      b ∈ bs ∨ b ∈ utf8Replacement := by
    intro fuel
    induction fuel with
    | zero => intro bs hb; cases hb
    | succ fuel ih =>
      intro bs hb
      cases bs with
      | nil => cases hb
      | cons c rest =>
        rw [utf8LossyAux_cons] at hb
        rcases List.mem_append.mp hb with hb | hb
        · split at hb
          · exact .inl (List.mem_of_mem_take hb)
          · exact .inr hb
        · exact (ih _ hb).imp_left List.mem_of_mem_drop
  exact haux _ bs h

end Lib
