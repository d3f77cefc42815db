import Mathlib.Data.Nat.Digits.Lemmas

/-!
# Lib.Numeral — numbers as ASCII digits, and fields cut off the front of bytes

`numeral b width n` is `n` in base `b` (at most sixteen), most significant digit first and
with zeros in front up to `width` digits, as formatting with a minimal width writes it.
`readNumeral` reads it back. `cut` takes a field of known length off the front.
-/

namespace Lib

/-- A digit, in upper case. -/
def digitByte (d : Nat) : UInt8 := UInt8.ofNat (if d < 10 then 48 + d else 55 + d)

def digitValue (c : UInt8) : Option Nat :=
  if 48 ≤ c.toNat ∧ c.toNat ≤ 57 then some (c.toNat - 48)
  else if 65 ≤ c.toNat ∧ c.toNat ≤ 70 then some (c.toNat - 55)
  else none

def numeral (b width n : Nat) : List UInt8 := (Nat.digitsAppend b width n).reverse.map digitByte

def readDigit (b acc : Nat) (c : UInt8) : Option Nat :=
  match digitValue c with
  | some d => if d < b then some (acc * b + d) else none
  | none => none

def readNumeral (b : Nat) (cs : List UInt8) : Option Nat := cs.foldlM (readDigit b) 0

section Numeral

variable {b width n : Nat}

theorem toNat_digitByte {d : Nat} (hd : d < 16) :
    (digitByte d).toNat = if d < 10 then 48 + d else 55 + d := by
  unfold digitByte
  rw [UInt8.toNat_ofNat']
  split <;> omega

theorem digitValue_digitByte {d : Nat} (hd : d < 16) : digitValue (digitByte d) = some d := by
  unfold digitValue
  rw [toNat_digitByte hd]
  by_cases h : d < 10
  · rw [if_pos h, if_pos (by omega)]
    congr 1
    omega
  · rw [if_neg h, if_neg (by omega), if_pos (by omega)]
    congr 1
    omega

theorem foldlM_readDigit (hb : b ≤ 16) {ds : List Nat} (hds : ∀ d ∈ ds, d < b) (acc : Nat) :
    (ds.map digitByte).foldlM (readDigit b) acc =
      some (acc * b ^ ds.length + Nat.ofDigits b ds.reverse) := by
  induction ds generalizing acc with
  | nil => simp
  | cons d ds ih =>
    have hd := hds d List.mem_cons_self
    have hstep : readDigit b acc (digitByte d) = some (acc * b + d) := by
      unfold readDigit
      rw [digitValue_digitByte (by omega)]
      exact if_pos hd
    rw [List.map_cons, List.foldlM_cons, hstep, Option.bind_eq_bind, Option.bind_some,
      ih fun x hx => hds x (List.mem_cons_of_mem _ hx)]
    rw [List.reverse_cons, Nat.ofDigits_append, List.length_reverse, Nat.ofDigits_singleton,
      List.length_cons, pow_succ]
    congr 1
    ring

theorem readNumeral_numeral (hb : 1 < b) (hb' : b ≤ 16) :
    readNumeral b (numeral b width n) = some n := by
  have hlt : ∀ d ∈ (Nat.digitsAppend b width n).reverse, d < b := by
    intro d hd
    exact Nat.lt_of_mem_digitsAppend hb width d (List.mem_reverse.mp hd)
  unfold readNumeral numeral
  rw [foldlM_readDigit hb' hlt, List.reverse_reverse, Nat.digitsAppend,
    Nat.ofDigits_append_replicate_zero, Nat.ofDigits_digits]
  simp

theorem length_numeral (hb : 1 < b) (hn : n < b ^ width) : (numeral b width n).length = width := by
  unfold numeral
  rw [List.length_map, List.length_reverse, Nat.length_digitsAppend hb width hn]

theorem digitValue_of_mem_numeral (hb : 1 < b) (hb' : b ≤ 16) {c : UInt8}
    (hc : c ∈ numeral b width n) : ∃ d, d < b ∧ digitValue c = some d := by
  unfold numeral at hc
  obtain ⟨d, hd, rfl⟩ := List.mem_map.mp hc
  have hlt := Nat.lt_of_mem_digitsAppend hb width d (List.mem_reverse.mp hd)
  exact ⟨d, hlt, digitValue_digitByte (by omega)⟩

end Numeral

/-! ## Fields -/

section Cut

variable {α : Type}

/-- The first `n` elements and the rest, if there are that many. -/
def cut (n : Nat) (xs : List α) : Option (List α × List α) :=
  if n ≤ xs.length then some (xs.take n, xs.drop n) else none

theorem cut_append {n : Nat} {front rest : List α} (hn : front.length = n) :
    cut n (front ++ rest) = some (front, rest) := by
  subst hn
  simp [cut]

/-- The zeros that fill a length up to a multiple of `k`. -/
def padding (k n : Nat) : Nat := (k - n % k) % k

theorem padding_dvd {k n : Nat} (hk : 0 < k) : (n + padding k n) % k = 0 := by
  unfold padding
  have hlt := Nat.mod_lt n hk
  by_cases h : n % k = 0
  · simp [h]
  · rw [Nat.mod_eq_of_lt (a := k - n % k) (by omega), Nat.add_mod, Nat.mod_eq_of_lt (a := k - n % k)
      (by omega), show n % k + (k - n % k) = k by omega, Nat.mod_self]

end Cut

end Lib
