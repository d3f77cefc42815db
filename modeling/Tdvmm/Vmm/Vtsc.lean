import Mathlib.Algebra.Ring.Int.Defs
import Mathlib.Algebra.Ring.Nat
import Mathlib.Logic.Function.Basic
import Mathlib.Tactic.SplitIfs
import Tdvmm.Lib.Eff

/-!
# Vmm.Vtsc — the virtual clock

The guest's TSC is the one virtual clock (`src/vtsc.rs`): a guest `RDTSC` reads the host TSC
plus an offset that KVM holds. The VMM reads the same value from a cached copy of the offset,
which lives in one cell that every clone of a `VirtualClock` points at.

A fast-forward jump is `bumpOffset`. It asserts that the offset does not go down, adds with a
check for overflow, writes the sum through to KVM, and only then stores it in the cell.
-/

namespace Tdvmm.Vmm

open Lib

/-- The TSC frequency: a zero frequency is refused by the constructor. -/
structure TscFrequency where
  hz : UInt64
  pos : 0 < hz

namespace TscFrequency

theorem kilohertz_pos : (0 : UInt64) < 1000 := by decide

def cyclesToNs (f : TscFrequency) (cycles : UInt64) : UInt64 :=
  UInt64.ofNat (cycles.toNat * 1000000000 / f.hz.toNat)

theorem cyclesToNs_le (f : TscFrequency) (cycles : UInt64) :
    (f.cyclesToNs cycles).toNat * f.hz.toNat ≤ cycles.toNat * 1000000000 := by
  rw [cyclesToNs, UInt64.toNat_ofNat']
  exact Nat.le_trans (Nat.mul_le_mul_right _ (Nat.mod_le _ _)) (Nat.div_mul_le_self _ _)

end TscFrequency

/-- Where the TSC offset is kept: the cells that the `Rc`s of the clocks point
at, and KVM's own `KVM_VCPU_TSC_OFFSET`. -/
structure Tsc where
  cells : Nat → Int64
  kvm : Int64

/-- A clock is a pointer to its offset cell and the frequency; a clone points at
the same cell. -/
structure VirtualClock where
  cell : Nat
  freq : TscFrequency

/-- Why `bumpOffset` did not return: `negative` is the assert on its argument,
the other two are the errors it returns. -/
inductive BumpFault where
  | negative (delta : Int64)
  | overflow (old delta : Int64)
  | writeFailed
deriving DecidableEq, Repr

/-- Whether KVM accepts a write of the offset: the answer of one ioctl. -/
abbrev KvmWrite := Int64 → Bool

/-- `write_tsc_offset`: a refused ioctl leaves KVM's offset as it was. -/
def writeTscOffset (kvm : KvmWrite) (offset : Int64) : Eff BumpFault Tsc Unit :=
  if kvm offset then Eff.update fun t => { t with kvm := offset } else Eff.fail .writeFailed

def checkedAdd (a b : Int64) : Option Int64 :=
  if -2 ^ 63 ≤ a.toInt + b.toInt ∧ a.toInt + b.toInt < 2 ^ 63 then some (a + b) else none

namespace VirtualClock

def tscOffset (c : VirtualClock) (t : Tsc) : Int64 := t.cells c.cell

/-- The virtual time of a host TSC reading: host plus offset, in wrapping `u64`
space. -/
def vtscFromHost (c : VirtualClock) (t : Tsc) (hostTsc : UInt64) : UInt64 :=
  UInt64.ofInt (hostTsc.toNat + (c.tscOffset t).toInt)

/-- Advance the offset by `delta`, through to KVM first and then in the cell. -/
def bumpOffset (c : VirtualClock) (kvm : KvmWrite) (delta : Int64) : Eff BumpFault Tsc Unit := do
  if delta < 0 then Eff.fail (.negative delta)
  let old := c.tscOffset (← Eff.read)
  match checkedAdd old delta with
  | none => Eff.fail (.overflow old delta)
  | some new =>
    writeTscOffset kvm new
    Eff.update fun t => { t with cells := Function.update t.cells c.cell new }

end VirtualClock

/-! ## What a bump does -/

theorem checkedAdd_toInt {a b c : Int64} (h : checkedAdd a b = some c) :
    c.toInt = a.toInt + b.toInt := by
  unfold checkedAdd at h
  split_ifs at h with hrange
  have hc : a + b = c := Option.some.inj h
  rw [← hc, Int64.toInt_add]
  apply Int.bmod_eq_of_le
  · omega
  · omega

/-- `delta as i64`: an advance from `2 ^ 63` on turns negative. -/
theorem toInt_toInt64 (d : UInt64) :
    d.toInt64.toInt = if d.toNat < 2 ^ 63 then (d.toNat : Int) else d.toNat - 2 ^ 64 := by
  have hlt := d.toNat_lt
  have hbits : d.toInt64.toInt = d.toBitVec.toInt := rfl
  have hnat : d.toBitVec.toNat = d.toNat := rfl
  rw [hbits, BitVec.toInt_eq_toNat_cond, hnat]
  split_ifs <;> omega

/-- The assert of `bumpOffset` trips exactly on the advances that do not fit in
an `i64`. -/
theorem toInt64_neg_iff (d : UInt64) : d.toInt64 < 0 ↔ 2 ^ 63 ≤ d.toNat := by
  have hlt := d.toNat_lt
  rw [Int64.lt_iff_toInt_lt, toInt_toInt64]
  split_ifs with hsmall
  · simp only [Int64.toInt_zero]
    omega
  · simp only [Int64.toInt_zero]
    omega

theorem ofInt_toNat (n : UInt64) : UInt64.ofInt n.toNat = n := by
  apply UInt64.toNat.inj
  have hlt := n.toNat_lt
  simp only [UInt64.ofInt, UInt64.toNat_ofNat']
  omega

namespace VirtualClock

/-- The sum with the advance fits an `i64` and KVM takes it. -/
def Accepts (c : VirtualClock) (kvm : KvmWrite) (delta : Int64) (t : Tsc) : Bool :=
  (checkedAdd (c.tscOffset t) delta).any kvm

/-- A bump either changes nothing and says why, or ends normally with the sum in
KVM and in the cell of the clock. -/
theorem run_bumpOffset (c : VirtualClock) (kvm : KvmWrite) (delta : Int64) (t : Tsc) :
    (delta < 0 ∧ (c.bumpOffset kvm delta).run t = (.error (.negative delta), t)) ∨
      (0 ≤ delta ∧ ∃ fault, (∀ d, fault ≠ .negative d) ∧ c.Accepts kvm delta t = false ∧
        (c.bumpOffset kvm delta).run t = (.error fault, t)) ∨
      0 ≤ delta ∧ ∃ new, checkedAdd (c.tscOffset t) delta = some new ∧
        (c.bumpOffset kvm delta).run t =
          (.ok (), { cells := Function.update t.cells c.cell new, kvm := new }) := by
  by_cases hneg : delta < 0
  · refine .inl ⟨hneg, ?_⟩
    simp [bumpOffset, hneg, Eff.run_bind]
  · have hpos : 0 ≤ delta := Int64.not_lt.mp hneg
    refine .inr ?_
    rcases hadd : checkedAdd (c.tscOffset t) delta with _ | new
    · refine .inl ⟨hpos, .overflow (c.tscOffset t) delta, by simp, by simp [Accepts, hadd], ?_⟩
      simp [bumpOffset, hneg, hadd, Eff.run_bind]
    · by_cases hkvm : kvm new = true
      · refine .inr ⟨hpos, new, rfl, ?_⟩
        simp [bumpOffset, hneg, hadd, hkvm, writeTscOffset, Eff.run_bind]
      · refine .inl ⟨hpos, .writeFailed, by simp, by simp [Accepts, hadd, hkvm], ?_⟩
        simp [bumpOffset, hneg, hadd, hkvm, writeTscOffset, Eff.run_bind]

/-- The offset a successful bump stores: in KVM, in the cell, and larger by the
advance. -/
structure Bumped (c : VirtualClock) (delta : UInt64) (t t' : Tsc) : Prop where
  kvm : t'.kvm = c.tscOffset t'
  offset : (c.tscOffset t').toInt = (c.tscOffset t).toInt + delta.toNat

/-- A bump by a cast advance: the assert trips on an advance that does not fit an
`i64`; otherwise it fails and leaves both offsets alone, or both hold the sum. -/
theorem bumpOffset_spec (c : VirtualClock) (kvm : KvmWrite) (delta : UInt64) (t : Tsc) :
    (2 ^ 63 ≤ delta.toNat ∧
        (c.bumpOffset kvm delta.toInt64).run t = (.error (.negative delta.toInt64), t)) ∨
      (delta.toNat < 2 ^ 63 ∧ ∃ fault, (∀ d, fault ≠ .negative d) ∧
        c.Accepts kvm delta.toInt64 t = false ∧
        (c.bumpOffset kvm delta.toInt64).run t = (.error fault, t)) ∨
      delta.toNat < 2 ^ 63 ∧ ∃ t', (c.bumpOffset kvm delta.toInt64).run t = (.ok (), t') ∧
        Bumped c delta t t' := by
  have hfits : 0 ≤ delta.toInt64 → delta.toNat < 2 ^ 63 := by
    intro hpos
    by_contra hbig
    exact Int64.not_lt.mpr hpos ((toInt64_neg_iff delta).mpr (Nat.not_lt.mp hbig))
  rcases run_bumpOffset c kvm delta.toInt64 t with
    ⟨hneg, hrun⟩ | ⟨hpos, hfail⟩ | ⟨hpos, new, hadd, hrun⟩
  · exact .inl ⟨(toInt64_neg_iff delta).mp hneg, hrun⟩
  · exact .inr (.inl ⟨hfits hpos, hfail⟩)
  · refine .inr (.inr ⟨hfits hpos, _, hrun, ?_, ?_⟩)
    · simp [tscOffset]
    · have hsum := checkedAdd_toInt hadd
      rw [toInt_toInt64, if_pos (hfits hpos)] at hsum
      simpa [tscOffset] using hsum

/-- After a bump every clone of the clock reads later by exactly the advance, at
every host sample. -/
theorem vtscFromHost_bumped {c clone : VirtualClock} {delta : UInt64} {t t' : Tsc}
    (hbump : Bumped c delta t t') (hclone : clone.cell = c.cell) (h : UInt64) :
    clone.vtscFromHost t' h = c.vtscFromHost t h + delta := by
  have hoff : (clone.tscOffset t').toInt = (c.tscOffset t).toInt + delta.toNat := by
    rw [tscOffset, hclone]
    exact hbump.offset
  unfold vtscFromHost
  rw [hoff, ← Int.add_assoc, UInt64.ofInt_add, ofInt_toNat]

end VirtualClock

end Tdvmm.Vmm
