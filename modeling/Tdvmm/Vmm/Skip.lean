import Tdvmm.Vmm.Budget

/-!
# Vmm.Skip — the virtual time that a run skips

The virtual clock is the host's, moved by an offset that only the jumps of the fast-forward park
change (`skipped_accounted`).
-/

namespace Tdvmm.Vmm

variable {U D : Type}

/-- The cycles a turn skips: from the clock at its jump to the target. -/
def TurnRecord.skips (r : TurnRecord U D) : List UInt64 :=
  match r.result with
  | .ok (.jumped next) => [next - r.before.vtsc r.input.jumpTsc]
  | _ => []

/-- What the turns of a run have skipped, in order. -/
def RunState.skips (s : RunState U D) : List UInt64 := s.turns.flatMap TurnRecord.skips

def total (ds : List UInt64) : Nat := (ds.map UInt64.toNat).sum

/-- KVM has the offset that the clock reads. -/
def Machine.InStep (m : Machine U D) : Prop := m.tsc.kvm = m.clock.tscOffset m.tsc

/-- The clock has been moved by these cycles, and they are accounted for. -/
structure Machine.Skips (ds : List UInt64) (m m' : Machine U D) : Prop where
  offset : m'.offset = m.offset + total ds
  ff : m'.ff = m.ff.map (ds.foldl FfState.recordHop ·)
  kvm : m.InStep → m'.InStep

theorem Machine.SameClock.skips {m m' : Machine U D} (h : m.SameClock m') : m.Skips [] m' where
  offset := by simp [h.offset, total]
  ff := by simp [h.ff]
  kvm hkvm := by rwa [InStep, h.tsc, h.clock]

theorem Machine.Skips.trans {ds ds' : List UInt64} {m m' m'' : Machine U D} (h : m.Skips ds m')
    (h' : m'.Skips ds' m'') : m.Skips (ds ++ ds') m'' where
  offset := by simp [h'.offset, h.offset, total, Int.add_assoc]
  ff := by simp [h'.ff, h.ff, Function.comp_def]
  kvm hkvm := h'.kvm (h.kvm hkvm)

theorem skips_jumped {ff : FfState} {i : ParkInput} {m m₁ m' : Machine U D} {next : UInt64}
    {res : Except Abort Turn} (hff : m.ff = some ff) (hclock : m.SameClock m₁)
    (h : Jumped ff i m₁ next res m') : m.Skips (TurnRecord.skips ⟨m, i, res, m'⟩) m' := by
  cases h with
  | due | tooLong | breached | negative | fault => exact hclock.skips
  | jumped _ _ _ _ hbump =>
    have hdelta : m₁.delta i next = next - m.vtsc i.jumpTsc := by
      rw [Machine.delta, hclock.vtsc]
    rw [hdelta] at hbump
    refine ⟨?_, ?_, fun _ => hbump.kvm⟩
    · rw [← hclock.offset]
      simpa [TurnRecord.skips, total, Machine.offset] using hbump.offset
    · simp [hff, hdelta, TurnRecord.skips]

theorem skips_turn {P : Platform U D} {m m' : Machine U D} {i : ParkInput}
    {res : Except Abort Turn} (h : (parkTurn P i).run m = (res, m')) :
    m.Skips (TurnRecord.skips ⟨m, i, res, m'⟩) m' := by
  -- a turn moves the clock by what it skips
  rcases TurnRecord.Taken.cases (r := ⟨m, i, res, m'⟩) h with ⟨ff, hff, hturn⟩ | ⟨-, hturn⟩
  · dsimp only at hff hturn
    cases hturn with
    | pollFailed hframe => exact hframe.toSameClock.skips
    | @ended r _ _ hclock => cases r <;> exact hclock.skips
    | advanced hatt hadv =>
      cases hadv with
      | gated _ hframe | idle _ _ hframe | parkFailed hframe =>
        exact (hatt.toSameClock.trans hframe.toSameClock).skips
      | jump _ _ hjump => exact skips_jumped hff hatt.toSameClock hjump
  · dsimp only at hturn
    cases hturn with
    | @ended r _ _ hclock => cases r <;> exact hclock.skips
    | waited hatt hframe | parkFailed hatt hframe =>
      exact (hatt.toSameClock.trans hframe.toSameClock).skips

theorem skips_step (P : Platform U D) (s : RunState U D) (i : Input) : ∃ ds,
    (s.step P i).skips = s.skips ++ ds ∧ s.machine.Skips ds (s.step P i).machine := by
  have hstay : s.skips = s.skips ++ [] ∧ s.machine.Skips [] s.machine :=
    ⟨(List.append_nil _).symm, (Machine.SameClock.refl _).skips⟩
  cases i with
  | loop i =>
    refine ⟨[], ?_⟩
    simp only [RunState.step]
    split_ifs
    · exact ⟨hstay.1, (run_loopTurn P i rfl).2.1.skips⟩
    · exact hstay
  | park i =>
    simp only [RunState.step]
    split_ifs
    · refine ⟨_, ?_, skips_turn (Prod.mk.eta).symm⟩
      simp [RunState.turned, RunState.skips]
    · exact ⟨[], hstay⟩

theorem skips_steps (P : Platform U D) (s : RunState U D) (is : List Input) : ∃ ds,
    (is.foldl (RunState.step P) s).skips = s.skips ++ ds ∧
      s.machine.Skips ds (is.foldl (RunState.step P) s).machine := by
  induction is generalizing s with
  | nil => exact ⟨[], (List.append_nil _).symm, (Machine.SameClock.refl _).skips⟩
  | cons i is ih =>
    obtain ⟨ds, hds, hskips⟩ := skips_step P s i
    obtain ⟨ds', hds', hskips'⟩ := ih (s.step P i)
    exact ⟨ds ++ ds', by rw [List.foldl_cons, hds', hds, List.append_assoc], hskips.trans hskips'⟩

/-- Virtual time is the host's and what was skipped: the offset of a run, in KVM as in the cache,
is the first one and the cycles of the jumps on record, the report counts these jumps, and the
offset never falls as the run goes on. -/
theorem skipped_accounted (P : Platform U D) (c : Config U D) (is later : List Input) :
    (run P c is).machine.InStep ∧
    (run P c is).machine.offset = c.tscOffset.toInt + total (run P c is).skips ∧
    (run P c is).machine.ff =
      c.machine.ff.map ((run P c is).skips.foldl FfState.recordHop ·) ∧
    (run P c is).machine.offset ≤ (run P c (is ++ later)).machine.offset := by
  obtain ⟨ds, hds, hskips⟩ := skips_steps P c.init is
  obtain ⟨ds', -, hlater⟩ := skips_steps P (run P c is) later
  obtain rfl : (run P c is).skips = ds := hds
  refine ⟨hskips.kvm rfl, hskips.offset, hskips.ff, ?_⟩
  have hgrown := hlater.offset
  rw [run, ← List.foldl_append] at hgrown
  exact (Int.le_add_of_nonneg_right (Int.natCast_nonneg _)).trans_eq hgrown.symm

end Tdvmm.Vmm
