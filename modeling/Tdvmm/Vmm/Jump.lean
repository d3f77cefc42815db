import Tdvmm.Vmm.Turns

/-!
# Vmm.Jump — where a fast-forward jump goes

1. The jump itself is exact. At one host sample the clock reads `now` before it and the target
   after it, or nothing has changed (`jump_exact`).
2. The target is the head of the event queue. The queue mirrors the LAPIC deadline at the start
   of the boundary, and a periodic timer that fires there re-arms after the mirror was taken.
   Apart from that the target is the earlier of the live deadline and the horizon
   (`target_iff_not_overlooked`).
-/

namespace Tdvmm.Vmm

open Lib Proto Egress

variable {U D : Type}

/-! ## The jump is exact -/

/-- The jump stopped, with both offsets as they were. The one panic among the ways
to stop is the phase-gate assert. -/
structure JumpStopped (m : Machine U D) (res : Except Abort Turn) (m' : Machine U D) : Prop where
  error : ∃ a, res = .error a ∧ ∀ p, a = .panicked p → p = .gateBreached ∧ m.jumpLegal = false
  kvm : m'.tsc.kvm = m.tsc.kvm
  cached : m'.clock.tscOffset m'.tsc = m.clock.tscOffset m.tsc

/-- The jump landed on `next`, at the host sample `h`. -/
structure JumpLanded (h next : UInt64) (m : Machine U D) (res : Except Abort Turn)
    (m' : Machine U D) : Prop where
  done : res = .ok (.jumped next)
  lands : m'.vtsc h = next
  increased : (m.clock.tscOffset m.tsc).toInt < (m'.clock.tscOffset m'.tsc).toInt
  through : m'.tsc.kvm = m'.clock.tscOffset m'.tsc
  clones : ∀ clone : VirtualClock, clone.cell = m.clock.cell → clone.vtscFromHost m'.tsc h = next

theorem toNat_delta {i : ParkInput} {m : Machine U D} {next : UInt64}
    (hlater : m.vtsc i.jumpTsc < next) :
    (m.delta i next).toNat = next.toNat - (m.vtsc i.jumpTsc).toNat := by
  unfold Machine.delta
  exact UInt64.toNat_sub_of_le _ _ (UInt64.le_of_lt hlater)

/-- For every host sample, offset and target with an advance below `2 ^ 63` the jump
stops with nothing changed or lands exactly; and it only lands past the single-jump
bound when it goes to the horizon. -/
theorem jump_exact (ff : FfState) (i : ParkInput) (m : Machine U D) (next : UInt64)
    (hlater : m.vtsc i.jumpTsc < next) (hsmall : (m.delta i next).toNat < 2 ^ 63) :
    ∃ res m', (jumpTo ff i next).run m = (res, m') ∧
      (JumpStopped m res m' ∨
        JumpLanded i.jumpTsc next m res m' ∧
          (m.horizon ≠ some next → m.delta i next ≤ ff.maxJumpCycles)) := by
  obtain ⟨res, m', hrun, hjump⟩ := run_jumpTo ff i m next
  refine ⟨res, m', hrun, ?_⟩
  cases hjump with
  | due hle => exact absurd hlater (UInt64.not_lt.mpr hle)
  | tooLong _ hhor hbig => exact .inl ⟨⟨_, rfl, by simp⟩, rfl, rfl⟩
  | breached _ hillegal =>
    refine .inl ⟨⟨_, rfl, ?_⟩, rfl, rfl⟩
    intro p hp
    exact ⟨(Abort.panicked.inj hp).symm, hillegal⟩
  | negative _ hlegal hbound hbig => omega
  | fault _ hlegal _ hfault => exact .inl ⟨⟨_, rfl, by simp⟩, rfl, rfl⟩
  | jumped _ hlegal hbound _ hbump =>
    have hpos : 0 < (m.delta i next).toNat := by
      have hlt := UInt64.lt_iff_toNat_lt.mp hlater
      rw [toNat_delta hlater]
      omega
    have hsum : m.vtsc i.jumpTsc + m.delta i next = next := by
      rw [Machine.delta, UInt64.add_comm, UInt64.sub_add_cancel]
    refine .inr ⟨⟨rfl, vtsc_landed hbump, ?_, hbump.kvm, ?_⟩, ?_⟩
    · have hoff := hbump.offset
      show (m.clock.tscOffset m.tsc).toInt < _
      rw [hoff]
      omega
    · intro clone hclone
      exact (VirtualClock.vtscFromHost_bumped hbump hclone i.jumpTsc).trans hsum
    · intro hhor
      exact hbound.resolve_left hhor

theorem jump_exact_bare :
    ∃ m', (jumpTo ⟨1000, 0, 0, 0⟩ (.bare 20 30) 100).run (Config.bare 0 false none none).machine =
        (.ok (.jumped 100), m') ∧
      JumpLanded 30 100 (Config.bare 0 false none none).machine (.ok (.jumped 100)) m' ∧
      (Config.bare 0 false none none).machine.delta (.bare 20 30) 100 ≤ 1000 := by
  -- the bare machine at host sample 30 jumps to 100
  obtain ⟨res, m', hrun, hjump⟩ := jump_exact ⟨1000, 0, 0, 0⟩ (.bare 20 30)
    (Config.bare 0 false none none).machine 100 (by decide +kernel) (by decide +kernel)
  obtain rfl : Except.ok (.jumped 100) = res := congrArg Prod.fst hrun
  rcases hjump with hstopped | ⟨hlanded, hbound⟩
  · obtain ⟨a, ha, -⟩ := hstopped.error
    cases ha
  · exact ⟨m', hrun, hlanded, hbound (by decide +kernel)⟩

/-! ## The target of a jump -/

/-- The deadline live in the LAPIC when the turn ended. -/
def TurnRecord.live (r : TurnRecord U D) : Option UInt64 := r.after.lapic.timerDeadline

/-- The turn comes to a decision about the next deadline: it jumps, or it waits
without one. -/
def TurnRecord.Decides (r : TurnRecord U D) : Prop :=
  (∃ target, r.result = .ok (.jumped target)) ∨ r.result = .ok (.waited none)

/-- A jump goes to the earlier of the live deadline and the horizon, and there is no
wait without a deadline while the timer is armed. -/
structure TurnRecord.Aimed (r : TurnRecord U D) : Prop where
  target : ∀ t, r.result = .ok (.jumped t) → minDeadline r.live r.after.horizon = some t
  wait : r.result = .ok (.waited none) → r.live = none

/-- At the boundary of the turn a periodic timer is due, and it re-arms to a vtsc
before the horizon, if there is one. This is a condition on the state the turn
starts from and its host sample. -/
def Machine.Overlooks (m : Machine U D) (now : UInt64) : Prop :=
  ∃ d next, m.lapic.timerDeadline = some d ∧ d ≤ now ∧ 0 < m.lapic.timerPeriod ∧
    m.lapic.rearm d now = some next ∧ ∀ h, m.horizon = some h → next < h

def TurnRecord.Overlooks (r : TurnRecord U D) : Prop :=
  r.before.Overlooks (r.before.vtsc r.input.hostTsc)

section Target

variable {now : UInt64} {m m₁ : Machine U D}

theorem ahead_horizon (hearly : m.horizonDue now = false) : ahead now m.horizon = m.horizon := by
  unfold Machine.horizonDue at hearly
  rcases hh : m.horizon with _ | h
  · rfl
  · have hlt : now < h := by simpa [hh] using hearly
    exact ahead_of_lt hlt

theorem Attended.queue_live (hatt : Attended now m m₁) (hsees : ¬ m.Overlooks now) :
    m₁.events.peekDeadline = minDeadline m₁.lapic.timerDeadline m₁.horizon := by
  -- unless the turn overlooks a re-armed timer, the queue is left with the earlier of the live
  -- deadline and the horizon
  have hlive := hatt.timer
  rw [hatt.queue, ahead_horizon hatt.early, hatt.horizon]
  rw [Lapic.deadlineAfter_eq] at hlive
  rcases hd : m.lapic.timerDeadline with _ | d
  · rw [hd] at hlive
    rw [← Option.some.inj hlive]
    rfl
  rw [hd] at hlive
  dsimp only at hlive
  by_cases hdue : d ≤ now
  · rw [if_pos hdue] at hlive
    rw [ahead_of_le hdue]
    by_cases hper : 0 < m.lapic.timerPeriod
    · -- The timer re-armed; it was not overlooked, so the horizon comes first.
      rw [if_pos hper] at hlive
      rcases hre : m.lapic.rearm d now with _ | next
      · rw [hre] at hlive
        contradiction
      · rw [hre] at hlive
        rw [← Option.some.inj hlive]
        obtain ⟨h, hhor, hnot⟩ : ∃ h, m.horizon = some h ∧ ¬ next < h := by
          by_contra hnone
          refine hsees ⟨d, next, hd, hdue, hper, hre, ?_⟩
          intro h hhor
          by_contra hlt
          exact hnone ⟨h, hhor, hlt⟩
        rw [hhor, minDeadline_none_left]
        show some h = some (if next ≤ h then next else h)
        split_ifs with hle
        · rw [UInt64.le_antisymm hle (UInt64.not_lt.mp hnot)]
        · rfl
    · rw [if_neg hper] at hlive
      rw [← Option.some.inj hlive]
  · rw [if_neg hdue] at hlive
    rw [ahead_of_lt (UInt64.not_le.mp hdue), ← Option.some.inj hlive]

theorem Attended.queue_overlooked (hatt : Attended now m m₁) (hover : m.Overlooks now) :
    m₁.events.peekDeadline = m₁.horizon ∧
      ∃ next, m₁.lapic.timerDeadline = some next ∧ ∀ h, m₁.horizon = some h → next < h := by
  -- a turn that overlooks a re-armed timer is left with the horizon alone, and the timer is armed
  -- before it
  obtain ⟨d, next, hd, hdue, hper, hre, hbefore⟩ := hover
  have hlive := hatt.timer
  rw [Lapic.deadlineAfter_eq, hd] at hlive
  dsimp only at hlive
  rw [if_pos hdue, if_pos hper, hre] at hlive
  constructor
  · rw [hatt.queue, ahead_horizon hatt.early, hd, ahead_of_le hdue, minDeadline_none_left,
      hatt.horizon]
  · refine ⟨next, (Option.some.inj hlive).symm, ?_⟩
    intro h hh
    exact hbefore h (hatt.horizon ▸ hh)

theorem timeoutNs_eq_none {tsc : UInt64} (h : m.timeoutNs tsc = none) :
    m.events.peekDeadline = none := by
  unfold Machine.timeoutNs at h
  exact Option.map_eq_none_iff.mp h

end Target

/-- The attended state in which a turn takes its decision: the LAPIC and the horizon
are those at its end, and the head of the queue is what it decides on. -/
structure DecidedIn (r : TurnRecord U D) (m₁ : Machine U D) : Prop where
  attended : Attended (r.before.vtsc r.input.hostTsc) r.before m₁
  live : r.live = m₁.lapic.timerDeadline
  horizon : r.after.horizon = m₁.horizon
  jump : ∀ t, r.result = .ok (.jumped t) → m₁.events.peekDeadline = some t
  wait : r.result = .ok (.waited none) → m₁.events.peekDeadline = none

theorem decided_of_advanced {ff : FfState} {i : ParkInput} {m m₁ m' : Machine U D}
    {res : Except Abort Turn} (hatt : Attended (m.vtsc i.hostTsc) m m₁)
    (hadv : Advanced ff i m₁ res m') : DecidedIn ⟨m, i, res, m'⟩ m₁ := by
  cases hadv with
  | gated hgate hframe =>
    refine ⟨hatt, hframe.timer.deadline, hframe.horizon, by simp, ?_⟩
    intro h
    exact timeoutNs_eq_none (by simpa using h)
  | idle hgate hpeek hframe =>
    exact ⟨hatt, hframe.timer.deadline, hframe.horizon, by simp, fun _ => hpeek⟩
  | parkFailed hframe => exact ⟨hatt, hframe.timer.deadline, hframe.horizon, by simp, by simp⟩
  | jump hgate hpeek hjump =>
    cases hjump with
    | jumped hlater hlegal hbound hsmall hbump =>
      refine ⟨hatt, rfl, rfl, ?_, by simp⟩
      intro t ht
      rw [hpeek]
      simpa using ht
    | _ => exact ⟨hatt, rfl, rfl, by simp, by simp⟩

theorem decided_of_taken {P : Platform U D} {r : TurnRecord U D} (h : r.Taken P)
    (hdec : r.Decides) : ∃ m₁, DecidedIn r m₁ := by
  obtain ⟨m, i, res, m'⟩ := r
  rcases h.cases with ⟨ff, -, hturn⟩ | ⟨-, hturn⟩
  · replace hturn : FfTurn ff i m res m' := hturn
    cases hturn with
    | pollFailed hframe => simp [TurnRecord.Decides] at hdec
    | ended hend hclock hserviced => cases hend <;> simp [TurnRecord.Decides, Except.map] at hdec
    | advanced hatt hadv => exact ⟨_, decided_of_advanced hatt hadv⟩
  · replace hturn : RealTurn i m res m' := hturn
    cases hturn with
    | ended hend hclock hserviced => cases hend <;> simp [TurnRecord.Decides, Except.map] at hdec
    | @waited m₁ _ hatt hframe =>
      refine ⟨m₁, hatt, hframe.timer.deadline, hframe.horizon, by simp, ?_⟩
      intro h
      exact timeoutNs_eq_none (by simpa using h)
    | parkFailed hatt hframe => simp [TurnRecord.Decides] at hdec

/-- In every run, a turn that jumps or waits without a deadline is aimed right exactly
when it does not overlook a periodic timer that re-armed at its boundary. -/
theorem target_iff_not_overlooked (P : Platform U D) (c : Config U D) (is : List Input) :
    ∀ r ∈ (run P c is).turns, r.Decides → (r.Aimed ↔ ¬ r.Overlooks) := by
  intro r hr hdec
  obtain ⟨m₁, hin⟩ := decided_of_taken (run_turns_taken P c is r hr) hdec
  constructor
  · intro haim hover
    obtain ⟨hpeek, next, hnext, hbefore⟩ := hin.attended.queue_overlooked hover
    rcases hdec with ⟨t, ht⟩ | hwait
    · -- The jump went to the horizon, past the re-armed deadline.
      have htarget := haim.target t ht
      have hhor : m₁.horizon = some t := hpeek ▸ hin.jump t ht
      have hlt := hbefore t hhor
      rw [hin.live, hin.horizon, hnext, hhor] at htarget
      have hmin : (if next ≤ t then next else t) = t := Option.some.inj htarget
      rw [if_pos (UInt64.le_of_lt hlt)] at hmin
      exact absurd hmin (UInt64.ne_of_lt hlt)
    · have hnone := haim.wait hwait
      rw [hin.live, hnext] at hnone
      contradiction
  · intro hsees
    have hpeek := hin.attended.queue_live hsees
    constructor
    · intro t ht
      rw [hin.live, hin.horizon, ← hpeek]
      exact hin.jump t ht
    · intro hwait
      rw [hin.wait hwait] at hpeek
      rw [hin.live]
      rcases hl : m₁.lapic.timerDeadline with _ | l
      · rfl
      · rw [hl] at hpeek
        cases hh : m₁.horizon <;> simp [hh, minDeadline] at hpeek

/-- The guest arms a periodic timer with period 200 at vtsc 10, leaves its APIC
disabled, and halts. The first turn jumps to the deadline 210, the second fires the
timer there. -/
def periodicRun (budget : Option UInt64) : RunState Unit Unit :=
  run Platform.bare (Config.bare 0 false (some 1000) budget)
    [lapicWrite 2 REG_LVT_TIMER 0x20030, lapicWrite 10 REG_TIMER_ICT 100, halt 11,
      .park (.bare 20 30), .park (.bare 31 31)]

theorem target_iff_not_overlooked_periodicRun :
    ∃ r ∈ (periodicRun (some 5000)).turns, r.Decides ∧ (r.Aimed ↔ ¬ r.Overlooks) := by
  have hresults : (periodicRun (some 5000)).turns.map (·.result) =
      [.ok (.jumped 210), .ok (.jumped 5000)] := by decide +kernel
  have hjump : .ok (.jumped 210) ∈ (periodicRun (some 5000)).turns.map (·.result) := by
    simp [hresults]
  obtain ⟨r, hr, hres⟩ := List.mem_map.mp hjump
  exact ⟨r, hr, .inl ⟨210, hres⟩, target_iff_not_overlooked _ _ _ r hr (.inl ⟨210, hres⟩)⟩

/-- The timer has re-armed to 410, and the park does not know of it. -/
theorem jump_passes_rearmed_deadline :
    (∃ r ∈ (periodicRun (some 5000)).turns,
        r.result = .ok (.jumped 5000) ∧ r.live = some 410 ∧ ¬ r.Aimed) ∧
      ∃ r ∈ (periodicRun none).turns,
        r.result = .ok (.waited none) ∧ r.live = some 410 ∧ ¬ r.Aimed := by
  constructor
  · -- with a horizon at 5000 it jumps there
    have hturns :
        (periodicRun (some 5000)).turns.map (fun r => (r.result, r.live, r.after.horizon)) =
        [(.ok (.jumped 210), some 210, some 5000), (.ok (.jumped 5000), some 410, some 5000)] := by
      decide +kernel
    have hlast : (.ok (.jumped 5000), some 410, some 5000) ∈
        (periodicRun (some 5000)).turns.map (fun r => (r.result, r.live, r.after.horizon)) := by
      simp [hturns]
    obtain ⟨r, hr, hres⟩ := List.mem_map.mp hlast
    obtain ⟨hres, hlive, hhor⟩ : r.result = .ok (.jumped 5000) ∧ r.live = some 410 ∧
        r.after.horizon = some 5000 := by simpa using hres
    refine ⟨r, hr, hres, hlive, ?_⟩
    intro haim
    have htarget := haim.target 5000 hres
    rw [hlive, hhor] at htarget
    exact absurd htarget (by decide)
  · -- without one it waits with no deadline at all
    have hturns : (periodicRun none).turns.map (fun r => (r.result, r.live)) =
        [(.ok (.jumped 210), some 210), (.ok (.waited none), some 410)] := by decide +kernel
    have hlast : (.ok (.waited none), some 410) ∈
        (periodicRun none).turns.map (fun r => (r.result, r.live)) := by simp [hturns]
    obtain ⟨r, hr, hres⟩ := List.mem_map.mp hlast
    obtain ⟨hres, hlive⟩ : r.result = .ok (.waited none) ∧ r.live = some 410 := by simpa using hres
    refine ⟨r, hr, hres, hlive, ?_⟩
    intro haim
    rw [haim.wait hres] at hlive
    exact absurd hlive (by simp)

end Tdvmm.Vmm
