import Tdvmm.Vmm.Budget

/-!
# Vmm.Entry — the moments inside an iteration

An iteration of the run loop asks the LAPIC for a vector, then enters the guest; a
turn of a park asks it once. `toInjection` and `toConsult` are the iteration and
the turn up to that question, `toEntry` is the iteration up to `KVM_RUN`. The loop
and the park are these parts and a rest (`loopTurn_eq`, `parkTurn_eq`).
-/

namespace Tdvmm.Vmm

open Lib Lib.Eff Proto Egress

variable {U D : Type}

section Parts

variable (P : Platform U D)

/-- An iteration up to the question which vector is deliverable. The answer is why it
stopped before that. -/
def toInjection (i : LoopInput) : VmmM U D (Option StopReason) := do
  if ← boundary i.hostTsc then return some .horizon
  else do
    Eff.update (com2Pump P)
    egressPump P i.env
    if ← agentLines P i.lineTsc then return some .driverFinish
    else do
      Eff.update fun m => { m with lapic := m.lapic.syncTprFromCr8 i.cr8 }
      return none

/-- An iteration up to `KVM_RUN`. -/
def toEntry (i : LoopInput) : VmmM U D (Option StopReason) := do
  match ← toInjection P i with
  | some r => return some r
  | none => do
    injectVector i (← Eff.read).lapic.deliverableVector
    return none

theorem loopTurn_eq (i : LoopInput) :
    loopTurn P i = (do
      match ← toEntry P i with
      | some r => return .stop r
      | none => handleExit P i.exit) := by
  unfold loopTurn toEntry toInjection serveAndRun inject
  simp only [bind_assoc]
  refine bind_congr fun horizon => ?_
  cases horizon with
  | true => simp
  | false =>
    simp only [Bool.false_eq_true, if_false, bind_assoc]
    refine bind_congr fun _ => bind_congr fun _ => bind_congr fun finished => ?_
    cases finished <;> simp

/-- A turn of the park up to that question. With fast-forward on, the console goes
first. -/
def toConsult (ff : Option FfState) (i : ParkInput) : VmmM U D (Option ParkOutcome) := do
  if ff.isSome then stdinFirst P i
  attendTo P i

/-- The rest of a turn, when nothing is deliverable. -/
def afterConsult (ff : Option FfState) (i : ParkInput) : VmmM U D Turn :=
  match ff with
  | some ff => advance P ff i
  | none => do
    let timeout := (← Eff.read).timeoutNs i.waitTsc
    parkFor P timeout i
    return .waited timeout

theorem parkTurn_eq (i : ParkInput) :
    parkTurn P i = (do
      let ff := (← Eff.read).ff
      match ← toConsult P ff i with
      | some o => return .returned o
      | none => do
        let m ← Eff.read
        if m.lapic.deliverableVector.isSome then return .returned .deliverable
        else afterConsult P ff i) := by
  unfold parkTurn
  refine bind_congr fun m => ?_
  cases m.ff with
  | none =>
    simp only [realTurn, attend_eq, toConsult, afterConsult, bind_assoc, Option.isSome_none,
      Bool.false_eq_true, if_false]
    refine bind_congr fun early => ?_
    cases early with
    | some o => simp
    | none =>
      simp only [bind_assoc, pure_bind]
      refine bind_congr fun m => ?_
      cases m.lapic.deliverableVector.isSome <;> simp
  | some ff =>
    simp only [ffTurn, attend_eq, toConsult, afterConsult, bind_assoc, Option.isSome_some,
      if_true]
    refine bind_congr fun _ => bind_congr fun early => ?_
    cases early with
    | some o => simp
    | none =>
      simp only [bind_assoc, pure_bind]
      refine bind_congr fun m => ?_
      cases m.lapic.deliverableVector.isSome <;> simp

/-! ## What the parts keep -/

/-- An iteration that goes on to the guest: `now` is the vtsc of its boundary, `cr8`
what KVM reported. -/
structure Readied (now cr8 : UInt64) (m m' : Machine U D) : Prop extends m.SameClock m' where
  /-- The horizon is ahead. -/
  early : m.horizonDue now = false
  /-- The timer has fired if it was due. -/
  timer : m.lapic.deadlineAfter now = some m'.lapic.timerDeadline
  /-- The queue holds what was not due before the timer fired. -/
  queue : m'.events.peekDeadline =
    minDeadline (ahead now m.lapic.timerDeadline) (ahead now m.horizon)
  priority : m'.lapic.tpr = (cr8 &&& 0xf).toUInt32 <<< 4

variable {P}

variable {i : LoopInput} {m m' : Machine U D}

theorem toInjection_readied
    (h : (toInjection P i).run m = (.ok none, m')) : Readied (m.vtsc i.hostTsc) i.cr8 m m' := by
  rw [toInjection] at h
  rcases run_boundary (rfl : m.vtsc i.hostTsc = _) with
    ⟨-, hrun⟩ | ⟨fired, lapic, q, hfire, hrun, hpeek⟩
  · rw [run_bind_error hrun] at h
    simp at h
  rw [run_bind_ok hrun] at h
  by_cases hdue : m.horizonDue (m.vtsc i.hostTsc) = true
  · simp [hdue] at h
  have hearly : m.horizonDue (m.vtsc i.hostTsc) = false := by simpa using hdue
  simp only [hearly, Bool.false_eq_true, if_false, run_update_bind] at h
  -- The devices only move the state of the boundary within a frame.
  set m₁ : Machine U D :=
    { m with serviced := m.serviced ++ [m.vtsc i.hostTsc], lapic := lapic, events := q }
  obtain ⟨res, m₂, hpump, hframe₂, -, -⟩ := run_egressPump P i.env (com2Pump P m₁)
  cases res with
  | error e =>
    rw [run_bind_error hpump] at h
    simp at h
  | ok u =>
    rw [run_bind_ok hpump] at h
    obtain ⟨finished, m₃, hagent, hframe₃⟩ := run_agentLines P i.lineTsc m₂
    have hframe : m₁.Frame m₃ := (com2Pump_frame P m₁).trans (hframe₂.trans hframe₃)
    rw [run_bind_ok hagent] at h
    cases finished with
    | true => simp at h
    | false =>
      simp only [Bool.false_eq_true, if_false, run_update_bind, run_pure,
        Prod.mk.injEq, true_and] at h
      subst h
      refine ⟨⟨hframe.tsc, hframe.clock, hframe.horizon, hframe.ff, hframe.vtscStart⟩, hearly,
        ?_, ?_, rfl⟩
      · show _ = some m₃.lapic.timerDeadline
        rw [hframe.timer.deadline, Lapic.deadlineAfter, hfire]
        rfl
      · show m₃.events.peekDeadline = _
        rw [hframe.events]
        exact hpeek

theorem injectVector_readied {now cr8 : UInt64} {vec : Option UInt8}
    {m₁ m₂ : Machine U D} {r : Except Abort Unit} (hready : Readied now cr8 m m₁)
    (h : (injectVector i vec).run m₁ = (r, m₂)) : Readied now cr8 m m₂ := by
  cases vec with
  | none =>
    obtain ⟨-, rfl⟩ := Prod.mk.inj h
    exact hready
  | some vec =>
    unfold injectVector at h
    split_ifs at h
    · obtain ⟨-, rfl⟩ := Prod.mk.inj h
      exact ⟨⟨hready.tsc, hready.clock, hready.horizon, hready.ff, hready.vtscStart⟩,
        hready.early, hready.timer, hready.queue, hready.priority⟩
    · obtain ⟨-, rfl⟩ := Prod.mk.inj h
      exact hready
    · obtain ⟨-, rfl⟩ := Prod.mk.inj h
      exact hready

theorem toEntry_readied
    (h : (toEntry P i).run m = (.ok none, m')) : Readied (m.vtsc i.hostTsc) i.cr8 m m' := by
  rw [toEntry] at h
  rcases hinj : (toInjection P i).run m with ⟨r₁, m₁⟩
  rcases r₁ with e | _ | r
  · rw [run_bind_error hinj] at h
    simp at h
  · rw [run_bind_ok hinj] at h
    rcases hvec : (injectVector i m₁.lapic.deliverableVector).run m₁ with ⟨r₂, m₂⟩
    change (injectVector i m₁.lapic.deliverableVector >>= fun _ => pure none).run m₁ = _ at h
    cases r₂ with
    | error e =>
      rw [run_bind_error hvec] at h
      simp at h
    | ok u =>
      rw [run_bind_ok hvec] at h
      obtain ⟨-, rfl⟩ := Prod.mk.inj h
      exact injectVector_readied (toInjection_readied hinj) hvec
  · rw [run_bind_ok hinj] at h
    simp at h

theorem toConsult_priority {ff : Option FfState} {i : ParkInput}
    (h : (toConsult P ff i).run m = (.ok none, m')) : m'.lapic.tpr = m.lapic.tpr := by
  have hattend : ∀ {m₀ : Machine U D}, (attendTo P i).run m₀ = (.ok none, m') →
      m'.lapic.tpr = m₀.lapic.tpr := by
    intro m₀ h₀
    rcases run_attendTo P i (rfl : m₀.vtsc i.hostTsc = _) with ⟨r, m₁, hrun, -⟩ | ⟨m₁, hrun, hatt⟩
    · rw [hrun] at h₀
      cases r <;> simp [Except.map] at h₀
    · rw [hrun] at h₀
      obtain ⟨-, rfl⟩ := Prod.mk.inj h₀
      exact hatt.priority
  rw [toConsult] at h
  cases ff with
  | none => exact hattend h
  | some ff =>
    obtain ⟨res, m₀, hstdin, hframe, -, hres⟩ := run_stdinFirst P i m
    simp only [Option.isSome_some, if_true] at h
    rcases hres with rfl | rfl
    · rw [run_bind_ok hstdin] at h
      rw [hattend h, hframe.raised.tpr]
    · rw [run_bind_error hstdin] at h
      simp at h

/-- What a turn without an error can do: it returns, it goes on within a frame of the
attended state, or it jumps to the head of the queue. -/
inductive Turned (i : ParkInput) (m : Machine U D) : Turn → Machine U D → Prop where
  | returned {o : ParkOutcome} {m' : Machine U D} (hclock : m.SameClock m') :
      Turned i m (.returned o) m'
  | stayed {t : Turn} {m₁ m' : Machine U D} (hatt : Attended (m.vtsc i.hostTsc) m m₁)
      (hframe : m₁.Frame m') (hturn : t = .due ∨ ∃ timeout, t = .waited timeout) : Turned i m t m'
  | jumped {ff : Option FfState} {next : UInt64} {m₁ : Machine U D} {tsc : Tsc}
      (hatt : Attended (m.vtsc i.hostTsc) m m₁) (hpeek : m₁.events.peekDeadline = some next)
      (hbump : m₁.clock.Bumped (m₁.delta i next) m₁.tsc tsc) :
      Turned i m (.jumped next) { m₁ with tsc := tsc, ff := ff }

theorem parkTurn_turned {i : ParkInput} {t : Turn}
    (h : (parkTurn P i).run m = (.ok t, m')) : Turned i m t m' := by
  have hended : ∀ {r : Except Abort ParkOutcome}, m.SameClock m' → r.map Turn.returned = .ok t →
      Turned i m t m' := by
    intro r hclock hr
    cases r with
    | error e => simp [Except.map] at hr
    | ok o =>
      obtain rfl := Except.ok.inj hr
      exact .returned hclock
  have htaken : (⟨m, i, .ok t, m'⟩ : TurnRecord U D).Taken P := h
  rcases htaken.cases with ⟨ff, -, hturn⟩ | ⟨-, hturn⟩
  · change FfTurn ff i m (.ok t) m' at hturn
    generalize hr : (Except.ok t : Except Abort Turn) = r at hturn
    cases hturn with
    | pollFailed => contradiction
    | ended _ hclock => exact hended hclock hr.symm
    | advanced hatt hadv =>
      cases hadv with
      | gated _ hframe | idle _ _ hframe =>
        obtain rfl := Except.ok.inj hr
        exact .stayed hatt hframe (.inr ⟨_, rfl⟩)
      | parkFailed => contradiction
      | jump _ hpeek hjump =>
        cases hjump with
        | due =>
          obtain rfl := Except.ok.inj hr
          exact .stayed hatt (Machine.Frame.refl _) (.inl rfl)
        | jumped _ _ _ _ hbump =>
          obtain rfl := Except.ok.inj hr
          exact .jumped hatt hpeek hbump
        | _ => contradiction
  · change RealTurn i m (.ok t) m' at hturn
    generalize hr : (Except.ok t : Except Abort Turn) = r at hturn
    cases hturn with
    | ended _ hclock => exact hended hclock hr.symm
    | waited hatt hframe =>
      obtain rfl := Except.ok.inj hr
      exact .stayed hatt hframe (.inr ⟨_, rfl⟩)
    | parkFailed => contradiction

theorem parkTurn_priority {i : ParkInput} {t : Turn}
    (h : (parkTurn P i).run m = (.ok t, m')) (hstays : Mode.afterTurn (.ok t) = .parked) :
    m'.lapic.tpr = m.lapic.tpr := by
  cases parkTurn_turned h with
  | @returned o => cases o <;> contradiction
  | stayed hatt hframe => exact hframe.raised.tpr.trans hatt.priority
  | jumped hatt => exact hatt.priority

end Parts

theorem handleExit_park {P : Platform U D} {exit : Exit} {m m' : Machine U D}
    (h : (handleExit P exit).run m = (.ok .park, m')) : exit = .hlt true ∧ m' = m := by
  -- only a halt leads to a park, and it leaves the machine as it was
  cases exit with
  | hlt ifFlag =>
    cases ifFlag with
    | false => simp [handleExit] at h
    | true => exact ⟨rfl, (Prod.mk.inj h).2.symm⟩
  | _ => simp [handleExit] at h

theorem afterLoop_eq_parked {r : Except Abort Next} :
    Mode.afterLoop r = .parked ↔ r = .ok .park := by
  rcases r with a | n
  · simp [Mode.afterLoop]
  · cases n <;> simp [Mode.afterLoop]

end Tdvmm.Vmm
