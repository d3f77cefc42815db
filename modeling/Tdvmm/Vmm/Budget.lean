import Tdvmm.Vmm.Turns

/-!
# Vmm.Budget — the virtual-time budget

`--max-virtual-time` is a vtsc at which the run must stop: the horizon, the wrapping sum of the
start and the budget in cycles.

The run keeps its budget when it stops for the horizon at the first boundary at which the clock
has advanced by the budget, and not before, and when no jump to the horizon trips an assert of
the park. It does so as long as the sum does not wrap and, with fast-forward on, the budget fits
an `i64` (`budget_kept`).
-/

namespace Tdvmm.Vmm

open Lib Lib.Eff Proto Egress

variable {U D : Type}

/-! ## An iteration of the run loop -/

/-- A part of an iteration after its boundary: the clock is as it was and no timer
service was done. -/
structure Machine.Serves (m m' : Machine U D) : Prop extends m.SameClock m' where
  serviced : m'.serviced = m.serviced

theorem Machine.Frame.serves {m m' : Machine U D} (h : m.Frame m') : m.Serves m' :=
  ⟨h.toSameClock, h.serviced⟩

theorem Machine.Serves.trans {m m' m'' : Machine U D} (h : m.Serves m') (h' : m'.Serves m'') :
    m.Serves m'' :=
  ⟨h.toSameClock.trans h'.toSameClock, h'.serviced.trans h.serviced⟩

theorem Machine.Serves.refl (m : Machine U D) : m.Serves m := ⟨SameClock.refl m, rfl⟩

/-- The iteration does not stop for the horizon, and it neither panics nor hangs. -/
def Mild : Except Abort Next → Prop
  | .ok next => next ≠ .stop .horizon
  | .error a => a ≠ .stuck ∧ ∀ p, a ≠ .panicked p

theorem mild_run : Mild (.ok .run) := by simp [Mild]

section Loop

variable (P : Platform U D)

theorem foldl_serves {α : Type} (f : Machine U D → α → Machine U D)
    (hf : ∀ m a, Machine.Serves m (f m a)) (l : List α) (m : Machine U D) :
    m.Serves (l.foldl f m) :=
  List.foldlRecOn l f (Machine.Serves.refl m) fun _ h a _ => h.trans (hf _ a)

theorem iterate_serves (f : Machine U D → Machine U D) (hf : ∀ m, Machine.Serves m (f m)) (n : Nat)
    (m : Machine U D) : m.Serves (f^[n] m) := by
  induction n generalizing m with
  | zero => exact Machine.Serves.refl m
  | succ n ih => exact (hf m).trans (ih (f m))

theorem com4Write_serves (port : UInt16) (m : Machine U D) (b : UInt8) :
    m.Serves (com4Write P port m b) := by
  unfold com4Write
  split
  · exact ⟨⟨rfl, rfl, rfl, rfl, rfl⟩, rfl⟩
  · exact Machine.Serves.refl m

theorem com4Read_serves (port : UInt16) (m : Machine U D) : m.Serves (com4Read P port m) := by
  unfold com4Read
  split
  · exact ⟨⟨rfl, rfl, rfl, rfl, rfl⟩, rfl⟩
  · exact Machine.Serves.refl m

theorem ioOut_serves (port : UInt16) (data : Bytes) (m : Machine U D) :
    m.Serves (ioOut P port data m) := by
  unfold ioOut
  split_ifs
  · exact ⟨⟨rfl, rfl, rfl, rfl, rfl⟩, rfl⟩
  · exact foldl_serves (com2Write P port) (fun _ _ => ⟨⟨rfl, rfl, rfl, rfl, rfl⟩, rfl⟩) data m
  · exact foldl_serves _ (com4Write_serves P port) data m
  · exact Machine.Serves.refl m

theorem ioIn_serves (port : UInt16) (len : Nat) (m : Machine U D) :
    m.Serves (ioIn P port len m) := by
  unfold ioIn
  split_ifs
  · exact ⟨⟨rfl, rfl, rfl, rfl, rfl⟩, rfl⟩
  · exact iterate_serves (com2Read P port) (fun _ => ⟨⟨rfl, rfl, rfl, rfl, rfl⟩, rfl⟩) len m
  · exact iterate_serves _ (com4Read_serves P port) len m
  · exact Machine.Serves.refl m

theorem mmioWrite_serves (addr : UInt64) (data : Bytes) (hostTsc : UInt64) (m : Machine U D) :
    m.Serves (mmioWrite addr data hostTsc m) := by
  unfold mmioWrite
  dsimp only
  split_ifs
  · exact ⟨⟨rfl, rfl, rfl, rfl, rfl⟩, rfl⟩
  · exact ⟨⟨rfl, rfl, rfl, rfl, rfl⟩, rfl⟩
  · exact Machine.Serves.refl m

theorem handleExit_meets (exit : Exit) (m : Machine U D) :
    (handleExit P exit).Meets (fun r m' => m.Serves m' ∧ Mild r) m := by
  cases exit with
  | ioOut port data => exact ⟨ioOut_serves P port data m, mild_run⟩
  | ioIn port len => exact ⟨ioIn_serves P port len m, mild_run⟩
  | mmioWrite addr data hostTsc => exact ⟨mmioWrite_serves addr data hostTsc m, mild_run⟩
  | hlt ifFlag =>
    refine meets_pure ⟨Machine.Serves.refl m, ?_⟩
    cases ifFlag <;> simp [Mild]
  | runFailed | failEntry | internalError =>
    exact meets_fail ⟨Machine.Serves.refl m, by simp [Mild]⟩
  | _ => exact meets_pure ⟨Machine.Serves.refl m, by simp [Mild]⟩

theorem injectVector_meets (i : LoopInput) (vec : Option UInt8) (m : Machine U D) :
    (injectVector i vec).Meets
      (fun r m' => m.Serves m' ∧ ∀ a, r = .error a → a = .injectFailed) m := by
  cases vec with
  | none => exact meets_pure ⟨Machine.Serves.refl m, by simp⟩
  | some vec =>
    unfold injectVector
    split_ifs
    · exact ⟨⟨⟨rfl, rfl, rfl, rfl, rfl⟩, rfl⟩, by simp⟩
    · exact meets_fail ⟨Machine.Serves.refl m, by simp⟩
    · exact meets_pure ⟨Machine.Serves.refl m, by simp⟩

theorem inject_meets (i : LoopInput) (m : Machine U D) :
    (inject i).Meets (fun r m' => m.Serves m' ∧ ∀ a, r = .error a → a = .injectFailed) m := by
  let m₁ : Machine U D := { m with lapic := m.lapic.syncTprFromCr8 i.cr8 }
  have hserves : m.Serves m₁ := ⟨⟨rfl, rfl, rfl, rfl, rfl⟩, rfl⟩
  obtain ⟨hvec, herr⟩ := injectVector_meets i m₁.lapic.deliverableVector m₁
  exact ⟨hserves.trans hvec, herr⟩

theorem serveAndRun_meets (i : LoopInput) (m : Machine U D) :
    (serveAndRun P i).Meets (fun r m' => m.Serves m' ∧ Mild r) m := by
  have hpump := (com2Pump_frame P m).serves
  obtain ⟨res, m₂, hegress, hframe, -, herr⟩ := run_egressPump P i.env (com2Pump P m)
  have hserves := hpump.trans hframe.serves
  unfold serveAndRun Meets
  rw [run_update_bind]
  cases res with
  | error e =>
    obtain ⟨x, rfl⟩ := herr e rfl
    rw [run_bind_error hegress]
    exact ⟨hserves, by simp [Mild]⟩
  | ok u =>
    obtain ⟨finished, m₃, hagent, hframe₃⟩ := run_agentLines P i.lineTsc m₂
    have hserves₃ := hserves.trans hframe₃.serves
    rw [run_bind_ok hegress, run_bind_ok hagent]
    cases finished with
    | true => exact ⟨hserves₃, by simp [Mild]⟩
    | false =>
      -- The injection and the exit; an injection error is a mild one.
      show Meets (fun r m' => m.Serves m' ∧ Mild r)
        (inject i >>= fun _ => handleExit P i.exit) m₃
      refine (inject_meets i m₃).bind ?_ ?_
      · rintro - m₄ ⟨hinject, -⟩
        obtain ⟨hexit, hmild⟩ := handleExit_meets P i.exit m₄
        exact ⟨hserves₃.trans (hinject.trans hexit), hmild⟩
      · rintro e m₄ ⟨hinject, he⟩
        rw [he e rfl]
        exact ⟨hserves₃.trans hinject, by simp [Mild]⟩

/-- What an iteration does: it hangs in its timer service, stops for the horizon
exactly when that is due, or goes on mildly. -/
inductive Looped (now : UInt64) (m : Machine U D) : Except Abort Next → Prop where
  | stuck (h : m.lapic.deadlineAfter now = none) : Looped now m (.error .stuck)
  | horizon (h : m.horizonDue now = true) : Looped now m (.ok (.stop .horizon))
  | mild {r : Except Abort Next} (h : m.horizonDue now = false) (hr : Mild r) : Looped now m r

theorem run_loopTurn (i : LoopInput) {now : UInt64} {m : Machine U D}
    (hnow : m.vtsc i.hostTsc = now) :
    (loopTurn P i).Meets (fun r m' => Looped now m r ∧ m.SameClock m' ∧
      m'.serviced = m.serviced ++ [now]) m := by
  unfold Meets loopTurn
  rcases run_boundary hnow with ⟨hstuck, hrun⟩ | ⟨fired, lapic, q, -, hrun, -⟩
  · rw [run_bind_error hrun]
    exact ⟨.stuck hstuck, ⟨rfl, rfl, rfl, rfl, rfl⟩, rfl⟩
  · rw [run_bind_ok hrun]
    by_cases hdue : m.horizonDue now = true
    · rw [if_pos hdue]
      exact ⟨.horizon hdue, ⟨rfl, rfl, rfl, rfl, rfl⟩, rfl⟩
    · rw [if_neg hdue]
      obtain ⟨hserves, hmild⟩ := serveAndRun_meets P i
        { m with serviced := m.serviced ++ [now], lapic := lapic, events := q }
      refine ⟨.mild (by simpa using hdue) hmild, ?_, hserves.serviced⟩
      exact ⟨hserves.tsc, hserves.clock, hserves.horizon, hserves.ff, hserves.vtscStart⟩

end Loop

/-! ## Keeping the budget -/

/-- The clock has advanced by the budget since the start. -/
def Reached (start cycles now : UInt64) : Prop := cycles ≤ now - start

/-- A panic that the budget has no part in: the phase-gate assert with the
unsafe-jumps switch on, or a jump to a guest deadline. -/
def Machine.Excuses (m : Machine U D) : Panic → Prop
  | .gateBreached => ∃ eg, m.egress = some eg ∧ eg.unsafeJumps = true
  | .negativeAdvance _ => m.events.peekDeadline ≠ m.horizon
  | _ => False

/-- The run stops for the horizon at the first boundary that has reached the budget,
and at no other, and no panic of a park is the budget's. -/
structure RunState.KeepsBudget (start cycles : UInt64) (s : RunState U D) : Prop where
  stops : ∀ pre now post, s.machine.serviced = pre ++ now :: post → Reached start cycles now →
    post = [] ∧ s.mode = .stopped .horizon
  notBefore : s.mode = .stopped .horizon →
    ∃ pre now, s.machine.serviced = pre ++ [now] ∧ Reached start cycles now
  noPanic : ∀ p, s.mode = .aborted (.panicked p) → s.machine.Excuses p

/-- The condition on a boundary: the clock has not wrapped past the start, and if a
periodic timer is due its re-arm loop ends. -/
structure Machine.Steady (start : UInt64) (m : Machine U D) (hostTsc : UInt64) : Prop where
  ahead : start ≤ m.vtsc hostTsc
  rearms : m.lapic.deadlineAfter (m.vtsc hostTsc) ≠ none

/-- The condition on a step, in the state before it. -/
def RunState.Steady (start : UInt64) (s : RunState U D) : Input → Prop
  | .loop i => s.mode = .running → s.machine.Steady start i.hostTsc
  | .park i => s.mode = .parked →
      s.machine.Steady start i.hostTsc ∧ start ≤ s.machine.vtsc i.jumpTsc

/-- All steps of the run from `s` meet the condition. -/
def SteadyRun (P : Platform U D) (start : UInt64) : RunState U D → List Input → Prop
  | _, [] => True
  | s, i :: is => s.Steady start i ∧ SteadyRun P start (s.step P i) is

/-- With a horizon that does not wrap and a clock that has not wrapped past the
start, the horizon is due exactly when the budget is reached. -/
theorem horizonDue_iff {start cycles now : UInt64} {m : Machine U D}
    (hhor : m.horizon = some (start + cycles)) (hfits : start.toNat + cycles.toNat < 2 ^ 64)
    (hahead : start ≤ now) : m.horizonDue now = true ↔ Reached start cycles now := by
  have hle := UInt64.le_iff_toNat_le.mp hahead
  simp only [Machine.horizonDue, hhor, Option.any_some, decide_eq_true_eq, Reached,
    UInt64.le_iff_toNat_le, UInt64.toNat_add, UInt64.toNat_sub_of_le _ _ hahead,
    Nat.mod_eq_of_lt hfits]
  omega

structure OnBudget (c : Config U D) (cycles : UInt64) (s : RunState U D) : Prop where
  horizon : s.machine.horizon = some (c.vtscStart + cycles)
  ff : s.machine.ff.isSome = c.maxJumpCycles.isSome
  boundaries : (s.mode = .stopped .horizon ∧ ∃ pre now, s.machine.serviced = pre ++ [now] ∧
      Reached c.vtscStart cycles now ∧ ∀ x ∈ pre, ¬ Reached c.vtscStart cycles x) ∨
    s.mode ≠ .stopped .horizon ∧ ∀ x ∈ s.machine.serviced, ¬ Reached c.vtscStart cycles x
  noPanic : ∀ p, s.mode = .aborted (.panicked p) → s.machine.Excuses p

theorem OnBudget.keepsBudget {c : Config U D} {cycles : UInt64} {s : RunState U D}
    (h : OnBudget c cycles s) : s.KeepsBudget c.vtscStart cycles := by
  refine ⟨?_, ?_, h.noPanic⟩
  · intro pre now post hserviced hreached
    rcases h.boundaries with ⟨hmode, pre', now', hserviced', -, hpre⟩ | ⟨-, hnone⟩
    · refine ⟨?_, hmode⟩
      by_contra hpost
      -- a reached boundary with more after it would be in `pre'`.
      have hmem : now ∈ pre' := by
        have hlast := congrArg List.dropLast (hserviced'.symm.trans hserviced)
        rw [List.dropLast_concat, List.dropLast_append_of_ne_nil (by simp),
          List.dropLast_cons_of_ne_nil hpost] at hlast
        simp [hlast]
      exact hpre now hmem hreached
    · exact absurd hreached (hnone now (by simp [hserviced]))
  · intro hmode
    rcases h.boundaries with ⟨-, pre, now, hserviced, hreached, -⟩ | ⟨hne, -⟩
    · exact ⟨pre, now, hserviced, hreached⟩
    · exact absurd hmode hne

/-! ## Steps keep the invariant -/

section Steps

variable {c : Config U D} {cycles : UInt64} {s s' : RunState U D} {now : UInt64}

theorem OnBudget.none_reached (h : OnBudget c cycles s) (hmode : s.mode ≠ .stopped .horizon) :
    ∀ x ∈ s.machine.serviced, ¬ Reached c.vtscStart cycles x := by
  rcases h.boundaries with ⟨hstopped, -⟩ | ⟨-, hnone⟩
  · exact absurd hstopped hmode
  · exact hnone

theorem OnBudget.serve (h : OnBudget c cycles s) (hlive : s.mode ≠ .stopped .horizon)
    (hhor : s'.machine.horizon = s.machine.horizon)
    (hff : s'.machine.ff.isSome = s.machine.ff.isSome)
    (hserviced : s'.machine.serviced = s.machine.serviced ++ [now])
    (hstop : s'.mode = .stopped .horizon ↔ Reached c.vtscStart cycles now)
    (hpanic : ∀ p, s'.mode = .aborted (.panicked p) → s'.machine.Excuses p) :
    OnBudget c cycles s' := by
  -- a step with one boundary keeps the invariant if it stops for the horizon exactly when the
  -- budget is reached there
  have hnone := h.none_reached hlive
  refine ⟨hhor.trans h.horizon, hff.trans h.ff, ?_, hpanic⟩
  by_cases hreached : Reached c.vtscStart cycles now
  · exact .inl ⟨hstop.mpr hreached, s.machine.serviced, now, hserviced, hreached, hnone⟩
  · refine .inr ⟨fun hmode => hreached (hstop.mp hmode), ?_⟩
    intro x hx
    rw [hserviced] at hx
    rcases List.mem_append.mp hx with hx | hx
    · exact hnone x hx
    · rw [List.mem_singleton.mp hx]
      exact hreached

theorem afterLoop_eq_horizon {r : Except Abort Next} :
    Mode.afterLoop r = .stopped .horizon ↔ r = .ok (.stop .horizon) := by
  rcases r with a | n
  · simp [Mode.afterLoop]
  · cases n <;> simp [Mode.afterLoop]

variable {a : Abort} {i : ParkInput} {m m' : Machine U D}

theorem afterLoop_eq_aborted {r : Except Abort Next} :
    Mode.afterLoop r = .aborted a ↔ r = .error a := by
  rcases r with a | n
  · simp [Mode.afterLoop]
  · cases n <;> simp [Mode.afterLoop]

theorem afterTurn_eq_horizon {r : Except Abort Turn} :
    Mode.afterTurn r = .stopped .horizon ↔ r = .ok (.returned .horizon) := by
  rcases r with a | t
  · simp [Mode.afterTurn]
  · rcases t with o | _ | _ | _
    · cases o <;> simp [Mode.afterTurn]
    all_goals simp [Mode.afterTurn]

theorem afterTurn_eq_aborted {r : Except Abort Turn} :
    Mode.afterTurn r = .aborted a ↔ r = .error a := by
  rcases r with a | t
  · simp [Mode.afterTurn]
  · rcases t with o | _ | _ | _
    · cases o <;> simp [Mode.afterTurn]
    all_goals simp [Mode.afterTurn]

theorem OnBudget.looped (P : Platform U D) (h : OnBudget c cycles s) (i : LoopInput)
    (hfits : c.vtscStart.toNat + cycles.toNat < 2 ^ 64) (hmode : s.mode = .running)
    (hsteady : s.machine.Steady c.vtscStart i.hostTsc) : OnBudget c cycles (s.looped P i) := by
  obtain ⟨hloop, hclock, hserviced⟩ := run_loopTurn P i (rfl : s.machine.vtsc i.hostTsc = _)
  have hdue := horizonDue_iff h.horizon hfits hsteady.ahead
  have hlive : s.mode ≠ .stopped .horizon := by simp [hmode]
  rcases hrun : (loopTurn P i).run s.machine with ⟨r, m'⟩
  rw [hrun] at hloop hclock hserviced
  have hs : s.looped P i = { s with machine := m', mode := Mode.afterLoop r } := by
    rw [RunState.looped, hrun]
  rw [hs]
  refine h.serve hlive hclock.horizon (by rw [hclock.ff]) hserviced ?_ ?_
  · rw [← hdue]
    show Mode.afterLoop r = .stopped .horizon ↔ _
    rw [afterLoop_eq_horizon]
    cases hloop with
    | stuck hstuck => exact absurd hstuck hsteady.rearms
    | horizon hd => simp [hd]
    | mild hd hr =>
      constructor
      · rintro rfl
        exact absurd rfl hr
      · intro hd'
        rw [hd] at hd'
        contradiction
  · intro p hp
    have hpanic : r = .error (.panicked p) := afterLoop_eq_aborted.mp hp
    cases hloop with
    | stuck hstuck => exact absurd hstuck hsteady.rearms
    | horizon hd => contradiction
    | mild hd hr =>
      rw [hpanic] at hr
      exact absurd rfl (hr.2 p)

theorem delta_le_budget {start : UInt64}
    (hhor : m.horizon = some (start + cycles)) (hfits : start.toNat + cycles.toNat < 2 ^ 64)
    (hahead : start ≤ m.vtsc i.jumpTsc) {next : UInt64} (hnext : m.horizon = some next)
    (hlater : m.vtsc i.jumpTsc < next) : (m.delta i next).toNat ≤ cycles.toNat := by
  -- a jump to the horizon is no longer than the budget
  have hsum : next = start + cycles := Option.some.inj (hnext.symm.trans hhor)
  have hle := UInt64.le_iff_toNat_le.mp hahead
  rw [Machine.delta, UInt64.toNat_sub_of_le _ _ (UInt64.le_of_lt hlater), hsum, UInt64.toNat_add,
    Nat.mod_eq_of_lt hfits]
  omega

theorem advanced_excused {ff : FfState} {start : UInt64}
    (hhor : m.horizon = some (start + cycles)) (hfits : start.toNat + cycles.toNat < 2 ^ 64)
    (hsmall : cycles.toNat < 2 ^ 63) (hahead : start ≤ m.vtsc i.jumpTsc) {p : Panic}
    (hadv : Advanced ff i m (.error (.panicked p)) m') : m'.Excuses p := by
  -- the panics of an attended turn are excused as long as the budget fits an `i64`
  cases hadv with
  | jump hgate hpeek hjump =>
    cases hjump with
    | breached hlater hillegal =>
      -- The assert has tripped although the gate was open.
      rcases heg : m.egress with _ | eg
      · simp [Machine.jumpLegal, heg, ffJumpAllowed] at hillegal
      · have hlive : eg.backend.isQuiescent = false := by
          simpa [Machine.jumpLegal, heg, ffJumpAllowed] using hillegal
        refine ⟨eg, heg, ?_⟩
        simpa [Machine.gated, heg, EgressChannel.isQuiescent, hlive] using hgate
    | negative hlater hlegal hbound hbig =>
      show m.events.peekDeadline ≠ m.horizon
      rw [hpeek]
      intro hnext
      have hle := delta_le_budget hhor hfits hahead hnext.symm hlater
      omega

theorem advanced_keeps {ff : FfState}
    {res : Except Abort Turn} (hff : m.ff.isSome = true) (hadv : Advanced ff i m res m') :
    m'.horizon = m.horizon ∧ m'.serviced = m.serviced ∧ m'.ff.isSome = m.ff.isSome ∧
      res ≠ .ok (.returned .horizon) := by
  cases hadv with
  | gated hgate hframe | idle hgate hpeek hframe | parkFailed hframe =>
    exact ⟨hframe.horizon, hframe.serviced, by rw [hframe.ff], by simp⟩
  | jump hgate hpeek hjump =>
    cases hjump with
    | jumped hlater hlegal hbound hsmall hbump => exact ⟨rfl, rfl, by simp [hff], by simp⟩
    | _ => exact ⟨rfl, rfl, rfl, by simp⟩

theorem OnBudget.abort (h : OnBudget c cycles s) (hlive : s.mode ≠ .stopped .horizon)
    (hhor : s'.machine.horizon = s.machine.horizon)
    (hff : s'.machine.ff.isSome = s.machine.ff.isSome)
    (hserviced : s'.machine.serviced = s.machine.serviced)
    (hmode : s'.mode = .aborted a) (ha : ∀ p, a ≠ .panicked p) : OnBudget c cycles s' := by
  refine ⟨hhor.trans h.horizon, hff.trans h.ff, .inr ⟨by simp [hmode], ?_⟩, ?_⟩
  · rw [hserviced]
    exact h.none_reached hlive
  · intro p hp
    rw [hmode] at hp
    exact absurd (Mode.aborted.inj hp) (ha p)

theorem OnBudget.ended (h : OnBudget c cycles s) (hlive : s.mode ≠ .stopped .horizon)
    {r : Except Abort ParkOutcome} {turns : List (TurnRecord U D)}
    (hdue : s.machine.horizonDue now = true ↔ Reached c.vtscStart cycles now)
    (hrearms : s.machine.lapic.deadlineAfter now ≠ none)
    (hend : EndsEarly now s.machine r) (hclock : s.machine.SameClock m')
    (hserviced : m'.serviced = s.machine.serviced ++ [now]) :
    OnBudget c cycles ⟨m', Mode.afterTurn (r.map .returned), turns⟩ := by
  refine h.serve hlive hclock.horizon (by rw [hclock.ff]) hserviced ?_ ?_
  · rw [← hdue, afterTurn_eq_horizon]
    cases hend with
    | stuck hstuck => exact absurd hstuck hrearms
    | horizon hd | egress x hd => simp [hd, Except.map]
    | returned o hd ho => simp [hd, Except.map, ho]
  · intro p hp
    have hpanic := afterTurn_eq_aborted.mp hp
    cases hend <;> simp [Except.map] at hpanic

theorem OnBudget.attended (h : OnBudget c cycles s) (hlive : s.mode ≠ .stopped .horizon)
    {res : Except Abort Turn} {m₁ : Machine U D} {turns : List (TurnRecord U D)}
    (hdue : s.machine.horizonDue now = true ↔ Reached c.vtscStart cycles now)
    (hatt : Attended now s.machine m₁) (hhor : m'.horizon = m₁.horizon)
    (hserviced : m'.serviced = m₁.serviced) (hff : m'.ff.isSome = m₁.ff.isSome)
    (hres : res ≠ .ok (.returned .horizon))
    (hpanic : ∀ p, res = .error (.panicked p) → m'.Excuses p) :
    OnBudget c cycles ⟨m', Mode.afterTurn res, turns⟩ := by
  refine h.serve hlive (hhor.trans hatt.horizon) ?_ (hserviced.trans hatt.serviced) ?_ ?_
  · rw [hff, hatt.ff]
  · rw [← hdue, hatt.early, afterTurn_eq_horizon]
    simp [hres]
  · intro p hp
    exact hpanic p (afterTurn_eq_aborted.mp hp)

theorem OnBudget.turned (P : Platform U D) (h : OnBudget c cycles s) (i : ParkInput)
    (hfits : c.vtscStart.toNat + cycles.toNat < 2 ^ 64)
    (hsmall : c.maxJumpCycles.isSome = true → cycles.toNat < 2 ^ 63) (hmode : s.mode = .parked)
    (hsteady : s.machine.Steady c.vtscStart i.hostTsc)
    (hjump : c.vtscStart ≤ s.machine.vtsc i.jumpTsc) : OnBudget c cycles (s.turned P i) := by
  have hdue := horizonDue_iff h.horizon hfits hsteady.ahead
  have hlive : s.mode ≠ .stopped .horizon := by simp [hmode]
  rcases hrun : (parkTurn P i).run s.machine with ⟨res, m'⟩
  have hs : s.turned P i =
      ⟨m', Mode.afterTurn res, s.turns ++ [⟨s.machine, i, res, m'⟩]⟩ := by
    rw [RunState.turned, hrun]
  have htaken : TurnRecord.Taken P ⟨s.machine, i, res, m'⟩ := hrun
  rw [hs]
  rcases htaken.cases with ⟨ff, hff, hturn⟩ | ⟨hff, hturn⟩
  · replace hturn : FfTurn ff i s.machine res m' := hturn
    replace hff : s.machine.ff = some ff := hff
    cases hturn with
    | pollFailed hframe =>
      exact h.abort hlive hframe.horizon (by rw [hframe.ff]) hframe.serviced rfl (by simp)
    | ended hend hclock hserviced => exact h.ended hlive hdue hsteady.rearms hend hclock hserviced
    | @advanced m₁ _ _ hatt hadv =>
      have hff₁ : m₁.ff.isSome = true := by rw [hatt.ff, hff]; rfl
      obtain ⟨hhor, hserviced, hsome, hres⟩ := advanced_keeps hff₁ hadv
      refine h.attended hlive hdue hatt hhor hserviced hsome hres ?_
      intro p hp
      rw [hp] at hadv
      have hcycles : cycles.toNat < 2 ^ 63 := hsmall (by rw [← h.ff, hff]; rfl)
      exact advanced_excused (hatt.horizon.trans h.horizon) hfits hcycles
        (hatt.toSameClock.vtsc i.jumpTsc ▸ hjump) hadv
  · replace hturn : RealTurn i s.machine res m' := hturn
    cases hturn with
    | ended hend hclock hserviced => exact h.ended hlive hdue hsteady.rearms hend hclock hserviced
    | waited hatt hframe | parkFailed hatt hframe =>
      exact h.attended hlive hdue hatt hframe.horizon hframe.serviced (by rw [hframe.ff])
        (by simp) (by simp)

end Steps

/-! ## Runs -/

section Runs

variable (P : Platform U D) (c : Config U D) {cycles : UInt64}

theorem onBudget_init (hb : c.budget = some cycles) : OnBudget c cycles c.init := by
  refine ⟨?_, ?_, .inr ⟨by simp [Config.init], ?_⟩, ?_⟩
  · simp [Config.init, Config.machine, Config.horizon, hb]
  · simp [Config.init, Config.machine]
  · intro x hx
    simp [Config.init, Config.machine] at hx
  · intro p hp
    simp [Config.init] at hp

theorem onBudget_step (hfits : c.vtscStart.toNat + cycles.toNat < 2 ^ 64)
    (hsmall : c.maxJumpCycles.isSome = true → cycles.toNat < 2 ^ 63) {s : RunState U D}
    (h : OnBudget c cycles s) (i : Input) (hsteady : s.Steady c.vtscStart i) :
    OnBudget c cycles (s.step P i) := by
  cases i with
  | loop i =>
    by_cases hmode : s.mode = .running
    · simp only [RunState.step, if_pos hmode]
      exact h.looped P i hfits hmode (hsteady hmode)
    · simpa only [RunState.step, if_neg hmode] using h
  | park i =>
    by_cases hmode : s.mode = .parked
    · simp only [RunState.step, if_pos hmode]
      exact h.turned P i hfits hsmall hmode (hsteady hmode).1 (hsteady hmode).2
    · simpa only [RunState.step, if_neg hmode] using h

/-- In every run whose steps all meet the condition, a budget that does not wrap the
clock and, with fast-forward on, fits an `i64` is kept in every state. -/
theorem budget_kept (hb : c.budget = some cycles)
    (hfits : c.vtscStart.toNat + cycles.toNat < 2 ^ 64)
    (hsmall : c.maxJumpCycles.isSome = true → cycles.toNat < 2 ^ 63) (is : List Input)
    (hsteady : SteadyRun P c.vtscStart c.init is) :
    (run P c is).KeepsBudget c.vtscStart cycles := by
  have hrun : ∀ is s, OnBudget c cycles s → SteadyRun P c.vtscStart s is →
      OnBudget c cycles (is.foldl (RunState.step P) s) := by
    intro is
    induction is with
    | nil => exact fun s h _ => h
    | cons i is ih =>
      rintro s h ⟨hi, his⟩
      exact ih _ (onBudget_step P c hfits hsmall h i hi) his
  exact (hrun is c.init (onBudget_init c hb) hsteady).keepsBudget

end Runs

/-- A budget of 500 cycles with fast-forward on: the guest halts, the park jumps to
the horizon, and the next boundary stops the run. -/
def budgetRun : List Input := [halt 0, .park (.bare 10 20), .park (.bare 30 30)]

theorem budget_kept_budgetRun :
    let s := run Platform.bare (.bare 0 false (some 1000) (some 500)) budgetRun
    s.mode = .stopped .horizon ∧ s.machine.serviced = [0, 10, 510] ∧ s.KeepsBudget 0 500 := by
  intro s
  refine ⟨by decide +kernel, by decide +kernel, ?_⟩
  have hsteady : SteadyRun Platform.bare 0 (Config.bare 0 false (some 1000) (some 500)).init
      budgetRun := by
    refine ⟨fun _ => ⟨?_, ?_⟩, fun _ => ⟨⟨?_, ?_⟩, ?_⟩, fun _ => ⟨⟨?_, ?_⟩, ?_⟩, trivial⟩
    all_goals decide +kernel
  exact budget_kept Platform.bare (.bare 0 false (some 1000) (some 500)) rfl (by decide)
    (fun _ => by decide) budgetRun hsteady

/-- Two budgets that are not kept, one too large for the clock and one for a jump. -/
theorem budget_broken :
    ¬ (run Platform.bare (.bare 1000 false none (some (2 ^ 64 - 1))) [halt 1000]).KeepsBudget
        1000 (2 ^ 64 - 1) ∧
      ¬ (run Platform.bare (.bare 0 false (some 1000) (some 12000000000000000000))
          [halt 0, .park (.bare 0 0)]).KeepsBudget 0 12000000000000000000 := by
  constructor
  · -- the horizon wraps to just below the start: the run stops with no cycle spent
    intro hkeeps
    obtain ⟨pre, now, hserviced, hreached⟩ := hkeeps.notBefore (by decide +kernel)
    have hone : (run Platform.bare (.bare 1000 false none (some (2 ^ 64 - 1)))
        [halt 1000]).machine.serviced = [] ++ [1000] := by decide +kernel
    rw [hone] at hserviced
    have hnow : now = 1000 := by
      have hlast := (List.append_inj' hserviced rfl).2
      simpa using hlast.symm
    rw [hnow] at hreached
    have hzero : ¬ ((2 ^ 64 - 1 : UInt64) ≤ 1000 - 1000) := by decide +kernel
    exact hzero hreached
  · -- the horizon is further ahead than an `i64` can say: the jump trips the assert
    intro hkeeps
    have hexcused := hkeeps.noPanic (.negativeAdvance (-6446744073709551616)) (by decide +kernel)
    exact hexcused (by decide +kernel)

end Tdvmm.Vmm
