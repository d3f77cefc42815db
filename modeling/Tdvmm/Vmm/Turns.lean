import Tdvmm.Vmm.Run

/-!
# Vmm.Turns — what one turn of a park can do

The results about the parks are all about what one turn does to the clock, the timers and the
egress state. `serviceTimers_spec` is the boundary: which timer fires, whether the horizon does,
and which deadline is left at the head of the queue. `Attended` is what holds when a turn has
done its boundary and its pumps and found nothing to return for. `Jumped` lists the ends of a
jump and `Advanced` those of an attended turn with fast-forward on.
-/

namespace Tdvmm.Vmm

open Lib Lib.Eff Proto Egress

variable {U D : Type}

/-! ## The timer service -/

/-- A deadline that is not due at `now`. -/
def ahead (now : UInt64) (deadline : Option UInt64) : Option UInt64 :=
  deadline.filter (now < ·)

variable {d now : UInt64} {l l' lapic : Lapic}

theorem ahead_of_le (h : d ≤ now) : ahead now (some d) = none := by
  simp [ahead, Option.filter, UInt64.not_lt.mpr h]

theorem ahead_of_lt (h : now < d) : ahead now (some d) = some d := by
  simp [ahead, Option.filter, h]

@[simp] theorem ahead_none (now : UInt64) : ahead now none = none := rfl

@[simp] theorem minDeadline_none_right (a : Option UInt64) : minDeadline a none = a := by
  cases a <;> rfl

@[simp] theorem minDeadline_none_left (b : Option UInt64) : minDeadline none b = b := by
  cases b <;> rfl

theorem mirror_heap (events : EventQueue TimerKind) (d h : UInt64) :
    (h ≤ d ∧ ((events.clear.push d .lapicDeadline).push h .stopRun).heap =
        [⟨h, .stopRun, events.nextSeq + 1⟩, ⟨d, .lapicDeadline, events.nextSeq⟩]) ∨
      (d ≤ h ∧ ((events.clear.push d .lapicDeadline).push h .stopRun).heap =
        [⟨d, .lapicDeadline, events.nextSeq⟩, ⟨h, .stopRun, events.nextSeq + 1⟩]) := by
  by_cases hfirst : Event.before (T := TimerKind) ⟨h, .stopRun, events.nextSeq + 1⟩
      ⟨d, .lapicDeadline, events.nextSeq⟩
  · refine .inl ⟨?_, ?_⟩
    · rcases hfirst with hlt | ⟨heq, -⟩
      · exact UInt64.le_of_lt hlt
      · exact UInt64.le_of_eq heq
    · simp [EventQueue.push, EventQueue.clear, hfirst]
  · refine .inr ⟨UInt64.not_lt.mp fun hlt => hfirst (.inl hlt), ?_⟩
    simp [EventQueue.push, EventQueue.clear, List.orderedInsert, hfirst]

section Drain

variable {now : UInt64} {fuel : Nat} {fired : Bool} {lapic : Lapic}
  {events : EventQueue TimerKind} {e : Event TimerKind} {es : List (Event TimerKind)}

theorem drainDue_nil (h : events.heap = []) :
    drainDue now fuel fired lapic events = .ok (fired, lapic, events) := by
  cases fuel with
  | zero => rfl
  | succ fuel => simp [drainDue, EventQueue.popDue, h]

theorem drainDue_ahead (h : events.heap = e :: es) (hlt : now < e.deadline) :
    drainDue now fuel fired lapic events = .ok (fired, lapic, events) := by
  cases fuel with
  | zero => rfl
  | succ fuel => simp [drainDue, EventQueue.popDue, h, UInt64.not_le.mpr hlt]

theorem drainDue_stopRun (h : events.heap = e :: es) (hdue : e.deadline ≤ now)
    (hkind : e.payload = .stopRun) :
    drainDue now (fuel + 1) fired lapic events = drainDue now fuel true lapic events.pop := by
  simp [drainDue, EventQueue.popDue, h, hdue, hkind]

theorem drainDue_lapic (h : events.heap = e :: es) (hdue : e.deadline ≤ now)
    (hkind : e.payload = .lapicDeadline) :
    drainDue now (fuel + 1) fired lapic events =
      match lapic.fireTimerIfDue now with
      | some (_, lapic) => drainDue now fuel fired lapic events.pop
      | none => .error .stuck := by
  -- a due LAPIC deadline fires the timer, unless the re-arm loop never ends
  cases hfire : lapic.fireTimerIfDue now with
  | none => simp [drainDue, EventQueue.popDue, h, hdue, hkind, hfire]
  | some fired => simp [drainDue, EventQueue.popDue, h, hdue, hkind, hfire]

theorem pop_heap (h : events.heap = e :: es) : events.pop.heap = es := by
  simp [EventQueue.pop, h]

end Drain

theorem Lapic.fireTimerIfDue_ahead (hd : l.timerDeadline = some d)
    (hlt : now < d) : l.fireTimerIfDue now = some (false, l) := by
  simp [Lapic.fireTimerIfDue, hd, UInt64.not_le.mpr hlt]

theorem Lapic.fireTimerIfDue_cases {fired : Bool}
    (h : l.fireTimerIfDue now = some (fired, l')) :
    l' = l ∨ ∃ next, l' = { l with timerDeadline := next }.raiseTimer := by
  unfold fireTimerIfDue at h
  split at h
  · split_ifs at h
    · obtain ⟨next, -, heq⟩ := Option.map_eq_some_iff.mp h
      exact .inr ⟨some next, (Prod.mk.inj heq).2.symm⟩
    · exact .inr ⟨none, (Prod.mk.inj (Option.some.inj h)).2.symm⟩
    · exact .inl (Prod.mk.inj (Option.some.inj h)).2.symm
  · exact .inl (Prod.mk.inj (Option.some.inj h)).2.symm

theorem Lapic.fireTimerIfDue_tpr {fired : Bool}
    (h : l.fireTimerIfDue now = some (fired, l')) : l'.tpr = l.tpr := by
  rcases fireTimerIfDue_cases h with rfl | ⟨next, rfl⟩
  · rfl
  · exact (raiseTimer_raised _).tpr

/-- The deadline that a timer service at `now` leaves armed; the outer `none` is
the re-arm loop that never ends. -/
def Lapic.deadlineAfter (l : Lapic) (now : UInt64) : Option (Option UInt64) :=
  (l.fireTimerIfDue now).map (·.2.timerDeadline)

theorem Lapic.deadlineAfter_eq (l : Lapic) (now : UInt64) :
    l.deadlineAfter now =
      match l.timerDeadline with
      | some d =>
        if d ≤ now then if 0 < l.timerPeriod then (l.rearm d now).map some else some none
        else some (some d)
      | none => some none := by
  unfold deadlineAfter fireTimerIfDue
  rcases hd : l.timerDeadline with _ | d
  · simp [hd]
  · dsimp only
    split_ifs
    · rcases l.rearm d now with _ | next
      · rfl
      · simp
    · simp
    · simp [hd]

theorem Lapic.SameTimer.deadlineAfter (h : l.SameTimer l') (now : UInt64) :
    l'.deadlineAfter now = l.deadlineAfter now := by
  have hrearm : ∀ d, l'.rearm d now = l.rearm d now := by
    intro d
    unfold Lapic.rearm
    rw [h.period]
  simp only [Lapic.deadlineAfter_eq, h.deadline, h.period, hrearm]

theorem serviceTimers_stuck (events : EventQueue TimerKind)
    (horizon : Option UInt64) (hfire : lapic.fireTimerIfDue now = none) :
    serviceTimers lapic events horizon now = .error .stuck := by
  rcases hd : lapic.timerDeadline with _ | d
  · simp [Lapic.fireTimerIfDue, hd] at hfire
  · have hdue : d ≤ now := by
      by_contra hlt
      simp [Lapic.fireTimerIfDue_ahead hd (UInt64.not_le.mp hlt)] at hfire
    rcases horizon with _ | h
    · have hheap : (events.clear.push d TimerKind.lapicDeadline).heap =
          [⟨d, .lapicDeadline, events.nextSeq⟩] := rfl
      simp only [serviceTimers, pushDeadline, hd]
      simp only [hheap, List.length_singleton]
      rw [drainDue_lapic hheap hdue rfl, hfire]
    · simp only [serviceTimers, pushDeadline, hd]
      rcases mirror_heap events d h with ⟨hle, hheap⟩ | ⟨-, hheap⟩
      · -- The horizon comes out first, and it is due as well.
        have hh : h ≤ now := UInt64.le_trans hle hdue
        rw [hheap, List.length_cons, drainDue_stopRun hheap hh rfl, List.length_singleton,
          drainDue_lapic (pop_heap hheap) hdue rfl, hfire]
      · rw [hheap, List.length_cons, drainDue_lapic hheap hdue rfl, hfire]

theorem drainDue_horizon (now : UInt64) {h seq : UInt64} (fuel : Nat) (fired : Bool)
    (lapic : Lapic) {events : EventQueue TimerKind} (hheap : events.heap = [⟨h, .stopRun, seq⟩]) :
    ∃ q, drainDue now (fuel + 1) fired lapic events = .ok (fired || h ≤ now, lapic, q) ∧
      q.peekDeadline = ahead now (some h) := by
  by_cases hdue : h ≤ now
  · refine ⟨events.pop, ?_, ?_⟩
    · rw [drainDue_stopRun hheap hdue rfl, drainDue_nil (pop_heap hheap)]
      simp [hdue]
    · simp [EventQueue.peekDeadline, pop_heap hheap, ahead_of_le hdue]
  · have hlt := UInt64.not_le.mp hdue
    refine ⟨events, ?_, ?_⟩
    · rw [drainDue_ahead hheap hlt]
      simp [hdue]
    · simp [EventQueue.peekDeadline, hheap, ahead_of_lt hlt]

theorem drainDue_timer {seq : UInt64} (fuel : Nat) (fired : Bool)
    {lapic' : Lapic} {b : Bool} {events : EventQueue TimerKind}
    (hheap : events.heap = [⟨d, .lapicDeadline, seq⟩]) (hd : lapic.timerDeadline = some d)
    (hfire : lapic.fireTimerIfDue now = some (b, lapic')) :
    ∃ q, drainDue now (fuel + 1) fired lapic events = .ok (fired, lapic', q) ∧
      q.peekDeadline = ahead now (some d) := by
  by_cases hdue : d ≤ now
  · refine ⟨events.pop, ?_, ?_⟩
    · rw [drainDue_lapic hheap hdue rfl, hfire]
      exact drainDue_nil (pop_heap hheap)
    · simp [EventQueue.peekDeadline, pop_heap hheap, ahead_of_le hdue]
  · have hlt := UInt64.not_le.mp hdue
    have hkeep : lapic' = lapic := by
      rw [Lapic.fireTimerIfDue_ahead hd hlt] at hfire
      simpa using (congrArg Prod.snd (Option.some.inj hfire)).symm
    refine ⟨events, ?_, ?_⟩
    · rw [drainDue_ahead hheap hlt, hkeep]
    · simp [EventQueue.peekDeadline, hheap, ahead_of_lt hlt]

/-- The timer service: the timer has fired if it was due, the answer says whether
the horizon is due, and the queue is left with what is not. -/
theorem serviceTimers_spec {lapic' : Lapic} {b : Bool}
    (events : EventQueue TimerKind) (horizon : Option UInt64)
    (hfire : lapic.fireTimerIfDue now = some (b, lapic')) :
    ∃ q, serviceTimers lapic events horizon now = .ok (horizon.any (· ≤ now), lapic', q) ∧
      q.peekDeadline = minDeadline (ahead now lapic.timerDeadline) (ahead now horizon) := by
  rcases hd : lapic.timerDeadline with _ | d
  · -- Nothing is armed, so nothing fires.
    have hkeep : lapic' = lapic := by
      simp only [Lapic.fireTimerIfDue, hd] at hfire
      simpa using (congrArg Prod.snd (Option.some.inj hfire)).symm
    rcases horizon with _ | h
    · exact ⟨events.clear, by simp [serviceTimers, pushDeadline, hd, hkeep, EventQueue.clear,
        drainDue], rfl⟩
    · have hheap : (events.clear.push h TimerKind.stopRun).heap =
          [⟨h, .stopRun, events.nextSeq⟩] := rfl
      obtain ⟨q, hdrain, hpeek⟩ := drainDue_horizon now 0 false lapic hheap
      refine ⟨q, ?_, ?_⟩
      · simp only [serviceTimers, pushDeadline, hd, hheap, List.length_singleton]
        simpa [hkeep] using hdrain
      · simpa using hpeek
  · rcases horizon with _ | h
    · have hheap : (events.clear.push d TimerKind.lapicDeadline).heap =
          [⟨d, .lapicDeadline, events.nextSeq⟩] := rfl
      obtain ⟨q, hdrain, hpeek⟩ := drainDue_timer 0 false hheap hd hfire
      refine ⟨q, ?_, ?_⟩
      · simp only [serviceTimers, pushDeadline, hd, hheap, List.length_singleton]
        simpa using hdrain
      · simpa using hpeek
    · -- Both are queued, and the earlier one is popped first.
      simp only [serviceTimers, pushDeadline, hd]
      rcases mirror_heap events d h with ⟨hle, hheap⟩ | ⟨hle, hheap⟩
      · rw [hheap, List.length_cons, List.length_singleton]
        by_cases hh : h ≤ now
        · rw [drainDue_stopRun hheap hh rfl]
          obtain ⟨q, hdrain, hpeek⟩ := drainDue_timer 0 true (pop_heap hheap) hd hfire
          exact ⟨q, by simpa [hh] using hdrain, by simpa [ahead_of_le hh] using hpeek⟩
        · -- The horizon is the earlier one and ahead: nothing is due.
          have hahead := UInt64.not_le.mp hh
          have hdn : now < d := UInt64.lt_of_lt_of_le hahead hle
          rw [Lapic.fireTimerIfDue_ahead hd hdn] at hfire
          obtain ⟨-, rfl⟩ := Prod.mk.inj (Option.some.inj hfire)
          have hany : (some h).any (· ≤ now) = false := by simp [hh]
          rw [drainDue_ahead hheap hahead, hany]
          refine ⟨_, rfl, ?_⟩
          simp only [EventQueue.peekDeadline, hheap, ahead_of_lt hahead, ahead_of_lt hdn,
            minDeadline, List.head?_cons, Option.map_some]
          split_ifs with hge
          · rw [UInt64.le_antisymm hle hge]
          · rfl
      · rw [hheap, List.length_cons, List.length_singleton]
        by_cases hdue : d ≤ now
        · rw [drainDue_lapic hheap hdue rfl, hfire]
          obtain ⟨q, hdrain, hpeek⟩ := drainDue_horizon now 0 false lapic' (pop_heap hheap)
          exact ⟨q, by simpa using hdrain, by simpa [ahead_of_le hdue] using hpeek⟩
        · have hdn := UInt64.not_le.mp hdue
          have hahead : now < h := UInt64.lt_of_lt_of_le hdn hle
          rw [Lapic.fireTimerIfDue_ahead hd hdn] at hfire
          obtain ⟨-, rfl⟩ := Prod.mk.inj (Option.some.inj hfire)
          have hany : (some h).any (· ≤ now) = false := by simp [UInt64.not_le.mpr hahead]
          rw [drainDue_ahead hheap hdn, hany]
          refine ⟨_, rfl, ?_⟩
          simp [EventQueue.peekDeadline, hheap, ahead_of_lt hahead, ahead_of_lt hdn, minDeadline,
            hle]

/-! ## Frames -/

/-- The clock and what the run was configured with are as they were. -/
structure Machine.SameClock (m m' : Machine U D) : Prop where
  tsc : m'.tsc = m.tsc
  clock : m'.clock = m.clock
  horizon : m'.horizon = m.horizon
  ff : m'.ff = m.ff
  vtscStart : m'.vtscStart = m.vtscStart

def Machine.offset (m : Machine U D) : Int := (m.clock.tscOffset m.tsc).toInt

/-- A step of the devices: beyond the clock, the event queue is as it was, the LAPIC
has at most been raised, and no timer service was done. -/
structure Machine.Frame (m m' : Machine U D) : Prop extends m.SameClock m' where
  events : m'.events = m.events
  raised : m.lapic.Raised m'.lapic
  serviced : m'.serviced = m.serviced

namespace Machine

variable {m m' m'' : Machine U D}

theorem SameClock.refl (m : Machine U D) : m.SameClock m := ⟨rfl, rfl, rfl, rfl, rfl⟩

theorem SameClock.trans (h : m.SameClock m') (h' : m'.SameClock m'') : m.SameClock m'' :=
  ⟨h'.tsc.trans h.tsc, h'.clock.trans h.clock, h'.horizon.trans h.horizon, h'.ff.trans h.ff,
    h'.vtscStart.trans h.vtscStart⟩

theorem Frame.refl (m : Machine U D) : m.Frame m :=
  ⟨SameClock.refl m, rfl, Lapic.Raised.refl _, rfl⟩

theorem Frame.trans (h : m.Frame m') (h' : m'.Frame m'') : m.Frame m'' :=
  ⟨h.toSameClock.trans h'.toSameClock, h'.events.trans h.events, h.raised.trans h'.raised,
    h'.serviced.trans h.serviced⟩

theorem Frame.timer (h : m.Frame m') : m.lapic.SameTimer m'.lapic := h.raised.sameTimer

theorem SameClock.vtsc (h : m.SameClock m') (hostTsc : UInt64) :
    m'.vtsc hostTsc = m.vtsc hostTsc := by
  rw [Machine.vtsc, Machine.vtsc, h.tsc, h.clock]

theorem SameClock.offset (h : m.SameClock m') : m'.offset = m.offset := by
  rw [Machine.offset, Machine.offset, h.tsc, h.clock]

end Machine

section Steps

variable (P : Platform U D)

theorem serviceConsoleInput_frame (r : ConsoleRead) (m : Machine U D) :
    m.Frame (serviceConsoleInput P r m) := by
  cases r with
  | data first rest =>
    exact ⟨⟨rfl, rfl, rfl, rfl, rfl⟩, rfl, Serial.afterIo_raised _ _ _ _, rfl⟩
  | eof => exact ⟨⟨rfl, rfl, rfl, rfl, rfl⟩, rfl, Lapic.Raised.refl _, rfl⟩
  | again => exact Machine.Frame.refl m

theorem serviceConsoleInput_egress (r : ConsoleRead) (m : Machine U D) :
    (serviceConsoleInput P r m).egress = m.egress := by
  cases r <;> rfl

theorem com2Pump_frame (m : Machine U D) : m.Frame (com2Pump P m) :=
  ⟨⟨rfl, rfl, rfl, rfl, rfl⟩, rfl, ControlChannel.pump_raised _ _ _ _, rfl⟩

theorem run_agentLines (lineTsc : Nat → UInt64) (m : Machine U D) :
    ∃ finished m', (agentLines P lineTsc).run m = (.ok finished, m') ∧ m.Frame m' :=
  ⟨_, _, rfl, ⟨rfl, rfl, rfl, rfl, rfl⟩, rfl, Lapic.Raised.refl _, rfl⟩

theorem run_egressPump (env : Env) (m : Machine U D) :
    ∃ res m', (egressPump P env).run m = (res, m') ∧ m.Frame m' ∧
      (∀ eg, m'.egress = some eg → eg.serial.tx = []) ∧
      (∀ e, res = .error e → ∃ x, e = .egress x) := by
  rcases heg : m.egress with _ | eg
  · refine ⟨.ok (), m, ?_, Machine.Frame.refl m, ?_, ?_⟩
    · simp [egressPump, heg]
    · intro eg h
      rw [heg] at h
      contradiction
    · intro e h
      contradiction
  · rcases hpump : eg.pump P.uart env m.lapic m.ioapic with ⟨res, eg', lapic'⟩
    have htx := EgressChannel.pump_tx P.uart env eg m.lapic m.ioapic
    have hraised := EgressChannel.pump_raised P.uart env eg m.lapic m.ioapic
    rw [hpump] at htx hraised
    refine ⟨match res with | .ok () => .ok () | .error e => .error (.egress e),
      { m with egress := some eg', lapic := lapic' }, ?_, ?_, ?_, ?_⟩
    · cases res <;> simp [egressPump, heg, hpump]
    · exact ⟨⟨rfl, rfl, rfl, rfl, rfl⟩, rfl, hraised, rfl⟩
    · intro x hx
      rw [← Option.some.inj hx]
      exact htx
    · intro e he
      cases res with
      | ok => contradiction
      | error x => exact ⟨x, by simpa using he.symm⟩

theorem run_parkFor (timeout : Option UInt64) (i : ParkInput) (m : Machine U D) :
    ∃ res m', (parkFor P timeout i).run m = (res, m') ∧ m.Frame m' ∧ m'.egress = m.egress ∧
      (res = .ok () ∨ res = .error .parkFailed) := by
  by_cases hzero : timeout = some 0
  · exact ⟨.ok (), m, by simp [parkFor, hzero], Machine.Frame.refl m, rfl, .inl rfl⟩
  · rcases hwake : i.wake with _ | input
    · exact ⟨.error .parkFailed, m, by simp [parkFor, hzero, hwake], Machine.Frame.refl m, rfl,
        .inr rfl⟩
    · by_cases hin : input = true ∧ m.stdinOpen = true
      · exact ⟨.ok (), serviceConsoleInput P i.wakeConsole m, by simp [parkFor, hzero, hwake, hin],
          serviceConsoleInput_frame P _ m, serviceConsoleInput_egress P _ m, .inl rfl⟩
      · exact ⟨.ok (), m, by simp [parkFor, hzero, hwake, hin], Machine.Frame.refl m, rfl, .inl rfl⟩

theorem run_stdinFirst (i : ParkInput) (m : Machine U D) :
    ∃ res m', (stdinFirst P i).run m = (res, m') ∧ m.Frame m' ∧ m'.egress = m.egress ∧
      (res = .ok () ∨ res = .error .pollFailed) := by
  by_cases hopen : m.stdinOpen = true
  · rcases hready : i.stdinReady with _ | ready
    · exact ⟨.error .pollFailed, m, by simp [stdinFirst, hopen, hready], Machine.Frame.refl m, rfl,
        .inr rfl⟩
    · cases ready with
      | true =>
        exact ⟨.ok (), serviceConsoleInput P i.console m, by simp [stdinFirst, hopen, hready],
          serviceConsoleInput_frame P _ m, serviceConsoleInput_egress P _ m, .inl rfl⟩
      | false =>
        exact ⟨.ok (), m, by simp [stdinFirst, hready], Machine.Frame.refl m, rfl, .inl rfl⟩
  · exact ⟨.ok (), m, by simp [stdinFirst, hopen], Machine.Frame.refl m, rfl, .inl rfl⟩

end Steps

/-! ## The boundary -/

def Machine.horizonDue (m : Machine U D) (now : UInt64) : Bool := m.horizon.any (· ≤ now)

theorem run_boundary_eq (hostTsc : UInt64) (m : Machine U D) :
    (boundary hostTsc).run m =
      (storeTimers (serviceTimers m.lapic m.events m.horizon (m.vtsc hostTsc))).run
        { m with serviced := m.serviced ++ [m.vtsc hostTsc] } := rfl

/-- A boundary ends in its timer service: it is stuck in the re-arm loop, or the
timer has fired and the answer is whether the horizon is due. -/
theorem run_boundary {hostTsc : UInt64} {m : Machine U D} (hnow : m.vtsc hostTsc = now) :
    (m.lapic.deadlineAfter now = none ∧
        (boundary hostTsc).run m =
          (.error .stuck, { m with serviced := m.serviced ++ [now] })) ∨
      ∃ fired lapic q, m.lapic.fireTimerIfDue now = some (fired, lapic) ∧
        (boundary hostTsc).run m = (.ok (m.horizonDue now),
          { m with serviced := m.serviced ++ [now], lapic := lapic, events := q }) ∧
        q.peekDeadline = minDeadline (ahead now m.lapic.timerDeadline) (ahead now m.horizon) := by
  subst hnow
  unfold Lapic.deadlineAfter
  rcases hfire : m.lapic.fireTimerIfDue (m.vtsc hostTsc) with _ | ⟨b, lapic⟩
  · refine .inl ⟨rfl, ?_⟩
    rw [run_boundary_eq, serviceTimers_stuck m.events m.horizon hfire]
    rfl
  · obtain ⟨q, hserve, hpeek⟩ := serviceTimers_spec m.events m.horizon hfire
    refine .inr ⟨b, lapic, q, rfl, ?_, hpeek⟩
    rw [run_boundary_eq, hserve]
    rfl

/-- A turn that has done its boundary and its pumps and goes on: `now` is the vtsc
of the boundary. -/
structure Attended (now : UInt64) (m m' : Machine U D) : Prop extends m.SameClock m' where
  serviced : m'.serviced = m.serviced ++ [now]
  /-- The horizon is ahead. -/
  early : m.horizonDue now = false
  /-- The capture buffer is empty. -/
  captured : ∀ eg, m'.egress = some eg → eg.serial.tx = []
  /-- The timer has fired if it was due. -/
  timer : m.lapic.deadlineAfter now = some m'.lapic.timerDeadline
  priority : m'.lapic.tpr = m.lapic.tpr
  /-- The queue holds what was not due before the timer fired. -/
  queue : m'.events.peekDeadline =
    minDeadline (ahead now m.lapic.timerDeadline) (ahead now m.horizon)

/-- The ways a turn ends in its boundary or its pumps. It returns for the horizon
exactly when that is due. -/
inductive EndsEarly (now : UInt64) (m : Machine U D) : Except Abort ParkOutcome → Prop where
  | stuck (h : m.lapic.deadlineAfter now = none) : EndsEarly now m (.error .stuck)
  | horizon (h : m.horizonDue now = true) : EndsEarly now m (.ok .horizon)
  | egress (x : EgressError) (h : m.horizonDue now = false) : EndsEarly now m (.error (.egress x))
  | returned (o : ParkOutcome) (h : m.horizonDue now = false) (ho : o ≠ .horizon) :
      EndsEarly now m (.ok o)

section Attend

variable (P : Platform U D) (i : ParkInput)

/-- `attend` up to the question whether a vector is deliverable. -/
def attendTo : VmmM U D (Option ParkOutcome) := do
  if ← boundary i.hostTsc then return some .horizon
  else if ← agentLines P i.lineTsc then return some .driverFinish
  else do
    egressPump P i.env
    return none

theorem attend_eq :
    attend P i = (do
      match ← attendTo P i with
      | some o => return some o
      | none => do
        let m ← Eff.read
        return if m.lapic.deliverableVector.isSome then some .deliverable else none) := by
  unfold attend attendTo
  simp only [bind_assoc]
  refine bind_congr fun horizon => ?_
  cases horizon with
  | true => simp
  | false =>
    simp only [Bool.false_eq_true, if_false, bind_assoc]
    refine bind_congr fun finished => ?_
    cases finished <;> simp

/-- What `attendTo` does: it ends the turn, with the clock untouched, or the turn goes
on `Attended`. -/
theorem run_attendTo {now : UInt64} {m : Machine U D} (hnow : m.vtsc i.hostTsc = now) :
    (∃ r m', (attendTo P i).run m = (r.map some, m') ∧ EndsEarly now m r ∧ m.SameClock m' ∧
        m'.serviced = m.serviced ++ [now]) ∨
      ∃ m', (attendTo P i).run m = (.ok none, m') ∧ Attended now m m' := by
  rcases run_boundary hnow with ⟨hstuck, hrun⟩ | ⟨fired, lapic, q, hfire, hrun, hpeek⟩
  · refine .inl ⟨_, { m with serviced := m.serviced ++ [now] }, ?_, .stuck hstuck,
      ⟨rfl, rfl, rfl, rfl, rfl⟩, rfl⟩
    rw [attendTo, run_bind_error hrun]
    rfl
  · -- The state the boundary leaves; the devices only move it within a frame.
    let m₁ : Machine U D :=
      { m with serviced := m.serviced ++ [now], lapic := lapic, events := q }
    have hclock : m.SameClock m₁ := ⟨rfl, rfl, rfl, rfl, rfl⟩
    rw [attendTo, run_bind_ok hrun]
    by_cases hdue : m.horizonDue now = true
    · -- the horizon ends the turn before the devices are looked at
      refine .inl ⟨_, m₁, ?_, .horizon hdue, hclock, rfl⟩
      simp [hdue, m₁, Except.map]
    · have hearly : m.horizonDue now = false := by simpa using hdue
      simp only [hearly, Bool.false_eq_true, if_false]
      obtain ⟨finished, m₂, hagent, hframe₂⟩ := run_agentLines P i.lineTsc m₁
      rw [run_bind_ok hagent]
      cases finished with
      | true =>
        refine .inl ⟨_, m₂, ?_, .returned .driverFinish hearly (by decide),
          hclock.trans hframe₂.toSameClock, hframe₂.serviced⟩
        simp [Except.map]
      | false =>
        obtain ⟨res, m₃, hpump, hframe₃, htx, herr⟩ := run_egressPump P i.env m₂
        have hframe : m₁.Frame m₃ := hframe₂.trans hframe₃
        simp only [Bool.false_eq_true, if_false]
        cases res with
        | error e =>
          obtain ⟨x, rfl⟩ := herr e rfl
          refine .inl ⟨_, m₃, ?_, .egress x hearly, hclock.trans hframe.toSameClock,
            hframe.serviced⟩
          rw [run_bind_error hpump]
          rfl
        | ok u =>
          rw [run_bind_ok hpump]
          refine .inr ⟨m₃, rfl, hclock.trans hframe.toSameClock, hframe.serviced, hearly, htx,
            ?_, ?_, ?_⟩
          · rw [hframe.timer.deadline, Lapic.deadlineAfter, hfire]
            rfl
          · rw [hframe.raised.tpr]
            exact Lapic.fireTimerIfDue_tpr hfire
          · rw [hframe.events]
            exact hpeek

theorem run_attend {now : UInt64} {m : Machine U D} (hnow : m.vtsc i.hostTsc = now) :
    (∃ r m', (attend P i).run m = (r.map some, m') ∧ EndsEarly now m r ∧ m.SameClock m' ∧
        m'.serviced = m.serviced ++ [now]) ∨
      ∃ m', (attend P i).run m = (.ok none, m') ∧ Attended now m m' := by
  rw [attend_eq]
  rcases run_attendTo P i hnow with ⟨r, m', hrun, hend, hclock, hserviced⟩ | ⟨m', hrun, hatt⟩
  · refine .inl ⟨r, m', ?_, hend, hclock, hserviced⟩
    cases r with
    | error e => exact run_bind_error hrun
    | ok o => exact run_bind_ok hrun
  · rw [run_bind_ok hrun]
    by_cases hvec : m'.lapic.deliverableVector.isSome = true
    · refine .inl ⟨_, m', ?_, .returned .deliverable hatt.early (by decide), hatt.toSameClock,
        hatt.serviced⟩
      simp [hvec, Except.map]
    · exact .inr ⟨m', by simp [hvec], hatt⟩

end Attend

/-! ## Waiting and jumping -/

/-- The ends of a jump to `next`. Only `jumped` moves the clock, and it comes after
the bound, the phase-gate assert and the bump. -/
inductive Jumped (ff : FfState) (i : ParkInput) (m : Machine U D) (next : UInt64) :
    Except Abort Turn → Machine U D → Prop where
  | due (hle : next ≤ m.vtsc i.jumpTsc) : Jumped ff i m next (.ok .due) m
  | tooLong (hlater : m.vtsc i.jumpTsc < next) (hhor : m.horizon ≠ some next)
      (hbig : ff.maxJumpCycles < m.delta i next) :
      Jumped ff i m next (.error (.jumpTooLong (m.delta i next))) m
  | breached (hlater : m.vtsc i.jumpTsc < next) (hillegal : m.jumpLegal = false) :
      Jumped ff i m next (.error (.panicked .gateBreached)) m
  | negative (hlater : m.vtsc i.jumpTsc < next) (hlegal : m.jumpLegal = true)
      (hbound : m.horizon = some next ∨ m.delta i next ≤ ff.maxJumpCycles)
      (hbig : 2 ^ 63 ≤ (m.delta i next).toNat) :
      Jumped ff i m next (.error (.panicked (.negativeAdvance (m.delta i next).toInt64))) m
  | fault {fault : BumpFault} (hlater : m.vtsc i.jumpTsc < next) (hlegal : m.jumpLegal = true)
      (hsmall : (m.delta i next).toNat < 2 ^ 63) (hfault : ∀ d, fault ≠ .negative d)
      (hrefused : m.clock.Accepts i.kvm (m.delta i next).toInt64 m.tsc = false) :
      Jumped ff i m next (.error (.vtsc fault)) m
  | jumped {tsc : Tsc} (hlater : m.vtsc i.jumpTsc < next) (hlegal : m.jumpLegal = true)
      (hbound : m.horizon = some next ∨ m.delta i next ≤ ff.maxJumpCycles)
      (hsmall : (m.delta i next).toNat < 2 ^ 63)
      (hbump : m.clock.Bumped (m.delta i next) m.tsc tsc) :
      Jumped ff i m next (.ok (.jumped next))
        { m with tsc := tsc, ff := some (ff.recordHop (m.delta i next)) }

/-- The ends of an attended fast-forward turn. -/
inductive Advanced (ff : FfState) (i : ParkInput) (m : Machine U D) :
    Except Abort Turn → Machine U D → Prop where
  | gated {m' : Machine U D} (hgate : m.gated = true) (hframe : m.Frame m') :
      Advanced ff i m (.ok (.waited (m.timeoutNs i.waitTsc))) m'
  | idle {m' : Machine U D} (hgate : m.gated = false) (hpeek : m.events.peekDeadline = none)
      (hframe : m.Frame m') : Advanced ff i m (.ok (.waited none)) m'
  | parkFailed {m' : Machine U D} (hframe : m.Frame m') : Advanced ff i m (.error .parkFailed) m'
  | jump {next : UInt64} {res : Except Abort Turn} {m' : Machine U D} (hgate : m.gated = false)
      (hpeek : m.events.peekDeadline = some next) (hjump : Jumped ff i m next res m') :
      Advanced ff i m res m'

section Advance

variable (P : Platform U D) (ff : FfState) (i : ParkInput) (m : Machine U D)

theorem run_gatedWait (hgate : m.gated = true) :
    ∃ res m', (gatedWait P i).run m = (res, m') ∧ Advanced ff i m res m' := by
  obtain ⟨res, m', hpark, hframe, -, hres⟩ := run_parkFor P (m.timeoutNs i.waitTsc) i m
  rw [gatedWait, run_read_bind]
  rcases hres with rfl | rfl
  · rw [run_bind_ok hpark]
    refine ⟨_, _, rfl, .gated hgate ?_⟩
    exact ⟨⟨hframe.tsc, hframe.clock, hframe.horizon, hframe.ff, hframe.vtscStart⟩,
      hframe.events, hframe.raised, hframe.serviced⟩
  · rw [run_bind_error hpark]
    exact ⟨_, m', rfl, .parkFailed hframe⟩

theorem vtsc_landed {i : ParkInput} {m : Machine U D} {next : UInt64} {tsc : Tsc}
    (hbump : m.clock.Bumped (m.delta i next) m.tsc tsc) :
    { m with tsc := tsc }.vtsc i.jumpTsc = next := by
  -- after a bump the clock stands exactly at the target: the landing assert cannot trip
  have hland := VirtualClock.vtscFromHost_bumped hbump rfl i.jumpTsc
  have hsum : m.vtsc i.jumpTsc + (next - m.vtsc i.jumpTsc) = next := by
    rw [UInt64.add_comm, UInt64.sub_add_cancel]
  exact hland.trans hsum

theorem run_bump (kvm : KvmWrite) (delta : UInt64) :
    (bump kvm delta).run m = storeBump m ((m.clock.bumpOffset kvm delta.toInt64).run m.tsc) := rfl

theorem storeBump_fault {fault : BumpFault} (h : ∀ d, fault ≠ .negative d) :
    storeBump m (.error fault, m.tsc) = (.error (.vtsc fault), m) := by
  cases fault with
  | negative d => exact absurd rfl (h d)
  | overflow old d => rfl
  | writeFailed => rfl

theorem run_jumpTo (next : UInt64) :
    ∃ res m', (jumpTo ff i next).run m = (res, m') ∧ Jumped ff i m next res m' := by
  rw [jumpTo, run_read_bind]
  by_cases hle : next ≤ m.vtsc i.jumpTsc
  · rw [if_pos hle]
    exact ⟨_, m, rfl, .due hle⟩
  rw [if_neg hle]
  have hlater := UInt64.not_le.mp hle
  by_cases hlong : m.horizon ≠ some next ∧ ff.maxJumpCycles < m.delta i next
  · rw [if_pos hlong]
    exact ⟨_, m, rfl, .tooLong hlater hlong.1 hlong.2⟩
  rw [if_neg hlong]
  have hbound : m.horizon = some next ∨ m.delta i next ≤ ff.maxJumpCycles := by
    rcases Classical.not_and_iff_not_or_not.mp hlong with hhor | hsmall
    · exact .inl (not_not.mp hhor)
    · exact .inr (UInt64.not_lt.mp hsmall)
  by_cases hillegal : m.jumpLegal = false
  · rw [if_pos hillegal]
    exact ⟨_, m, rfl, .breached hlater hillegal⟩
  rw [if_neg hillegal]
  have hlegal : m.jumpLegal = true := by simpa using hillegal
  rcases VirtualClock.bumpOffset_spec m.clock i.kvm (m.delta i next) m.tsc with
    ⟨hbig, hrun⟩ | ⟨hsmall, fault, hfault, hrefused, hrun⟩ | ⟨hsmall, tsc, hrun, hbump⟩
  · have hbump := run_bump m i.kvm (m.delta i next)
    rw [hrun] at hbump
    rw [run_bind_error hbump]
    exact ⟨_, m, rfl, .negative hlater hlegal hbound hbig⟩
  · have hbump := run_bump m i.kvm (m.delta i next)
    rw [hrun, storeBump_fault m hfault] at hbump
    rw [run_bind_error hbump]
    exact ⟨_, m, rfl, .fault hlater hlegal hsmall hfault hrefused⟩
  · have hrunBump := run_bump m i.kvm (m.delta i next)
    rw [hrun] at hrunBump
    rw [run_bind_ok hrunBump, land, run_read_bind]
    have hland := vtsc_landed hbump
    rw [if_neg (not_not.mpr hland)]
    exact ⟨_, _, rfl, .jumped hlater hlegal hbound hsmall hbump⟩

theorem run_advance : ∃ res m', (advance P ff i).run m = (res, m') ∧ Advanced ff i m res m' := by
  rw [advance, run_read_bind]
  by_cases hgate : m.gated = true
  · rw [if_pos hgate]
    exact run_gatedWait P ff i m hgate
  · have hopen : m.gated = false := by simpa using hgate
    rw [if_neg hgate]
    rcases hpeek : m.events.peekDeadline with _ | next
    · obtain ⟨res, m', hpark, hframe, -, hres⟩ := run_parkFor P none i m
      rcases hres with rfl | rfl
      · exact ⟨_, m', by rw [run_bind_ok hpark]; rfl, .idle hopen hpeek hframe⟩
      · exact ⟨_, m', by rw [run_bind_error hpark], .parkFailed hframe⟩
    · obtain ⟨res, m', hrun, hjump⟩ := run_jumpTo ff i m next
      exact ⟨res, m', hrun, .jump hopen hpeek hjump⟩

end Advance

/-! ## Whole turns -/

/-- What one turn of the fast-forward park can do. -/
inductive FfTurn (ff : FfState) (i : ParkInput) (m : Machine U D) :
    Except Abort Turn → Machine U D → Prop where
  | pollFailed {m' : Machine U D} (hframe : m.Frame m') : FfTurn ff i m (.error .pollFailed) m'
  | ended {r : Except Abort ParkOutcome} {m' : Machine U D}
      (hend : EndsEarly (m.vtsc i.hostTsc) m r) (hclock : m.SameClock m')
      (hserviced : m'.serviced = m.serviced ++ [m.vtsc i.hostTsc]) :
      FfTurn ff i m (r.map .returned) m'
  | advanced {m₁ m' : Machine U D} {res : Except Abort Turn}
      (hatt : Attended (m.vtsc i.hostTsc) m m₁) (hadv : Advanced ff i m₁ res m') :
      FfTurn ff i m res m'

/-- What one turn of the real-wait park can do. -/
inductive RealTurn (i : ParkInput) (m : Machine U D) : Except Abort Turn → Machine U D → Prop where
  | ended {r : Except Abort ParkOutcome} {m' : Machine U D}
      (hend : EndsEarly (m.vtsc i.hostTsc) m r) (hclock : m.SameClock m')
      (hserviced : m'.serviced = m.serviced ++ [m.vtsc i.hostTsc]) :
      RealTurn i m (r.map .returned) m'
  | waited {m₁ m' : Machine U D} (hatt : Attended (m.vtsc i.hostTsc) m m₁) (hframe : m₁.Frame m') :
      RealTurn i m (.ok (.waited (m₁.timeoutNs i.waitTsc))) m'
  | parkFailed {m₁ m' : Machine U D} (hatt : Attended (m.vtsc i.hostTsc) m m₁)
      (hframe : m₁.Frame m') : RealTurn i m (.error .parkFailed) m'

section Frames

variable {m m₀ m' : Machine U D} {now : UInt64}

theorem Machine.Frame.horizonDue (h : m.Frame m₀) : m₀.horizonDue now = m.horizonDue now := by
  rw [Machine.horizonDue, Machine.horizonDue, h.horizon]

theorem EndsEarly.of_frame {r : Except Abort ParkOutcome} (h : m.Frame m₀)
    (hend : EndsEarly now m₀ r) : EndsEarly now m r := by
  cases hend with
  | stuck hs => exact .stuck (h.timer.deadlineAfter now ▸ hs)
  | horizon hd => exact .horizon (h.horizonDue ▸ hd)
  | egress x hd => exact .egress x (h.horizonDue ▸ hd)
  | returned o hd ho => exact .returned o (h.horizonDue ▸ hd) ho

theorem Attended.of_frame (h : m.Frame m₀) (hatt : Attended now m₀ m') : Attended now m m' where
  toSameClock := h.toSameClock.trans hatt.toSameClock
  serviced := by rw [hatt.serviced, h.serviced]
  early := h.horizonDue ▸ hatt.early
  captured := hatt.captured
  timer := h.timer.deadlineAfter now ▸ hatt.timer
  priority := hatt.priority.trans h.raised.tpr
  queue := by rw [hatt.queue, h.timer.deadline, h.horizon]

end Frames

section Turns

variable (P : Platform U D) (ff : FfState) (i : ParkInput) (m : Machine U D)

theorem run_ffTurn : ∃ res m', (ffTurn P ff i).run m = (res, m') ∧ FfTurn ff i m res m' := by
  obtain ⟨res₀, m₀, hstdin, hframe, -, hres⟩ := run_stdinFirst P i m
  rcases hres with rfl | rfl
  · have hnow : m₀.vtsc i.hostTsc = m.vtsc i.hostTsc := hframe.toSameClock.vtsc i.hostTsc
    rw [ffTurn, run_bind_ok hstdin]
    rcases run_attend P i hnow with ⟨r, m', hrun, hend, hclock, hserviced⟩ | ⟨m₁, hrun, hatt⟩
    · have hturn : FfTurn ff i m (r.map .returned) m' := by
        refine .ended (hend.of_frame hframe) (hframe.toSameClock.trans hclock) ?_
        rw [hserviced, hframe.serviced]
      cases r with
      | error e =>
        rw [run_bind_error hrun]
        exact ⟨_, m', rfl, hturn⟩
      | ok o =>
        rw [run_bind_ok hrun]
        exact ⟨_, m', rfl, hturn⟩
    · rw [run_bind_ok hrun]
      obtain ⟨res, m', hrun', hadv⟩ := run_advance P ff i m₁
      exact ⟨res, m', hrun', .advanced (hatt.of_frame hframe) hadv⟩
  · rw [ffTurn, run_bind_error hstdin]
    exact ⟨_, m₀, rfl, .pollFailed hframe⟩

theorem run_realTurn : ∃ res m', (realTurn P i).run m = (res, m') ∧ RealTurn i m res m' := by
  rw [realTurn]
  rcases run_attend P i (rfl : m.vtsc i.hostTsc = _) with
    ⟨r, m', hrun, hend, hclock, hserviced⟩ | ⟨m₁, hrun, hatt⟩
  · have hturn : RealTurn i m (r.map .returned) m' := .ended hend hclock hserviced
    cases r with
    | error e =>
      rw [run_bind_error hrun]
      exact ⟨_, m', rfl, hturn⟩
    | ok o =>
      rw [run_bind_ok hrun]
      exact ⟨_, m', rfl, hturn⟩
  · rw [run_bind_ok hrun]
    obtain ⟨res, m', hpark, hframe, -, hres⟩ := run_parkFor P (m₁.timeoutNs i.waitTsc) i m₁
    dsimp only
    rw [run_read_bind]
    rcases hres with rfl | rfl
    · rw [run_bind_ok hpark]
      exact ⟨_, m', rfl, .waited hatt hframe⟩
    · rw [run_bind_error hpark]
      exact ⟨_, m', rfl, .parkFailed hatt hframe⟩

theorem run_parkTurn_ff {ff : FfState} (hff : m.ff = some ff) :
    (parkTurn P i).run m = (ffTurn P ff i).run m := by
  rw [parkTurn, run_read_bind, hff]

theorem run_parkTurn_real (hff : m.ff = none) : (parkTurn P i).run m = (realTurn P i).run m := by
  rw [parkTurn, run_read_bind, hff]

end Turns

/-! ## The turns of a run -/

/-- The record of a turn tells what the turn did. -/
def TurnRecord.Taken (P : Platform U D) (r : TurnRecord U D) : Prop :=
  (parkTurn P r.input).run r.before = (r.result, r.after)

theorem step_turns_taken (P : Platform U D) (s : RunState U D) (i : Input)
    (h : ∀ r ∈ s.turns, r.Taken P) : ∀ r ∈ (s.step P i).turns, r.Taken P := by
  intro r hr
  cases i with
  | loop i =>
    simp only [RunState.step] at hr
    split_ifs at hr
    · exact h r hr
    · exact h r hr
  | park i =>
    simp only [RunState.step] at hr
    split_ifs at hr
    · rcases List.mem_append.mp hr with hr | hr
      · exact h r hr
      · rw [List.mem_singleton.mp hr]
        rfl
    · exact h r hr

theorem run_turns_taken (P : Platform U D) (c : Config U D) (is : List Input) :
    ∀ r ∈ (run P c is).turns, r.Taken P := by
  refine List.foldlRecOn is (RunState.step P) (motive := fun s => ∀ r ∈ s.turns, r.Taken P) ?_ ?_
  · intro r hr
    contradiction
  · intro s hs i _
    exact step_turns_taken P s i hs

theorem TurnRecord.Taken.cases {P : Platform U D} {r : TurnRecord U D} (h : r.Taken P) :
    (∃ ff, r.before.ff = some ff ∧ FfTurn ff r.input r.before r.result r.after) ∨
      r.before.ff = none ∧ RealTurn r.input r.before r.result r.after := by
  unfold TurnRecord.Taken at h
  rcases hff : r.before.ff with _ | ff
  · obtain ⟨res, m', hrun, hturn⟩ := run_realTurn P r.input r.before
    rw [run_parkTurn_real P r.input r.before hff, hrun] at h
    obtain ⟨rfl, rfl⟩ := Prod.mk.inj h
    exact .inr ⟨rfl, hturn⟩
  · obtain ⟨res, m', hrun, hturn⟩ := run_ffTurn P ff r.input r.before
    rw [run_parkTurn_ff P r.input r.before hff, hrun] at h
    obtain ⟨rfl, rfl⟩ := Prod.mk.inj h
    exact .inl ⟨ff, rfl, hturn⟩

end Tdvmm.Vmm
