import Tdvmm.Vmm.Entry
import Tdvmm.Vmm.Jump

/-!
# Vmm.Doorbell — the tick doorbell

A guest that runs without an exit is broken out of `KVM_RUN` by a host timer
(`src/doorbell.rs`). The loop arms it to the earliest pending deadline before every entry; when
it fires, a signal handler sets `immediate_exit` and a flag that makes the next `arm` set the
timer anew.

The signal may land between any two statements of the loop, so an iteration is cut here into the
pieces between which it makes a difference: the clear at the top, the part up to the injection,
the two halves of `arm`, and the guest. `no_lost_wakeup` says that at an entry the doorbell has
rung or is set to ring in time: what the cache of `arm` holds is either set right, or rung, or a
deadline that has passed and that no later `arm` asks for again.
-/

namespace Tdvmm.Vmm

open Lib Proto Egress

variable {U D : Type}

/-! ## The doorbell -/

/-- The `it_value` of `one_shot_itimerspec`. -/
structure OneShot where
  sec : Nat
  nsec : Nat
deriving DecidableEq, Repr

def OneShot.ofNs (ns : UInt64) : OneShot := ⟨ns.toNat / 1000000000, ns.toNat % 1000000000⟩

/-- A host timer that is pending: when it was set, on the host TSC, and for how long. -/
structure HostTimer where
  setAt : UInt64
  ns : Nat
deriving DecidableEq, Repr

/-- `timer_settime` with a relative one-shot value; all zero disarms. -/
def timerSettime (hostTsc : UInt64) (spec : OneShot) : Option HostTimer :=
  if spec.sec = 0 ∧ spec.nsec = 0 then none
  else some ⟨hostTsc, spec.sec * 1000000000 + spec.nsec⟩

/-- The doorbell, with the two cells the handler writes and the host timer. -/
structure Doorbell where
  enabled : Bool
  /-- The deadline `arm` set the timer for last. -/
  lastArmed : Option UInt64
  /-- `FIRED`. -/
  fired : Bool
  immediateExit : Bool
  timer : Option HostTimer
deriving DecidableEq, Repr

namespace Doorbell

/-- No timer is set yet. `enabled` is false under `TDVMM_NO_DOORBELL` and when the
timer could not be created. -/
def new (enabled : Bool) : Doorbell := ⟨enabled, none, false, false, none⟩

def clear (b : Doorbell) : Doorbell := if b.enabled then { b with immediateExit := false } else b

def onDoorbell (b : Doorbell) : Doorbell := { b with immediateExit := true, fired := true }

/-- The timer goes off, if it is pending, and the handler runs. -/
def ring (b : Doorbell) : Doorbell :=
  if b.timer.isSome then { b with timer := none }.onDoorbell else b

/-- The first half of `arm`: take the flag. -/
def swapFired (b : Doorbell) : Bool × Doorbell :=
  if b.enabled then (b.fired, { b with fired := false }) else (false, b)

/-- What the timer is set to: at least a nanosecond, since all zero would disarm it. -/
def armNs (freq : TscFrequency) (now dl : UInt64) : UInt64 :=
  if now < dl then max (freq.cyclesToNs (dl - now)) 1 else 1

/-- The second half of `arm`: nothing to do for the same deadline while the timer has
not fired, else set it. `now` is the vtsc at the host sample. -/
def set (b : Doorbell) (fired : Bool) (deadline : Option UInt64) (freq : TscFrequency)
    (now hostTsc : UInt64) : Doorbell :=
  if b.enabled then
    if deadline = b.lastArmed ∧ ¬ fired then b
    else
      { b with
        lastArmed := deadline
        timer :=
          match deadline with
          | some dl => timerSettime hostTsc (OneShot.ofNs (armNs freq now dl))
          | none => timerSettime hostTsc ⟨0, 0⟩ }
  else b

end Doorbell

/-! ## The loop, statement by statement -/

inductive Phase where
  | top
  | cleared
  /-- Before `arm`. -/
  | ready
  /-- In `arm`, with the flag it took. -/
  | swapped (fired : Bool)
  /-- Before `KVM_RUN`. -/
  | entry
deriving DecidableEq, Repr

/-- A run with its doorbell, between two statements. `last` is the last host sample
taken, for the proofs only. -/
structure Rung (U D : Type) where
  state : RunState U D
  phase : Phase
  bell : Doorbell
  last : UInt64

/-- What may happen next: a piece of the iteration, a turn of the park, or the
signal. -/
inductive BellEvent where
  | signal
  | clear
  | serve (i : LoopInput)
  | swap
  | set (hostTsc : UInt64)
  | guest (exit : Exit)
  | turn (i : ParkInput)

/-- The deadline the loop hands to `arm`. -/
def Machine.armDeadline (m : Machine U D) : Option UInt64 :=
  minDeadline m.events.peekDeadline m.lapic.timerDeadline

namespace Rung

variable (P : Platform U D)

/-- The loop is running and stands at `p`. -/
def At (s : Rung U D) (p : Phase) : Prop := s.state.mode = .running ∧ s.phase = p

instance (s : Rung U D) (p : Phase) : Decidable (s.At p) :=
  inferInstanceAs (Decidable (s.state.mode = .running ∧ s.phase = p))

/-- The iteration from the timer service to the injection. -/
def serve (s : Rung U D) (i : LoopInput) : Rung U D :=
  match (toEntry P i).run s.state.machine with
  | (.ok none, m) =>
    { s with state := { s.state with machine := m }, phase := .ready, last := i.hostTsc }
  | (.ok (some r), m) => { s with state := { s.state with machine := m, mode := .stopped r } }
  | (.error a, m) => { s with state := { s.state with machine := m, mode := .aborted a } }

/-- The guest has run and its exit is handled. -/
def guest (s : Rung U D) (exit : Exit) : Rung U D :=
  let (res, m) := (handleExit P exit).run s.state.machine
  { s with state := { s.state with machine := m, mode := Mode.afterLoop res }, phase := .top }

def set (s : Rung U D) (fired : Bool) (hostTsc : UInt64) : Rung U D :=
  let m := s.state.machine
  { s with
    bell := s.bell.set fired m.armDeadline m.clock.freq (m.vtsc hostTsc) hostTsc
    phase := .entry
    last := hostTsc }

/-- One step. An event that is not next is left out; the signal is always possible. -/
def step (s : Rung U D) : BellEvent → Rung U D
  | .signal => { s with bell := s.bell.ring }
  | .clear => if s.At .top then { s with bell := s.bell.clear, phase := .cleared } else s
  | .serve i => if s.At .cleared then s.serve P i else s
  | .swap =>
    if s.At .ready then
      { s with bell := s.bell.swapFired.2, phase := .swapped s.bell.swapFired.1 }
    else s
  | .set hostTsc =>
    match s.phase with
    | .swapped fired => if s.state.mode = .running then s.set fired hostTsc else s
    | _ => s
  | .guest exit => if s.At .entry then s.guest P exit else s
  | .turn i =>
    if s.state.mode = .parked then { s with state := s.state.turned P i, last := i.jumpTsc } else s

end Rung

def Config.rung (c : Config U D) (enabled : Bool) : Rung U D :=
  ⟨c.init, .top, Doorbell.new enabled, c.startTsc⟩

/-- A run of the loop and its doorbell, in any interleaving with the signal. -/
def rungRun (P : Platform U D) (c : Config U D) (enabled : Bool) (es : List BellEvent) : Rung U D :=
  es.foldl (Rung.step P) (c.rung enabled)

theorem signal_state (P : Platform U D) (s : Rung U D) : (s.step P .signal).state = s.state := rfl

/-- The pieces make up the iteration: if the guest is reached, the run is where the run
loop takes it. -/
theorem iteration_state (P : Platform U D) (s : Rung U D) (i : LoopInput) (fired : Bool)
    (hostTsc : UInt64) {m : Machine U D} (h : (toEntry P i).run s.state.machine = (.ok none, m)) :
    (((s.serve P i).set fired hostTsc).guest P i.exit).state = s.state.looped P i := by
  have hserve : (s.serve P i).state = { s.state with machine := m } := by
    rw [Rung.serve, h]
  have hrun : (loopTurn P i).run s.state.machine = (handleExit P i.exit).run m := by
    rw [loopTurn_eq, Eff.run_bind_ok h]
  simp only [Rung.guest, Rung.set, hserve, RunState.looped, hrun]

/-! ## In time -/

/-- Host instants and durations are counted in billionths of a TSC cycle times the
frequency: a cycle is `10 ^ 9` and a nanosecond `hz` of them. -/
def HostTimer.expiry (t : HostTimer) (hz : UInt64) : Int :=
  t.setAt.toNat * 1000000000 + t.ns * hz.toNat

/-- The host instant at which the vtsc reaches `d`. -/
def Machine.reaches (m : Machine U D) (d : UInt64) : Int :=
  (d.toNat - (m.clock.tscOffset m.tsc).toInt) * 1000000000

/-- The timer fires no later than the vtsc reaches `d`, or a nanosecond after it was
set if that is later. -/
def HostTimer.InTime (t : HostTimer) (m : Machine U D) (d : UInt64) : Prop :=
  t.expiry m.clock.freq.hz ≤
    max (m.reaches d) (t.setAt.toNat * 1000000000 + m.clock.freq.hz.toNat)

/-- The earliest pending deadline: the timer of the LAPIC or the horizon. -/
def Machine.pending (m : Machine U D) : Option UInt64 := minDeadline m.lapic.timerDeadline m.horizon

/-- At an entry with a deadline pending the doorbell has rung or rings in time. -/
def Rung.Wakes (s : Rung U D) : Prop :=
  s.At .entry → s.bell.enabled = true → ∀ d, s.state.machine.pending = some d →
    s.bell.immediateExit = true ∨ ∃ t, s.bell.timer = some t ∧ t.InTime s.state.machine d

/-- The host clock does not run backwards between the samples, and has not reached
`2 ^ 63`. A turn that does not get to its jump takes no sample there; it may be given
the one before. -/
def Rung.Timely (s : Rung U D) : BellEvent → Prop
  | .serve i => s.last ≤ i.hostTsc ∧ i.hostTsc.toNat < 2 ^ 63
  | .set hostTsc => s.last ≤ hostTsc ∧ hostTsc.toNat < 2 ^ 63
  | .turn i => s.last ≤ i.hostTsc ∧ i.hostTsc ≤ i.jumpTsc ∧ i.jumpTsc.toNat < 2 ^ 63
  | _ => True

instance (s : Rung U D) : ∀ e, Decidable (s.Timely e)
  | .serve i => inferInstanceAs (Decidable (s.last ≤ i.hostTsc ∧ i.hostTsc.toNat < 2 ^ 63))
  | .set hostTsc => inferInstanceAs (Decidable (s.last ≤ hostTsc ∧ hostTsc.toNat < 2 ^ 63))
  | .turn i => inferInstanceAs
      (Decidable (s.last ≤ i.hostTsc ∧ i.hostTsc ≤ i.jumpTsc ∧ i.jumpTsc.toNat < 2 ^ 63))
  | .signal | .clear | .swap | .guest _ => .isTrue trivial

/-- All steps of the run from `s` are timely. -/
def TimelyRun (P : Platform U D) : Rung U D → List BellEvent → Prop
  | _, [] => True
  | s, e :: es => s.Timely e ∧ TimelyRun P (s.step P e) es

instance TimelyRun.decidable (P : Platform U D) :
    ∀ (s : Rung U D) (es : List BellEvent), Decidable (TimelyRun P s es)
  | _, [] => .isTrue trivial
  | s, e :: es =>
    have := TimelyRun.decidable P (s.step P e) es
    inferInstanceAs (Decidable (s.Timely e ∧ TimelyRun P (s.step P e) es))

/-! ## The clock -/

section Clock

variable {m m' : Machine U D} {h h' d now : UInt64}

theorem vtsc_toNat (hpos : 0 ≤ h.toNat + m.offset) (hlt : h.toNat < 2 ^ 63) :
    ((m.vtsc h).toNat : Int) = h.toNat + m.offset := by
  have hoff : m.offset < 2 ^ 63 := Int64.toInt_lt _
  unfold Machine.vtsc VirtualClock.vtscFromHost
  change ((UInt64.ofInt (h.toNat + m.offset)).toNat : Int) = _
  simp only [UInt64.ofInt, UInt64.toNat_ofNat']
  omega

theorem vtsc_mono (hoff : m.offset ≤ m'.offset) (hle : h ≤ h') (hpos : 0 ≤ h.toNat + m.offset)
    (hlt : h'.toNat < 2 ^ 63) : m.vtsc h ≤ m'.vtsc h' := by
  have hle' := UInt64.le_iff_toNat_le.mp hle
  have hbefore := vtsc_toNat hpos (by omega : h.toNat < 2 ^ 63)
  have hafter : ((m'.vtsc h').toNat : Int) = h'.toNat + m'.offset := vtsc_toNat (by omega) hlt
  rw [UInt64.le_iff_toNat_le]
  omega

theorem HostTimer.InTime.of_clock {t : HostTimer} (ht : t.InTime m d) (hclock : m.SameClock m') :
    t.InTime m' d := by
  unfold HostTimer.InTime Machine.reaches at ht ⊢
  rw [hclock.tsc, hclock.clock]
  exact ht

end Clock

/-! ## Deadlines -/

section Deadlines

variable {now d : UInt64} {a b : Option UInt64}

theorem minDeadline_comm (a b : Option UInt64) : minDeadline a b = minDeadline b a := by
  rcases a with _ | a
  · cases b <;> rfl
  · rcases b with _ | b
    · rfl
    · simp only [minDeadline]
      congr 1
      split_ifs with hab hba hba
      · exact UInt64.le_antisymm hab hba
      · rfl
      · rfl
      · exact absurd (UInt64.le_of_lt (UInt64.not_le.mp hab)) hba

theorem minDeadline_absorb (a b : Option UInt64) :
    minDeadline (minDeadline a b) a = minDeadline a b := by
  rcases a with _ | a
  · simp
  · rcases b with _ | b
    · simp [minDeadline]
    · simp only [minDeadline]
      split_ifs with hab hle
      · rfl
      · exact absurd (UInt64.le_refl a) hle
      · rfl
      · rename_i hba
        exact absurd (UInt64.le_of_lt (UInt64.not_le.mp hab)) hba

theorem ahead_of_min (h : minDeadline a b = some d) (hd : now < d) :
    ahead now a = a ∧ ahead now b = b := by
  rcases a with _ | a
  · rw [minDeadline_none_left] at h
    rw [h, ahead_of_lt hd]
    exact ⟨rfl, rfl⟩
  · rcases b with _ | b
    · rw [minDeadline_none_right] at h
      rw [h, ahead_of_lt hd]
      exact ⟨rfl, rfl⟩
    · simp only [minDeadline, Option.some.injEq] at h
      split_ifs at h with hle
      · subst h
        exact ⟨ahead_of_lt hd, ahead_of_lt (UInt64.lt_of_lt_of_le hd hle)⟩
      · subst h
        exact ⟨ahead_of_lt (UInt64.lt_trans hd (UInt64.not_le.mp hle)), ahead_of_lt hd⟩

theorem lt_of_ahead_min (ha : ahead now a = a) (hb : ahead now b = b)
    (h : minDeadline a b = some d) : now < d := by
  have hlt : ∀ {x : Option UInt64} {y : UInt64}, ahead now x = x → x = some y → now < y := by
    intro x y hx hy
    subst hy
    by_contra hle
    rw [ahead_of_le (UInt64.not_lt.mp hle)] at hx
    contradiction
  rcases a with _ | a
  · rw [minDeadline_none_left] at h
    exact hlt hb h
  · rcases b with _ | b
    · rw [minDeadline_none_right] at h
      exact hlt ha h
    · simp only [minDeadline, Option.some.injEq] at h
      split_ifs at h
      · exact hlt ha (congrArg some h)
      · exact hlt hb (congrArg some h)

theorem deadlineAfter_ahead {l : Lapic} (h : ahead now l.timerDeadline = l.timerDeadline) :
    l.deadlineAfter now = some l.timerDeadline := by
  rw [Lapic.deadlineAfter_eq]
  rcases hd : l.timerDeadline with _ | d
  · rfl
  · have hlt : ¬ d ≤ now := by
      intro hle
      rw [hd, ahead_of_le hle] at h
      contradiction
    simp [hlt]

theorem ahead_deadlineAfter {l : Lapic} {after : Option UInt64}
    (h : l.deadlineAfter now = some after) : ahead now after = after := by
  rw [Lapic.deadlineAfter_eq] at h
  rcases hd : l.timerDeadline with _ | d
  · rw [hd] at h
    rw [← Option.some.inj h]
    rfl
  · rw [hd] at h
    dsimp only at h
    split_ifs at h with hdue hper
    · obtain ⟨next, hre, hnext⟩ := Option.map_eq_some_iff.mp h
      rw [← hnext]
      exact ahead_of_lt (Lapic.lt_of_advancePast hre)
    · rw [← Option.some.inj h]
      rfl
    · rw [← Option.some.inj h]
      exact ahead_of_lt (UInt64.not_le.mp hdue)

end Deadlines

theorem Readied.pending {now cr8 : UInt64} {m m' : Machine U D} (h : Readied now cr8 m m') :
    m'.armDeadline = m'.pending ∧ ∀ d, m'.pending = some d → now < d := by
  -- before `arm`, the deadline it is handed is the earliest pending one, and it is ahead of the
  -- boundary
  have hhor : ahead now m'.horizon = m'.horizon := by
    rw [h.horizon]
    exact ahead_horizon h.early
  have hlive := ahead_deadlineAfter h.timer
  refine ⟨?_, fun d hd => lt_of_ahead_min hlive hhor hd⟩
  unfold Machine.armDeadline Machine.pending
  rw [h.queue, ahead_horizon h.early, ← h.horizon]
  by_cases hstays : ahead now m.lapic.timerDeadline = m.lapic.timerDeadline
  · have hsame : m.lapic.timerDeadline = m'.lapic.timerDeadline :=
      Option.some.inj ((deadlineAfter_ahead hstays).symm.trans h.timer)
    rw [hstays, hsame]
    exact minDeadline_absorb _ _
  · -- The timer was due: the queue is left with the horizon.
    have hdue : ahead now m.lapic.timerDeadline = none := by
      rcases hd : m.lapic.timerDeadline with _ | d
      · rfl
      · by_cases hle : d ≤ now
        · exact ahead_of_le hle
        · rw [hd] at hstays
          exact absurd (ahead_of_lt (UInt64.not_le.mp hle)) hstays
    rw [hdue, minDeadline_none_left]
    exact minDeadline_comm _ _

theorem Attended.pending {now d : UInt64} {m m₁ : Machine U D} (hatt : Attended now m m₁)
    (hd : m.pending = some d) (hahead : now < d) :
    m₁.pending = some d ∧ m₁.events.peekDeadline = some d := by
  obtain ⟨htimer, hhor⟩ := ahead_of_min hd hahead
  have hsame : m.lapic.timerDeadline = m₁.lapic.timerDeadline :=
    Option.some.inj ((deadlineAfter_ahead htimer).symm.trans hatt.timer)
  constructor
  · rw [Machine.pending, ← hsame, hatt.horizon]
    exact hd
  · rw [hatt.queue, htimer, hhor]
    exact hd

/-! ## Setting the timer -/

theorem max_one_cases (x : UInt64) : max x 1 = 1 ∨ max x 1 = x ∧ 1 < x := by
  change (if x ≤ 1 then 1 else x) = 1 ∨ (if x ≤ 1 then 1 else x) = x ∧ 1 < x
  split_ifs with hle
  · exact .inl rfl
  · exact .inr ⟨rfl, UInt64.not_le.mp hle⟩

theorem armNs_cases (freq : TscFrequency) (now dl : UInt64) :
    (Doorbell.armNs freq now dl).toNat = 1 ∨
      now < dl ∧ 0 < (Doorbell.armNs freq now dl).toNat ∧
        (Doorbell.armNs freq now dl).toNat * freq.hz.toNat ≤
          (dl.toNat - now.toNat) * 1000000000 := by
  -- the timer is set to one nanosecond, or to the time left on the clock, rounded down
  unfold Doorbell.armNs
  split_ifs with hlater
  · rcases max_one_cases (freq.cyclesToNs (dl - now)) with hone | ⟨hns, hpos⟩
    · rw [hone]
      exact .inl rfl
    · have hcycles := UInt64.toNat_sub_of_le _ _ (UInt64.le_of_lt hlater)
      have hpos' := UInt64.lt_iff_toNat_lt.mp hpos
      rw [hns]
      refine .inr ⟨hlater, Nat.zero_lt_of_lt hpos', ?_⟩
      rw [← hcycles]
      exact freq.cyclesToNs_le _
  · exact .inl rfl

theorem timerSettime_ofNs {ns : UInt64} (h : 0 < ns.toNat) (hostTsc : UInt64) :
    timerSettime hostTsc (OneShot.ofNs ns) = some ⟨hostTsc, ns.toNat⟩ := by
  have hnonzero : ¬ (ns.toNat / 1000000000 = 0 ∧ ns.toNat % 1000000000 = 0) := by omega
  have hsum : ns.toNat / 1000000000 * 1000000000 + ns.toNat % 1000000000 = ns.toNat := by omega
  rw [timerSettime, OneShot.ofNs, if_neg hnonzero, hsum]

theorem arm_inTime {m : Machine U D} {h d : UInt64} (hpos : 0 ≤ h.toNat + m.offset)
    (hlt : h.toNat < 2 ^ 63) :
    ∃ t, timerSettime h (OneShot.ofNs (Doorbell.armNs m.clock.freq (m.vtsc h) d)) = some t ∧
      t.InTime m d := by
  -- the timer that `arm` sets is not late
  have hvtsc := vtsc_toNat hpos hlt
  have hreaches : m.reaches d = (d.toNat - m.offset) * 1000000000 := rfl
  rcases armNs_cases m.clock.freq (m.vtsc h) d with hone | ⟨hlater, hns, hround⟩
  · refine ⟨_, timerSettime_ofNs (by omega) h, ?_⟩
    unfold HostTimer.InTime HostTimer.expiry
    rw [hone]
    apply Int.le_trans _ (Int.le_max_right _ _)
    simp
  · refine ⟨_, timerSettime_ofNs hns h, ?_⟩
    unfold HostTimer.InTime HostTimer.expiry
    apply Int.le_trans _ (Int.le_max_left _ _)
    have hlater' := UInt64.lt_iff_toNat_lt.mp hlater
    rw [hreaches]
    dsimp only
    rw [← Int.natCast_mul]
    omega

/-! ## The invariant -/

namespace Rung

def Live (s : Rung U D) : Prop := s.state.mode = .running ∨ s.state.mode = .parked

/-- The next `arm` will set the timer: it has fired since the last one. -/
def Stale (s : Rung U D) : Prop := s.bell.fired = true ∨ s.phase = .swapped true

/-- The timer is set for `d` and in time. -/
def SetFor (s : Rung U D) (d : UInt64) : Prop :=
  ∃ t, s.bell.timer = some t ∧ t.InTime s.state.machine d

def Passed (s : Rung U D) (d : UInt64) : Prop := d ≤ s.state.machine.vtsc s.last

/-- What holds between any two statements of a live run. -/
structure Rings (s : Rung U D) : Prop where
  started : 0 ≤ s.last.toNat + s.state.machine.offset
  inRange : s.last.toNat < 2 ^ 63
  /-- The cache of `arm`: the timer has fired, or is set right, or the deadline has
  passed. -/
  cached : ∀ d, s.bell.lastArmed = some d → s.Stale ∨ s.SetFor d ∨ s.Passed d
  /-- Once `arm` has taken the flag, a signal is kept in `immediate_exit`. -/
  noted : (∃ f, s.phase = .swapped f) ∨ s.phase = .entry → s.bell.fired = true →
    s.bell.immediateExit = true
  /-- Up to `arm` the earliest deadline is ahead of the clock. -/
  aimed : s.phase = .ready ∨ (∃ f, s.phase = .swapped f) →
    s.state.machine.armDeadline = s.state.machine.pending ∧
      ∀ d, s.state.machine.pending = some d → ¬ s.Passed d
  entered : s.phase = .entry → s.bell.lastArmed = s.state.machine.pending ∧
    ∀ d, s.state.machine.pending = some d → s.bell.immediateExit = true ∨ s.SetFor d
  /-- A park starts with the cached deadline pending. -/
  parked : s.state.mode = .parked → s.phase = .top ∧
    ∀ d, s.bell.lastArmed = some d → s.Passed d ∨ s.state.machine.pending = some d

def Inv (s : Rung U D) : Prop := s.Live → s.bell.enabled = true → s.Rings

theorem Inv.wakes {s : Rung U D} (h : s.Inv) : s.Wakes := by
  intro hat henabled d hd
  have hrings := h (.inl hat.1) henabled
  exact (hrings.entered hat.2).2 d hd

/-! ## The statements of the loop keep it -/

section Steps

variable {P : Platform U D} {s s' : Rung U D} {d : UInt64}

theorem SetFor.of_clock (h : s.SetFor d) (htimer : s'.bell.timer = s.bell.timer)
    (hclock : s.state.machine.SameClock s'.state.machine) : s'.SetFor d := by
  obtain ⟨t, ht, htime⟩ := h
  exact ⟨t, htimer.trans ht, htime.of_clock hclock⟩

theorem Passed.later (h : s.Passed d) (hstarted : 0 ≤ s.last.toNat + s.state.machine.offset)
    (hoff : s.state.machine.offset ≤ s'.state.machine.offset) (hlast : s.last ≤ s'.last)
    (hrange : s'.last.toNat < 2 ^ 63) : s'.Passed d :=
  UInt64.le_trans h (vtsc_mono hoff hlast hstarted hrange)

theorem started_later (h : 0 ≤ s.last.toNat + s.state.machine.offset)
    (hoff : s.state.machine.offset ≤ s'.state.machine.offset) (hlast : s.last ≤ s'.last) :
    0 ≤ s'.last.toNat + s'.state.machine.offset := by
  have hle := UInt64.le_iff_toNat_le.mp hlast
  omega

theorem signal_rings (h : s.Rings) : Rings { s with bell := s.bell.ring } := by
  unfold Doorbell.ring Doorbell.onDoorbell
  split_ifs
  · refine ⟨h.started, h.inRange, ?_, fun _ _ => rfl, h.aimed, ?_, h.parked⟩
    · exact fun d _ => .inl (.inl rfl)
    · exact fun hentry => ⟨(h.entered hentry).1, fun d _ => .inl rfl⟩
  · exact h

theorem Rings.cached_of {p : Phase} (h : s.Rings) (hphase : s.phase = p) (hp : p ≠ .swapped true)
    (hd : s.bell.lastArmed = some d) : s.bell.fired = true ∨ s.SetFor d ∨ s.Passed d := by
  rcases h.cached d hd with (hfired | hswapped) | hset
  · exact .inl hfired
  · exact absurd (hphase.symm.trans hswapped) hp
  · exact .inr hset

theorem clear_rings (h : s.Rings) (hat : s.At .top) :
    Rings { s with bell := s.bell.clear, phase := .cleared } := by
  obtain ⟨hmode, hphase⟩ := hat
  have hrunning : s.state.mode ≠ .parked := by simp [hmode]
  unfold Doorbell.clear
  split_ifs <;>
    exact ⟨h.started, h.inRange, fun d hd => (h.cached_of hphase (by simp) hd).imp .inl id,
      by simp, by simp, by simp, fun hpark => absurd hpark hrunning⟩

theorem serve_inv (h : s.Inv) (hat : s.At .cleared) {i : LoopInput}
    (htime : s.Timely (.serve i)) : (s.serve P i).Inv := by
  obtain ⟨hmode, hphase⟩ := hat
  obtain ⟨hlast, hrange⟩ := htime
  unfold serve
  rcases hrun : (toEntry P i).run s.state.machine with ⟨r, m⟩
  rcases r with e | _ | r
  · rintro (hlive | hlive) <;> contradiction
  · intro _ henabled
    have hrings := h (.inl hmode) henabled
    have hready := toEntry_readied hrun
    have hclock : s.state.machine.SameClock m := hready.toSameClock
    have hoff : s.state.machine.offset ≤ m.offset := hclock.offset.ge
    have hrunning : s.state.mode ≠ .parked := by simp [hmode]
    refine ⟨started_later hrings.started hoff hlast, hrange, ?_, by simp, fun _ => ?_, by simp,
      fun hpark => absurd hpark hrunning⟩
    · intro d hd
      rcases hrings.cached_of hphase (by simp) hd with hfired | hset | hpassed
      · exact .inl (.inl hfired)
      · exact .inr (.inl (hset.of_clock rfl hclock))
      · exact .inr (.inr (hpassed.later hrings.started hoff hlast hrange))
    · obtain ⟨haim, hahead⟩ := hready.pending
      refine ⟨haim, ?_⟩
      intro d hd hpassed
      have hnow : m.vtsc i.hostTsc = s.state.machine.vtsc i.hostTsc := hclock.vtsc i.hostTsc
      change d ≤ m.vtsc i.hostTsc at hpassed
      rw [hnow] at hpassed
      exact UInt64.not_lt.mpr hpassed (hahead d hd)
  · rintro (hlive | hlive) <;> contradiction

theorem swap_rings (h : s.Rings) (hat : s.At .ready) (henabled : s.bell.enabled = true) :
    Rings { s with bell := s.bell.swapFired.2, phase := .swapped s.bell.swapFired.1 } := by
  obtain ⟨hmode, hphase⟩ := hat
  have hrunning : s.state.mode ≠ .parked := by simp [hmode]
  have hswap : s.bell.swapFired = (s.bell.fired, { s.bell with fired := false }) := if_pos henabled
  rw [hswap]
  refine ⟨h.started, h.inRange, ?_, by simp, fun _ => h.aimed (.inl hphase), by simp,
    fun hpark => absurd hpark hrunning⟩
  intro d hd
  rcases h.cached_of hphase (by simp) hd with hfired | hset
  · exact .inl (.inr (congrArg Phase.swapped hfired))
  · exact .inr hset

theorem set_rings (h : s.Rings) {fired : Bool} (hphase : s.phase = .swapped fired)
    (hmode : s.state.mode = .running) (henabled : s.bell.enabled = true) {hostTsc : UInt64}
    (htime : s.Timely (.set hostTsc)) : (s.set fired hostTsc).Rings := by
  -- `arm` sets the timer, or leaves it for a deadline that has not passed
  obtain ⟨hlast, hrange⟩ := htime
  obtain ⟨haim, hahead⟩ := h.aimed (.inr ⟨fired, hphase⟩)
  have hrunning : s.state.mode ≠ .parked := by simp [hmode]
  have hnoted := h.noted (.inl ⟨fired, hphase⟩)
  have hstarted : 0 ≤ hostTsc.toNat + s.state.machine.offset := by
    have hle := UInt64.le_iff_toNat_le.mp hlast
    have hbefore := h.started
    omega
  unfold set Doorbell.set
  dsimp only
  rw [if_pos henabled, haim]
  split_ifs with hskip
  · obtain ⟨hsame, hnot⟩ := hskip
    have hfired : fired = false := by simpa using hnot
    have hset : ∀ d, s.bell.lastArmed = some d → s.bell.fired = true ∨ s.SetFor d := by
      intro d hd
      rcases h.cached d hd with (hf | hswapped) | hset | hpassed
      · exact .inl hf
      · rw [hphase, hfired] at hswapped
        contradiction
      · exact .inr hset
      · exact absurd hpassed (hahead d (hsame.trans hd))
    refine ⟨hstarted, hrange, ?_, fun _ => hnoted, by simp, fun _ => ⟨hsame.symm, ?_⟩,
      fun hpark => absurd hpark hrunning⟩
    · intro d hd
      rcases hset d hd with hf | hset
      · exact .inl (.inl hf)
      · exact .inr (.inl hset)
    · intro d hd
      rcases hset d (hsame ▸ hd) with hf | hset
      · exact .inl (hnoted hf)
      · exact .inr hset
  · have hset : ∀ d, s.state.machine.pending = some d →
        ∃ t, (match s.state.machine.pending with
          | some dl => timerSettime hostTsc (OneShot.ofNs (Doorbell.armNs s.state.machine.clock.freq
              (s.state.machine.vtsc hostTsc) dl))
          | none => timerSettime hostTsc ⟨0, 0⟩) = some t ∧ t.InTime s.state.machine d := by
      intro d hd
      rw [hd]
      exact arm_inTime hstarted hrange
    refine ⟨hstarted, hrange, fun d hd => .inr (.inl (hset d hd)), fun _ => hnoted, by simp,
      fun _ => ⟨rfl, fun d hd => .inr (hset d hd)⟩, fun hpark => absurd hpark hrunning⟩

theorem rings_of_top (hphase : s.phase = .top)
    (hstarted : 0 ≤ s.last.toNat + s.state.machine.offset) (hrange : s.last.toNat < 2 ^ 63)
    (hcached : ∀ d, s.bell.lastArmed = some d → s.bell.fired = true ∨ s.SetFor d ∨ s.Passed d)
    (hparked : s.state.mode = .parked →
      ∀ d, s.bell.lastArmed = some d → s.Passed d ∨ s.state.machine.pending = some d) :
    s.Rings where
  started := hstarted
  inRange := hrange
  cached := fun d hd => (hcached d hd).imp .inl id
  noted := by simp [hphase]
  aimed := by simp [hphase]
  entered := by simp [hphase]
  parked := fun hmode => ⟨hphase, hparked hmode⟩

theorem guest_inv (h : s.Inv) (hat : s.At .entry) {exit : Exit} : (s.guest P exit).Inv := by
  -- the guest may change its timer, which the next `arm` sees; a halt leaves it
  obtain ⟨hmode, hphase⟩ := hat
  intro _ henabled
  have hrings := h (.inl hmode) henabled
  obtain ⟨hserves, -⟩ := handleExit_meets P exit s.state.machine
  have hclock := hserves.toSameClock
  have hoff : s.state.machine.offset ≤ (s.guest P exit).state.machine.offset := hclock.offset.ge
  have hlast : s.last ≤ s.last := UInt64.le_refl _
  refine rings_of_top rfl (started_later hrings.started hoff hlast) hrings.inRange ?_ ?_
  · intro d hd
    rcases hrings.cached_of hphase (by simp) hd with hfired | hset | hpassed
    · exact .inl hfired
    · exact .inr (.inl (hset.of_clock rfl hclock))
    · exact .inr (.inr (hpassed.later hrings.started hoff hlast hrings.inRange))
  · intro hpark d hd
    have hres : ((handleExit P exit).run s.state.machine).1 = .ok .park :=
      afterLoop_eq_parked.mp hpark
    obtain ⟨-, hsame⟩ := handleExit_park (Prod.ext hres rfl)
    have hpending : ((handleExit P exit).run s.state.machine).2.pending =
        s.state.machine.pending := congrArg Machine.pending hsame
    exact .inr (hpending.trans ((hrings.entered hphase).1.symm.trans hd))

theorem turn_inv (h : s.Inv) (hparked : s.state.mode = .parked) {i : ParkInput}
    (htime : s.Timely (.turn i)) :
    Inv { s with state := s.state.turned P i, last := i.jumpTsc } := by
  -- after a turn of the park the cached deadline has passed or is pending still: a jump goes no
  -- further than to it
  obtain ⟨hlast, hjump, hrange⟩ := htime
  intro hlive henabled
  have hrings := h (.inr hparked) henabled
  obtain ⟨hphase, hpending⟩ := hrings.parked hparked
  have hlast' : s.last ≤ i.jumpTsc := UInt64.le_trans hlast hjump
  rcases hturn : (parkTurn P i).run s.state.machine with ⟨r, m'⟩
  have hturned : s.state.turned P i =
      ⟨m', Mode.afterTurn r, s.state.turns ++ [⟨s.state.machine, i, r, m'⟩]⟩ := by
    rw [RunState.turned, hturn]
  rw [hturned] at hlive ⊢
  rcases r with a | t
  · rcases hlive with hlive | hlive <;> contradiction
  have hhost : 0 ≤ i.hostTsc.toNat + s.state.machine.offset := by
    have hle := UInt64.le_iff_toNat_le.mp hlast
    have hbefore := hrings.started
    omega
  -- With the clock as it was, the cache is as good as before.
  have hkept : s.state.machine.SameClock m' →
      (Mode.afterTurn (.ok t) = .parked → ∀ d, s.bell.lastArmed = some d →
        d ≤ m'.vtsc i.jumpTsc ∨ m'.pending = some d) →
      Rings { s with state := ⟨m', Mode.afterTurn (.ok t), s.state.turns ++ [⟨s.state.machine, i,
        .ok t, m'⟩]⟩, last := i.jumpTsc } := by
    intro hclock hstays
    have hoff : s.state.machine.offset ≤ m'.offset := hclock.offset.ge
    refine rings_of_top hphase (started_later hrings.started hoff hlast') hrange ?_ hstays
    intro d hd
    rcases hrings.cached_of hphase (by simp) hd with hfired | hset | hpassed
    · exact .inl hfired
    · exact .inr (.inl (hset.of_clock rfl hclock))
    · exact .inr (.inr (hpassed.later hrings.started hoff hlast' hrange))
  cases parkTurn_turned hturn with
  | @returned o _ hclock =>
    refine hkept hclock ?_
    intro hpark
    cases o <;> contradiction
  | @stayed _ m₁ _ hatt hframe hturn =>
    have hclock := hatt.toSameClock.trans hframe.toSameClock
    refine hkept hclock ?_
    intro _ d hd
    rcases hpending d hd with hpassed | hpend
    · exact .inl (UInt64.le_trans hpassed
        (vtsc_mono hclock.offset.ge hlast' hrings.started hrange))
    · by_cases hdue : d ≤ s.state.machine.vtsc i.hostTsc
      · exact .inl (UInt64.le_trans hdue (vtsc_mono hclock.offset.ge hjump hhost hrange))
      · refine .inr ?_
        have hpend₁ := (hatt.pending hpend (UInt64.not_le.mp hdue)).1
        rw [Machine.pending, hframe.timer.deadline, hframe.horizon]
        exact hpend₁
  | @jumped ff next m₁ tsc hatt hpeek hbump =>
    set m₂ : Machine U D := { m₁ with tsc := tsc, ff := ff } with hm₂
    have hland : m₂.vtsc i.jumpTsc = next := vtsc_landed hbump
    have hoff : s.state.machine.offset ≤ m₂.offset := by
      have hbumped := hbump.offset
      have hsame : m₁.offset = s.state.machine.offset := hatt.toSameClock.offset
      show _ ≤ (m₁.clock.tscOffset tsc).toInt
      rw [hbumped, ← hsame, Machine.offset]
      omega
    have hpassed : ∀ d, s.bell.lastArmed = some d → d ≤ m₂.vtsc i.jumpTsc := by
      intro d hd
      rcases hpending d hd with hpassed | hpend
      · exact UInt64.le_trans hpassed (vtsc_mono hoff hlast' hrings.started hrange)
      · by_cases hdue : d ≤ s.state.machine.vtsc i.hostTsc
        · exact UInt64.le_trans hdue (vtsc_mono hoff hjump hhost hrange)
        · -- The cached deadline was ahead of the boundary, so it is the target.
          have hhead := (hatt.pending hpend (UInt64.not_le.mp hdue)).2
          rw [hland, Option.some.inj (hhead.symm.trans hpeek)]
          exact UInt64.le_refl _
    refine rings_of_top hphase (started_later hrings.started hoff hlast') hrange ?_ ?_
    · exact fun d hd => .inr (.inr (hpassed d hd))
    · exact fun _ d hd => .inl (hpassed d hd)

theorem step_inv (h : s.Inv) {e : BellEvent} (htime : s.Timely e) : (s.step P e).Inv := by
  -- an event out of its place in the iteration does nothing
  cases e with
  | signal =>
    intro hlive henabled
    have henabled' : s.bell.enabled = true := by
      rw [← henabled]
      show s.bell.enabled = s.bell.ring.enabled
      unfold Doorbell.ring Doorbell.onDoorbell
      split_ifs <;> rfl
    exact signal_rings (h hlive henabled')
  | clear =>
    unfold step
    dsimp only
    split_ifs with hat
    · intro _ henabled
      have henabled' : s.bell.enabled = true := by
        rw [← henabled]
        show s.bell.enabled = s.bell.clear.enabled
        unfold Doorbell.clear
        split_ifs <;> rfl
      exact clear_rings (h (.inl hat.1) henabled') hat
    · exact h
  | serve i =>
    unfold step
    dsimp only
    split_ifs with hat
    · exact serve_inv h hat htime
    · exact h
  | swap =>
    unfold step
    dsimp only
    split_ifs with hat
    · intro _ henabled
      have henabled' : s.bell.enabled = true := by
        rw [← henabled]
        show s.bell.enabled = s.bell.swapFired.2.enabled
        unfold Doorbell.swapFired
        split_ifs <;> rfl
      exact swap_rings (h (.inl hat.1) henabled') hat henabled'
    · exact h
  | set hostTsc =>
    unfold step
    dsimp only
    split
    · rename_i fired hphase
      split_ifs with hmode
      · intro _ henabled
        have henabled' : s.bell.enabled = true := by
          by_contra hoff
          simp [Rung.set, Doorbell.set, hoff] at henabled
        exact set_rings (h (.inl hmode) henabled') hphase hmode henabled' htime
      · exact h
    · exact h
  | guest exit =>
    unfold step
    dsimp only
    split_ifs with hat
    · exact guest_inv h hat
    · exact h
  | turn i =>
    unfold step
    dsimp only
    split_ifs with hparked
    · exact turn_inv h hparked htime
    · exact h

end Steps

end Rung

theorem rung_init (c : Config U D) (enabled : Bool) (hrange : c.startTsc.toNat < 2 ^ 63)
    (hstart : 0 ≤ c.startTsc.toNat + c.tscOffset.toInt) : (c.rung enabled).Inv := by
  intro _ _
  refine Rung.rings_of_top rfl hstart hrange ?_ ?_
  · intro d hd
    contradiction
  · intro hpark
    contradiction

/-- Whatever way the signal falls between the statements of the loop and the turns of
the parks, at every entry with a deadline pending `immediate_exit` is set or the timer
is pending and fires no later than the vtsc reaches the deadline, or a nanosecond after
it was set. The host clock does not run backwards and is below `2 ^ 63`; the guest's
does not start before zero. -/
theorem no_lost_wakeup (P : Platform U D) (c : Config U D) (enabled : Bool) (es : List BellEvent)
    (hrange : c.startTsc.toNat < 2 ^ 63) (hstart : 0 ≤ c.startTsc.toNat + c.tscOffset.toInt)
    (htime : TimelyRun P (c.rung enabled) es) : (rungRun P c enabled es).Wakes := by
  have hkeep : ∀ s : Rung U D, s.Inv → TimelyRun P s es → (es.foldl (Rung.step P) s).Inv := by
    clear htime
    induction es with
    | nil => exact fun s hs _ => hs
    | cons e es ih => exact fun s hs hrun => ih _ (Rung.step_inv hs hrun.1) hrun.2
  exact (hkeep _ (rung_init c enabled hrange hstart) htime).wakes

def quietIteration (hostTsc : UInt64) (exit : Exit) : List BellEvent :=
  [.clear, .serve (.bare hostTsc exit), .swap, .set hostTsc, .guest exit]

def lapicExit (hostTsc : UInt64) (reg val : UInt32) : Exit :=
  .mmioWrite (XAPIC_BASE + reg.toUInt64) (u32ToLeBytes val) hostTsc

/-- The guest enables its LAPIC, starts its timer and halts; the park jumps to the
deadline, with the host timer set for it still pending. The guest starts its timer
again, and before the second entry after that the signal falls into `arm`. -/
def jumpedUnder : List BellEvent :=
  quietIteration 110 (lapicExit 110 REG_SVR 0x1ff) ++
  quietIteration 120 (lapicExit 120 REG_LVT_TIMER 0x40) ++
  quietIteration 130 (lapicExit 130 REG_TIMER_ICT 50) ++
  quietIteration 140 (.hlt true) ++
  [.turn (.bare 150 150), .turn (.bare 150 150)] ++
  quietIteration 151 (lapicExit 151 REG_TIMER_ICT 50) ++
  quietIteration 152 .other ++
  [.clear, .serve (.bare 153 .other), .swap, .signal, .set 154]

theorem no_lost_wakeup_jumpedUnder :
    (rungRun Platform.bare (Config.bare 100 false (some 1000) none) true jumpedUnder).At .entry ∧
      (rungRun Platform.bare (Config.bare 100 false (some 1000) none) true
        jumpedUnder).state.machine.pending = some 331 ∧
      (rungRun Platform.bare (Config.bare 100 false (some 1000) none) true jumpedUnder).Wakes :=
  ⟨by decide +kernel, by decide +kernel,
    no_lost_wakeup _ _ _ _ (by decide) (by decide) (by decide +kernel)⟩

end Tdvmm.Vmm
