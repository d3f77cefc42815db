import Mathlib.Data.List.TakeWhile
import Tdvmm.Lib.Spool
import Tdvmm.Vmm.Jump

/-!
# Vmm.Equivalence — fast-forward is waiting

With egress off, no console input and no agent line, all that distinguishes the two parks is
what they do when nothing is deliverable: one waits for the head of the queue in real time, the
other moves the clock there. A fast-forward park is matched here by a real-wait park whose host
clock is ahead by the jumps made so far.

The match needs the bump to go through. Its assert on the sign of the advance trips on an
advance of `2 ^ 63` cycles or more, which the single-jump bound leaves to the horizon; the
real-wait park just waits for such a horizon (`horizon_jump_panics`).
-/

namespace Tdvmm.Vmm

open Lib Lib.Eff Proto Egress

variable {U D : Type}

/-! ## Executions of a park -/

/-- The turns of a park on a list of inputs, up to the one that ends it. -/
def parkRun (P : Platform U D) : Machine U D → List ParkInput → List (TurnRecord U D)
  | _, [] => []
  | m, i :: is =>
    let (res, m') := (parkTurn P i).run m
    ⟨m, i, res, m'⟩ :: (if Mode.afterTurn res = .parked then parkRun P m' is else [])

namespace TurnRecord

/-- The vtsc of the boundary of a turn. -/
def now (r : TurnRecord U D) : UInt64 := r.before.vtsc r.input.hostTsc

/-- The vtsc at which the timer of the LAPIC fired in this turn, if it did. -/
def fired (r : TurnRecord U D) : Option UInt64 :=
  if r.before.lapic.timerDeadline.any (· ≤ r.now) then some r.now else none

def outcome (r : TurnRecord U D) : Option (Except Abort ParkOutcome) :=
  match r.result with
  | .ok (.returned o) => some (.ok o)
  | .ok _ => none
  | .error a => some (.error a)

def tooLong (r : TurnRecord U D) : Bool :=
  match r.result with
  | .error (.jumpTooLong _) => true
  | _ => false

/-- The jumps on the record of the fast-forward state before the turn, in cycles. -/
def hops (r : TurnRecord U D) : Nat := (r.before.ff.map (·.sumDeltaCycles)).getD 0

end TurnRecord

def fires (rs : List (TurnRecord U D)) : List UInt64 := rs.filterMap TurnRecord.fired

def parkOutcome (rs : List (TurnRecord U D)) : Option (Except Abort ParkOutcome) :=
  rs.getLast?.bind TurnRecord.outcome

/-- No console input: neither poll has any. -/
def ParkInput.Quiet (i : ParkInput) : Prop := i.stdinReady = some false ∧ i.wake = some false

instance (i : ParkInput) : Decidable i.Quiet :=
  inferInstanceAs (Decidable (i.stdinReady = some false ∧ i.wake = some false))

def ControlChannel.NoLine (c : ControlChannel U) : Prop := (10 : UInt8) ∉ c.serial.tx

instance (c : ControlChannel U) : Decidable c.NoLine :=
  inferInstanceAs (Decidable ((10 : UInt8) ∉ c.serial.tx))

/-- The host clock does not run backwards from `last` on, over the samples of the turns.
A turn that does not get to its jump takes no sample there; it may be given the one
before. -/
def Nondecreasing : UInt64 → List ParkInput → Prop
  | _, [] => True
  | last, i :: is => last ≤ i.hostTsc ∧ i.hostTsc ≤ i.jumpTsc ∧ Nondecreasing i.jumpTsc is

instance Nondecreasing.decidable : ∀ last is, Decidable (Nondecreasing last is)
  | _, [] => .isTrue trivial
  | last, i :: is =>
    have := Nondecreasing.decidable i.jumpTsc is
    inferInstanceAs
      (Decidable (last ≤ i.hostTsc ∧ i.hostTsc ≤ i.jumpTsc ∧ Nondecreasing i.jumpTsc is))

/-! ## A real-wait execution -/

/-- The host instants of a turn of the real-wait park: the boundary and the start of the
wait. They are counted without bound; the TSC shows them modulo `2 ^ 64`. -/
structure Instants where
  boundary : Nat
  wait : Nat

/-- The input of a turn taken at these instants. -/
def Instants.input (t : Instants) (i : ParkInput) : ParkInput :=
  { i with hostTsc := UInt64.ofNat t.boundary, waitTsc := UInt64.ofNat t.wait }

/-- The instants of a fast-forward turn, later by the jumps made since `base` was on
the record. -/
def TurnRecord.shifted (base : Nat) (r : TurnRecord U D) : Instants :=
  ⟨r.input.hostTsc.toNat + (r.hops - base), r.input.jumpTsc.toNat + (r.hops - base)⟩

def TurnRecord.waitNs (r : TurnRecord U D) : Nat :=
  match r.result with
  | .ok (.waited (some ns)) => ns.toNat
  | _ => 0

/-- Every wait starts after its boundary and lasts as long as it was asked to. The
first boundary is not before `earliest`, a host instant in billionths of a cycle; a
nanosecond is `hz` of them. -/
def Punctual (hz : UInt64) : Nat → List (Instants × TurnRecord U D) → Prop
  | _, [] => True
  | earliest, (t, r) :: rest =>
    earliest ≤ t.boundary * 1000000000 ∧ t.boundary ≤ t.wait ∧
      Punctual hz (t.wait * 1000000000 + r.waitNs * hz.toNat) rest

/-! ## A quiet boundary -/

/-- What `attend` comes to with egress off and no agent line. -/
def Machine.attended (m : Machine U D) (now : UInt64) :
    Except Abort (Option ParkOutcome) × Machine U D :=
  match serviceTimers m.lapic m.events m.horizon now with
  | .error e => (.error e, { m with serviced := m.serviced ++ [now] })
  | .ok (horizon, lapic, events) =>
    let m₁ := { m with serviced := m.serviced ++ [now], lapic := lapic, events := events }
    if horizon then (.ok (some .horizon), m₁)
    else
      (.ok (if lapic.deliverableVector.isSome then some .deliverable else none),
        { m₁ with com2 := m.com2.pollLine.2 })

section Quiet

variable {P : Platform U D} {m : Machine U D} {i : ParkInput}

theorem pollLine_noLine {c : ControlChannel U} (h : c.NoLine) :
    c.pollLine.1 = none ∧ c.pollLine.2.NoLine := by
  unfold ControlChannel.pollLine
  rw [span_free h]
  dsimp only
  split_ifs
  · exact ⟨rfl, by simp [ControlChannel.NoLine]⟩
  · exact ⟨rfl, h⟩

theorem run_agentLines_quiet (h : m.com2.NoLine) (lineTsc : Nat → UInt64) :
    (agentLines P lineTsc).run m = (.ok false, { m with com2 := m.com2.pollLine.2 }) := by
  have hdrain : ∀ f : Nat → UInt64,
      drainAgent P f m.com2.serial.tx.length 0 m.com2 m.driver =
        (false, m.com2.pollLine.2, m.driver) := by
    intro f
    rcases htx : m.com2.serial.tx with _ | ⟨b, tx⟩
    · -- An empty buffer gives no round, and no line either.
      have hpoll : m.com2.pollLine.2 = m.com2 := by
        simp [ControlChannel.pollLine, htx]
      rw [hpoll]
      rfl
    · obtain ⟨hnone, -⟩ := pollLine_noLine h
      rcases hpoll : m.com2.pollLine with ⟨line, com2⟩
      rw [hpoll] at hnone
      dsimp only at hnone
      subst hnone
      simp [drainAgent, hpoll]
  unfold agentLines
  rw [run_read_bind]
  dsimp only
  rw [hdrain]
  rfl

theorem run_attend_quiet (hegress : m.egress = none) (hlines : m.com2.NoLine) :
    (attend P i).run m = m.attended (m.vtsc i.hostTsc) := by
  unfold Machine.attended attend
  rcases hserve : serviceTimers m.lapic m.events m.horizon (m.vtsc i.hostTsc) with
    e | ⟨horizon, lapic, q⟩
  · have hrun : (boundary i.hostTsc).run m =
        (.error e, { m with serviced := m.serviced ++ [m.vtsc i.hostTsc] }) := by
      rw [run_boundary_eq, hserve]
      rfl
    rw [run_bind_error hrun]
  · let m₁ : Machine U D :=
      { m with serviced := m.serviced ++ [m.vtsc i.hostTsc], lapic := lapic, events := q }
    have hrun : (boundary i.hostTsc).run m = (.ok horizon, m₁) := by
      rw [run_boundary_eq, hserve]
      rfl
    rw [run_bind_ok hrun]
    cases horizon with
    | true => rfl
    | false =>
      simp only [Bool.false_eq_true, if_false]
      have hagent : (agentLines P i.lineTsc).run m₁ =
          (.ok false, { m₁ with com2 := m₁.com2.pollLine.2 }) :=
        run_agentLines_quiet (show m₁.com2.NoLine from hlines) _
      rw [run_bind_ok hagent]
      simp [egressPump, hegress, m₁]

theorem run_stdinFirst_quiet (hquiet : i.Quiet) : (stdinFirst P i).run m = (.ok (), m) := by
  simp [stdinFirst, hquiet.1]

theorem run_parkFor_quiet (hquiet : i.Quiet) (timeout : Option UInt64) :
    (parkFor P timeout i).run m = (.ok (), m) := by
  by_cases hzero : timeout = some 0
  · simp [parkFor, hzero]
  · simp [parkFor, hzero, hquiet.2]

theorem attended_quiet {now : UInt64} {r : Except Abort (Option ParkOutcome)} {m' : Machine U D}
    (hegress : m.egress = none) (hlines : m.com2.NoLine) (h : m.attended now = (r, m')) :
    m'.egress = none ∧ m'.com2.NoLine := by
  unfold Machine.attended at h
  split at h
  · obtain ⟨-, rfl⟩ := Prod.mk.inj h
    exact ⟨hegress, hlines⟩
  · rename_i horizon lapic events _
    dsimp only at h
    by_cases hhorizon : horizon = true
    · rw [if_pos hhorizon] at h
      obtain ⟨-, rfl⟩ := Prod.mk.inj h
      exact ⟨hegress, hlines⟩
    · rw [if_neg hhorizon] at h
      obtain ⟨-, rfl⟩ := Prod.mk.inj h
      exact ⟨hegress, (pollLine_noLine hlines).2⟩

end Quiet

/-! ## The machine of the real-wait park -/

/-- The machine with fast-forward off and another clock. -/
def Machine.real (m : Machine U D) (t : Tsc) : Machine U D := { m with ff := none, tsc := t }

/-- The clock `t` is `hops` cycles behind that of the machine, and the world is quiet. -/
structure Behind (hops : Nat) (t : Tsc) (m : Machine U D) : Prop where
  offset : m.offset = (m.clock.tscOffset t).toInt + hops
  egress : m.egress = none
  lines : m.com2.NoLine

section Real

variable {m : Machine U D} {t : Tsc} {hops : Nat}

theorem attended_real (m : Machine U D) (t : Tsc) (now : UInt64) :
    (m.real t).attended now = ((m.attended now).1, (m.attended now).2.real t) := by
  unfold Machine.attended Machine.real
  dsimp only
  split
  · rfl
  · split_ifs <;> rfl

theorem vtsc_real (h : m.offset = (m.clock.tscOffset t).toInt + hops) (host : UInt64) :
    (m.real t).vtsc (UInt64.ofNat (host.toNat + hops)) = m.vtsc host := by
  -- at an instant that is later by the hops the clock behind shows the same vtsc
  have hoff : (m.clock.tscOffset m.tsc).toInt = (m.clock.tscOffset t).toInt + hops := h
  unfold Machine.vtsc VirtualClock.vtscFromHost
  show UInt64.ofInt (_ + (m.clock.tscOffset t).toInt) = _
  rw [hoff]
  apply UInt64.toNat.inj
  simp only [UInt64.ofInt, UInt64.toNat_ofNat']
  omega

end Real

/-! ## One turn -/

/-- The boundary does not end the turn: the horizon is ahead and, once a due timer has
fired, no vector is deliverable. -/
def Machine.goesOn (m : Machine U D) (now : UInt64) : Bool :=
  !m.horizon.any (· ≤ now) && (m.lapic.fireTimerIfDue now).any (·.2.deliverableVector.isNone)

theorem goesOn_of_attended {m m' : Machine U D} {now : UInt64}
    (h : m.attended now = (.ok none, m')) : m.goesOn now = true := by
  unfold Machine.attended at h
  unfold Machine.goesOn
  rcases hfire : m.lapic.fireTimerIfDue now with _ | ⟨b, lapic⟩
  · rw [serviceTimers_stuck m.events m.horizon hfire] at h
    simp at h
  · obtain ⟨q, hserve, -⟩ := serviceTimers_spec m.events m.horizon hfire
    rw [hserve] at h
    cases hdue : m.horizon.any (· ≤ now) with
    | true => simp [hdue] at h
    | false =>
      rcases hvec : lapic.deliverableVector with _ | vec
      · simp [hvec]
      · simp [hdue, hvec] at h

/-- The condition on a turn, on its input and the state before it: if it comes to a
jump, the advance is below `2 ^ 63`, its sum with the offset is an `i64`, and KVM
takes it. -/
def Machine.Bumps (m : Machine U D) (i : ParkInput) : Prop :=
  m.goesOn (m.vtsc i.hostTsc) = true →
  ∀ next ∈ minDeadline (ahead (m.vtsc i.hostTsc) m.lapic.timerDeadline)
      (ahead (m.vtsc i.hostTsc) m.horizon),
    m.vtsc i.jumpTsc < next →
    (m.delta i next).toNat < 2 ^ 63 ∧ m.clock.Accepts i.kvm (m.delta i next).toInt64 m.tsc = true

instance (m : Machine U D) (i : ParkInput) : Decidable (m.Bumps i) :=
  -- The one deadline is looked at, not all that a word can hold.
  @instDecidableForall _ _ inferInstance (Option.decidableForallMem
    (minDeadline (ahead (m.vtsc i.hostTsc) m.lapic.timerDeadline)
      (ahead (m.vtsc i.hostTsc) m.horizon)))

/-- How a turn of the real-wait park answers one of the fast-forward park that jumps
`hop` cycles: both end the park alike, or one waits no longer than the other jumps. -/
inductive Answers (hz : UInt64) (hop : Nat) : Except Abort Turn → Except Abort Turn → Prop where
  | ended (r : Except Abort ParkOutcome) (hhop : hop = 0) :
      Answers hz hop (r.map .returned) (r.map .returned)
  | waited {turn : Turn} {timeout : Option UInt64} (hstays : Mode.afterTurn (.ok turn) = .parked)
      (hlong : ∀ ns, timeout = some ns → ns.toNat * hz.toNat ≤ hop * 1000000000) :
      Answers hz hop (.ok turn) (.ok (.waited timeout))

section Turn

variable {P : Platform U D} {m m' : Machine U D} {t : Tsc} {hops : Nat} {ff : FfState}
  {i : ParkInput} {res : Except Abort Turn}

theorem run_realTurn_quiet {now : UInt64} (hnow : m.vtsc i.hostTsc = now) (hquiet : i.Quiet)
    (hegress : m.egress = none) (hlines : m.com2.NoLine) {m₁ : Machine U D}
    (hatt : m.attended now = (.ok none, m₁)) :
    (realTurn P i).run m = (.ok (.waited (m₁.timeoutNs i.waitTsc)), m₁) := by
  subst hnow
  have hrun : (attend P i).run m = (.ok none, m₁) := (run_attend_quiet hegress hlines).trans hatt
  rw [realTurn, run_bind_ok hrun]
  dsimp only
  rw [run_read_bind, run_bind_ok (run_parkFor_quiet hquiet _)]
  rfl

theorem run_turn_ended (ff : FfState) {now : UInt64} (hnow : m.vtsc i.hostTsc = now)
    (hquiet : i.Quiet)
    (hegress : m.egress = none) (hlines : m.com2.NoLine) {r : Except Abort ParkOutcome}
    {m₁ : Machine U D} (hatt : m.attended now = (r.map some, m₁)) :
    (realTurn P i).run m = (r.map .returned, m₁) ∧
    (ffTurn P ff i).run m = (r.map .returned, m₁) := by
  subst hnow
  have hrun : (attend P i).run m = (r.map some, m₁) := (run_attend_quiet hegress hlines).trans hatt
  rw [realTurn, ffTurn, run_bind_ok (run_stdinFirst_quiet hquiet)]
  cases r with
  | error e => exact ⟨run_bind_error hrun, run_bind_error hrun⟩
  | ok o => exact ⟨run_bind_ok hrun, run_bind_ok hrun⟩

theorem run_ffTurn_quiet (ff : FfState) {now : UInt64} (hnow : m.vtsc i.hostTsc = now)
    (hquiet : i.Quiet) (hegress : m.egress = none) (hlines : m.com2.NoLine) {m₁ : Machine U D}
    (hatt : m.attended now = (.ok none, m₁)) :
    (ffTurn P ff i).run m =
      match m₁.events.peekDeadline with
      | some next => (jumpTo ff i next).run m₁
      | none => (.ok (.waited none), m₁) := by
  subst hnow
  have hrun : (attend P i).run m = (.ok none, m₁) := (run_attend_quiet hegress hlines).trans hatt
  have hgate : m₁.gated = false := by
    rw [Machine.gated, (attended_quiet hegress hlines hatt).1]
  rw [ffTurn, run_bind_ok (run_stdinFirst_quiet hquiet), run_bind_ok hrun]
  dsimp only
  rw [advance, run_read_bind, hgate]
  rcases m₁.events.peekDeadline with _ | next
  · simp only [Bool.false_eq_true, if_false]
    rw [run_bind_ok (run_parkFor_quiet hquiet none)]
    rfl
  · rfl

theorem run_jumpTo_quiet {next : UInt64} (hegress : m.egress = none)
    (hbumps : m.vtsc i.jumpTsc < next →
      (m.delta i next).toNat < 2 ^ 63 ∧ m.clock.Accepts i.kvm (m.delta i next).toInt64 m.tsc = true)
    (hbound : ∀ d, res ≠ .error (.jumpTooLong d)) (hrun : (jumpTo ff i next).run m = (res, m')) :
    (next ≤ m.vtsc i.jumpTsc ∧ res = .ok .due ∧ m' = m) ∨
      m.vtsc i.jumpTsc < next ∧ res = .ok (.jumped next) ∧
        ∃ tsc, m.clock.Bumped (m.delta i next) m.tsc tsc ∧
          m' = { m with tsc := tsc, ff := some (ff.recordHop (m.delta i next)) } := by
  -- a jump that stays within its bound goes through, and one that finds its target due moves
  -- nothing
  obtain ⟨res₁, m₁, hrun₁, hjump⟩ := run_jumpTo ff i m next
  obtain ⟨rfl, rfl⟩ := Prod.mk.inj (hrun₁.symm.trans hrun)
  cases hjump with
  | due hle => exact .inl ⟨hle, rfl, rfl⟩
  | tooLong => exact absurd rfl (hbound _)
  | breached _ hillegal =>
    rw [Machine.jumpLegal, hegress] at hillegal
    contradiction
  | negative hlater _ _ hbig => exact absurd (hbumps hlater).1 (Nat.not_lt.mpr hbig)
  | fault hlater _ _ _ hrefused =>
    have haccepted := (hbumps hlater).2
    rw [hrefused] at haccepted
    contradiction
  | jumped hlater _ _ _ hbump => exact .inr ⟨hlater, rfl, _, hbump, rfl⟩

/-- Each turn of the fast-forward park is answered by one of the real-wait park, taken
later by the hops so far, and the two machines stay the same but for the clock. -/
theorem turn_answered (hbehind : Behind hops t m) (hff : m.ff = some ff) (hquiet : i.Quiet)
    (hbumps : m.Bumps i) (hbound : ∀ d, res ≠ .error (.jumpTooLong d))
    (hrun : (parkTurn P i).run m = (res, m')) :
    ∃ res' hop, (parkTurn P ((Instants.mk (i.hostTsc.toNat + hops)
        (i.jumpTsc.toNat + hops)).input i)).run (m.real t) = (res', m'.real t) ∧
      Answers m.clock.freq.hz hop res res' ∧ Behind (hops + hop) t m' ∧ m'.clock = m.clock ∧
      ∃ ff', m'.ff = some ff' ∧ ff'.sumDeltaCycles = ff.sumDeltaCycles + hop := by
  set i' := (Instants.mk (i.hostTsc.toNat + hops) (i.jumpTsc.toNat + hops)).input i with hi'
  have hnow : (m.real t).vtsc i'.hostTsc = m.vtsc i.hostTsc := vtsc_real hbehind.offset i.hostTsc
  have hquiet' : i'.Quiet := hquiet
  rw [run_parkTurn_ff P i m hff] at hrun
  rw [run_parkTurn_real P i' (m.real t) rfl]
  rcases run_attend P i (rfl : m.vtsc i.hostTsc = _) with
    ⟨r, m₁, hattend, -, hclock, -⟩ | ⟨m₁, hattend, hatt⟩
  · -- The boundary ends both turns.
    rw [run_attend_quiet hbehind.egress hbehind.lines] at hattend
    have hreal := attended_real m t (m.vtsc i.hostTsc)
    rw [hattend] at hreal
    have hended := (run_turn_ended (P := P) ff rfl hquiet hbehind.egress hbehind.lines hattend).2
    obtain ⟨rfl, rfl⟩ := Prod.mk.inj (hended.symm.trans hrun)
    obtain ⟨hegress, hlines⟩ := attended_quiet hbehind.egress hbehind.lines hattend
    refine ⟨_, 0, (run_turn_ended (P := P) ff hnow hquiet' hbehind.egress hbehind.lines
      hreal).1, .ended r rfl, ⟨?_, hegress, hlines⟩, hclock.clock, ff, hclock.ff.trans hff, rfl⟩
    rw [hclock.offset, hclock.clock]
    exact hbehind.offset
  · rw [run_attend_quiet hbehind.egress hbehind.lines] at hattend
    have hreal := attended_real m t (m.vtsc i.hostTsc)
    rw [hattend] at hreal
    have hturn := run_ffTurn_quiet (P := P) ff rfl hquiet hbehind.egress hbehind.lines hattend
    rw [hturn] at hrun
    obtain ⟨hegress, hlines⟩ := attended_quiet hbehind.egress hbehind.lines hattend
    have hwait := run_realTurn_quiet (P := P) hnow hquiet' hbehind.egress hbehind.lines hreal
    have hoffset : m₁.offset = (m₁.clock.tscOffset t).toInt + hops := by
      rw [hatt.offset, hatt.clock]
      exact hbehind.offset
    have hsample : (m₁.real t).vtsc i'.waitTsc = m₁.vtsc i.jumpTsc := vtsc_real hoffset i.jumpTsc
    rcases hpeek : m₁.events.peekDeadline with _ | next
    · -- Nothing is queued: both wait for input.
      rw [hpeek] at hrun
      obtain ⟨rfl, rfl⟩ := Prod.mk.inj hrun
      refine ⟨_, 0, hwait, .waited rfl ?_, ⟨hoffset, hegress, hlines⟩, hatt.clock, ff,
        hatt.ff.trans hff, rfl⟩
      intro ns hns
      rw [Machine.timeoutNs, show (m₁.real t).events.peekDeadline = none from hpeek] at hns
      cases hns
    · rw [hpeek] at hrun
      have htimeout : (m₁.real t).timeoutNs i'.waitTsc =
          some (if next ≤ m₁.vtsc i.jumpTsc then 0
            else m₁.clock.freq.cyclesToNs (next - m₁.vtsc i.jumpTsc)) := by
        rw [Machine.timeoutNs, show (m₁.real t).events.peekDeadline = some next from hpeek,
          Option.map_some, hsample]
        rfl
      have hbumps₁ : m₁.vtsc i.jumpTsc < next →
          (m₁.delta i next).toNat < 2 ^ 63 ∧
            m₁.clock.Accepts i.kvm (m₁.delta i next).toInt64 m₁.tsc = true := by
        rw [Machine.delta, hatt.toSameClock.vtsc, hatt.clock, hatt.tsc]
        exact hbumps (goesOn_of_attended hattend) next (hatt.queue.symm.trans hpeek)
      rcases run_jumpTo_quiet hegress hbumps₁ hbound hrun with
        ⟨hle, rfl, rfl⟩ | ⟨hlater, rfl, tsc, hbump, rfl⟩
      · -- The head is due already: no hop, and no wait.
        refine ⟨_, 0, hwait, .waited rfl ?_, ⟨hoffset, hegress, hlines⟩, hatt.clock, ff,
          hatt.ff.trans hff, rfl⟩
        intro ns hns
        rw [htimeout, if_pos hle] at hns
        rw [← Option.some.inj hns]
        simp
      · -- The hop is what the other park waits for.
        refine ⟨_, (m₁.delta i next).toNat, hwait, .waited rfl ?_, ⟨?_, hegress, hlines⟩,
          hatt.clock, _, rfl, rfl⟩
        · intro ns hns
          rw [htimeout, if_neg (UInt64.not_le.mpr hlater)] at hns
          rw [← Option.some.inj hns, hatt.clock]
          exact m.clock.freq.cyclesToNs_le _
        · have hbumped := hbump.offset
          show (m₁.clock.tscOffset tsc).toInt = _
          rw [hbumped]
          show m₁.offset + _ = _
          rw [hoffset]
          push_cast
          omega

end Turn

/-! ## Whole executions -/

/-- The real-wait turn `r'` matches the fast-forward turn `r`: it is taken later by the
hops, at the same vtsc, and the machines are the same but for the clock. -/
structure Matched (base : Nat) (t : Tsc) (r r' : TurnRecord U D) : Prop where
  input : r'.input = (r.shifted base).input r.input
  before : r'.before = r.before.real t
  after : r'.after = r.after.real t
  now : r'.now = r.now
  outcome : r'.outcome = r.outcome

def realInputs (base : Nat) (rs : List (TurnRecord U D)) : List ParkInput :=
  rs.map fun r => (r.shifted base).input r.input

/-- What is known of every turn of a fast-forward execution: its jumps are on the
record. -/
def TurnRecord.Recorded (base : Nat) (t : Tsc) (clock : VirtualClock) (r : TurnRecord U D) : Prop :=
  r.after.clock = clock ∧ ∃ hops ff, Behind hops t r.after ∧ r.after.ff = some ff ∧
    ff.sumDeltaCycles = base + hops

section Answers

variable {hz : UInt64} {hop : Nat} {res res' : Except Abort Turn}

theorem Answers.mode (h : Answers hz hop res res') :
    Mode.afterTurn res' = .parked ↔ Mode.afterTurn res = .parked := by
  cases h with
  | ended => exact Iff.rfl
  | waited hstays => exact ⟨fun _ => hstays, fun _ => rfl⟩

theorem Answers.outcome (h : Answers hz hop res res') {m m' n n' : Machine U D}
    {i j : ParkInput} :
    (⟨n, j, res', n'⟩ : TurnRecord U D).outcome = (⟨m, i, res, m'⟩ : TurnRecord U D).outcome := by
  cases h with
  | ended r =>
    cases r with
    | error e => rfl
    | ok o => rfl
  | @waited turn timeout hstays =>
    cases turn with
    | returned o => cases o <;> contradiction
    | _ => rfl

theorem Answers.wait_le (h : Answers hz hop res res') (n : Machine U D) (j : ParkInput)
    (n' : Machine U D) :
    (⟨n, j, res', n'⟩ : TurnRecord U D).waitNs * hz.toNat ≤ hop * 1000000000 := by
  cases h with
  | ended r =>
    cases r with
    | error e | ok o => simp [TurnRecord.waitNs, Except.map]
  | @waited turn timeout _ hlong =>
    cases timeout with
    | none => simp [TurnRecord.waitNs]
    | some ns => exact hlong ns rfl

end Answers

/-- A fast-forward execution and its match, from a state that is `hops` ahead. -/
theorem run_matched {P : Platform U D} {t : Tsc} {base : Nat} {hz : UInt64} (is : List ParkInput) :
    ∀ {m : Machine U D} {ff : FfState} {hops earliest : Nat} {last : UInt64},
      Behind hops t m → m.ff = some ff → ff.sumDeltaCycles = base + hops →
      m.clock.freq.hz = hz → (∀ i ∈ is, i.Quiet) → Nondecreasing last is →
      (∀ r ∈ parkRun P m is, r.before.Bumps r.input) →
      (∀ r ∈ parkRun P m is, r.tooLong = false) →
      earliest ≤ (last.toNat + hops) * 1000000000 →
      List.Forall₂ (Matched base t) (parkRun P m is)
          (parkRun P (m.real t) (realInputs base (parkRun P m is))) ∧
        Punctual hz earliest (((parkRun P m is).map (·.shifted base)).zip
          (parkRun P (m.real t) (realInputs base (parkRun P m is)))) ∧
        ∀ r ∈ parkRun P m is, r.Recorded base t m.clock := by
  induction is with
  | nil =>
    intro m ff hops earliest last _ _ _ _ _ _ _ _ _
    exact ⟨.nil, trivial, by simp [parkRun]⟩
  | cons i is ih =>
    intro m ff hops earliest last hbehind hff hsum hhz hquiet hclock hbumps hbound hearliest
    obtain ⟨hlast, hjump, hrest⟩ := hclock
    rcases hrun : (parkTurn P i).run m with ⟨res, m'⟩
    have hunfold : parkRun P m (i :: is) = ⟨m, i, res, m'⟩ ::
        (if Mode.afterTurn res = .parked then parkRun P m' is else []) := by
      rw [parkRun, hrun]
    rw [hunfold] at hbumps hbound ⊢
    have hbumps₀ : m.Bumps i := hbumps ⟨m, i, res, m'⟩ List.mem_cons_self
    have hbound₀ : ∀ d, res ≠ .error (.jumpTooLong d) := by
      rintro d rfl
      have hlong := hbound ⟨m, i, _, m'⟩ List.mem_cons_self
      contradiction
    obtain ⟨res', hop, hrun', hanswer, hbehind', hsame, ff', hff', hsum'⟩ :=
      turn_answered hbehind hff (hquiet i List.mem_cons_self) hbumps₀ hbound₀ hrun
    have hhops : (⟨m, i, res, m'⟩ : TurnRecord U D).hops - base = hops := by
      simp only [TurnRecord.hops, hff, Option.map_some, Option.getD_some]
      omega
    have hshift : (⟨m, i, res, m'⟩ : TurnRecord U D).shifted base =
        ⟨i.hostTsc.toNat + hops, i.jumpTsc.toNat + hops⟩ := by
      rw [TurnRecord.shifted, hhops]
    have hunfold' : ∀ tail, parkRun P (m.real t) (realInputs base (⟨m, i, res, m'⟩ :: tail)) =
        ⟨m.real t, (Instants.mk (i.hostTsc.toNat + hops) (i.jumpTsc.toNat + hops)).input i, res',
            m'.real t⟩ ::
          (if Mode.afterTurn res' = .parked then parkRun P (m'.real t) (realInputs base tail)
            else []) := by
      intro tail
      rw [realInputs, List.map_cons, parkRun]
      dsimp only
      rw [hshift, hrun']
      rfl
    have hmatched : Matched base t ⟨m, i, res, m'⟩ ⟨m.real t, (Instants.mk (i.hostTsc.toNat + hops)
        (i.jumpTsc.toNat + hops)).input i, res', m'.real t⟩ :=
      ⟨by rw [hshift], rfl, rfl, vtsc_real hbehind.offset i.hostTsc, hanswer.outcome⟩
    have hrecorded : (⟨m, i, res, m'⟩ : TurnRecord U D).Recorded base t m.clock :=
      ⟨hsame, hops + hop, ff', hbehind', hff', by omega⟩
    have hfirst : earliest ≤ (i.hostTsc.toNat + hops) * 1000000000 := by
      have hle := UInt64.le_iff_toNat_le.mp hlast
      exact hearliest.trans (Nat.mul_le_mul_right _ (Nat.add_le_add_right hle hops))
    have hjump' := UInt64.le_iff_toNat_le.mp hjump
    rw [hunfold']
    by_cases hstays : Mode.afterTurn res = .parked
    · simp only [if_pos hstays, if_pos (hanswer.mode.mpr hstays)] at hbumps hbound ⊢
      -- The next boundary comes after the wait: the clock is ahead by the hop.
      have hnext : (i.jumpTsc.toNat + hops) * 1000000000 +
          (⟨m.real t, (Instants.mk (i.hostTsc.toNat + hops) (i.jumpTsc.toNat + hops)).input i,
            res', m'.real t⟩ : TurnRecord U D).waitNs * hz.toNat ≤
          (i.jumpTsc.toNat + (hops + hop)) * 1000000000 := by
        have hwait := hanswer.wait_le (m.real t)
          ((Instants.mk (i.hostTsc.toNat + hops) (i.jumpTsc.toNat + hops)).input i) (m'.real t)
        rw [hhz] at hwait
        omega
      obtain ⟨hall, hpunctual, hrec⟩ := ih hbehind' hff' (by omega) (hsame ▸ hhz)
        (fun j hj => hquiet j (List.mem_cons_of_mem _ hj)) hrest
        (fun r hr => hbumps r (List.mem_cons_of_mem _ hr))
        (fun r hr => hbound r (List.mem_cons_of_mem _ hr)) hnext
      refine ⟨.cons hmatched hall, ?_, ?_⟩
      · rw [List.map_cons, List.zip_cons_cons, hshift]
        exact ⟨hfirst, by dsimp only; omega, hpunctual⟩
      · intro r hr
        rcases List.mem_cons.mp hr with rfl | hr
        · exact hrecorded
        · exact hsame ▸ hrec r hr
    · simp only [if_neg hstays, if_neg (fun hpark => hstays (hanswer.mode.mp hpark))]
      refine ⟨.cons hmatched .nil, ?_, ?_⟩
      · rw [List.map_cons, List.zip_cons_cons, hshift]
        exact ⟨hfirst, by dsimp only; omega, trivial⟩
      · intro r hr
        rw [List.mem_singleton.mp hr]
        exact hrecorded

theorem map_eq_of_matched {α : Type} {R : TurnRecord U D → TurnRecord U D → Prop}
    {f : TurnRecord U D → α} {rs rr : List (TurnRecord U D)} (h : List.Forall₂ R rs rr)
    (hf : ∀ r r', R r r' → f r' = f r) : rr.map f = rs.map f := by
  induction h with
  | nil => rfl
  | cons hr _ ih => rw [List.map_cons, List.map_cons, hf _ _ hr, ih]

theorem Matched.fired {base : Nat} {t : Tsc} {r r' : TurnRecord U D} (h : Matched base t r r') :
    r'.fired = r.fired := by
  rw [TurnRecord.fired, TurnRecord.fired, h.now, h.before]
  rfl

theorem fires_eq (rs : List (TurnRecord U D)) :
    fires rs = (rs.map TurnRecord.fired).filterMap id := by
  rw [fires, List.filterMap_map]
  rfl

theorem parkOutcome_eq (rs : List (TurnRecord U D)) :
    parkOutcome rs = (rs.map TurnRecord.outcome).getLast?.bind id := by
  rw [parkOutcome, List.getLast?_map]
  cases rs.getLast? <;> rfl

theorem vtsc_elapsed {m m' : Machine U D} {hops : Nat} (h : m'.offset = m.offset + hops)
    (host host' : UInt64) :
    m'.vtsc host' - m.vtsc host = (host' - host) + UInt64.ofNat hops := by
  have hsum : ∀ (n : Machine U D) (x : UInt64), n.vtsc x = x + UInt64.ofInt n.offset := by
    intro n x
    show UInt64.ofInt (x.toNat + n.offset) = _
    rw [UInt64.ofInt_add, ofInt_toNat]
  rw [hsum, hsum, h, UInt64.ofInt_add]
  have hcast : UInt64.ofInt (hops : Int) = UInt64.ofNat hops := by
    apply UInt64.toNat.inj
    simp only [UInt64.ofInt, UInt64.toNat_ofNat']
    omega
  rw [hcast]
  grind

/-- A fast-forward park whose jumps all go through and that does not abort on the
bound is matched, turn by turn, by the real-wait park on a host clock that is ahead by
the jumps so far: the timer fires at the same vtscs and the outcome is the same. The
waits of the match are punctual, and virtual time is host time and the jumps. -/
theorem fast_forward_matches (P : Platform U D) (m : Machine U D) (ff : FfState)
    (is : List ParkInput) (start : UInt64) (hff : m.ff = some ff) (hegress : m.egress = none)
    (hlines : m.com2.NoLine) (hquiet : ∀ i ∈ is, i.Quiet) (hclock : Nondecreasing start is)
    (hbound : ∀ r ∈ parkRun P m is, r.tooLong = false)
    (hbumps : ∀ r ∈ parkRun P m is, r.before.Bumps r.input) :
    let rs := parkRun P m is
    let rr := parkRun P { m with ff := none } (realInputs ff.sumDeltaCycles rs)
    fires rr = fires rs ∧ parkOutcome rr = parkOutcome rs ∧
      List.Forall₂ (Matched ff.sumDeltaCycles m.tsc) rs rr ∧
      Punctual m.clock.freq.hz (start.toNat * 1000000000)
        ((rs.map (·.shifted ff.sumDeltaCycles)).zip rr) ∧
      ∀ r ∈ rs, ∃ hops ff', r.after.ff = some ff' ∧
        ff'.sumDeltaCycles = ff.sumDeltaCycles + hops ∧
        ∀ host host', r.after.vtsc host' - m.vtsc host = (host' - host) + UInt64.ofNat hops := by
  have hbehind : Behind 0 m.tsc m := ⟨by simp [Machine.offset], hegress, hlines⟩
  obtain ⟨hall, hpunctual, hrec⟩ := run_matched (P := P) (t := m.tsc) is hbehind hff rfl rfl hquiet
    hclock hbumps hbound (Nat.le_refl _)
  refine ⟨?_, ?_, hall, hpunctual, ?_⟩
  · rw [fires_eq, fires_eq]
    exact congrArg (List.filterMap id) (map_eq_of_matched hall fun r r' hr => hr.fired)
  · rw [parkOutcome_eq, parkOutcome_eq]
    exact congrArg (fun l => l.getLast?.bind id)
      (map_eq_of_matched hall fun r r' hr => hr.outcome)
  · intro r hr
    obtain ⟨hsame, hops, ff', hbehind', hff', hsum⟩ := hrec r hr
    refine ⟨hops, ff', hff', hsum, fun host host' => vtsc_elapsed ?_ host host'⟩
    rw [hbehind'.offset, hsame]
    rfl

/-- A guest that starts a periodic timer and halts with its LAPIC disabled, with
fast-forward on and a horizon. -/
def idleGuest : Machine Unit Unit :=
  (run Platform.bare (.bare 0 false (some 1000) (some 5000))
    [lapicWrite 5 REG_LVT_TIMER 0x20020, lapicWrite 10 REG_TIMER_ICT 100, halt 20]).machine

theorem fast_forward_matches_idleGuest :
    let rs := parkRun Platform.bare idleGuest [.bare 30 40, .bare 50 60, .bare 70 70]
    let rr := parkRun Platform.bare { idleGuest with ff := none } (realInputs 0 rs)
    fires rs = [220, 5010] ∧ parkOutcome rs = some (.ok .horizon) ∧
      fires rr = fires rs ∧ parkOutcome rr = parkOutcome rs := by
  -- the park jumps to the first period; the vector is not deliverable, the timer re-arms and the
  -- park jumps to the horizon
  intro rs rr
  have hmatch := fast_forward_matches Platform.bare idleGuest ⟨1000, 0, 0, 0⟩
    [.bare 30 40, .bare 50 60, .bare 70 70] 20 (by decide +kernel) (by decide +kernel)
    (by decide +kernel) (by decide +kernel) (by decide +kernel) (by decide +kernel)
    (by decide +kernel)
  exact ⟨by decide +kernel, by decide +kernel, hmatch.1, hmatch.2.1⟩

/-! ## Where the match fails -/

theorem RealTurn.no_panic {i : ParkInput} {m m' : Machine U D} {res : Except Abort Turn}
    (h : RealTurn i m res m') (p : Panic) : res ≠ .error (.panicked p) := by
  cases h with
  | ended hend =>
    cases hend with
    | stuck | egress => simp [Except.map]
    | horizon | returned => simp [Except.map]
  | waited | parkFailed => simp

theorem parkRun_real_no_panic {P : Platform U D} (is : List ParkInput) {m : Machine U D}
    (hff : m.ff = none) : ∀ r ∈ parkRun P m is, ∀ p, r.result ≠ .error (.panicked p) := by
  induction is generalizing m with
  | nil => simp [parkRun]
  | cons i is ih =>
    obtain ⟨res, m', hrun, hturn⟩ := run_realTurn P i m
    rw [← run_parkTurn_real P i m hff] at hrun
    have hff' : m'.ff = none := by
      cases hturn with
      | ended _ hclock => exact hclock.ff.trans hff
      | waited hatt hframe | parkFailed hatt hframe =>
        exact hframe.ff.trans (hatt.ff.trans hff)
    intro r hr p
    rw [parkRun, hrun] at hr
    rcases List.mem_cons.mp hr with rfl | hr
    · exact hturn.no_panic p
    · split_ifs at hr
      · exact ih hff' r hr p
      · contradiction

theorem parkOutcome_no_panic {rs : List (TurnRecord U D)} {p : Panic}
    (h : ∀ r ∈ rs, r.result ≠ .error (.panicked p)) :
    parkOutcome rs ≠ some (.error (.panicked p)) := by
  intro hout
  obtain ⟨r, hlast, hr⟩ := Option.bind_eq_some_iff.mp hout
  have hresult : r.result = .error (.panicked p) := by
    unfold TurnRecord.outcome at hr
    split at hr
    · simp at hr
    · contradiction
    · rename_i a hres
      rw [hres, Except.error.inj (Option.some.inj hr)]
  exact h r (List.mem_of_getLast? hlast) hresult

/-- With the horizon `2 ^ 63` cycles away and nothing armed, the fast-forward park
panics in its first turn, on the assert on the advance; the bound lets the jump pass.
No real-wait execution panics. -/
theorem horizon_jump_panics :
    let m := (Config.bare 0 false (some 1000) (some (2 ^ 63))).machine
    parkOutcome (parkRun Platform.bare m [.bare 0 0]) =
        some (.error (.panicked (.negativeAdvance Int64.minValue))) ∧
      ∀ is, parkOutcome (parkRun Platform.bare { m with ff := none } is) ≠
        some (.error (.panicked (.negativeAdvance Int64.minValue))) := by
  intro m
  refine ⟨by decide +kernel, ?_⟩
  intro is
  have hreal : ({ m with ff := none } : Machine Unit Unit).ff = none := rfl
  exact parkOutcome_no_panic fun r hr => parkRun_real_no_panic is hreal r hr _

end Tdvmm.Vmm
