import Tdvmm.Vmm.Turns

/-!
# Vmm.Gate — the egress phase gate

A fast-forward jump skips real time. While the egress channel holds live external state that
would break the connections behind it, so every write of the TSC offset must find egress off or
all of its state empty: no session, no lookup, no unparsed guest bytes, nothing on its way to
the guest, and nothing in the COM4 capture buffer.

The quiescence test of the source covers the first four. The fifth is emptied by the pump of the
same turn, and the guest does not run between that pump and the write.
-/

namespace Tdvmm.Vmm

open Lib Proto Egress

variable {U D : Type}

structure EgressChannel.Empty (eg : EgressChannel U) : Prop where
  sessions : eg.backend.sessions = ∅
  resolving : eg.backend.resolving = ∅
  unparsed : eg.backend.rxParse = []
  pending : eg.backend.txPending = []
  captured : eg.serial.tx = []

/-- Egress is off, or nothing of the outside world is in it. -/
def Machine.Quiet (m : Machine U D) : Prop := ∀ eg, m.egress = some eg → eg.Empty

/-- The turn wrote the TSC offset: KVM took the write, or it was asked and refused. -/
def TurnRecord.Wrote (r : TurnRecord U D) : Prop :=
  (∃ target, r.result = .ok (.jumped target)) ∨ r.result = .error (.vtsc .writeFailed)

/-- The turn waited at real rate (for no time at all if its target was due), returned,
or aborted the run. -/
def TurnRecord.Held (r : TurnRecord U D) : Prop :=
  (∃ timeout, r.result = .ok (.waited timeout)) ∨ r.result = .ok .due ∨
    (∃ o, r.result = .ok (.returned o)) ∨ ∃ a, r.result = .error a

/-- What the gate demands of a turn: the state a write finds is quiet, and a turn
that ends in any other state was held with both offsets as they were. A turn that
writes changes nothing but the clock and its accounting afterwards, so the state
it ends in is the state the write found. -/
structure TurnRecord.Gated (r : TurnRecord U D) : Prop where
  quiet : r.Wrote → r.after.Quiet
  held : ¬ r.after.Quiet → r.Held ∧ r.after.tsc = r.before.tsc

theorem isQuiescent_iff (b : Backend) :
    b.isQuiescent = true ↔
      b.sessions = ∅ ∧ b.resolving = ∅ ∧ b.rxParse = [] ∧ b.txPending = [] := by
  simp [Backend.isQuiescent, Std.ExtTreeMap.isEmpty_iff, Std.ExtTreeSet.isEmpty_iff, and_assoc]

variable {now : UInt64} {m m' m₁ : Machine U D} {i : ParkInput}

theorem quiet_of_jumpLegal (hatt : Attended now m m₁)
    (hlegal : m₁.jumpLegal = true) : m₁.Quiet := by
  -- an attended turn whose jump is legal is in a quiet state: the backend is quiescent and the
  -- pump has emptied the capture buffer
  intro eg heg
  have hquiescent : eg.backend.isQuiescent = true := by
    simpa [Machine.jumpLegal, heg, ffJumpAllowed] using hlegal
  obtain ⟨hsessions, hresolving, hparse, hpending⟩ := (isQuiescent_iff eg.backend).mp hquiescent
  exact ⟨hsessions, hresolving, hparse, hpending, hatt.captured eg heg⟩

/-- A turn that leaves the clock alone and does not come to a write is gated. -/
theorem gated_of_held {r : TurnRecord U D} (hwrote : ¬ r.Wrote) (hheld : r.Held)
    (hclock : r.before.SameClock r.after) : r.Gated :=
  ⟨fun h => absurd h hwrote, fun _ => ⟨hheld, hclock.tsc⟩⟩

theorem gated_of_ended
    {r : Except Abort ParkOutcome} (hend : EndsEarly now m r) (hclock : m.SameClock m') :
    TurnRecord.Gated ⟨m, i, r.map .returned, m'⟩ := by
  apply gated_of_held
  · cases hend <;> simp [TurnRecord.Wrote, Except.map]
  · cases hend <;> simp [TurnRecord.Held, Except.map]
  · exact hclock

theorem gated_of_jumped {ff : FfState} {next : UInt64}
    {res : Except Abort Turn} (hatt : Attended now m m₁)
    (hjump : Jumped ff i m₁ next res m') : TurnRecord.Gated ⟨m, i, res, m'⟩ := by
  have hclock := hatt.toSameClock
  cases hjump with
  | due hle | tooLong hlater hhor hbig | breached hlater hillegal
  | negative hlater hlegal hbound hbig =>
    exact gated_of_held (by simp [TurnRecord.Wrote]) (by simp [TurnRecord.Held]) hclock
  | fault hlater hlegal hsmall hfault =>
    -- The write may have been asked for: the assert has passed before it.
    have hquiet := quiet_of_jumpLegal hatt hlegal
    exact ⟨fun _ => hquiet, fun h => absurd hquiet h⟩
  | jumped hlater hlegal hbound hsmall hbump =>
    have hquiet := quiet_of_jumpLegal hatt hlegal
    exact ⟨fun _ => hquiet, fun h => absurd hquiet h⟩

theorem gated_of_advanced {ff : FfState}
    {res : Except Abort Turn} (hatt : Attended now m m₁) (hadv : Advanced ff i m₁ res m') :
    TurnRecord.Gated ⟨m, i, res, m'⟩ := by
  have hclock := hatt.toSameClock
  cases hadv with
  | gated hgate hframe | idle hgate hpeek hframe | parkFailed hframe =>
    exact gated_of_held (by simp [TurnRecord.Wrote]) (by simp [TurnRecord.Held])
      (hclock.trans hframe.toSameClock)
  | jump hgate hpeek hjump => exact gated_of_jumped hatt hjump

theorem gated_of_taken {P : Platform U D} {r : TurnRecord U D} (h : r.Taken P) : r.Gated := by
  obtain ⟨m, i, res, m'⟩ := r
  rcases h.cases with ⟨ff, -, hturn⟩ | ⟨-, hturn⟩
  · replace hturn : FfTurn ff i m res m' := hturn
    cases hturn with
    | pollFailed hframe =>
      exact gated_of_held (by simp [TurnRecord.Wrote]) (by simp [TurnRecord.Held])
        hframe.toSameClock
    | ended hend hclock hserviced => exact gated_of_ended hend hclock
    | advanced hatt hadv => exact gated_of_advanced hatt hadv
  · replace hturn : RealTurn i m res m' := hturn
    cases hturn with
    | ended hend hclock hserviced => exact gated_of_ended hend hclock
    | waited hatt hframe | parkFailed hatt hframe =>
      exact gated_of_held (by simp [TurnRecord.Wrote]) (by simp [TurnRecord.Held])
        (hatt.toSameClock.trans hframe.toSameClock)

/-- The phase gate: in every run, whatever the guest, the sockets, the resolver and
the console do, with or without egress and with the unsafe-jumps switch on or off,
each turn of a park writes the TSC offset only in a quiet state and is held with
the offset unchanged in any other. -/
theorem offset_written_only_when_quiet (P : Platform U D) (c : Config U D) (is : List Input) :
    ∀ r ∈ (run P c is).turns, r.Gated := by
  intro r hr
  exact gated_of_taken (run_turns_taken P c is r hr)

/-- With egress on, the guest arms its timer and halts; the park jumps to the
deadline and the timer wakes the guest. Then the guest writes the first byte of a
frame to COM4 and halts again. -/
def gateRun : RunState Unit Unit :=
  run Platform.bare (Config.bare 0 true (some 1000) none)
    [lapicWrite 1 REG_SVR 0x1ff, lapicWrite 2 REG_LVT_TIMER 0x30, lapicWrite 10 REG_TIMER_ICT 100,
      halt 11, .park (.bare 20 30), .park (.bare 31 31),
      .loop (.bare 32 (.ioOut SERIAL4_PORT_BASE [1])), halt 33, .park (.bare 34 34)]

theorem offset_written_only_when_quiet_gateRun :
    ∃ first ∈ gateRun.turns, ∃ last ∈ gateRun.turns,
      first.result = .ok (.jumped 210) ∧ last.result = .ok (.waited none) ∧
        first.Gated ∧ last.Gated := by
  -- the first turn of the run writes the offset, the last one is held by the byte that waits to
  -- be parsed
  have hresults : gateRun.turns.map (·.result) =
      [.ok (.jumped 210), .ok (.returned .deliverable), .ok (.waited none)] := by decide +kernel
  have hjump : .ok (.jumped 210) ∈ gateRun.turns.map (·.result) := by simp [hresults]
  have hwait : .ok (.waited none) ∈ gateRun.turns.map (·.result) := by simp [hresults]
  obtain ⟨first, hfirst, hjumped⟩ := List.mem_map.mp hjump
  obtain ⟨last, hlast, hwaited⟩ := List.mem_map.mp hwait
  exact ⟨first, hfirst, last, hlast, hjumped, hwaited,
    offset_written_only_when_quiet _ _ _ first hfirst,
    offset_written_only_when_quiet _ _ _ last hlast⟩

end Tdvmm.Vmm
