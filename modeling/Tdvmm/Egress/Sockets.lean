import Tdvmm.Egress.Refine

/-!
# Egress.Sockets — no orphan external state

The backend keeps two tables, the sessions and the ids being resolved; the connector keeps the
sockets and the queries. The invariant `Accounted` of a stream ties its two tables to what the
connector holds, by the history of the calls made to it, and names the session that an answer
belongs to.

1. `Accounted` holds in every view a stream can reach when the connector is calm.
2. A connect is only ever started for the session that asked (`ConnectsOwn`).
3. A quiescent backend has no socket and no query left outside.
-/

namespace Tdvmm.Egress

open Lib Tdvmm.Proto Relation

/-! ## Which session a resolve belongs to -/

/-- The number of sessions a stream has had, and the numbers of those whose
resolve was started and has not been acted on. -/
structure Pending where
  sessions : Nat
  waiting : List Nat
deriving DecidableEq, Repr

def Pending.step (p : Pending) : Ev → Pending
  | .opened _ => { p with sessions := p.sessions + 1 }
  | .startResolve _ _ _ => { p with waiting := p.waiting ++ [p.sessions] }
  | .harvest _ => { p with waiting := p.waiting.tail }
  | _ => p

def pending (h : List Ev) : Pending := h.foldl Pending.step ⟨0, []⟩

theorem pending_append {h es : List Ev} :
    pending (h ++ es) = es.foldl Pending.step (pending h) :=
  List.foldl_append

/-- A connect is started by an answer that was acted on right before; the one
resolve then outstanding was the latest session's, and that session was alive. -/
def ConnectsOwn (pre : List Ev) : Ev → Prop
  | .startConnect id addr _ =>
    ∃ pre', pre = pre' ++ [.harvest ⟨id, some addr⟩] ∧
      (pending pre').waiting = [(pending pre').sessions] ∧ (incarnation pre').isSome
  | _ => True

/-! ## The invariant of one stream -/

/-- The tables of the backend account for what the connector holds. -/
structure Accounted (v : StreamView) : Prop where
  socket : hasSocket v.hist = true ↔ ∃ s, v.sess = some s ∧ s.state ≠ .resolving
  alive : (incarnation v.hist).isSome = v.sess.isSome
  waits : (pending v.hist).waiting.length = if v.resolving then 1 else 0
  own : ∀ s, v.sess = some s → s.state = .resolving →
    (pending v.hist).waiting = [(pending v.hist).sessions]
  count : started v.hist = harvested v.hist + (pending v.hist).waiting.length

theorem init_accounted : Accounted .init := by
  refine ⟨?_, rfl, rfl, ?_, rfl⟩ <;> simp [StreamView.init, hasSocket]

variable {calm : Prop} {id : StreamId} {v v' : StreamView}

theorem socket_step (hcalm : calm) (hstep : StreamStep calm id v v')
    (hinv : hasSocket v.hist = true ↔ ∃ s, v.sess = some s ∧ s.state ≠ .resolving) :
    hasSocket v'.hist = true ↔ ∃ s, v'.sess = some s ∧ s.state ≠ .resolving := by
  cases hstep with
  | @reject sess | @drop sess =>
    cases sess <;> simp_all [hasSocket_append, trackSocket, ended]
  | @connected s =>
    cases hclosed : s.guestWriteClosed <;>
      simp_all [hasSocket_append, trackSocket, Session.connected]
  | @close s =>
    by_cases hst : s.state = .established <;>
      simp_all [hasSocket_append, trackSocket, Session.closeGuest]
  | @eof s =>
    by_cases hst : s.state = .established <;>
      simp_all [hasSocket_append, trackSocket, Session.closeHost]
  | _ => simp_all [hasSocket_append, trackSocket, Session.newResolving]

theorem alive_step (hstep : StreamStep calm id v v')
    (hinv : (incarnation v.hist).isSome = v.sess.isSome) :
    (incarnation v'.hist).isSome = v'.sess.isSome := by
  cases hstep with
  | @reject sess | @drop sess => cases sess <;> simp_all [incarnation_append, track, ended]
  | @connected s =>
    cases hclosed : s.guestWriteClosed <;> simp_all [incarnation_append, track]
  | _ => simp_all [incarnation_append, track]

theorem Accounted.resolving_of_lt (hinv : Accounted v)
    (hlt : harvested v.hist < started v.hist) : v.resolving = true := by
  have hcount := hinv.count
  have hwaits := hinv.waits
  by_contra hr
  rw [if_neg hr] at hwaits
  omega

theorem waits_step (hcalm : calm) (hstep : StreamStep calm id v v') (hinv : Accounted v) :
    (pending v'.hist).waiting.length = if v'.resolving then 1 else 0 := by
  have hwaits := hinv.waits
  have hres := hinv.resolving_of_lt
  cases hstep with
  | @reject sess | @drop sess => cases sess <;> simp_all [pending_append, Pending.step, ended]
  | @connected s => cases hclosed : s.guestWriteClosed <;> simp_all [pending_append, Pending.step]
  | _ => simp_all [pending_append, Pending.step]

theorem own_step (hcalm : calm) (hstep : StreamStep calm id v v') (hinv : Accounted v) :
    ∀ s, v'.sess = some s → s.state = .resolving →
      (pending v'.hist).waiting = [(pending v'.hist).sessions] := by
  have hwaits := hinv.waits
  have hown := hinv.own
  cases hstep with
  | @connected s =>
    cases hclosed : s.guestWriteClosed <;> simp_all [Session.connected]
  | @close s =>
    by_cases hst : s.state = .established <;>
      simp_all [pending_append, Pending.step, Session.closeGuest]
  | @eof s _ _ hopen =>
    rcases hopen with hst | hst <;> simp_all [Session.closeHost]
  | _ => simp_all [pending_append, Pending.step]

theorem count_step (hcalm : calm) (hstep : StreamStep calm id v v') (hinv : Accounted v) :
    started v'.hist = harvested v'.hist + (pending v'.hist).waiting.length := by
  have hcount := hinv.count
  cases hstep with
  | @reject sess | @drop sess =>
    cases sess <;> simp_all [pending_append, Pending.step, ended, Ev.isStart, Ev.isHarvest]
  | @connected s =>
    cases hclosed : s.guestWriteClosed <;>
      simp_all [pending_append, Pending.step, Ev.isStart, Ev.isHarvest]
  | accept =>
    simp_all [pending_append, Pending.step, Ev.isStart, Ev.isHarvest]
    omega
  | stale hlt | unresolved hlt | unreachable hlt | connect hlt =>
    -- an answer: the resolve it belongs to is still waited for
    have hlt := hlt hcalm
    simp_all [pending_append, Pending.step, Ev.isStart, Ev.isHarvest]
    omega
  | _ => simp_all [pending_append, Pending.step, Ev.isStart, Ev.isHarvest]

theorem step_accounted (hcalm : calm) (hstep : StreamStep calm id v v') (hinv : Accounted v) :
    Accounted v' where
  socket := socket_step hcalm hstep hinv.socket
  alive := alive_step hstep hinv.alive
  waits := waits_step hcalm hstep hinv
  own := own_step hcalm hstep hinv
  count := count_step hcalm hstep hinv

/-! ## Connects -/

theorem step_connectsOwn (hstep : StreamStep calm id v v') (hinv : Accounted v)
    (heach : Each ConnectsOwn v.hist) : Each ConnectsOwn v'.hist := by
  cases hstep with
  | @unreachable s _ h _ _ hst | @connect s _ h _ _ hst | @connectStuck s _ h _ _ hst =>
    -- the session is resolving, so the resolve waited for is its own
    have hown := hinv.own s rfl hst
    have halive := hinv.alive
    refine each_append.mpr ⟨heach, trivial, ⟨h, rfl, hown, halive⟩, ?_⟩
    simp [ConnectsOwn]
  | @reject sess | @drop sess =>
    refine each_append.mpr ⟨heach, ?_⟩
    cases sess <;> simp [ended, ConnectsOwn]
  | @connected s =>
    refine each_append.mpr ⟨heach, ?_⟩
    cases hclosed : s.guestWriteClosed <;> simp [ConnectsOwn]
  | _ =>
    refine each_append.mpr ⟨heach, ?_⟩
    simp [ConnectsOwn]

/-! ## Runs -/

theorem steps_accounted (hcalm : calm) (hsteps : StreamSteps calm id .init v) :
    Accounted v ∧ Each ConnectsOwn v.hist := by
  refine run_invariant (I := fun v => Accounted v ∧ Each ConnectsOwn v.hist) ?_ hsteps
    ⟨init_accounted, each_nil⟩
  rintro v v' hstep ⟨hinv, heach⟩
  exact ⟨step_accounted hcalm hstep hinv, step_connectsOwn hstep hinv heach⟩

/-- **No orphan external state.** After any sequence of pumps with a calm
connector: the ids that hold a socket are those of the sessions in `Connecting`,
`Established` or `HalfClosed`; the resolving set is the set of ids with a resolve
started and not acted on, which is at most one per id, and contains every session
in `Resolving`; a connect is only started for the session whose `OPEN` started
the resolve that was answered; and a quiescent backend leaves neither a socket
nor a query outside. -/
theorem no_orphan_external_state {b : Backend} (hb : Reachable Env.Calm b) (id : StreamId) :
    (hasSocket (about id b.hist) = true ↔ ∃ s, b.sessions[id]? = some s ∧
      (s.state = .connecting ∨ s.state = .established ∨ s.state = .halfClosed)) ∧
    started (about id b.hist) =
      harvested (about id b.hist) + (if b.resolving.contains id then 1 else 0) ∧
    (∀ s, b.sessions[id]? = some s → s.state = .resolving → b.resolving.contains id = true) ∧
    (∀ pre e, pre ++ [e] <+: about id b.hist → ConnectsOwn pre e) ∧
    (b.isQuiescent = true → hasSocket (about id b.hist) = false ∧
      started (about id b.hist) = harvested (about id b.hist)) := by
  have hsteps : StreamSteps True id .init (b.view id) :=
    (hb.streams fun _ henv _ => henv).1 id
  obtain ⟨hinv, heach⟩ := steps_accounted trivial hsteps
  have hcount : started (about id b.hist) =
      harvested (about id b.hist) + (if b.resolving.contains id then 1 else 0) := by
    have h := hinv.count
    rw [hinv.waits] at h
    exact h
  have hsocket := hinv.socket
  refine ⟨?_, hcount, ?_, heach, ?_⟩
  · refine hsocket.trans ⟨?_, ?_⟩
    · rintro ⟨s, hs, hst⟩
      refine ⟨s, hs, ?_⟩
      cases hstate : s.state with
      | resolving => exact absurd hstate hst
      | connecting => exact .inl rfl
      | established => exact .inr (.inl rfl)
      | halfClosed => exact .inr (.inr rfl)
    · rintro ⟨s, hs, hst⟩
      refine ⟨s, hs, fun h => ?_⟩
      rw [h] at hst
      rcases hst with h | h | h <;> cases h
  · intro s hs hst
    have hwaits := hinv.waits
    rw [hinv.own s hs hst] at hwaits
    by_contra hr
    have hr' : (b.view id).resolving ≠ true := hr
    rw [if_neg hr'] at hwaits
    cases hwaits
  · -- quiescent means that both tables are empty
    intro hq
    simp only [Backend.isQuiescent, Bool.and_eq_true] at hq
    obtain ⟨⟨⟨hsess, hres⟩, -⟩, -⟩ := hq
    constructor
    · rw [Bool.eq_false_iff]
      intro hheld
      obtain ⟨s, hs, -⟩ := hsocket.mp hheld
      have hempty : b.sessions = ∅ := by simpa using hsess
      have hs' : b.sessions[id]? = some s := hs
      rw [hempty] at hs'
      simp at hs'
    · have hempty : b.resolving = ∅ := by simpa using hres
      rw [hcount, hempty]
      simp

/-- A stream is opened: its socket is in the connector's table. -/
theorem no_orphan_external_state_open :
    hasSocket (about 7 ((pump (Env.prompt 7 ⟨[127, 0, 0, 1], 80⟩)
      (frameBytes [.openTo 7 80 [104]])).run .init).2.hist) = true :=
  (no_orphan_external_state (.pump _ .init (prompt_calm 7 _)) 7).1.mpr
    ⟨{ Session.newResolving with state := .established, epollMask := 1 },
      by decide +kernel, .inr (.inl rfl)⟩

end Tdvmm.Egress
