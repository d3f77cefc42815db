import Tdvmm.Egress.Refine

/-!
# Egress.Upstream — the bytes from the guest to the socket

Within the life of a session, the bytes written to its socket followed by those still buffered
are the `DATA` payloads in order (`Upstream`), whatever the pumps are split into and whatever
the socket accepts.

The write side of the socket is another matter: `handle_close` and the completion of a connect
shut it down at once, whatever is still buffered. `delivered_iff_flushed` is the exact condition
under which no shutdown overtakes data: at every such point the buffer is already empty.
-/

namespace Tdvmm.Egress

open Lib Tdvmm.Proto Relation

/-! ## What is delivered -/

section History

variable {h h' : List Ev} {e : Ev}

@[simp] theorem guestData_nil : guestData [] = [] := rfl

@[simp] theorem guestData_cons : guestData (e :: h) = e.guestData ++ guestData h :=
  List.flatMap_cons

@[simp] theorem guestData_append : guestData (h ++ h') = guestData h ++ guestData h' :=
  List.flatMap_append

@[simp] theorem bytesWritten_nil : bytesWritten [] = [] := rfl

@[simp] theorem bytesWritten_cons : bytesWritten (e :: h) = e.written ++ bytesWritten h :=
  List.flatMap_cons

@[simp] theorem bytesWritten_append : bytesWritten (h ++ h') = bytesWritten h ++ bytesWritten h' :=
  List.flatMap_append

end History

/-- At this moment, the session alive has written a front part of the `DATA` it
was sent. -/
def WrittenInOrder (h : List Ev) : Prop :=
  ∀ life, incarnation h = some life → bytesWritten life <+: guestData life

/-- The write side of a socket is shut down only when everything sent to the
session has been written. Without a socket the call has no effect. -/
def ShutAfterWritten (pre : List Ev) : Ev → Prop
  | .shutdownWrite _ => hasSocket pre = true →
      ∀ life, incarnation pre = some life → bytesWritten life = guestData life
  | _ => True

/-- Where the guest's half-close reaches the socket, nothing is buffered: when a
`CLOSE` is handled for a stream with a socket, and when a connect completes for a
session whose guest has closed. -/
def FlushedAtClose (pre : List Ev) : Ev → Prop
  | .recv (.close _) (some s) _ => hasSocket pre = true → s.toSocket = []
  | .pollConnect _ s .connected => s.guestWriteClosed = true → s.toSocket = []
  | _ => True

instance (pre : List Ev) (e : Ev) : Decidable (FlushedAtClose pre e) := by
  unfold FlushedAtClose
  split <;> infer_instance

/-! ## The invariant of one stream -/

/-- What was written and what is buffered is what was sent. -/
structure Upstream (v : StreamView) : Prop where
  dead : v.sess = none → incarnation v.hist = none
  live : ∀ s, v.sess = some s → ∃ life, incarnation v.hist = some life ∧
    bytesWritten life ++ s.toSocket = guestData life
  socket : ∀ s, v.sess = some s → s.state ≠ .resolving → hasSocket v.hist = true

theorem init_upstream : Upstream .init :=
  ⟨fun _ => rfl, by simp [StreamView.init], by simp [StreamView.init]⟩

variable {calm : Prop} {id : StreamId} {v v' : StreamView}

theorem live_extend {s s' : Session} {h es : List Ev}
    (hlive : ∃ life, incarnation h = some life ∧ bytesWritten life ++ s.toSocket = guestData life)
    (hes : ∀ e ∈ es, e.isBorder = false)
    (hmove : bytesWritten es ++ s'.toSocket = s.toSocket ++ guestData es) :
    ∃ life, incarnation (h ++ es) = some life ∧
      bytesWritten life ++ s'.toSocket = guestData life := by
  -- a live session whose buffer moves with the events `es`
  obtain ⟨life, hlife, hdata⟩ := hlive
  refine ⟨life ++ es, incarnation_extend es hlife hes, ?_⟩
  rw [bytesWritten_append, guestData_append, List.append_assoc, hmove, ← List.append_assoc, hdata]

theorem live_step (hstep : StreamStep calm id v v') (hinv : Upstream v) :
    ∀ s, v'.sess = some s → ∃ life, incarnation v'.hist = some life ∧
      bytesWritten life ++ s.toSocket = guestData life := by
  have hlive := hinv.live
  cases hstep with
  | accept => simp [incarnation_append, track, Session.newResolving]
  | @data s =>
    rintro s' ⟨⟩
    exact live_extend (hlive s rfl) (by simp) (by simp)
  | @write s _ _ bytes rest hopen hsplit =>
    rintro s' ⟨⟩
    exact live_extend (hlive s rfl) (by simp) (by simp [hsplit])
  | @connected s =>
    rintro s' ⟨⟩
    refine live_extend (hlive s rfl) ?_ ?_
    · cases hclosed : s.guestWriteClosed <;> simp
    · cases hclosed : s.guestWriteClosed <;> simp [Session.connected]
  | @stale sess =>
    intro s' hs'
    exact live_extend (hlive s' hs') (by simp) (by simp)
  | @close s | @window s | @connect s | @connectStuck s | @pending s | @eof s | @read s
  | @readBlocked s | @frame s | @hostClose s | @epoll s | @epollStuck s =>
    rintro s' ⟨⟩
    exact live_extend (hlive s rfl) (by simp)
      (by simp [Session.closeGuest, Session.closeHost])
  | _ => simp

theorem socket_kept (hstep : StreamStep calm id v v') (hinv : Upstream v) :
    ∀ s, v'.sess = some s → s.state ≠ .resolving → hasSocket v'.hist = true := by
  have hsocket := hinv.socket
  cases hstep with
  | @connected s =>
    cases hclosed : s.guestWriteClosed <;>
      simp_all [hasSocket_append, trackSocket, Session.connected]
  | @close s =>
    by_cases hst : s.state = .established <;>
      simp_all [hasSocket_append, trackSocket, Session.closeGuest]
  | @eof s =>
    by_cases hst : s.state = .established <;>
      simp_all [hasSocket_append, trackSocket, Session.closeHost]
  | _ => simp_all [hasSocket_append, trackSocket, Session.newResolving]

theorem step_upstream (hstep : StreamStep calm id v v') (hinv : Upstream v) : Upstream v' :=
  ⟨dead_step hstep hinv.dead, live_step hstep hinv, socket_kept hstep hinv⟩

/-! ## In order at every moment -/

theorem writtenInOrder_keeps (h : List Ev) (e : Ev) (he : e.written = [])
    (hin : WrittenInOrder h) : WrittenInOrder (h ++ [e]) := by
  intro life hlife
  by_cases hborder : e.isBorder = true
  · -- a session begins with nothing, and none is left when one ends
    cases e <;> simp_all [incarnation_append, track]
  · cases hprev : incarnation h with
    | none => cases e <;> simp_all [incarnation_append, track]
    | some prev =>
      have hext := incarnation_extend [e] hprev (by simpa using hborder)
      have heq : life = prev ++ [e] := by
        rw [hext] at hlife
        exact (Option.some.inj hlife).symm
      rw [heq, bytesWritten_append, guestData_append, bytesWritten_cons, he]
      simpa using (hin prev hprev).trans (List.prefix_append _ _)

theorem step_writtenInOrder (hstep : StreamStep calm id v v') (hinv : Upstream v)
    (halways : Always WrittenInOrder v.hist) : Always WrittenInOrder v'.hist := by
  have hlive := live_step hstep hinv
  cases hstep with
  | @write s r h bytes rest hopen hsplit =>
    refine always_append.mpr ⟨halways, ?_, trivial⟩
    intro life hlife
    obtain ⟨life', hlife', hdata⟩ := hlive _ rfl
    have heq : life' = life := Option.some.inj (hlife'.symm.trans hlife)
    rw [← heq, ← hdata]
    exact List.prefix_append _ _
  | @reject sess | @drop sess =>
    refine always_append.mpr ⟨halways, after_of_keeps writtenInOrder_keeps ?_ halways.last⟩
    cases sess <;> simp [ended]
  | @connected s =>
    refine always_append.mpr ⟨halways, after_of_keeps writtenInOrder_keeps ?_ halways.last⟩
    cases hclosed : s.guestWriteClosed <;> simp
  | _ =>
    refine always_append.mpr ⟨halways, after_of_keeps writtenInOrder_keeps ?_ halways.last⟩
    simp

/-! ## Shutdowns -/

/-- A shutdown in the life of a session comes after everything was written exactly
when the buffer is empty. -/
theorem written_iff_flushed {s : Session} {h : List Ev} (es : List Ev)
    (hlive : ∃ life, incarnation h = some life ∧ bytesWritten life ++ s.toSocket = guestData life)
    (hes : ∀ e ∈ es, e.isBorder = false) (hquiet : bytesWritten es = [] ∧ guestData es = []) :
    (∀ life, incarnation (h ++ es) = some life → bytesWritten life = guestData life) ↔
      s.toSocket = [] := by
  obtain ⟨life, hlife, hdata⟩ := hlive
  rw [incarnation_extend es hlife hes]
  constructor
  · intro hall
    have heq := hall _ rfl
    rw [bytesWritten_append, guestData_append, hquiet.1, hquiet.2, ← hdata] at heq
    simpa using heq
  · rintro hempty _ ⟨⟩
    rw [bytesWritten_append, guestData_append, hquiet.1, hquiet.2, ← hdata, hempty]
    simp

theorem step_shut_iff_flushed (hstep : StreamStep calm id v v') (hinv : Upstream v)
    (hiff : Each ShutAfterWritten v.hist ↔ Each FlushedAtClose v.hist) :
    Each ShutAfterWritten v'.hist ↔ Each FlushedAtClose v'.hist := by
  have hlive := hinv.live
  have hsocket := hinv.socket
  cases hstep with
  | @close s r h =>
    rw [each_append, each_append]
    refine and_congr hiff ?_
    have hshut := written_iff_flushed [.recv (.close id) (some s) r] (hlive s rfl)
      (by simp) (by simp)
    have hheld : hasSocket (h ++ [.recv (.close id) (some s) r]) = hasSocket h := by
      simp [hasSocket_append, trackSocket]
    simp only [after_cons, after_nil, ShutAfterWritten, FlushedAtClose, hheld, hshut, true_and,
      and_true]
  | @connected s r h hst =>
    rw [each_append, each_append]
    refine and_congr hiff ?_
    cases hclosed : s.guestWriteClosed with
    | false => simp [ShutAfterWritten, FlushedAtClose, hclosed]
    | true =>
      have hheld : hasSocket h = true := hsocket s rfl (by simp [hst])
      have hshut := written_iff_flushed [.pollConnect id s .connected, .sent (.openOk id)]
        (hlive s rfl) (by simp) (by simp)
      simp [ShutAfterWritten, FlushedAtClose, hclosed, hasSocket_append, trackSocket, hheld,
        hshut]
  | @reject sess r h f hid hrej =>
    rw [each_append, each_append]
    refine and_congr hiff ?_
    cases f <;> cases sess <;> simp_all [ended, rejects, ShutAfterWritten, FlushedAtClose]
  | @drop sess =>
    rw [each_append, each_append]
    refine and_congr hiff ?_
    cases sess <;> simp [ended, ShutAfterWritten, FlushedAtClose]
  | ignore hf =>
    rw [each_append, each_append]
    refine and_congr hiff ?_
    rcases hf with rfl | ⟨credit, rfl⟩ <;> simp [ShutAfterWritten, FlushedAtClose]
  | _ =>
    -- no other step shuts a write side
    rw [each_append, each_append]
    refine and_congr hiff ?_
    simp [ShutAfterWritten, FlushedAtClose]

/-! ## Runs -/

theorem steps_upstream (hsteps : StreamSteps calm id .init v) :
    Upstream v ∧ Always WrittenInOrder v.hist ∧
      (Each ShutAfterWritten v.hist ↔ Each FlushedAtClose v.hist) := by
  refine run_invariant (I := fun v => Upstream v ∧ Always WrittenInOrder v.hist ∧
    (Each ShutAfterWritten v.hist ↔ Each FlushedAtClose v.hist)) ?_ hsteps ⟨init_upstream, ?_, ?_⟩
  · rintro v v' hstep ⟨hinv, halways, hiff⟩
    exact ⟨step_upstream hstep hinv, step_writtenInOrder hstep hinv halways,
      step_shut_iff_flushed hstep hinv hiff⟩
  · refine always_iff_each.mpr ⟨?_, each_nil⟩
    rintro life ⟨⟩
  · exact ⟨fun _ => each_nil, fun _ => each_nil⟩

/-- **Guest→host completeness, exactly when nothing is buffered at a close.** In
every run of the backend and for every stream: at every moment the session alive
has written a front part of the `DATA` sent to it, what is written and what is
buffered is all of it, and no shutdown of a socket overtakes data, if and only if
the session's buffer is empty whenever the guest's half-close reaches the
socket. -/
theorem delivered_iff_flushed {b : Backend} (hb : Reachable (fun _ => True) b) (id : StreamId) :
    (Always WrittenInOrder (about id b.hist) ∧
      (∀ s, b.sessions[id]? = some s → ∃ life, incarnation (about id b.hist) = some life ∧
        bytesWritten life ++ s.toSocket = guestData life) ∧
      Each ShutAfterWritten (about id b.hist)) ↔
    Each FlushedAtClose (about id b.hist) := by
  have hsteps : StreamSteps False id .init (b.view id) :=
    (hb.streams fun _ _ hf => hf.elim).1 id
  obtain ⟨hinv, halways, hiff⟩ := steps_upstream hsteps
  constructor
  · rintro ⟨-, -, hshut⟩
    exact hiff.mp hshut
  · intro hflushed
    exact ⟨halways, hinv.live, hiff.mpr hflushed⟩

/-- An established stream whose `DATA` and `CLOSE` are handled in pumps `first`
and `second`. -/
def closingRun (first second : List EgressFrame) : Backend :=
  let env := Env.prompt 7 ⟨[127, 0, 0, 1], 80⟩
  let opened := ((pump env (frameBytes [.openTo 7 80 [104]])).run .init).2
  let sent := ((pump env (frameBytes first)).run opened).2
  ((pump env (frameBytes second)).run sent).2

theorem closingRun_reachable {ok : Env → Prop} (hok : ok (Env.prompt 7 ⟨[127, 0, 0, 1], 80⟩))
    (first second : List EgressFrame) : Reachable ok (closingRun first second) :=
  .pump _ (.pump _ (.pump _ .init hok) hok) hok

theorem delivered_iff_flushed_separate :
    Each ShutAfterWritten (about 7 (closingRun [.data 7 [1, 2, 3]] [.close 7]).hist) := by
  -- with the `CLOSE` in a pump of its own, everything is written before the shutdown
  refine ((delivered_iff_flushed (closingRun_reachable trivial _ _) 7).mpr ?_).2.2
  rw [each_iff_after]
  decide +kernel

/-- With `DATA` and `CLOSE` in one pump, the write side is shut down while the
three bytes are still buffered, and the write comes after it. -/
theorem close_overtakes_data :
    ¬ ∀ b, Reachable Env.WritesAccepted b → ∀ id, Each ShutAfterWritten (about id b.hist) := by
  intro hall
  have hb : Reachable Env.WritesAccepted (closingRun [.data 7 [1, 2, 3], .close 7] []) :=
    closingRun_reachable (prompt_writesAccepted 7 _) _ _
  -- the eleven events of the stream before the shutdown
  let pre := (about 7 (closingRun [.data 7 [1, 2, 3], .close 7] []).hist).take 11
  have hpre : pre ++ [.shutdownWrite 7] <+:
      about 7 (closingRun [.data 7 [1, 2, 3], .close 7] []).hist := by
    decide +kernel
  have hshut := hall _ hb 7 pre (.shutdownWrite 7) hpre (by decide +kernel)
    ((incarnation pre).getD []) (by decide +kernel)
  revert hshut
  decide +kernel

end Tdvmm.Egress
