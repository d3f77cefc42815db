import Tdvmm.Egress.Stream

/-!
# Egress.Intake — guest frames and finished resolutions are steps of the streams

`Advance` relates a backend before and after: the view of every id has moved along `StreamStep`,
the history has grown, the bytes staged for the guest have grown by exactly the frames that the
history says were enqueued, and the guest frames handled, the resolutions taken and the answers
acted on are the given ones.
-/

namespace Tdvmm.Egress

open Lib Lib.Eff Tdvmm.Proto Relation Backend

/-! ## Histories by their last events -/

section History

variable {h h' : List Ev} {e : Ev} {id : StreamId}

@[simp] theorem about_append : about id (h ++ h') = about id h ++ about id h' :=
  List.filter_append h h'

@[simp] theorem recvs_append : recvs (h ++ h') = recvs h ++ recvs h' := List.filterMap_append

@[simp] theorem sents_append : sents (h ++ h') = sents h ++ sents h' := List.flatMap_append

@[simp] theorem wire_append : wire (h ++ h') = wire h ++ wire h' := by simp [wire]

@[simp] theorem takes_append : takes (h ++ h') = takes h ++ takes h' := List.flatMap_append

@[simp] theorem harvests_append : harvests (h ++ h') = harvests h ++ harvests h' :=
  List.filterMap_append

@[simp] theorem started_append : started (h ++ h') = started h + started h' := List.countP_append

@[simp] theorem harvested_append : harvested (h ++ h') = harvested h + harvested h' :=
  List.countP_append

@[simp] theorem started_nil : started [] = 0 := rfl

@[simp] theorem harvested_nil : harvested [] = 0 := rfl

@[simp] theorem started_cons : started (e :: h) = started h + if e.isStart then 1 else 0 :=
  List.countP_cons

@[simp] theorem harvested_cons :
    harvested (e :: h) = harvested h + if e.isHarvest then 1 else 0 :=
  List.countP_cons

theorem harvested_eq_length (h : List Ev) : harvested h = (harvests h).length := by
  induction h with
  | nil => rfl
  | cons e h ih =>
    rw [harvested_cons, ih]
    cases e <;> simp [harvests, Ev.isHarvest]

theorem harvested_about (id : StreamId) (h : List Ev) :
    harvested (about id h) = (harvests h).countP fun r => r.stream == id := by
  induction h with
  | nil => rfl
  | cons e h ih =>
    rw [show e :: h = [e] ++ h from rfl, about_append, harvested_append, harvests_append,
      List.countP_append, ih]
    congr 1
    cases e with
    | harvest r =>
      by_cases hr : r.stream = id <;>
        simp [about, harvested, harvests, Ev.stream?, Ev.isHarvest, List.countP_cons, hr]
    | _ =>
      rw [about, List.filter_singleton, Bool.cond_eq_ite]
      split <;> rfl

theorem recvs_about (id : StreamId) (h : List Ev) :
    recvs (about id h) = (recvs h).filter fun f => f.stream == id := by
  rw [recvs, about, List.filterMap_filter, recvs, List.filter_filterMap]
  congr 1
  funext e
  cases e with
  | recv f pre r => by_cases hf : f.stream = id <;> simp [Ev.stream?, hf, Option.filter]
  | _ => simp

theorem sents_about (id : StreamId) (h : List Ev) :
    sents (about id h) = (sents h).filter fun f => f.stream == id := by
  induction h with
  | nil => rfl
  | cons e h ih =>
    rw [show e :: h = [e] ++ h from rfl, about_append, sents_append, sents_append,
      List.filter_append, ih]
    congr 1
    cases e with
    | sent f => by_cases hf : f.stream = id <;> simp [about, sents, Ev.stream?, hf]
    | _ =>
      rw [about, List.filter_singleton, Bool.cond_eq_ite]
      split <;> rfl

theorem about_of_only {es : List Ev} (honly : ∀ e ∈ es, e.stream? = some id) :
    about id es = es := by
  rw [about, List.filter_eq_self]
  intro e he
  simp [honly e he]

theorem about_of_other {es : List Ev} {j : StreamId} (honly : ∀ e ∈ es, e.stream? = some id)
    (hj : j ≠ id) : about j es = [] := by
  rw [about, List.filter_eq_nil_iff]
  intro e he
  simpa [honly e he] using fun h => hj h.symm

theorem takes_of_only {es : List Ev} (honly : ∀ e ∈ es, e.stream? = some id) : takes es = [] := by
  rw [takes, List.flatMap_eq_nil_iff]
  intro e he
  have hid := honly e he
  cases e <;> simp_all [Ev.stream?]

end History

/-! ## Advancing the backend -/

/-- Append events; the frames among them are staged for the guest. -/
def Backend.grow (b : Backend) (es : List Ev) : Backend :=
  { b with txPending := b.txPending ++ wire es, hist := b.hist ++ es }

/-- From `b` the backend has moved every stream along its steps to `b'`, handling
the guest frames `fs`, taking the resolutions `ts` and acting on the answers
`hs`. -/
structure Advance (calm : Prop) (fs : List OwnedFrame) (ts hs : List Resolved) (b b' : Backend) :
    Prop where
  streams : ∀ id, StreamSteps calm id (b.view id) (b'.view id)
  grows : ∃ es, b'.hist = b.hist ++ es ∧ b'.txPending = b.txPending ++ wire es ∧
    recvs es = fs ∧ takes es = ts ∧ harvests es = hs

section Advance

variable {calm : Prop} {b b' b'' : Backend} {fs fs' : List OwnedFrame}
  {ts ts' hs hs' : List Resolved}

theorem Advance.refl (b : Backend) : Advance calm [] [] [] b b :=
  ⟨fun _ => .refl, [], by simp [wire, sents, recvs, takes, harvests]⟩

theorem Advance.trans (h : Advance calm fs ts hs b b') (h' : Advance calm fs' ts' hs' b' b'') :
    Advance calm (fs ++ fs') (ts ++ ts') (hs ++ hs') b b'' := by
  obtain ⟨hsteps, es, hhist, htx, hf, ht, hh⟩ := h
  obtain ⟨hsteps', es', hhist', htx', hf', ht', hh'⟩ := h'
  refine ⟨fun id => (hsteps id).trans (hsteps' id), es ++ es', ?_, ?_, ?_, ?_, ?_⟩
  · rw [hhist', hhist, List.append_assoc]
  · rw [htx', htx, wire_append, List.append_assoc]
  · rw [recvs_append, hf, hf']
  · rw [takes_append, ht, ht']
  · rw [harvests_append, hh, hh']

/-- A change to one stream that records the events `es` about it. -/
structure LocalTo (id : StreamId) (es : List Ev) (b b' : Backend) : Prop where
  sessions : ∀ j, j ≠ id → b'.sessions[j]? = b.sessions[j]?
  resolving : ∀ j, j ≠ id → b'.resolving.contains j = b.resolving.contains j
  hist : b'.hist = b.hist ++ es
  tx : b'.txPending = b.txPending ++ wire es
  only : ∀ e ∈ es, e.stream? = some id

theorem LocalTo.view_other {id j : StreamId} {es : List Ev} (h : LocalTo id es b b')
    (hj : j ≠ id) : b'.view j = b.view j := by
  simp only [view, h.sessions j hj, h.resolving j hj, h.hist, about_append,
    about_of_other h.only hj, List.append_nil]

theorem LocalTo.view_self {id : StreamId} {es : List Ev} (h : LocalTo id es b b') :
    b'.view id = ⟨b'.sessions[id]?, b'.resolving.contains id, about id b.hist ++ es⟩ := by
  simp only [view, h.hist, about_append, about_of_only h.only]

theorem LocalTo.advance {id : StreamId} {es : List Ev} (h : LocalTo id es b b')
    (hstep : StreamSteps calm id (b.view id) (b'.view id)) :
    Advance calm (recvs es) [] (harvests es) b b' := by
  refine ⟨fun j => ?_, es, h.hist, h.tx, rfl, takes_of_only h.only, rfl⟩
  by_cases hj : j = id
  · rw [hj]
    exact hstep
  · rw [h.view_other hj]

end Advance

/-! ## Guest frames -/

theorem run_enqueue {frame : EgressFrame} (h : (encode frame []).1 = .ok ()) (b : Backend) :
    (enqueue frame).run b = (.ok (), b.grow [.sent frame]) := by
  unfold enqueue
  rcases henc : encode frame [] with ⟨r, buf⟩
  rw [henc] at h
  simp only at h
  subst h
  simp [log, grow, wire, sents, henc]

@[simp] theorem run_enqueue_rst (id : StreamId) (b : Backend) :
    (enqueue (.rst id)).run b = (.ok (), b.grow [.sent (.rst id)]) :=
  run_enqueue (encode_ok_of_small [] (by simp) (by simp)) b

@[simp] theorem run_enqueue_openErr (id : StreamId) (reason : EgressReason) (b : Backend) :
    (enqueue (.openErr id reason)).run b = (.ok (), b.grow [.sent (.openErr id reason)]) :=
  run_enqueue (encode_ok_of_small [] (by simp) (by simp)) b

@[simp] theorem run_enqueue_openOk (id : StreamId) (b : Backend) :
    (enqueue (.openOk id)).run b = (.ok (), b.grow [.sent (.openOk id)]) :=
  run_enqueue (encode_ok_of_small [] (by simp) (by simp)) b

@[simp] theorem run_enqueue_close (id : StreamId) (b : Backend) :
    (enqueue (.close id)).run b = (.ok (), b.grow [.sent (.close id)]) :=
  run_enqueue (encode_ok_of_small [] (by simp) (by simp)) b

@[simp] theorem run_emit (e : Ev) (b : Backend) : (emit e).run b = (.ok (), b.log e) := rfl

@[simp] theorem run_emit_bind {α : Type} (e : Ev) (f : Unit → EgressM α) (b : Backend) :
    (emit e >>= f).run b = (f ()).run (b.log e) := rfl

theorem log_eq_grow {e : Ev} (h : wire [e] = []) (b : Backend) : b.log e = b.grow [e] := by
  simp [log, grow, h]

theorem contains_eq_isSome (b : Backend) (id : StreamId) :
    b.sessions.contains id = b.sessions[id]?.isSome := by
  simp

theorem run_resetStream (id : StreamId) (b : Backend) :
    (resetStream id).run b =
      (.ok (), grow { b with sessions := b.sessions.erase id }
        ([Ev.close id, Ev.sent (.rst id)] ++ ended id b.sessions[id]?)) := by
  unfold resetStream endSession detachSocket
  simp only [run_bind, run_read, run_emit, run_update, run_enqueue_rst,
    contains_eq_isSome]
  cases hs : b.sessions[id]? <;> simp [ended, log, grow, wire, sents]

theorem run_failOpen (id : StreamId) (reason : EgressReason) (b : Backend) :
    (failOpen id reason).run b =
      (.ok (), grow { b with
          sessions := b.sessions.erase id
          stats := { b.stats with opensFailed := b.stats.opensFailed + 1 } }
        ([Ev.close id, Ev.sent (.openErr id reason)] ++ ended id b.sessions[id]?)) := by
  unfold failOpen endSession detachSocket
  simp only [run_bind, run_read, run_emit, run_update, run_enqueue_openErr,
    contains_eq_isSome]
  cases hs : b.sessions[id]? <;> simp [ended, log, grow, wire, sents]

theorem run_dropStream (id : StreamId) (b : Backend) :
    (dropStream id).run b =
      (.ok (), grow { b with sessions := b.sessions.erase id }
        ([Ev.close id] ++ ended id b.sessions[id]?)) := by
  unfold dropStream endSession detachSocket
  simp only [run_bind, run_read, run_emit, run_update, contains_eq_isSome]
  cases hs : b.sessions[id]? <;> simp [ended, log, grow, wire, sents]

def Backend.recvEv (b : Backend) (f : OwnedFrame) : Ev :=
  .recv f b.sessions[f.stream]? (b.resolving.contains f.stream)

@[simp] theorem ended_only (id : StreamId) (sess : Option Session) :
    ∀ e ∈ ended id sess, e.stream? = some id := by
  intro e he
  unfold ended at he
  split at he
  · simp_all [Ev.stream?]
  · simp at he

theorem erase_other (b : Backend) (id : StreamId) :
    ∀ j, j ≠ id → (b.sessions.erase id)[j]? = b.sessions[j]? := by
  intro j hj
  rw [Std.ExtTreeMap.getElem?_erase, if_neg]
  simpa using fun h => hj h.symm

theorem insert_other (b : Backend) (id : StreamId) (s : Session) :
    ∀ j, j ≠ id → (b.sessions.insert id s)[j]? = b.sessions[j]? := by
  intro j hj
  rw [Std.ExtTreeMap.getElem?_insert, if_neg]
  simpa using fun h => hj h.symm

@[simp] theorem erase_self (b : Backend) (id : StreamId) : (b.sessions.erase id)[id]? = none := by
  simp

@[simp] theorem insert_self (b : Backend) (id : StreamId) (s : Session) :
    (b.sessions.insert id s)[id]? = some s := by
  simp

/-- A guest frame is handled: one step of its stream. -/
structure Handles (calm : Prop) (f : OwnedFrame) (b b' : Backend) : Prop where
  handled : ∃ es, LocalTo f.stream (b.recvEv f :: es) b b' ∧ recvs es = [] ∧ harvests es = []
  step : StreamStep calm f.stream (b.view f.stream) (b'.view f.stream)

variable {f : OwnedFrame} {b' : Backend} {r : Resolved}

theorem Handles.of_local {calm : Prop} {b : Backend} (es : List Ev)
    (hloc : LocalTo f.stream (b.recvEv f :: es) b b') (hes : recvs es = [] ∧ harvests es = [])
    (hstep : StreamStep calm f.stream (b.view f.stream)
      ⟨b'.sessions[f.stream]?, b'.resolving.contains f.stream,
        about f.stream b.hist ++ b.recvEv f :: es⟩) :
    Handles calm f b b' := by
  refine ⟨⟨es, hloc, hes⟩, ?_⟩
  rw [hloc.view_self]
  exact hstep

theorem ended_quiet (id : StreamId) (sess : Option Session) :
    recvs (ended id sess) = [] ∧ harvests (ended id sess) = [] := by
  unfold ended
  split <;> simp [recvs, harvests]

variable {calm : Prop} {b : Backend}

/-- The frames that reset their stream; `m` is the session table when the reset
starts, in which the stream's own session may have changed. -/
theorem resetStream_handles_of {m : Std.ExtTreeMap StreamId Session}
    (hm : ∀ j, j ≠ f.stream → m[j]? = b.sessions[j]?)
    (hsome : m[f.stream]?.isSome = b.sessions[f.stream]?.isSome)
    (hrej : rejects f b.sessions[f.stream]? (b.resolving.contains f.stream) = true) :
    ∃ b', (resetStream f.stream).run { b.log (b.recvEv f) with sessions := m } = (.ok (), b') ∧
      Handles calm f b b' := by
  have hend : ended f.stream m[f.stream]? = ended f.stream b.sessions[f.stream]? := by
    simp only [ended, hsome]
  refine ⟨_, run_resetStream f.stream _, Handles.of_local
    ([Ev.close f.stream, Ev.sent (.rst f.stream)] ++ ended f.stream b.sessions[f.stream]?)
    ⟨?_, fun _ _ => rfl, ?_, ?_, ?_⟩ ?_ ?_⟩
  · intro j hj
    rw [← hm j hj]
    exact erase_other { b with sessions := m } f.stream j hj
  · simp [grow, log, hend]
  · simp [grow, log, recvEv, wire, sents, hend]
  · have honly := ended_only f.stream b.sessions[f.stream]?
    simpa [recvEv, Ev.stream?, EgressFrame.stream] using honly
  · simpa [recvs, harvests] using ended_quiet f.stream b.sessions[f.stream]?
  · simpa [view, grow, log, recvEv, hend] using
      StreamStep.reject rfl hrej

theorem resetStream_handles
    (hrej : rejects f b.sessions[f.stream]? (b.resolving.contains f.stream) = true) :
    ∃ b', (resetStream f.stream).run (b.log (b.recvEv f)) = (.ok (), b') ∧
      Handles calm f b b' :=
  resetStream_handles_of (fun _ _ => rfl) rfl hrej

theorem failOpen_handles {stream : StreamId} {port : UInt16} {host : Bytes} (reason : EgressReason)
    (hsess : b.sessions[stream]? = none) (hres : b.resolving.contains stream = false) :
    ∃ b', (failOpen stream reason).run (b.log (b.recvEv (.openTo stream port host))) =
        (.ok (), b') ∧ Handles calm (.openTo stream port host) b b' := by
  refine ⟨_, run_failOpen stream reason _, Handles.of_local
    [Ev.close stream, Ev.sent (.openErr stream reason)]
    ⟨erase_other b _, fun _ _ => rfl, ?_, ?_, ?_⟩ ?_ ?_⟩
  · simp [grow, log, ended, hsess]
  · simp [grow, log, recvEv, wire, sents, ended, hsess]
  · simp [recvEv, Ev.stream?, EgressFrame.stream, OwnedFrame.stream]
  · simp [recvs, harvests]
  · simpa [view, grow, log, recvEv, OwnedFrame.stream, hsess, hres]
      using StreamStep.refuse

theorem handleOpen_handles (stream : StreamId) (port : UInt16) (host : Bytes) :
    ∃ b', (handleOpen stream port host).run (b.log (b.recvEv (.openTo stream port host))) =
        (.ok (), b') ∧ Handles calm (.openTo stream port host) b b' := by
  unfold handleOpen
  rw [run_read_bind]
  by_cases hlive : (b.sessions.contains stream || b.resolving.contains stream) = true
  · -- a live id, or one whose earlier resolve is outstanding
    rw [if_pos (by simpa [log] using hlive)]
    exact resetStream_handles (f := .openTo stream port host)
      (by simpa [rejects, OwnedFrame.stream] using hlive)
  rw [if_neg (by simpa [log] using hlive)]
  rw [contains_eq_isSome] at hlive
  have hsess : b.sessions[stream]? = none := by
    cases hs : b.sessions[stream]? with
    | none => rfl
    | some s => simp [hs] at hlive
  have hres : b.resolving.contains stream = false := by
    rw [Bool.eq_false_iff]
    simpa [hsess] using hlive
  split_ifs with hmax hbad
  · exact failOpen_handles .streamLimit hsess hres
  · exact failOpen_handles .protocolError hsess hres
  · have hhost : host ≠ [] ∧ port ≠ 0 := by simpa using hbad
    refine ⟨_, rfl, Handles.of_local
      [Ev.opened stream, Ev.startResolve stream (utf8Lossy host) port]
      ⟨insert_other b _ _, ?_, ?_, ?_, ?_⟩ ?_ ?_⟩
    · intro j hj
      have hne : ¬ stream = j := fun h => hj h.symm
      simp [log, Std.ExtTreeSet.contains_insert, hne]
    · simp [log]
    · simp [log, wire, sents, recvEv]
    · simp [recvEv, Ev.stream?, OwnedFrame.stream]
    · simp [recvs, harvests]
    · simpa [view, log, emit, Eff.update, recvEv, OwnedFrame.stream, hsess,
        hres] using StreamStep.accept hhost.1 hhost.2

theorem setSession_handles {s' : Session} (es : List Ev)
    (honly : ∀ e ∈ es, e.stream? = some f.stream) (hwire : wire es = [])
    (hquiet : recvs es = [] ∧ harvests es = [])
    (hstep : StreamStep calm f.stream (b.view f.stream)
      ⟨some s', b.resolving.contains f.stream, about f.stream b.hist ++ b.recvEv f :: es⟩) :
    Handles calm f b
      { b with sessions := b.sessions.insert f.stream s', hist := b.hist ++ b.recvEv f :: es } := by
  -- a guest frame that only changes its session, perhaps with a call on the socket
  refine Handles.of_local es ⟨insert_other b _ _, fun _ _ => rfl, rfl, ?_, ?_⟩ hquiet ?_
  · have hcons : wire (b.recvEv f :: es) = wire es := by simp [wire, sents, recvEv]
    simp [hcons, hwire]
  · intro e he
    rcases List.mem_cons.mp he with rfl | he
    · rfl
    · exact honly e he
  · simpa using hstep

theorem handleData_handles (stream : StreamId) (payload : Bytes) :
    ∃ b', (handleData stream payload).run (b.log (b.recvEv (.data stream payload))) =
        (.ok (), b') ∧ Handles calm (.data stream payload) b b' := by
  unfold handleData
  rw [run_read_bind]
  have hlog : (b.log (b.recvEv (.data stream payload))).sessions = b.sessions := rfl
  rw [hlog]
  cases hs : b.sessions[stream]? with
  | none =>
    exact resetStream_handles (f := .data stream payload) (by simp [rejects, OwnedFrame.stream, hs])
  | some s =>
    by_cases hclosed : s.guestWriteClosed = true
    · -- the guest already half-closed
      simp only [hclosed, Bool.not_true, Bool.false_eq_true, if_false]
      exact resetStream_handles (f := .data stream payload)
        (by simp [rejects, OwnedFrame.stream, hs, hclosed])
    have hclosed' : s.guestWriteClosed = false := by simpa using hclosed
    simp only [hclosed', Bool.not_false, if_true, run_update_bind]
    by_cases hcap : (s.toSocket ++ payload).length > TO_SOCKET_CAP
    · rw [if_pos hcap]
      exact resetStream_handles_of (f := .data stream payload) (insert_other b _ _)
        (by simp [OwnedFrame.stream, hs])
        (by simp only [rejects, OwnedFrame.stream, hs, hcap, decide_true, Bool.or_true])
    · rw [if_neg hcap]
      refine ⟨_, rfl, setSession_handles [] (by simp) rfl ⟨rfl, rfl⟩ ?_⟩
      have hkeep : rejects (.data stream payload) (some s) (b.resolving.contains stream) =
          false := by
        simpa [rejects, hclosed'] using hcap
      simpa [view, recvEv, OwnedFrame.stream, hs, hclosed'] using
        StreamStep.data hkeep

theorem ignored_handles {f : OwnedFrame} (hs : b.sessions[f.stream]? = none)
    (hf : f = .close f.stream ∨ ∃ credit, f = .window f.stream credit) :
    Handles calm f b (b.log (b.recvEv f)) := by
  refine Handles.of_local [] ⟨fun _ _ => rfl, fun _ _ => rfl, rfl, ?_, ?_⟩ ⟨rfl, rfl⟩ ?_
  · simp [log, wire, sents, recvEv]
  · simp [recvEv, Ev.stream?]
  · simpa [view, recvEv, log, hs] using StreamStep.ignore hf

theorem handleClose_handles (stream : StreamId) :
    ∃ b', (handleClose stream).run (b.log (b.recvEv (.close stream))) = (.ok (), b') ∧
      Handles calm (.close stream) b b' := by
  unfold handleClose
  rw [run_read_bind]
  have hlog : (b.log (b.recvEv (.close stream))).sessions = b.sessions := rfl
  rw [hlog]
  cases hs : b.sessions[stream]? with
  | none => exact ⟨_, rfl, ignored_handles hs (.inl rfl)⟩
  | some s =>
    have hstep : StreamStep calm stream (b.view stream) ⟨some s.closeGuest,
        b.resolving.contains stream,
        about stream b.hist ++ b.recvEv (.close stream) :: [.shutdownWrite stream]⟩ := by
      simpa [view, recvEv, OwnedFrame.stream, hs] using StreamStep.close
    refine ⟨_, ?_, setSession_handles (f := .close stream) [.shutdownWrite stream]
      (by simp [Ev.stream?, OwnedFrame.stream]) rfl ⟨rfl, rfl⟩ hstep⟩
    simp [log, Session.closeGuest, OwnedFrame.stream]

theorem handleWindow_handles (stream : StreamId) (credit : UInt32) :
    ∃ b', (handleWindow stream credit).run (b.log (b.recvEv (.window stream credit))) =
        (.ok (), b') ∧ Handles calm (.window stream credit) b b' := by
  unfold handleWindow
  rw [run_read_bind]
  have hlog : (b.log (b.recvEv (.window stream credit))).sessions = b.sessions := rfl
  rw [hlog]
  cases hs : b.sessions[stream]? with
  | none => exact ⟨_, rfl, ignored_handles hs (.inr ⟨credit, rfl⟩)⟩
  | some s =>
    refine ⟨_, rfl, setSession_handles [] (by simp) rfl ⟨rfl, rfl⟩ ?_⟩
    simpa [view, recvEv, OwnedFrame.stream, hs] using StreamStep.window

theorem dropStream_handles (stream : StreamId) :
    ∃ b', (dropStream stream).run (b.log (b.recvEv (.rst stream))) = (.ok (), b') ∧
      Handles calm (.rst stream) b b' := by
  refine ⟨_, run_dropStream stream _, Handles.of_local
    ([Ev.close stream] ++ ended stream b.sessions[stream]?)
    ⟨erase_other b _, fun _ _ => rfl, ?_, ?_, ?_⟩ ?_ ?_⟩
  · simp [grow, log]
  · simp [grow, log, recvEv, wire, sents]
  · have honly := ended_only stream b.sessions[stream]?
    simpa [recvEv, Ev.stream?, OwnedFrame.stream] using honly
  · simpa [recvs, harvests] using ended_quiet stream b.sessions[stream]?
  · simpa [view, grow, log, recvEv, OwnedFrame.stream] using
      StreamStep.drop

/-- Handling a guest frame always succeeds and is one step of its stream. -/
theorem handleFrame_handles (f : OwnedFrame) (b : Backend) :
    ∃ b', (handleFrame f).run b = (.ok (), b') ∧ Handles calm f b b' := by
  cases f with
  | openTo stream port host => exact handleOpen_handles stream port host
  | data stream payload => exact handleData_handles stream payload
  | close stream => exact handleClose_handles stream
  | rst stream => exact dropStream_handles stream
  | window stream credit => exact handleWindow_handles stream credit
  | unexpected stream => exact resetStream_handles (f := .unexpected stream) (by simp [rejects])

theorem Handles.advance (h : Handles calm f b b') :
    Advance calm [f] [] [] b b' := by
  obtain ⟨⟨es, hloc, hrecv, hharv⟩, hstep⟩ := h
  have hadv := hloc.advance (.single hstep)
  have hrecvs : recvs (b.recvEv f :: es) = f :: recvs es := rfl
  have hharvs : harvests (b.recvEv f :: es) = harvests es := rfl
  rwa [hrecvs, hharvs, hrecv, hharv] at hadv

theorem handleFrames_advance (fs : List OwnedFrame) (b : Backend) :
    ∃ b', (handleFrames fs).run b = (.ok (), b') ∧ Advance calm fs [] [] b b' := by
  induction fs generalizing b with
  | nil => exact ⟨b, rfl, .refl b⟩
  | cons f fs ih =>
    obtain ⟨b₁, hrun, hh⟩ : ∃ b', (handleFrame f).run b = (.ok (), b') ∧ Handles calm f b b' :=
      handleFrame_handles f b
    obtain ⟨b₂, hruns, hadv⟩ := ih b₁
    refine ⟨b₂, ?_, hh.advance.trans hadv⟩
    unfold handleFrames
    rw [run_bind_ok hrun, hruns]

/-! ## Finished resolutions -/

/-- One answer is acted on: one step of its stream. -/
structure Harvests (calm : Prop) (r : Resolved) (b b' : Backend) : Prop where
  acted : ∃ es, LocalTo r.stream es b b' ∧ recvs es = [] ∧ harvests es = [r] ∧ started es = 0
  step : StreamStep calm r.stream (b.view r.stream) (b'.view r.stream)

theorem Harvests.of_local (es : List Ev)
    (hloc : LocalTo r.stream es b b')
    (hes : recvs es = [] ∧ harvests es = [r] ∧ started es = 0)
    (hstep : StreamStep calm r.stream (b.view r.stream)
      ⟨b'.sessions[r.stream]?, b'.resolving.contains r.stream, about r.stream b.hist ++ es⟩) :
    Harvests calm r b b' := by
  refine ⟨⟨es, hloc, hes⟩, ?_⟩
  rw [hloc.view_self]
  exact hstep

theorem eraseResolving_other (b : Backend) (id : StreamId) :
    ∀ j, j ≠ id → (b.resolving.erase id).contains j = b.resolving.contains j := by
  intro j hj
  have hne : ¬ id = j := fun h => hj h.symm
  simp [Std.ExtTreeSet.contains_erase, hne]

def Backend.answer (b : Backend) (r : Resolved) : Backend :=
  { b.log (.harvest r) with resolving := b.resolving.erase r.stream }

theorem run_harvestOne (env : Env) (r : Resolved) (b : Backend) :
    (harvestOne env r).run b =
      (if b.sessions[r.stream]?.map Session.state = some .resolving then
        finishResolve env r.stream r.addr
      else pure () : EgressM Unit).run (b.answer r) := rfl

theorem answer_resolving (r : Resolved) : (b.answer r).resolving.contains r.stream = false := by
  simp [answer]

/-- An answer that fails the session: the resolve failed, or the connect could
not be started. `pre` is what was recorded before. -/
theorem failOpen_harvests {id : StreamId} {addr : Option SocketAddr} {s : Session}
    {reason : EgressReason} (pre : List Ev) (hs : b.sessions[id]? = some s)
    (hpre : ∀ e ∈ pre, e.stream? = some id)
    (hquiet : wire pre = [] ∧ recvs pre = [] ∧ harvests pre = [] ∧ started pre = 0)
    (hstep : StreamStep calm id ⟨some s, b.resolving.contains id, about id b.hist⟩
      ⟨none, false, about id b.hist ++ (.harvest ⟨id, addr⟩ :: pre ++
        [.close id, .sent (.openErr id reason), .removed id])⟩) :
    ∃ b', (failOpen id reason).run ((b.answer ⟨id, addr⟩).grow pre) = (.ok (), b') ∧
      Harvests calm ⟨id, addr⟩ b b' := by
  obtain ⟨hwire, hrecv, hharv, hstart⟩ := hquiet
  refine ⟨_, run_failOpen id reason _, Harvests.of_local
    (.harvest ⟨id, addr⟩ :: pre ++ [.close id, .sent (.openErr id reason), .removed id])
    ⟨erase_other b _, eraseResolving_other b _, ?_, ?_, ?_⟩ ⟨?_, ?_, ?_⟩ ?_⟩
  · simp [grow, answer, log, ended, hs]
  · have hcons : wire (.harvest ⟨id, addr⟩ :: pre) = wire pre := rfl
    rw [wire_append, hcons, hwire]
    simp [grow, answer, log, ended, hs, hwire]
  · simp only [List.cons_append, List.mem_cons, List.mem_append, List.not_mem_nil, or_false]
    rintro e (rfl | he | rfl | rfl | rfl)
    · rfl
    · exact hpre e he
    all_goals rfl
  · have hcons : recvs (.harvest ⟨id, addr⟩ :: pre) = recvs pre := rfl
    rw [recvs_append, hcons, hrecv]
    rfl
  · have hcons : harvests (.harvest ⟨id, addr⟩ :: pre) = ⟨id, addr⟩ :: harvests pre := rfl
    rw [harvests_append, hcons, hharv]
    rfl
  · rw [started_append, started_cons, hstart]
    rfl
  · have hres := answer_resolving (b := b) ⟨id, addr⟩
    simpa [view, grow, hs, hres] using hstep

theorem connectEvents_quiet (id : StreamId) (addr : SocketAddr) (ok : Bool) :
    let es : List Ev := [.harvest ⟨id, some addr⟩, .startConnect id addr true,
      .epollCtl id (EPOLLIN ||| EPOLLOUT) ok]
    (∀ e ∈ es, e.stream? = some id) ∧ wire es = [] ∧
      recvs es = [] ∧ harvests es = [⟨id, some addr⟩] ∧ started es = 0 := by
  refine ⟨?_, rfl, rfl, rfl, rfl⟩
  simp [Ev.stream?]

/-- The answers still to be acted on, per id, are no more than the resolves
still outstanding. -/
def Owed (rs : List Resolved) (h : List Ev) : Prop :=
  ∀ id, rs.countP (fun r => r.stream == id) ≤ started (about id h) - harvested (about id h)

theorem Owed.tail {rs : List Resolved} (howed : Owed (r :: rs) b.hist)
    (hh : Harvests calm r b b') : Owed rs b'.hist := by
  obtain ⟨⟨es, hloc, -, hharv, hstart⟩, -⟩ := hh
  have hone : harvested es = 1 := by rw [harvested_eq_length, hharv, List.length_singleton]
  intro id
  have hid := howed id
  rw [List.countP_cons] at hid
  rw [hloc.hist, about_append, harvested_append, started_append]
  by_cases hj : id = r.stream
  · subst hj
    rw [about_of_only hloc.only, hone, hstart]
    simp only [beq_self_eq_true, if_true] at hid
    omega
  · rw [about_of_other hloc.only hj]
    simp only [harvested, started, List.countP_nil] at hid ⊢
    omega

theorem Harvests.advance (h : Harvests calm r b b') :
    Advance calm [] [] [r] b b' := by
  obtain ⟨⟨es, hloc, hrecv, hharv, -⟩, hstep⟩ := h
  have hadv := hloc.advance (.single hstep)
  rwa [hrecv, hharv] at hadv

section Env

variable {env : Env} (hepoll : calm → ∀ h id, env.epollCtl h id = true)
include hepoll

theorem startConnect_harvests {id : StreamId} {addr : SocketAddr} {s : Session}
    (hs : b.sessions[id]? = some s) (hst : s.state = .resolving)
    (hcalm : calm → harvested (about id b.hist) < started (about id b.hist)) :
    ∃ res b', (finishResolve env id (some addr)).run (b.answer ⟨id, some addr⟩) = (res, b') ∧
      Harvests calm ⟨id, some addr⟩ b b' ∧ (calm → res = .ok ()) := by
  have hrun : (startConnect env id addr).run (b.answer ⟨id, some addr⟩) =
      (.ok (env.startConnect (b.answer ⟨id, some addr⟩).hist id addr),
        (b.answer ⟨id, some addr⟩).grow
          [.startConnect id addr (env.startConnect (b.answer ⟨id, some addr⟩).hist id addr)]) := by
    rw [← log_eq_grow rfl]
    rfl
  unfold finishResolve
  rw [run_bind_ok hrun]
  cases env.startConnect (b.answer ⟨id, some addr⟩).hist id addr with
  | false =>
    -- the connect is refused at once: the open fails
    obtain ⟨b', hb, hh⟩ := failOpen_harvests [.startConnect id addr false] hs
      (by simp [Ev.stream?]) ⟨rfl, rfl, rfl, rfl⟩
      (by simpa using StreamStep.unreachable hcalm hst)
    exact ⟨_, b', hb, hh, fun _ => rfl⟩
  | true =>
    obtain ⟨honly, hwire, hquiet⟩ := connectEvents_quiet id addr
      (env.epollCtl ((b.answer ⟨id, some addr⟩).grow [.startConnect id addr true]).hist id)
    simp only [if_true, beginConnecting, epollCtl, run_bind, run_read, run_emit]
    cases hok : env.epollCtl
      ((b.answer ⟨id, some addr⟩).grow [.startConnect id addr true]).hist id with
    | true =>
      rw [hok] at honly hwire hquiet
      have hsess : (((b.answer ⟨id, some addr⟩).grow [.startConnect id addr true]).log
          (.epollCtl id (EPOLLIN ||| EPOLLOUT) true)).sessions[id]? = some s := hs
      simp only [if_true, run_pure, hsess, run_update]
      refine ⟨_, _, rfl, Harvests.of_local _
        ⟨insert_other b _ _, eraseResolving_other b _, ?_, ?_, honly⟩ hquiet ?_, fun _ => rfl⟩
      · simp [log, grow, answer]
      · rw [hwire]
        simp [log, grow, answer, wire, sents]
      · have hres := answer_resolving (b := b) ⟨id, some addr⟩
        simpa [view, grow, log, hs, hres] using
          StreamStep.connect hcalm hst
    | false =>
      rw [hok] at honly hwire hquiet
      have hstuck : ¬ calm := fun hc => by
        rw [hepoll hc] at hok
        cases hok
      simp only [Bool.false_eq_true, if_false, run_fail]
      refine ⟨_, _, rfl, Harvests.of_local _
        ⟨fun _ _ => rfl, eraseResolving_other b _, ?_, ?_, honly⟩ hquiet ?_,
        fun hc => absurd hc hstuck⟩
      · simp [log, grow, answer]
      · rw [hwire]
        simp [log, grow, answer, wire, sents]
      · have hres := answer_resolving (b := b) ⟨id, some addr⟩
        simpa [view, grow, log, hs, hres, answer] using
          StreamStep.connectStuck hstuck hst

theorem harvestOne_harvests (r : Resolved)
    (hcalm : calm → harvested (about r.stream b.hist) < started (about r.stream b.hist)) :
    ∃ res b', (harvestOne env r).run b = (res, b') ∧ Harvests calm r b b' ∧
      (calm → res = .ok ()) := by
  obtain ⟨id, addr⟩ := r
  have hsessions : (b.answer ⟨id, addr⟩).sessions = b.sessions := rfl
  rw [run_harvestOne]
  split_ifs with hst
  · obtain ⟨s, hs, hstate⟩ : ∃ s, b.sessions[id]? = some s ∧ s.state = .resolving := by
      simpa using hst
    cases addr with
    | none =>
      have hnil : b.answer ⟨id, none⟩ = (b.answer ⟨id, none⟩).grow [] := by
        simp [grow, wire, sents]
      rw [hnil]
      obtain ⟨b', hb, hh⟩ := failOpen_harvests [] hs (by simp) ⟨rfl, rfl, rfl, rfl⟩
        (by simpa using StreamStep.unresolved hcalm hstate)
      exact ⟨_, b', hb, hh, fun _ => rfl⟩
    | some addr => exact startConnect_harvests hepoll hs hstate hcalm
  · -- the session is gone or past resolving: the answer only leaves the set
    refine ⟨_, _, rfl, Harvests.of_local [.harvest ⟨id, addr⟩]
      ⟨fun _ _ => rfl, eraseResolving_other b _, rfl, ?_, ?_⟩ ⟨rfl, rfl, rfl⟩ ?_, fun _ => rfl⟩
    · simp [answer, log, wire, sents]
    · simp [Ev.stream?]
    · have hres := answer_resolving (b := b) ⟨id, addr⟩
      simpa [view, hsessions, hres] using StreamStep.stale hcalm hst

theorem harvestAll_advance (rs : List Resolved) (b : Backend) (howed : calm → Owed rs b.hist) :
    ∃ res b' hs, (harvestAll env rs).run b = (res, b') ∧ Advance calm [] [] hs b b' ∧
      (calm → res = .ok () ∧ hs = rs) := by
  induction rs generalizing b with
  | nil => exact ⟨_, b, [], rfl, .refl b, fun _ => ⟨rfl, rfl⟩⟩
  | cons r rs ih =>
    have hcalm : calm → harvested (about r.stream b.hist) < started (about r.stream b.hist) := by
      intro hc
      have hid := howed hc r.stream
      rw [List.countP_cons] at hid
      simp only [beq_self_eq_true, if_true] at hid
      omega
    obtain ⟨res, b₁, hrun, hh, hok⟩ := harvestOne_harvests hepoll r hcalm
    unfold harvestAll
    cases res with
    | error e =>
      -- only an epoll failure ends the loop early
      rw [run_bind_error hrun]
      exact ⟨_, b₁, _, rfl, hh.advance, fun hc => by cases hok hc⟩
    | ok u =>
      obtain ⟨res', b₂, hs, hrun', hadv, hok'⟩ := ih b₁ fun hc => (howed hc).tail hh
      rw [run_bind_ok hrun, hrun']
      refine ⟨res', b₂, _, rfl, hh.advance.trans hadv, fun hc => ⟨(hok' hc).1, ?_⟩⟩
      rw [(hok' hc).2, List.singleton_append]

end Env

/-- The connector and epoll behave: epoll calls succeed, and no resolve is
answered twice. -/
structure Env.Calm (env : Env) : Prop where
  epoll : ∀ h id, env.epollCtl h id = true
  once : ∀ h id, (env.takeResolved h).countP (fun r => r.stream == id) ≤
    started (about id h) - answered id h

def Settled (b : Backend) : Prop := harvests b.hist = takes b.hist

theorem harvestResolves_advance {env : Env} (henv : calm → env.Calm) (hset : calm → Settled b) :
    ∃ res b' ts hs, (harvestResolves env).run b = (res, b') ∧ Advance calm [] ts hs b b' ∧
      (calm → res = .ok () ∧ hs = ts) := by
  have hadv₀ : Advance calm [] (env.takeResolved b.hist) [] b
      (b.log (.takeResolved (env.takeResolved b.hist))) := by
    refine ⟨fun id => ?_, [.takeResolved (env.takeResolved b.hist)], rfl, ?_, rfl, ?_, rfl⟩
    · have hview : (b.log (.takeResolved (env.takeResolved b.hist))).view id = b.view id := by
        simp [view, log, about, Ev.stream?]
      rw [hview]
    · simp [log, wire, sents]
    · simp [takes]
  have howed : calm → Owed (env.takeResolved b.hist)
      (b.log (.takeResolved (env.takeResolved b.hist))).hist := by
    intro hc id
    have honce := (henv hc).once b.hist id
    have hset' : harvests b.hist = takes b.hist := hset hc
    rw [answered, ← hset', ← harvested_about] at honce
    simpa [log, about, Ev.stream?] using honce
  obtain ⟨res, b', hs, hrun, hadv, hok⟩ := harvestAll_advance (fun hc => (henv hc).epoll)
    (env.takeResolved b.hist) _ howed
  exact ⟨res, b', _, hs, hrun, by simpa using hadv₀.trans hadv, hok⟩

end Tdvmm.Egress
