import Tdvmm.Egress.Intake

/-!
# Egress.Refine — a pump moves every stream along its steps

`service_sessions` takes a session out of the table, works on it, and puts it
back or not. `Serves` compares the backend before and after as if the session
had stayed in the table; every loop and branch of the servicing is shown to be
steps of the session's stream. `pump_advance` puts the parts of a pump together
and `Reachable.streams` is the refinement over whole runs.
-/

namespace Tdvmm.Egress

open Lib Lib.Eff Tdvmm.Proto Relation Backend

variable {calm : Prop} {b : Backend}

/-! ## Servicing a session -/

/-- While the session `o.sess` of `id` is taken out, the backend moves as if it
were still in the table; the table itself is not touched. -/
structure Serves (calm : Prop) (id : StreamId) (o o' : Serviced) : Prop where
  advance : Advance calm [] [] [] (o.putBack id) (o'.putBack id)
  sessions : o'.backend.sessions = o.backend.sessions
  stays : o.sess.isOpen → o'.sess.isOpen

variable {id : StreamId} {o o' o'' : Serviced}

theorem Serves.refl (o : Serviced) : Serves calm id o o := ⟨.refl _, rfl, fun h => h⟩

theorem Serves.trans (h : Serves calm id o o') (h' : Serves calm id o' o'') :
    Serves calm id o o'' :=
  ⟨h.advance.trans h'.advance, h'.sessions.trans h.sessions, fun ho => h'.stays (h.stays ho)⟩

theorem putBack_view_self (o : Serviced) (id : StreamId) :
    (o.putBack id).view id =
      ⟨some o.sess, o.backend.resolving.contains id, about id o.backend.hist⟩ := by
  simp [view, Serviced.putBack]

theorem Serves.of_step (es : List Ev) (hsess : o'.backend.sessions = o.backend.sessions)
    (hres : o'.backend.resolving = o.backend.resolving)
    (hhist : o'.backend.hist = o.backend.hist ++ es)
    (htx : o'.backend.txPending = o.backend.txPending ++ wire es)
    (honly : ∀ e ∈ es, e.stream? = some id) (hquiet : recvs es = [] ∧ harvests es = [])
    (hstays : o.sess.isOpen → o'.sess.isOpen)
    (hstep : ∀ r h, StreamStep calm id ⟨some o.sess, r, h⟩ ⟨some o'.sess, r, h ++ es⟩) :
    Serves calm id o o' := by
  have hloc : LocalTo id es (o.putBack id) (o'.putBack id) := by
    refine ⟨fun j hj => ?_, fun j _ => ?_, hhist, htx, honly⟩
    · have hother : o'.backend.sessions[j]? = o.backend.sessions[j]? := by rw [hsess]
      exact (insert_other o'.backend id o'.sess j hj).trans
        (hother.trans (insert_other o.backend id o.sess j hj).symm)
    · simp only [Serviced.putBack, hres]
  have hview : (o'.putBack id).view id =
      ⟨some o'.sess, o.backend.resolving.contains id, about id o.backend.hist ++ es⟩ := by
    rw [putBack_view_self, hres, hhist, about_append, about_of_only honly]
  have hsteps : StreamStep calm id ((o.putBack id).view id) ((o'.putBack id).view id) := by
    rw [putBack_view_self, hview]
    exact hstep _ _
  have hadv := hloc.advance (.single hsteps)
  rw [hquiet.1, hquiet.2] at hadv
  exact ⟨hadv, hsess, hstays⟩

theorem Serves.retire {b' : Backend} (h : Serves calm id o o') (es : List Ev)
    (habsent : o.backend.sessions[id]? = none) (hsess : b'.sessions = o'.backend.sessions)
    (hres : b'.resolving = o'.backend.resolving)
    (hhist : b'.hist = o'.backend.hist ++ es)
    (htx : b'.txPending = o'.backend.txPending ++ wire es)
    (honly : ∀ e ∈ es, e.stream? = some id) (hquiet : recvs es = [] ∧ harvests es = [])
    (hstep : ∀ r h, StreamStep calm id ⟨some o'.sess, r, h⟩ ⟨none, r, h ++ es⟩) :
    Advance calm [] [] [] (o.putBack id) b' := by
  -- the session that is taken out ends: it is not put back
  have hloc : LocalTo id es (o'.putBack id) b' := by
    refine ⟨fun j hj => ?_, fun j _ => ?_, hhist, htx, honly⟩
    · rw [hsess]
      exact (insert_other o'.backend id o'.sess j hj).symm
    · simp only [Serviced.putBack, hres]
  have hview : b'.view id =
      ⟨none, o'.backend.resolving.contains id, about id o'.backend.hist ++ es⟩ := by
    simp only [view, hsess, h.sessions, habsent, hres, hhist, about_append,
      about_of_only honly]
  have hsteps : StreamStep calm id ((o'.putBack id).view id) (b'.view id) := by
    rw [putBack_view_self, hview]
    exact hstep _ _
  have hadv := hloc.advance (.single hsteps)
  rw [hquiet.1, hquiet.2] at hadv
  exact h.advance.trans hadv

/-- The socket broke under a session that is taken out: the failed call is
recorded and nothing else has changed since `o₁`. -/
def Breaks (calm : Prop) (id : StreamId) (o o' : Serviced) : Prop :=
  ∃ o₁ e, Serves calm id o o₁ ∧ o₁.sess.isOpen ∧ o' = ⟨o₁.backend.log e, o₁.sess⟩ ∧
    (e = .write id none ∨ e = .read id .err ∧ o₁.sess.hostReadClosed = false)

/-- The two ends of the socket loops. -/
def Flows (calm : Prop) (id : StreamId) (ok : Bool) (o o' : Serviced) : Prop :=
  if ok then Serves calm id o o' else Breaks calm id o o'

theorem Serves.flows {ok : Bool} (h : Serves calm id o o') (h' : Flows calm id ok o' o'') :
    Flows calm id ok o o'' := by
  cases ok with
  | true => exact h.trans h'
  | false =>
    obtain ⟨o₁, e, hs, hrest⟩ := h'
    exact ⟨o₁, e, h.trans hs, hrest⟩

@[simp] theorem run_onBackend {α : Type} (m : EgressM α) (o : Serviced) :
    (onBackend m).run o = ((m.run o.backend).1, { o with backend := (m.run o.backend).2 }) := rfl

@[simp] theorem run_onSession (f : Session → Session) (o : Serviced) :
    (onSession f).run o = (.ok (), { o with sess := f o.sess }) := rfl

theorem run_writeSocket (env : Env) (front : Bytes) (b : Backend) :
    (writeSocket env id front).run b =
      (.ok ((env.write b.hist id front).acceptedOf front),
        b.log (.write id ((env.write b.hist id front).acceptedOf front))) := rfl

theorem run_readSocket (env : Env) (want : Nat) (b : Backend) :
    (readSocket env id want).run b =
      (.ok ((env.read b.hist id want).clampTo want),
        b.log (.read id ((env.read b.hist id want).clampTo want))) := rfl

theorem acceptedOf_prefix {res : WriteRes} {front bytes : Bytes}
    (h : res.acceptedOf front = some bytes) : bytes <+: front := by
  cases res with
  | accepted n =>
    simp only [WriteRes.acceptedOf, Option.some.injEq] at h
    rw [← h]
    exact List.take_prefix n front
  | wouldBlock =>
    simp only [WriteRes.acceptedOf, Option.some.injEq] at h
    rw [← h]
    exact List.nil_prefix
  | err => simp [WriteRes.acceptedOf] at h

theorem flushToSocket_flows (env : Env) (fuel : Nat) (o : Serviced) (hopen : o.sess.isOpen) :
    ∃ ok o', (flushToSocket env id fuel).run o = (.ok ok, o') ∧ Flows calm id ok o o' := by
  induction fuel generalizing o with
  | zero => exact ⟨true, o, rfl, .refl o⟩
  | succ fuel ih =>
    unfold flushToSocket
    rw [run_read_bind]
    split_ifs with hempty
    · exact ⟨true, o, rfl, .refl o⟩
    rw [run_bind, run_onBackend, run_writeSocket]
    rcases hacc : (env.write o.backend.hist id o.sess.toSocket).acceptedOf o.sess.toSocket with
      _ | _ | ⟨x, xs⟩
    · -- the write failed
      exact ⟨false, _, rfl, o, .write id none, .refl o, hopen, rfl, .inl rfl⟩
    · -- would block, or nothing accepted
      refine ⟨true, _, rfl, Serves.of_step [.write id (some [])] rfl rfl rfl ?_ ?_ ⟨rfl, rfl⟩
        (fun h => h) fun r h => ?_⟩
      · simp [log, wire, sents]
      · simp [Ev.stream?]
      · exact StreamStep.write hopen (List.nil_append _).symm
    · obtain ⟨rest, hrest⟩ := acceptedOf_prefix hacc
      have hserve : Serves calm id o
          ⟨{ o.backend.log (.write id (some (x :: xs))) with
              stats := { o.backend.stats with
                bytesUp := o.backend.stats.bytesUp + (x :: xs).length } },
            { o.sess with toSocket := rest }⟩ := by
        refine Serves.of_step [.write id (some (x :: xs))] rfl rfl rfl ?_ ?_ ⟨rfl, rfl⟩
          (fun h => h) fun r h => StreamStep.write hopen hrest.symm
        · simp [log, wire, sents]
        · simp [Ev.stream?]
      obtain ⟨ok, o', hrun, hflow⟩ := ih _ (hserve.stays hopen)
      refine ⟨ok, o', ?_, hserve.flows hflow⟩
      have hdrop : o.sess.toSocket.drop (x :: xs).length = rest := by
        rw [← hrest, List.drop_left]
      rw [← hrun]
      simp only [run_bind, run_onSession, run_onBackend, run_update, hdrop, log]

theorem closeGuest_isOpen {s : Session} : s.closeGuest.isOpen ↔ s.isOpen := by
  cases hst : s.state <;> simp [Session.closeGuest, Session.isOpen, hst]

theorem connected_isOpen (s : Session) : s.connected.isOpen := by
  unfold Session.connected Session.isOpen
  cases s.guestWriteClosed with
  | true => exact .inr rfl
  | false => exact .inl rfl

theorem closeHost_isOpen {s : Session} (h : s.isOpen) : s.closeHost.isOpen := by
  rcases h with h | h
  · exact .inr (by simp [Session.closeHost, h])
  · exact .inr (by simp [Session.closeHost, h])

theorem fillToGuest_flows (env : Env) (fuel : Nat) (o : Serviced) (hopen : o.sess.isOpen)
    (hread : o.sess.hostReadClosed = false) :
    ∃ ok o', (fillToGuest env id fuel).run o = (.ok ok, o') ∧ Flows calm id ok o o' := by
  induction fuel generalizing o with
  | zero => exact ⟨true, o, rfl, .refl o⟩
  | succ fuel ih =>
    unfold fillToGuest
    rw [run_read_bind]
    split_ifs with hroom
    swap
    · exact ⟨true, o, rfl, .refl o⟩
    rw [run_bind, run_onBackend, run_readSocket]
    rcases hres : (env.read o.backend.hist id (min (WINDOW_BYTES - o.sess.toGuest.length)
        READ_CHUNK)).clampTo (min (WINDOW_BYTES - o.sess.toGuest.length) READ_CHUNK) with
      ⟨_ | ⟨x, xs⟩⟩ | _ | _
    · -- EOF
      refine ⟨true, _, rfl, Serves.of_step [.read id (.got [])] rfl rfl rfl ?_ ?_ ⟨rfl, rfl⟩
        closeHost_isOpen fun r h => StreamStep.eof hopen hread⟩
      · simp [log, wire, sents]
      · simp [Ev.stream?]
    · have hserve : Serves calm id o
          ⟨o.backend.log (.read id (.got (x :: xs))),
            { o.sess with toGuest := o.sess.toGuest ++ x :: xs }⟩ := by
        refine Serves.of_step [.read id (.got (x :: xs))] rfl rfl rfl ?_ ?_ ⟨rfl, rfl⟩
          (fun h => h) fun r h => StreamStep.read hopen hread
        · simp [log, wire, sents]
        · simp [Ev.stream?]
      obtain ⟨ok, o', hrun, hflow⟩ := ih _ (hserve.stays hopen) hread
      exact ⟨ok, o', hrun, hserve.flows hflow⟩
    · -- would block
      refine ⟨true, _, rfl, Serves.of_step [.read id .wouldBlock] rfl rfl rfl ?_ ?_ ⟨rfl, rfl⟩
        (fun h => h) fun r h => StreamStep.readBlocked hopen hread⟩
      · simp [log, wire, sents]
      · simp [Ev.stream?]
    · -- the read failed
      exact ⟨false, _, rfl, o, .read id .err, .refl o, hopen, rfl, .inr ⟨rfl, hread⟩⟩

theorem encode_take_ok (bytes : Bytes) {n : Nat} (h : n ≤ EGRESS_MAX_PAYLOAD) :
    (encode (.data id (bytes.take n)) []).1 = .ok () := by
  refine encode_ok_of_small [] (by simp) fun stream payload heq => ?_
  cases heq
  exact (List.length_take_le _ _).trans h

theorem frameToGuest_serves (fuel : Nat) (o : Serviced) (hopen : o.sess.isOpen) :
    ∃ o', (frameToGuest id fuel).run o = (.ok (), o') ∧ Serves calm id o o' := by
  induction fuel generalizing o with
  | zero => exact ⟨o, rfl, .refl o⟩
  | succ fuel ih =>
    unfold frameToGuest
    rw [run_read_bind]
    split_ifs with hgo
    swap
    · exact ⟨o, rfl, .refl o⟩
    generalize htake : min (min o.sess.toGuest.length o.sess.toGuestCredit) EGRESS_MAX_PAYLOAD = n
    have hlen : (o.sess.toGuest.take n).length = n := by
      rw [List.length_take]
      omega
    have hpos : 0 < n := by
      have h : o.sess.toGuest ≠ [] ∧ 0 < o.sess.toGuestCredit := by simpa using hgo
      have hl := List.length_pos_iff.mpr h.1
      simp only [EGRESS_MAX_PAYLOAD] at htake
      omega
    have hmax : (o.sess.toGuest.take n).length ≤ EGRESS_MAX_PAYLOAD := by omega
    have hok : (encode (.data id (o.sess.toGuest.take n)) []).1 = .ok () :=
      encode_take_ok o.sess.toGuest (by omega)
    have hserve : Serves calm id o
        ⟨{ o.backend.grow [.sent (.data id (o.sess.toGuest.take n))] with
            stats := { o.backend.stats with bytesDown := o.backend.stats.bytesDown + n } },
          { o.sess with
            toGuest := o.sess.toGuest.drop n, toGuestCredit := o.sess.toGuestCredit - n }⟩ := by
      refine Serves.of_step [.sent (.data id (o.sess.toGuest.take n))] rfl rfl rfl rfl ?_
        ⟨rfl, rfl⟩ (fun h => h) fun r h => ?_
      · simp [Ev.stream?, EgressFrame.stream]
      · have hstep := @StreamStep.frame calm id o.sess r h _ _ hopen
          (List.take_append_drop n o.sess.toGuest).symm
          (List.ne_nil_of_length_pos (by omega)) (by omega) hmax
        rwa [hlen] at hstep
    obtain ⟨o', hrun, hs⟩ := ih _ (hserve.stays hopen)
    refine ⟨o', ?_, hserve.trans hs⟩
    rw [← hrun]
    simp only [run_bind, run_onBackend, run_enqueue hok, run_onSession, run_update,
      grow]

theorem announceClose_serves (o : Serviced) (hopen : o.sess.isOpen) :
    ∃ o', (announceClose id).run o = (.ok (), o') ∧ Serves calm id o o' ∧
      (o'.sess.hostReadClosed = true → o'.sess.toGuest = [] → o'.sess.hostCloseSent = true) := by
  unfold announceClose
  rw [run_read_bind]
  split_ifs with hgo
  · simp only [Bool.and_eq_true, List.isEmpty_iff, Bool.not_eq_true'] at hgo
    obtain ⟨⟨hread, hempty⟩, hsent⟩ := hgo
    refine ⟨⟨o.backend.grow [.sent (.close id)], { o.sess with hostCloseSent := true }⟩, ?_,
      Serves.of_step [.sent (.close id)] rfl rfl rfl rfl ?_ ⟨rfl, rfl⟩ (fun h => h)
        fun r h => StreamStep.hostClose hopen hread hempty hsent, fun _ _ => rfl⟩
    · simp only [run_bind, run_onBackend, run_enqueue_close, run_onSession]
    · simp [Ev.stream?, EgressFrame.stream]
  · refine ⟨o, rfl, .refl o, fun hread hempty => ?_⟩
    simpa [hread, hempty] using hgo

section Env

variable {env : Env} (hepoll : calm → ∀ h id, env.epollCtl h id = true)
include hepoll

theorem updateEpoll_serves (o : Serviced) :
    ∃ res o' mask, (updateEpoll env id).run o = (res, o') ∧ Serves calm id o o' ∧
      o'.sess = { o.sess with epollMask := mask } ∧ (calm → res = .ok ()) := by
  unfold updateEpoll epollCtl
  rw [run_read_bind]
  dsimp only
  split_ifs with hmask
  swap
  · exact ⟨_, o, o.sess.epollMask, rfl, .refl o, rfl, fun _ => rfl⟩
  simp only [run_bind, run_onBackend, run_read, run_emit]
  cases hok : env.epollCtl o.backend.hist id with
  | true =>
    refine ⟨_, _, o.sess.wantMask, rfl,
      Serves.of_step [.epollCtl id o.sess.wantMask true] rfl rfl rfl ?_ ?_
      ⟨rfl, rfl⟩ (fun h => h) fun r h => StreamStep.epoll, rfl, fun _ => rfl⟩
    · simp [log, wire, sents]
    · simp [Ev.stream?]
  | false =>
    have hstuck : ¬ calm := fun hc => by
      rw [hepoll hc] at hok
      cases hok
    refine ⟨_, _, o.sess.epollMask, rfl,
      Serves.of_step [.epollCtl id o.sess.wantMask false] rfl rfl rfl ?_ ?_
      ⟨rfl, rfl⟩ (fun h => h) fun r h => StreamStep.epollStuck hstuck, rfl,
      fun hc => absurd hc hstuck⟩
    · simp [log, wire, sents]
    · simp [Ev.stream?]

end Env

/-- What servicing a session that is taken out comes to: it is put back, or it
has ended. -/
def Settles (calm : Prop) (id : StreamId) (o : Serviced) :
    Except EgressError Disposition × Serviced → Prop
  | (.ok .remove, o') => Advance calm [] [] [] (o.putBack id) (o'.backend.log (.removed id))
  | (.ok .keep, o') => Advance calm [] [] [] (o.putBack id) (o'.putBack id)
  | (.error _, o') => ¬ calm ∧ Advance calm [] [] [] (o.putBack id) (o'.putBack id)

theorem abortOpen_settles (habsent : o.backend.sessions[id]? = none)
    (hbreaks : Breaks calm id o o') : Settles calm id o ((onBackend (abortOpen id)).run o') := by
  obtain ⟨o₁, e, hserve, hopen, rfl, he⟩ := hbreaks
  simp only [abortOpen, detachSocket, run_onBackend, run_bind, run_emit, run_enqueue_rst,
    run_pure, Settles]
  refine hserve.retire [e, .close id, .sent (.rst id), .removed id] habsent rfl rfl ?_ ?_ ?_ ?_
    fun r h => ?_
  · simp [log, grow]
  · rcases he with rfl | ⟨rfl, -⟩ <;> simp [log, grow, wire, sents]
  · rcases he with rfl | ⟨rfl, -⟩ <;> simp [Ev.stream?, EgressFrame.stream]
  · rcases he with rfl | ⟨rfl, -⟩ <;> exact ⟨rfl, rfl⟩
  · rcases he with rfl | ⟨rfl, hread⟩
    · exact StreamStep.writeFailed hopen
    · exact StreamStep.readFailed hopen hread

theorem retire_settles (habsent : o.backend.sessions[id]? = none) (hserve : Serves calm id o o')
    (hopen : o'.sess.isOpen)
    (hsent : o'.sess.hostReadClosed = true → o'.sess.toGuest = [] → o'.sess.hostCloseSent = true) :
    Settles calm id o ((retire id).run o') := by
  unfold retire
  rw [run_read_bind]
  split_ifs with hdrained
  · have hclosed : o'.sess.hostReadClosed = true ∧ o'.sess.toGuest = [] := by
      simp only [Session.isDrained, Bool.and_eq_true, List.isEmpty_iff] at hdrained
      exact ⟨hdrained.1.1.2, hdrained.2⟩
    refine hserve.retire [.close id, .removed id] habsent rfl rfl ?_ ?_ ?_ ⟨rfl, rfl⟩ fun r h =>
      StreamStep.drained hopen hdrained (hsent hclosed.1 hclosed.2)
    · simp [detachSocket, log]
    · simp [detachSocket, log, wire, sents]
    · simp [Ev.stream?]
  · exact hserve.advance

theorem finishConnect_serves (hst : o.sess.state = .connecting) :
    ∃ o₁, (finishConnect id).run ⟨o.backend.log (.pollConnect id o.sess .connected), o.sess⟩ =
      (.ok (), o₁) ∧ Serves calm id o o₁ := by
  -- the connect completed; a `CLOSE` that came before is applied at once
  have hnot : ¬ o.sess.isOpen := by
    rintro (h | h) <;> rw [hst] at h <;> cases h
  unfold finishConnect
  simp only [run_bind, run_onBackend, run_enqueue_openOk, run_onSession, run_read]
  cases hclosed : o.sess.guestWriteClosed with
  | true =>
    refine ⟨_, rfl, Serves.of_step
      [.pollConnect id o.sess .connected, .sent (.openOk id), .shutdownWrite id] rfl rfl ?_ ?_ ?_
      ⟨rfl, rfl⟩ (fun h => absurd h hnot) fun r h => ?_⟩
    · simp [log, grow]
    · simp [log, grow, wire, sents]
    · simp [Ev.stream?, EgressFrame.stream]
    · simpa [Session.connected, hclosed] using @StreamStep.connected calm id o.sess r h hst
  | false =>
    refine ⟨_, rfl,
      Serves.of_step [.pollConnect id o.sess .connected, .sent (.openOk id)] rfl rfl ?_ ?_
      ?_ ⟨rfl, rfl⟩ (fun h => absurd h hnot) fun r h => ?_⟩
    · simp [log, grow]
    · simp [log, grow, wire, sents]
    · simp [Ev.stream?, EgressFrame.stream]
    · simpa [Session.connected, hclosed] using @StreamStep.connected calm id o.sess r h hst

section Env

variable {env : Env} (hepoll : calm → ∀ h id, env.epollCtl h id = true)
include hepoll

theorem runOpenIo_settles (habsent : o.backend.sessions[id]? = none) (hopen : o.sess.isOpen) :
    Settles calm id o ((runOpenIo env id).run o) := by
  unfold runOpenIo
  obtain ⟨ok, o₁, hrun₁, hflow₁⟩ : ∃ ok o', (transmit env id).run o = (.ok ok, o') ∧
      Flows calm id ok o o' := flushToSocket_flows env o.sess.toSocket.length o hopen
  rw [run_bind_ok hrun₁]
  cases ok with
  | false => exact abortOpen_settles habsent hflow₁
  | true =>
  -- the write side went through, and the read side is next
  have hserve₁ : Serves calm id o o₁ := hflow₁
  have hopen₁ := hserve₁.stays hopen
  obtain ⟨ok, o₂, hrun₂, hflow₂⟩ : ∃ ok o', (receive env id).run o₁ = (.ok ok, o') ∧
      Flows calm id ok o₁ o' := by
    unfold receive
    rw [run_read_bind]
    split_ifs with hread
    · exact ⟨true, o₁, rfl, .refl o₁⟩
    · exact fillToGuest_flows env _ o₁ hopen₁ (by simpa using hread)
  simp only [if_true]
  rw [run_bind_ok hrun₂]
  have hflow₂' := hserve₁.flows hflow₂
  cases ok with
  | false => exact abortOpen_settles habsent hflow₂'
  | true =>
  have hserve₂ : Serves calm id o o₂ := hflow₂'
  have hopen₂ := hserve₂.stays hopen
  obtain ⟨o₃, hrun₃, hserve₃⟩ : ∃ o', (deliver id).run o₂ = (.ok (), o') ∧
      Serves calm id o₂ o' := frameToGuest_serves o₂.sess.toGuest.length o₂ hopen₂
  simp only [if_true]
  rw [run_bind_ok hrun₃]
  have hopen₃ := hserve₃.stays hopen₂
  obtain ⟨o₄, hrun₄, hserve₄, hsent⟩ : ∃ o', (announceClose id).run o₃ = (.ok (), o') ∧
      Serves calm id o₃ o' ∧ (o'.sess.hostReadClosed = true → o'.sess.toGuest = [] →
        o'.sess.hostCloseSent = true) := announceClose_serves o₃ hopen₃
  rw [run_bind_ok hrun₄]
  obtain ⟨res, o₅, mask, hrun₅, hserve₅, hsess, hok⟩ := @updateEpoll_serves calm id env hepoll o₄
  have hserve := ((hserve₂.trans hserve₃).trans hserve₄).trans hserve₅
  cases res with
  | error e =>
    rw [run_bind_error hrun₅]
    exact ⟨fun hc => (by cases hok hc), hserve.advance⟩
  | ok u =>
    rw [run_bind_ok hrun₅]
    refine retire_settles habsent hserve (hserve.stays hopen) ?_
    rw [hsess]
    exact hsent

theorem runConnecting_settles (habsent : o.backend.sessions[id]? = none)
    (hst : o.sess.state = .connecting) : Settles calm id o ((runConnecting env id).run o) := by
  unfold runConnecting
  have hpoll : (pollConnect env id).run o =
      (.ok (env.pollConnect o.backend.hist id),
        ⟨o.backend.log (.pollConnect id o.sess (env.pollConnect o.backend.hist id)), o.sess⟩) := rfl
  rw [run_bind_ok hpoll]
  cases env.pollConnect o.backend.hist id with
  | pending =>
    have hserve : Serves calm id o
        ⟨o.backend.log (.pollConnect id o.sess .pending), o.sess⟩ := by
      refine Serves.of_step [.pollConnect id o.sess .pending] rfl rfl rfl ?_ ?_ ⟨rfl, rfl⟩
        (fun h => h) fun r h => StreamStep.pending hst
      · simp [log, wire, sents]
      · simp [Ev.stream?]
    exact hserve.advance
  | connected =>
    obtain ⟨o₁, hrun₁, hserve₁⟩ : ∃ o₁, (finishConnect id).run
        ⟨o.backend.log (.pollConnect id o.sess .connected), o.sess⟩ = (.ok (), o₁) ∧
        Serves calm id o o₁ := finishConnect_serves hst
    obtain ⟨res, o₂, mask, hrun₂, hserve₂, -, hok⟩ := @updateEpoll_serves calm id env hepoll o₁
    simp only
    rw [run_bind_ok hrun₁]
    cases res with
    | error e =>
      rw [run_bind_error hrun₂]
      exact ⟨fun hc => (by cases hok hc), (hserve₁.trans hserve₂).advance⟩
    | ok u =>
      rw [run_bind_ok hrun₂]
      exact (hserve₁.trans hserve₂).advance
  | failed reason =>
    simp only [run_onBackend, detachSocket, run_bind, run_emit, run_update,
      run_enqueue_openErr, run_pure, Settles]
    refine (Serves.refl o).retire
      [.pollConnect id o.sess (.failed reason), .close id, .sent (.openErr id reason), .removed id]
      habsent rfl rfl ?_ ?_ ?_ ⟨rfl, rfl⟩ fun r h => StreamStep.connectFailed hst
    · simp [log, grow]
    · simp [log, grow, wire, sents]
    · simp [Ev.stream?, EgressFrame.stream]

theorem runSession_settles (habsent : o.backend.sessions[id]? = none) :
    Settles calm id o ((runSession env id).run o) := by
  unfold runSession
  rw [run_read_bind]
  cases hst : o.sess.state with
  | resolving => exact Advance.refl _
  | connecting => exact runConnecting_settles hepoll habsent hst
  | established => exact runOpenIo_settles hepoll habsent (.inl hst)
  | halfClosed => exact runOpenIo_settles hepoll habsent (.inr hst)

theorem serviceOne_advance (id : StreamId) (b : Backend) :
    ∃ res b', (serviceOne env id).run b = (res, b') ∧ Advance calm [] [] [] b b' ∧
      (calm → res = .ok ()) := by
  unfold serviceOne
  simp only [Eff.run]
  cases hs : b.sessions[id]? with
  | none => exact ⟨_, b, rfl, .refl b, fun _ => rfl⟩
  | some s =>
    -- taking the session out and putting it back leaves every view as it was
    have hback : Advance calm [] [] [] b
        (Serviced.putBack ⟨{ b with sessions := b.sessions.erase id }, s⟩ id) := by
      refine ⟨fun j => ?_, [], by simp [Serviced.putBack, wire, sents, recvs, takes, harvests]⟩
      have hview : (Serviced.putBack ⟨{ b with sessions := b.sessions.erase id }, s⟩ id).view j =
          b.view j := by
        have hj : ((b.sessions.erase id).insert id s)[j]? = b.sessions[j]? := by
          by_cases hj : j = id
          · rw [hj, hs, Std.ExtTreeMap.getElem?_insert_self]
          · exact (insert_other { b with sessions := b.sessions.erase id } id s j hj).trans
              (erase_other b id j hj)
        simp only [view, Serviced.putBack, hj]
      rw [hview]
    have hsettles := @runSession_settles calm id ⟨{ b with sessions := b.sessions.erase id }, s⟩
      env hepoll (erase_self b id)
    revert hsettles
    simp only [Eff.run]
    rcases runSession env id ⟨{ b with sessions := b.sessions.erase id }, s⟩ with ⟨res, o'⟩
    rcases res with e | d
    · rintro ⟨hstuck, hadv⟩
      exact ⟨_, _, rfl, hback.trans hadv, fun hc => absurd hc hstuck⟩
    · cases d with
      | keep | remove => exact fun hadv => ⟨_, _, rfl, hback.trans hadv, fun _ => rfl⟩

theorem serviceAll_advance (ids : List StreamId) (b : Backend) :
    ∃ res b', (serviceAll env ids).run b = (res, b') ∧ Advance calm [] [] [] b b' ∧
      (calm → res = .ok ()) := by
  induction ids generalizing b with
  | nil => exact ⟨_, b, rfl, .refl b, fun _ => rfl⟩
  | cons id ids ih =>
    obtain ⟨res, b₁, hrun, hadv, hok⟩ := serviceOne_advance hepoll id b
    unfold serviceAll
    cases res with
    | error e =>
      rw [run_bind_error hrun]
      exact ⟨_, b₁, rfl, hadv, fun hc => by cases hok hc⟩
    | ok u =>
      obtain ⟨res', b₂, hrun', hadv', hok'⟩ := ih b₁
      rw [run_bind_ok hrun, hrun']
      exact ⟨res', b₂, rfl, hadv.trans hadv', hok'⟩

end Env

/-! ## A whole pump -/

theorem Advance.settled {b' : Backend} {fs : List OwnedFrame} {ts hs : List Resolved}
    (h : Advance calm fs ts hs b b') (heq : hs = ts) (hset : Settled b) : Settled b' := by
  obtain ⟨-, es, hhist, -, -, ht, hh⟩ := h
  have hset' : harvests b.hist = takes b.hist := hset
  simp only [Settled, hhist, harvests_append, takes_append, ht, hh, heq, hset']

/-- What a pump does once the frames are split off: it handles them, takes and
acts on resolutions, and services the sessions, in steps of the streams. -/
theorem pumpFrames_advance {env : Env} (henv : calm → env.Calm) (hset : calm → Settled b)
    (fs : List OwnedFrame) :
    ∃ res b' ts hs, (pumpFrames env fs).run b = (res, b') ∧ Advance calm fs ts hs b b' ∧
      (calm → res = .ok () ∧ Settled b') := by
  obtain ⟨b₁, hrun₁, hadv₁⟩ : ∃ b', (handleFrames fs).run b = (.ok (), b') ∧
      Advance calm fs [] [] b b' := handleFrames_advance fs b
  have hset₁ : calm → Settled b₁ := fun hc => hadv₁.settled rfl (hset hc)
  obtain ⟨res₂, b₂, ts, hs, hrun₂, hadv₂, hok₂⟩ := harvestResolves_advance henv hset₁
  have hadv₁₂ : Advance calm fs ts hs b b₂ := by simpa using hadv₁.trans hadv₂
  have hset₂ : calm → Settled b₂ := fun hc => hadv₂.settled (hok₂ hc).2 (hset₁ hc)
  unfold pumpFrames
  rw [run_bind_ok hrun₁]
  cases res₂ with
  | error e =>
    rw [run_bind_error hrun₂]
    exact ⟨_, b₂, ts, hs, rfl, hadv₁₂, fun hc => by cases (hok₂ hc).1⟩
  | ok u =>
    rw [run_bind_ok hrun₂]
    obtain ⟨res₃, b₃, hrun₃, hadv₃, hok₃⟩ := serviceAll_advance (fun hc => (henv hc).epoll)
      b₂.sessions.keys b₂
    refine ⟨res₃, b₃, ts, hs, hrun₃, by simpa using hadv₁₂.trans hadv₃, fun hc => ?_⟩
    exact ⟨hok₃ hc, hadv₃.settled rfl (hset₂ hc)⟩

theorem run_pump (env : Env) (fromGuest : Bytes) (b : Backend) :
    (pump env fromGuest).run b =
      match parseFrames ((b.rxParse ++ fromGuest).length + 1) (b.rxParse ++ fromGuest) with
      | .ok (fs, rest) => (pumpFrames env fs).run { b with rxParse := rest }
      | .error e => (.error (.frame e), { b with rxParse := [] }) := by
  unfold pump ingestAndParse
  simp only [run_bind, run_read]
  cases parseFrames ((b.rxParse ++ fromGuest).length + 1) (b.rxParse ++ fromGuest) with
  | error e => simp only [run_bind, run_update, run_fail]
  | ok r =>
    obtain ⟨fs, rest⟩ := r
    simp only [run_bind, run_update, pumpFrames]

theorem advance_rxParse (b : Backend) (rest : Bytes) :
    Advance calm [] [] [] b { b with rxParse := rest } :=
  ⟨fun _ => .refl, [], by simp [wire, sents, recvs, takes, harvests]⟩

/-- A pump moves every stream along its steps. -/
theorem pump_advance {env : Env} (henv : calm → env.Calm) (hset : calm → Settled b)
    (fromGuest : Bytes) :
    ∃ res b' fs ts hs, (pump env fromGuest).run b = (res, b') ∧ Advance calm fs ts hs b b' ∧
      (calm → Settled b') := by
  rw [run_pump]
  cases parseFrames ((b.rxParse ++ fromGuest).length + 1) (b.rxParse ++ fromGuest) with
  | error e => exact ⟨_, _, [], [], [], rfl, advance_rxParse b [], hset⟩
  | ok r =>
    obtain ⟨fs, rest⟩ := r
    obtain ⟨res, b', ts, hs, hrun, hadv, hok⟩ := pumpFrames_advance
      (b := { b with rxParse := rest }) henv hset fs
    exact ⟨res, b', fs, ts, hs, hrun, (advance_rxParse b rest).trans hadv, fun hc => (hok hc).2⟩

/-! ## Runs of pumps -/

/-- The backends reached from a fresh one by pumps with any guest bytes and any
answers of the connector that satisfy `ok`. Between pumps the channel takes up to
`max` staged bytes and gives back those after the first `k`, which the guest's
FIFO did not accept. -/
inductive Reachable (ok : Env → Prop) : Backend → Prop
  | init : Reachable ok .init
  | pump {b : Backend} {env : Env} (fromGuest : Bytes) (hb : Reachable ok b) (henv : ok env) :
      Reachable ok ((Egress.pump env fromGuest).run b).2
  | deliver {b : Backend} (max k : Nat) (hb : Reachable ok b) :
      Reachable ok ((b.drainToGuest max).2.unshiftToGuest ((b.drainToGuest max).1.drop k))

def StreamView.init : StreamView := ⟨none, false, []⟩

theorem view_init (id : StreamId) : init.view id = .init := by
  simp [view, init, StreamView.init, about]

theorem Reachable.streams {ok : Env → Prop} (hok : ∀ env, ok env → calm → env.Calm)
    (h : Reachable ok b) :
    (∀ id, StreamSteps calm id .init (b.view id)) ∧ (calm → Settled b) := by
  induction h with
  | init =>
    refine ⟨fun id => ?_, fun _ => rfl⟩
    rw [view_init]
  | pump fromGuest _ henv ih =>
    obtain ⟨res, b', fs, ts, hs, hrun, hadv, hset⟩ :=
      pump_advance (hok _ henv) ih.2 fromGuest
    rw [hrun]
    exact ⟨fun id => (ih.1 id).trans (hadv.streams id), hset⟩
  | deliver max k _ ih => exact ih

/-! ## A connector that answers at once -/

/-- Answers the resolves of one id, connects, accepts every write and has nothing
to read. -/
def Env.prompt (id : StreamId) (addr : SocketAddr) : Env where
  takeResolved h := if answered id h < started (about id h) then [⟨id, some addr⟩] else []
  startConnect _ _ _ := true
  pollConnect _ _ := .connected
  read _ _ _ := .wouldBlock
  write _ _ front := .accepted front.length
  epollCtl _ _ := true

theorem prompt_calm (id : StreamId) (addr : SocketAddr) : (Env.prompt id addr).Calm := by
  refine ⟨fun _ _ => rfl, fun h j => ?_⟩
  unfold Env.prompt
  dsimp only
  split_ifs with hlt
  · by_cases hj : id = j
    · subst hj
      simp only [List.countP_singleton, beq_self_eq_true, if_true]
      omega
    · simp [hj]
  · simp

/-- No write fails: each accepts some bytes or would block. -/
def Env.WritesAccepted (env : Env) : Prop := ∀ h id front, env.write h id front ≠ .err

theorem prompt_writesAccepted (id : StreamId) (addr : SocketAddr) :
    (Env.prompt id addr).WritesAccepted := by
  intro h j front
  simp [Env.prompt]

def frameBytes (frames : List EgressFrame) : Bytes :=
  frames.flatMap fun frame => (encode frame []).2

end Tdvmm.Egress
