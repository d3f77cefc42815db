import Tdvmm.Egress.Refine

/-!
# Egress.Bounds — what the backend does to its sessions

`Stable P` lists the changes the backend makes to a session, each with what the code has checked
before it, and asks that `P` survive them. The code is gone through once, for any such `P`: it
holds of every session in every backend that a run of pumps reaches, and the table holds at most
`MAX_SESSIONS` of them, although servicing takes each session out and puts it back.

* `Reachable.bounded`: the table is bounded and all its sessions satisfy `P`.
* `session_bounds`: with the caps of the two buffers as `P`, and that a guest frame changes no
  session but its own.
-/

namespace Tdvmm.Egress

open Lib Lib.Eff Tdvmm.Proto

/-- `P` holds of a new session and survives every change the backend makes to one. -/
structure Stable (P : Session → Prop) : Prop where
  fresh : P .newResolving
  -- guest frames
  data : ∀ (s : Session) (payload : Bytes), P s → (s.toSocket ++ payload).length ≤ TO_SOCKET_CAP →
    P { s with toSocket := s.toSocket ++ payload }
  close : ∀ s : Session, P s → P s.closeGuest
  window : ∀ (s : Session) (credit : Nat), P s → P { s with toGuestCredit := credit }
  -- the connect
  connect : ∀ s : Session, P s → s.state = .resolving →
    P { s with state := .connecting, epollMask := EPOLLIN ||| EPOLLOUT }
  connected : ∀ s : Session, P s → P s.connected
  -- socket I/O and frames toward the guest, past the connect
  flush : ∀ (s : Session) (n : Nat), P s → s.isOpen → P { s with toSocket := s.toSocket.drop n }
  eof : ∀ s : Session, P s → s.isOpen → P s.closeHost
  read : ∀ (s : Session) (bytes : Bytes), P s → s.isOpen →
    (s.toGuest ++ bytes).length ≤ WINDOW_BYTES → P { s with toGuest := s.toGuest ++ bytes }
  frame : ∀ (s : Session) (n : Nat), P s → s.isOpen →
    P { s with toGuestCredit := s.toGuestCredit - n, toGuest := s.toGuest.drop n }
  announce : ∀ s : Session, P s → s.isOpen → P { s with hostCloseSent := true }
  epoll : ∀ s : Session, P s → s.isOpen → P { s with epollMask := s.wantMask }

variable {P : Session → Prop}

/-- A table of at most `MAX_SESSIONS` sessions, all of which satisfy `P`. -/
structure Bounded (P : Session → Prop) (m : Std.ExtTreeMap StreamId Session) : Prop where
  size : m.size ≤ MAX_SESSIONS
  holds : ∀ (id : StreamId) (s : Session), m[id]? = some s → P s

section Table

variable {m : Std.ExtTreeMap StreamId Session} {id : StreamId} {s : Session}

theorem contains_of_getElem? (h : m[id]? = some s) : m.contains id = true := by
  rw [Std.ExtTreeMap.contains_eq_isSome_getElem?, h]
  rfl

theorem holds_insert (hm : ∀ (j : StreamId) (s' : Session), m[j]? = some s' → P s') (hs : P s) :
    ∀ (j : StreamId) (s' : Session), (m.insert id s)[j]? = some s' → P s' := by
  intro j s' hj
  rw [Std.ExtTreeMap.getElem?_insert] at hj
  split at hj
  · cases hj
    exact hs
  · exact hm j s' hj

theorem holds_erase (hm : ∀ (j : StreamId) (s' : Session), m[j]? = some s' → P s') :
    ∀ (j : StreamId) (s' : Session), (m.erase id)[j]? = some s' → P s' := by
  intro j s' hj
  rw [Std.ExtTreeMap.getElem?_erase] at hj
  split at hj
  · cases hj
  · exact hm j s' hj

theorem Bounded.erase (h : Bounded P m) : Bounded P (m.erase id) :=
  ⟨Std.ExtTreeMap.size_erase_le.trans h.size, holds_erase h.holds⟩

theorem Bounded.replace {s' : Session} (h : Bounded P m) (hid : m[id]? = some s) (hs : P s') :
    Bounded P (m.insert id s') := by
  refine ⟨?_, holds_insert h.holds hs⟩
  rw [Std.ExtTreeMap.size_insert, if_pos (contains_of_getElem? hid)]
  exact h.size

theorem Bounded.erase_replaced {s' : Session} (h : Bounded P m) (hid : m[id]? = some s) :
    Bounded P ((m.insert id s').erase id) := by
  constructor
  · refine Std.ExtTreeMap.size_erase_le.trans ?_
    rw [Std.ExtTreeMap.size_insert, if_pos (contains_of_getElem? hid)]
    exact h.size
  · intro j t hj
    rw [Std.ExtTreeMap.getElem?_erase, Std.ExtTreeMap.getElem?_insert] at hj
    split_ifs at hj
    exact h.holds j t hj

theorem Bounded.add (h : Bounded P m) (hroom : m.size < MAX_SESSIONS) (hs : P s) :
    Bounded P (m.insert id s) :=
  ⟨Std.ExtTreeMap.size_insert_le.trans hroom, holds_insert h.holds hs⟩

theorem Bounded.putBack {s' : Session} (h : Bounded P m) (hid : m[id]? = some s) (hs : P s') :
    Bounded P ((m.erase id).insert id s') := by
  refine h.erase.add ?_ hs
  have hin : m.contains id = true := contains_of_getElem? hid
  have hpos : 0 < m.size := by
    rw [Nat.pos_iff_ne_zero]
    intro hzero
    have hempty : m = ∅ := Std.ExtTreeMap.eq_empty_iff_size_eq_zero.mpr hzero
    rw [hempty] at hin
    simp at hin
  have hsize := h.size
  rw [Std.ExtTreeMap.size_erase, if_pos hin]
  omega

end Table

abbrev Backend.Holds (P : Session → Prop) (b : Backend) : Prop := Bounded P b.sessions

/-! ## Guest frames -/

theorem keeps_emit (e : Ev) : Keeps (Backend.Holds P) (emit e) :=
  keeps_update fun _ hb => hb

theorem keeps_resetStream (id : StreamId) : Keeps (Backend.Holds P) (resetStream id) := by
  intro b hb
  rw [run_resetStream]
  exact hb.erase

theorem keeps_failOpen (id : StreamId) (reason : EgressReason) :
    Keeps (Backend.Holds P) (failOpen id reason) := by
  intro b hb
  rw [run_failOpen]
  exact hb.erase

section Stable

variable (hP : Stable P)
include hP

theorem keeps_handleOpen (stream : StreamId) (port : UInt16) (host : Bytes) :
    Keeps (Backend.Holds P) (handleOpen stream port host) := by
  intro b hb
  unfold handleOpen
  rw [run_read_bind]
  split_ifs with hlive hfull
  · exact keeps_resetStream stream b hb
  · exact keeps_failOpen stream _ b hb
  · exact keeps_failOpen stream _ b hb
  · exact hb.add (Nat.lt_of_not_le hfull) hP.fresh

theorem keeps_handleData (stream : StreamId) (payload : Bytes) :
    Keeps (Backend.Holds P) (handleData stream payload) := by
  intro b hb
  unfold handleData
  rw [run_read_bind]
  cases hs : b.sessions[stream]? with
  | none => exact keeps_resetStream stream b hb
  | some s =>
    simp only
    split_ifs with hopen hcap
    · -- past the cap: the session is in the table until the reset takes it out
      rw [run_update_bind, run_resetStream]
      exact hb.erase_replaced hs
    · exact hb.replace hs (hP.data s payload (hb.holds stream s hs) (Nat.le_of_not_lt hcap))
    · exact keeps_resetStream stream b hb

theorem keeps_handleFrame (f : OwnedFrame) : Keeps (Backend.Holds P) (handleFrame f) := by
  refine keeps_read.bind fun b => (keeps_emit _).bind fun _ => ?_
  cases f with
  | openTo stream port host => exact keeps_handleOpen hP stream port host
  | data stream payload => exact keeps_handleData hP stream payload
  | rst stream =>
    intro b hb
    rw [run_dropStream]
    exact hb.erase
  | unexpected stream => exact keeps_resetStream stream
  | close stream =>
    intro b hb
    unfold handleClose
    rw [run_read_bind]
    cases hs : b.sessions[stream]? with
    | none => exact hb
    | some s => exact hb.replace hs (hP.close s (hb.holds stream s hs))
  | window stream credit =>
    intro b hb
    unfold handleWindow
    rw [run_read_bind]
    cases hs : b.sessions[stream]? with
    | none => exact hb
    | some s => exact hb.replace hs (hP.window s _ (hb.holds stream s hs))

theorem keeps_handleFrames (fs : List OwnedFrame) :
    Keeps (Backend.Holds P) (handleFrames fs) := by
  induction fs with
  | nil => exact keeps_pure ()
  | cons f fs ih => exact (keeps_handleFrame hP f).bind fun _ => ih

end Stable

/-! ## Finished resolutions -/

section Env

variable (env : Env) (id : StreamId)

theorem beginConnecting_holds (hP : Stable P) {b : Backend} (hb : b.Holds P)
    (hres : ∀ s, b.sessions[id]? = some s → s.state = .resolving) :
    ((beginConnecting env id).run b).2.Holds P := by
  unfold beginConnecting epollCtl
  simp only [run_bind, run_read, run_emit]
  cases env.epollCtl b.hist id with
  | false => exact hb
  | true =>
    have hlog (mask : UInt32) : (b.log (.epollCtl id mask true)).sessions = b.sessions := rfl
    simp only [if_true, run_pure, hlog]
    cases hs : b.sessions[id]? with
    | none => exact hb
    | some s => exact hb.replace hs (hP.connect s (hb.holds id s hs) (hres s hs))

theorem keeps_harvestOne (hP : Stable P) (r : Resolved) :
    Keeps (Backend.Holds P) (harvestOne env r) := by
  refine (keeps_emit _).bind fun _ => Keeps.bind (keeps_update ?_) fun _ => ?_
  · exact fun _ hb => hb
  intro b hb
  rw [run_read_bind]
  split_ifs with hst
  · cases r.addr with
    | none => exact keeps_failOpen r.stream _ b hb
    | some addr =>
      unfold finishResolve startConnect
      simp only [run_bind, run_read, run_emit, run_pure]
      cases env.startConnect b.hist r.stream addr with
      | false => exact keeps_failOpen r.stream _ _ hb
      | true =>
        refine beginConnecting_holds env r.stream hP hb fun s hs => ?_
        have hs' : b.sessions[r.stream]? = some s := hs
        simpa [hs'] using hst
  · exact hb

theorem keeps_harvestResolves (hP : Stable P) :
    Keeps (Backend.Holds P) (harvestResolves env) := by
  refine Keeps.bind ?_ fun rs => ?_
  · exact keeps_read.bind fun b => (keeps_emit _).bind fun _ => keeps_pure _
  · induction rs with
    | nil => exact keeps_pure ()
    | cons r rs ih => exact (keeps_harvestOne env hP r).bind fun _ => ih

/-! ## Sessions -/

/-- While a session is taken out, the table is not touched and the session keeps to `P`. -/
def Held (P : Session → Prop) (m : Std.ExtTreeMap StreamId Session) (o : Serviced) : Prop :=
  o.backend.sessions = m ∧ P o.sess

def Open (P : Session → Prop) (s : Session) : Prop := P s ∧ s.isOpen

variable {m : Std.ExtTreeMap StreamId Session}

theorem held_onSession {f : Session → Session} (hf : ∀ s : Session, P s → P (f s)) :
    Keeps (Held P m) (onSession f) :=
  keeps_update fun o ho => ⟨ho.1, hf o.sess ho.2⟩

theorem held_onBackend {α : Type} {b : EgressM α}
    (hb : Keeps (fun b : Backend => b.sessions = m) b) : Keeps (Held P m) (onBackend b) :=
  fun o ho => ⟨hb o.backend ho.1, ho.2⟩

theorem held_emit (e : Ev) : Keeps (Held P m) (onBackend (emit e)) :=
  held_onBackend (keeps_update fun _ hb => hb)

theorem held_enqueue (frame : EgressFrame) : Keeps (Held P m) (onBackend (enqueue frame)) := by
  apply held_onBackend
  unfold enqueue
  split
  · exact keeps_update fun _ hb => hb
  · exact keeps_fail _

theorem held_abortOpen : Keeps (Held P m) (onBackend (abortOpen id)) := by
  intro o ho
  simp only [abortOpen, detachSocket, run_onBackend, run_bind, run_emit, run_enqueue_rst,
    run_pure]
  exact ho

theorem run_finishConnect (o : Serviced) :
    ∃ es, (finishConnect id).run o = (.ok (), ⟨o.backend.grow es, o.sess.connected⟩) := by
  unfold finishConnect
  simp only [run_bind, run_onBackend, run_enqueue_openOk, run_onSession, run_read]
  cases hclosed : o.sess.guestWriteClosed with
  | true =>
    refine ⟨[.sent (.openOk id), .shutdownWrite id], ?_⟩
    simp [run_bind, Session.connected, hclosed, Backend.log, Backend.grow, wire, sents]
  | false =>
    refine ⟨[.sent (.openOk id)], ?_⟩
    simp [Session.connected, hclosed]

theorem length_clampTo {res : ReadRes} {want : Nat} {bytes : Bytes}
    (h : res.clampTo want = .got bytes) : bytes.length ≤ want := by
  cases res with
  | got all =>
    simp only [ReadRes.clampTo, ReadRes.got.injEq] at h
    rw [← h]
    exact List.length_take_le _ _
  | wouldBlock | err => simp [ReadRes.clampTo] at h

section Stable

variable (hP : Stable P)
include hP

theorem held_updateEpoll : Keeps (Held (Open P) m) (updateEpoll env id) := by
  intro o ho
  unfold updateEpoll epollCtl
  rw [run_read_bind]
  dsimp only
  split_ifs
  · simp only [run_bind, run_onBackend, run_read, run_emit]
    cases env.epollCtl o.backend.hist id with
    | true => exact ⟨ho.1, hP.epoll o.sess ho.2.1 ho.2.2, ho.2.2⟩
    | false => exact ho
  · exact ho

theorem held_flushToSocket (fuel : Nat) :
    Keeps (Held (Open P) m) (flushToSocket env id fuel) := by
  induction fuel with
  | zero => exact keeps_pure _
  | succ fuel ih =>
    refine keeps_read.bind fun o => ?_
    split_ifs
    · exact keeps_pure _
    · refine Keeps.bind (held_onBackend ?_) fun accepted => ?_
      · exact keeps_read.bind fun b => Keeps.bind (keeps_update fun _ hb => hb)
          fun _ => keeps_pure _
      · split
        · exact keeps_pure _
        · refine Keeps.bind (held_onSession ?_) fun _ => Keeps.bind (held_onBackend ?_)
            fun _ => ih
          · exact fun s hs => ⟨hP.flush s _ hs.1 hs.2, hs.2⟩
          · exact keeps_update fun _ hb => hb
        · exact keeps_pure _

theorem held_fillToGuest (fuel : Nat) : Keeps (Held (Open P) m) (fillToGuest env id fuel) := by
  induction fuel with
  | zero => exact keeps_pure _
  | succ fuel ih =>
    intro o ho
    unfold fillToGuest
    rw [run_read_bind]
    split_ifs with hroom
    · rw [run_bind, run_onBackend, run_readSocket]
      simp only
      split
      · exact ⟨ho.1, hP.eof o.sess ho.2.1 ho.2.2, closeHost_isOpen ho.2.2⟩
      · rename_i bytes _ hgot
        have hlen := length_clampTo hgot
        have hfits : (o.sess.toGuest ++ bytes).length ≤ WINDOW_BYTES := by
          rw [List.length_append]
          omega
        exact ih _ ⟨ho.1, hP.read o.sess bytes ho.2.1 ho.2.2 hfits, ho.2.2⟩
      · exact ho
      · exact ho
    · exact ho

theorem held_frameToGuest (fuel : Nat) : Keeps (Held (Open P) m) (frameToGuest id fuel) := by
  induction fuel with
  | zero => exact keeps_pure _
  | succ fuel ih =>
    refine keeps_read.bind fun o => ?_
    split_ifs
    · refine (held_enqueue _).bind fun _ => Keeps.bind (held_onSession ?_) fun _ =>
        Keeps.bind (held_onBackend ?_) fun _ => ih
      · exact fun s hs => ⟨hP.frame s _ hs.1 hs.2, hs.2⟩
      · exact keeps_update fun _ hb => hb
    · exact keeps_pure _

theorem held_runOpenIo : Keeps (Held (Open P) m) (runOpenIo env id) := by
  refine Keeps.bind (keeps_read.bind fun o => held_flushToSocket env id hP _)
    fun written => ?_
  split_ifs
  · refine Keeps.bind ?_ fun received => ?_
    · refine keeps_read.bind fun o => ?_
      split_ifs
      · exact keeps_pure _
      · exact held_fillToGuest env id hP _
    · split_ifs
      · refine Keeps.bind (keeps_read.bind fun o => held_frameToGuest id hP _) fun _ =>
          Keeps.bind (keeps_read.bind fun o => ?_) fun _ =>
          (held_updateEpoll env id hP).bind fun _ => keeps_read.bind fun o => ?_
        · split_ifs
          · refine (held_enqueue _).bind fun _ => held_onSession ?_
            exact fun s hs => ⟨hP.announce s hs.1 hs.2, hs.2⟩
          · exact keeps_pure ()
        · split_ifs
          · exact (held_emit _).bind fun _ => keeps_pure _
          · exact keeps_pure _
      · exact held_abortOpen id
  · exact held_abortOpen id

theorem held_runConnecting : Keeps (Held P m) (runConnecting env id) := by
  have hpoll : Keeps (Held P m) (pollConnect env id) :=
    keeps_read.bind fun o => (held_emit _).bind fun _ => keeps_pure _
  refine hpoll.bind fun res => ?_
  cases res with
  | pending => exact keeps_pure _
  | connected =>
    intro o ho
    obtain ⟨es, hrun⟩ := run_finishConnect id o
    have hopen : Held (Open P) m ⟨o.backend.grow es, o.sess.connected⟩ :=
      ⟨ho.1, hP.connected o.sess ho.2, connected_isOpen o.sess⟩
    have hend := (held_updateEpoll env id hP).bind (f := fun _ => pure Disposition.keep)
      (fun _ => keeps_pure _) _ hopen
    simp only
    rw [run_bind_ok hrun]
    exact ⟨hend.1, hend.2.1⟩
  | failed reason =>
    intro o ho
    simp only [run_onBackend, detachSocket, run_bind, run_emit, run_update,
      run_enqueue_openErr, run_pure]
    exact ho

theorem held_runSession : Keeps (Held P m) (runSession env id) := by
  intro o ho
  unfold runSession
  rw [run_read_bind]
  have hio (hopen : o.sess.isOpen) : Held P m ((runOpenIo env id).run o).2 := by
    have hend := held_runOpenIo env id hP o ⟨ho.1, ho.2, hopen⟩
    exact ⟨hend.1, hend.2.1⟩
  cases hst : o.sess.state with
  | resolving => exact ho
  | connecting => exact held_runConnecting env id hP o ho
  | established => exact hio (.inl hst)
  | halfClosed => exact hio (.inr hst)

theorem keeps_serviceOne : Keeps (Backend.Holds P) (serviceOne env id) := by
  intro b hb
  simp only [Eff.run, serviceOne]
  cases hs : b.sessions[id]? with
  | none => exact hb
  | some s =>
    have hheld := held_runSession env id hP ⟨{ b with sessions := b.sessions.erase id }, s⟩
      ⟨rfl, hb.holds id s hs⟩
    revert hheld
    simp only [Eff.run]
    rcases runSession env id ⟨{ b with sessions := b.sessions.erase id }, s⟩ with ⟨res, o⟩
    rintro ⟨htable, hholds⟩
    have hback : Bounded P (o.putBack id).sessions := by
      simp only [Serviced.putBack]
      rw [htable]
      exact hb.putBack hs hholds
    have hgone : Bounded P o.backend.sessions := by
      rw [htable]
      exact hb.erase
    rcases res with e | d
    · exact hback
    · cases d with
      | keep => exact hback
      | remove => exact hgone

theorem keeps_serviceSessions : Keeps (Backend.Holds P) (serviceSessions env) := by
  refine keeps_read.bind fun b => ?_
  induction b.sessions.keys with
  | nil => exact keeps_pure ()
  | cons id ids ih => exact (keeps_serviceOne env id hP).bind fun _ => ih

end Stable

end Env

/-! ## Runs -/

theorem keeps_pump (hP : Stable P) (env : Env) (fromGuest : Bytes) :
    Keeps (Backend.Holds P) (pump env fromGuest) := by
  intro b hb
  rw [run_pump]
  split
  · rename_i fs rest _
    have hframes : Keeps (Backend.Holds P) (pumpFrames env fs) :=
      (keeps_handleFrames hP fs).bind fun _ => (keeps_harvestResolves env hP).bind fun _ =>
        keeps_serviceSessions env hP
    exact hframes { b with rxParse := rest } hb
  · exact hb

theorem Reachable.bounded {ok : Env → Prop} {b : Backend} (hP : Stable P) (h : Reachable ok b) :
    b.Holds P := by
  induction h with
  | init =>
    constructor
    · exact Nat.zero_le _
    · intro id s hs
      simp [Backend.init] at hs
  | pump fromGuest _ _ ih => exact keeps_pump hP _ fromGuest _ ih
  | deliver max k _ ih => exact ih

/-- The buffers of a session are within their caps. -/
def Session.Fits (s : Session) : Prop :=
  s.toGuest.length ≤ WINDOW_BYTES ∧ s.toSocket.length ≤ TO_SOCKET_CAP

theorem fits_stable : Stable Session.Fits where
  fresh := ⟨Nat.zero_le _, Nat.zero_le _⟩
  data _ _ hs hcap := ⟨hs.1, hcap⟩
  close _ hs := hs
  window _ _ hs := hs
  connect _ hs _ := hs
  connected _ hs := hs
  flush s n hs _ := ⟨hs.1, (List.drop_sublist n s.toSocket).length_le.trans hs.2⟩
  eof _ hs _ := hs
  read _ _ hs _ hroom := ⟨hroom, hs.2⟩
  frame s n hs _ := ⟨(List.drop_sublist n s.toGuest).length_le.trans hs.1, hs.2⟩
  announce _ hs _ := hs
  epoll _ hs _ := hs

/-- After every pump, whatever the guest wrote and the connector answered, there are at most 256
sessions with at most 32 KiB toward the guest and 256 KiB toward the socket; and a guest frame
changes no session but its own. -/
theorem session_bounds :
    (∀ b : Backend, Reachable (fun _ => True) b →
      b.sessions.size ≤ 256 ∧ ∀ (id : StreamId) (s : Session), b.sessions[id]? = some s →
        s.toGuest.length ≤ 32 * 1024 ∧ s.toSocket.length ≤ 256 * 1024) ∧
    (∀ (b : Backend) (f : OwnedFrame) (j : StreamId), j ≠ f.stream →
      ((handleFrame f).run b).2.sessions[j]? = b.sessions[j]?) := by
  constructor
  · intro b hb
    have hbounds := hb.bounded fits_stable
    exact ⟨hbounds.size, hbounds.holds⟩
  · intro b f j hj
    obtain ⟨b', hrun, ⟨es, hloc, -⟩, -⟩ : ∃ b', (handleFrame f).run b = (.ok (), b') ∧
        Handles True f b b' := handleFrame_handles f b
    rw [hrun]
    exact hloc.sessions j hj

theorem session_bounds_opened :
    let b := ((pump (.prompt 7 ⟨[], 80⟩) (frameBytes [.openTo 7 80 [104]])).run .init).2
    (b.sessions.size = 1 ∧ b.sessions.size ≤ 256) ∧
      (∃ s, b.sessions[(7 : StreamId)]? = some s ∧ s.toGuest.length ≤ 32 * 1024 ∧
        s.toSocket.length ≤ 256 * 1024) ∧
      ((handleFrame (.data 8 [1])).run b).2.sessions[(7 : StreamId)]? =
        b.sessions[(7 : StreamId)]? := by
  -- a backend with a session: the guest has opened stream 7. A frame of stream 8 leaves it.
  intro b
  obtain ⟨hsize, hbounds⟩ := session_bounds.1 b (.pump _ .init trivial)
  obtain ⟨s, hs⟩ : ∃ s, b.sessions[(7 : StreamId)]? = some s :=
    Option.isSome_iff_exists.mp (by decide +kernel)
  exact ⟨⟨by decide +kernel, hsize⟩, ⟨s, hs, hbounds 7 s hs⟩, session_bounds.2 b _ 7 (by decide)⟩

end Tdvmm.Egress
