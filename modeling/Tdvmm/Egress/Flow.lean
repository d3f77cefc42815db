import Tdvmm.Egress.Stall
import Tdvmm.Egress.Wake

/-!
# Egress.Flow — two connectors a guest can meet

One resolves nothing: a backend that was idle is idle again after every frame, and every `OPEN`,
`DATA` and misdirected frame has been answered (`refused_run`). The other connects one stream at
once and always has more to read: a session that flows keeps flowing until the guest ends it, and
uses all the credit it is granted (`flowing_open`, `flowing_handle`, `flowing_rest`).
-/

namespace Tdvmm.Egress

open Lib Lib.Eff Tdvmm.Proto

/-! ## A connector that resolves nothing -/

/-- The frames that the backend can answer on the spot. -/
def OwnedFrame.isDemand : OwnedFrame → Bool
  | .openTo _ _ _ => true
  | .data _ _ => true
  | .unexpected _ => true
  | _ => false

def Env.refusing (id : StreamId) : Env where
  takeResolved _ := [⟨id, none⟩]
  startConnect _ _ _ := false
  pollConnect _ _ := .pending
  read _ _ _ := .wouldBlock
  write _ _ _ := .wouldBlock
  epollCtl _ _ := true

/-- No session, and no resolve under way. -/
structure Backend.Idle (b : Backend) : Prop where
  sessions : ∀ id : StreamId, b.sessions[id]? = none
  resolving : ∀ id : StreamId, b.resolving.contains id = false

section Refusing

variable {b : Backend} {f : OwnedFrame} {env : Env}

theorem Backend.Idle.empty (h : b.Idle) : b.sessions = ∅ := by
  apply Std.ExtTreeMap.ext_getElem?
  intro id
  rw [h.sessions id, Std.ExtTreeMap.getElem?_empty]

theorem Backend.Idle.service (h : b.Idle) : (serviceSessions env).run b = (.ok (), b) := by
  unfold serviceSessions
  rw [run_read_bind, h.empty]
  rfl

def Backend.accept (b : Backend) (id : StreamId) (port : UInt16) (host : Bytes) : Backend :=
  { (b.log (.opened id)).log (.startResolve id (utf8Lossy host) port) with
    resolving := b.resolving.insert id
    stats := { b.stats with sessionsTotal := b.stats.sessionsTotal + 1 }
    sessions := b.sessions.insert id Session.newResolving }

theorem Backend.Idle.handleOpen (h : b.Idle) (id : StreamId) (port : UInt16) (host : Bytes) :
    (Egress.handleOpen id port host).run b =
      if host = [] ∨ port = 0 then (failOpen id .protocolError).run b
      else (.ok (), b.accept id port host) := by
  have hsess : b.sessions.contains id = false := by rw [h.empty, Std.ExtTreeMap.contains_empty]
  have hroom : ¬ b.sessions.size ≥ MAX_SESSIONS := by simp [h.empty, MAX_SESSIONS]
  unfold Egress.handleOpen
  rw [run_read_bind, hsess, h.resolving id, Bool.or_self, if_neg Bool.false_ne_true,
    if_neg hroom]
  by_cases hvalid : host = [] ∨ port = 0
  · rw [if_pos hvalid, if_pos (by simpa using hvalid)]
  · rw [if_neg hvalid, if_neg (by simpa using hvalid)]
    rfl

theorem length_grow_lt {id : StreamId} {sess : Option Session} (b : Backend) (frame : EgressFrame)
    (hframe : 0 < (encode frame []).2.length) :
    b.txPending.length + 1 ≤
      (b.grow ([.close id, .sent frame] ++ ended id sess)).txPending.length := by
  have hwire : wire ([.close id, .sent frame] ++ ended id sess) = (encode frame []).2 := by
    rw [wire_append, wire_ended]
    simp [wire, sents]
  rw [Backend.grow, hwire, List.length_append]
  omega

theorem Backend.Idle.erase (h : b.Idle) (id : StreamId) (es : List Ev) (stats : EgressStats) :
    Backend.Idle (Backend.grow { b with sessions := b.sessions.erase id, stats := stats } es) := by
  refine ⟨fun j => ?_, h.resolving⟩
  show (b.sessions.erase id)[j]? = none
  rw [Std.ExtTreeMap.getElem?_erase, h.sessions j, ite_self]

theorem Backend.Idle.handles (h : b.Idle)
    (hopen : ∀ id port host, f = .openTo id port host → host = [] ∨ port = 0) :
    ∃ b', (handleFrame f).run b = (.ok (), b') ∧ b'.Idle ∧
      b.txPending.length + (if f.isDemand then 1 else 0) ≤ b'.txPending.length := by
  have hlog : (b.log (b.recvEv f)).Idle := ⟨h.sessions, h.resolving⟩
  have hsess (id : StreamId) : (b.log (b.recvEv f)).sessions[id]? = none := h.sessions id
  -- with no session the answer is a RST
  have hreset (id : StreamId) : ∃ b', (resetStream id).run (b.log (b.recvEv f)) = (.ok (), b') ∧
      b'.Idle ∧ b.txPending.length + 1 ≤ b'.txPending.length := by
    rw [run_resetStream]
    exact ⟨_, rfl, hlog.erase id _ _, length_grow_lt _ (.rst id) (length_encode_rst ▸ by decide)⟩
  cases f with
  | openTo id port host =>
    have hrun : (handleFrame (.openTo id port host)).run b =
        (Egress.handleOpen id port host).run (b.log (b.recvEv (.openTo id port host))) := rfl
    rw [hrun, hlog.handleOpen, if_pos (hopen id port host rfl), run_failOpen]
    exact ⟨_, rfl, hlog.erase id _ _,
      length_grow_lt _ (.openErr id _) (length_encode_openErr _ ▸ by decide)⟩
  | data id payload =>
    have hrun : (handleFrame (.data id payload)).run b =
        (handleData id payload).run (b.log (b.recvEv (.data id payload))) := rfl
    simp only [hrun, handleData, run_read_bind, hsess]
    exact hreset id
  | close id =>
    have hrun : (handleFrame (.close id)).run b =
        (handleClose id).run (b.log (b.recvEv (.close id))) := rfl
    simp only [hrun, handleClose, run_read_bind, hsess]
    exact ⟨_, rfl, hlog, le_refl _⟩
  | rst id =>
    have hrun : (handleFrame (.rst id)).run b =
        (dropStream id).run (b.log (b.recvEv (.rst id))) := rfl
    rw [hrun, run_dropStream]
    refine ⟨_, rfl, hlog.erase id _ _, ?_⟩
    simp [OwnedFrame.isDemand, Backend.grow, Backend.log]
  | window id credit =>
    have hrun : (handleFrame (.window id credit)).run b =
        (handleWindow id credit).run (b.log (b.recvEv (.window id credit))) := rfl
    simp only [hrun, handleWindow, run_read_bind, hsess]
    exact ⟨_, rfl, hlog, le_refl _⟩
  | unexpected id => exact hreset id

theorem run_harvestResolves {r : Resolved} (htake : env.takeResolved b.hist = [r]) {b' : Backend}
    (hrun : (harvestOne env r).run (b.log (.takeResolved [r])) = (.ok (), b')) :
    (harvestResolves env).run b = (.ok (), b') := by
  have hasked : (takeResolved env).run b = (.ok [r], b.log (.takeResolved [r])) := by
    unfold takeResolved
    rw [run_read_bind, htake]
    rfl
  unfold harvestResolves
  rw [run_bind_ok hasked]
  exact run_bind_ok hrun

/-- With its resolve refused, a backend that was idle is idle again, and a demand has been
answered. -/
theorem refused_pump (h : b.Idle) :
    ∃ b', (pumpFrames (.refusing f.stream) [f]).run b = (.ok (), b') ∧ b'.Idle ∧
      b.txPending.length + (if f.isDemand then 1 else 0) ≤ b'.txPending.length := by
  suffices hsuff : ∃ b₁ b₂, (handleFrame f).run b = (.ok (), b₁) ∧
      (harvestOne (.refusing f.stream) ⟨f.stream, none⟩).run
        (b₁.log (.takeResolved [⟨f.stream, none⟩])) = (.ok (), b₂) ∧ b₂.Idle ∧
      b.txPending.length + (if f.isDemand then 1 else 0) ≤ b₂.txPending.length by
    obtain ⟨b₁, b₂, hrun₁, hrun₂, hidle, hgain⟩ := hsuff
    have hframes : (handleFrames [f]).run b = (.ok (), b₁) := run_bind_ok hrun₁
    refine ⟨b₂, ?_, hidle, hgain⟩
    unfold pumpFrames
    rw [run_bind_ok hframes, run_bind_ok (run_harvestResolves rfl hrun₂), hidle.service]
  by_cases hopen : ∃ id port host, f = .openTo id port host ∧ ¬ (host = [] ∨ port = 0)
  · -- the session begins, and ends when its resolve fails
    obtain ⟨id, port, host, rfl, hvalid⟩ := hopen
    have hlog : (b.log (b.recvEv (.openTo id port host))).Idle := ⟨h.sessions, h.resolving⟩
    have hrun : (handleFrame (.openTo id port host)).run b =
        (.ok (), (b.log (b.recvEv (.openTo id port host))).accept id port host) :=
      (hlog.handleOpen id port host).trans (if_neg hvalid)
    generalize hlater : ((b.log (b.recvEv (.openTo id port host))).accept id port host).log
      (.takeResolved [⟨id, none⟩]) = later
    have hstate : later.sessions[id]?.map Session.state = some .resolving := by
      rw [← hlater]
      simp [Backend.accept, Backend.log, Session.newResolving]
    have hharvest := (run_harvestOne (.refusing id) ⟨id, none⟩ later).trans
      (by rw [if_pos hstate, finishResolve, run_failOpen])
    rw [← hlater] at hharvest
    refine ⟨_, _, hrun, hharvest, ⟨fun j => ?_, fun j => ?_⟩,
      length_grow_lt _ (.openErr id _) (length_encode_openErr _ ▸ by decide)⟩
    · show ((b.sessions.insert id Session.newResolving).erase id)[j]? = none
      rw [Std.ExtTreeMap.getElem?_erase, Std.ExtTreeMap.getElem?_insert, h.sessions j]
      split_ifs <;> rfl
    · show ((b.resolving.insert id).erase id).contains j = false
      rw [Std.ExtTreeSet.contains_erase, Std.ExtTreeSet.contains_insert, h.resolving j]
      cases compare id j <;> rfl
  · -- no session begins, so the failed resolve finds none
    obtain ⟨b₁, hrun₁, hidle, hgain⟩ := h.handles fun id port host hf => by
      by_contra hvalid
      exact hopen ⟨id, port, host, hf, hvalid⟩
    have hharvest : (harvestOne (.refusing f.stream) ⟨f.stream, none⟩).run
        (b₁.log (.takeResolved [⟨f.stream, none⟩])) = (.ok (), Backend.answer
          (b₁.log (.takeResolved [⟨f.stream, none⟩])) ⟨f.stream, none⟩) := by
      rw [run_harvestOne, if_neg (by simp [Backend.log, hidle.sessions])]
      rfl
    refine ⟨b₁, _, hrun₁, hharvest, ⟨hidle.sessions, fun j => ?_⟩, hgain⟩
    show (b₁.resolving.erase f.stream).contains j = false
    rw [Std.ExtTreeSet.contains_erase, hidle.resolving j, Bool.and_false]

/-- The frames one at a time, each with its resolve refused. -/
def refusals (fs : List EgressFrame) : List (Env × Bytes) :=
  fs.map fun f => (.refusing (toOwned f).stream, (encode f []).2)

theorem refusals_bytes (fs : List EgressFrame) :
    ((refusals fs).map Prod.snd).flatten = frameBytes fs := by
  rw [refusals, List.map_map]
  exact List.flatMap_def.symm

theorem refused_run {capacity : Nat} {fs : List EgressFrame} (hfs : WellFormed fs) :
    (stalled capacity (refusals fs)).backend.Idle ∧
      (stalled capacity (refusals fs)).backend.rxParse = [] ∧
      (fs.map toOwned).countP OwnedFrame.isDemand ≤ (stalled capacity (refusals fs)).sent := by
  induction fs using List.reverseRecOn with
  | nil => exact ⟨⟨fun id => (by simp [stalled, refusals, Backend.init]), fun id =>
    (by simp [stalled, refusals, Backend.init])⟩, rfl, Nat.zero_le _⟩
  | append_singleton fs f ih =>
    have hf := hfs f (by simp)
    obtain ⟨hidle, hrx, hcount⟩ := ih fun g hg => hfs g (List.mem_append_left _ hg)
    obtain ⟨b', hrun, hidle', hgain⟩ := @refused_pump _ (toOwned f) hidle
    obtain ⟨rest, hbackend, hsent⟩ := @turn_frame _ _ _ capacity _ hf hrx hrun
    have hparsed := (aside_pumpFrames (.refusing (toOwned f).stream) [toOwned f] [] _ hrx).1
    rw [hrun] at hparsed
    rw [refusals, List.map_append, List.map_singleton, stalled_snoc]
    rw [refusals] at hbackend hsent hcount hgain
    refine ⟨?_, ?_, ?_⟩
    · rw [hbackend]
      exact ⟨hidle'.sessions, hidle'.resolving⟩
    · rw [hbackend]
      exact hparsed
    · rw [hsent, List.map_append, List.countP_append, List.map_singleton, List.countP_singleton]
      rw [Stalled.sent] at hcount
      omega

end Refusing

/-! ## A connector that reads endlessly -/

/-- Connects one id, accepts every write and always has more to read. -/
def Env.flowing (id : StreamId) : Env where
  takeResolved _ := [⟨id, some ⟨[127, 0, 0, 1], 80⟩⟩]
  startConnect _ _ _ := true
  pollConnect _ _ := .connected
  read _ _ want := .got (List.replicate want 0)
  write _ _ front := .accepted front.length
  epollCtl _ _ := true

/-- The session stays as open as it was while servicing, and nothing pending is lost. -/
structure Carries (o o' : Serviced) : Prop where
  state : o'.sess.state = o.sess.state
  guest : o'.sess.guestWriteClosed = o.sess.guestWriteClosed
  host : o'.sess.hostReadClosed = o.sess.hostReadClosed
  socket : o.sess.toSocket = [] → o'.sess.toSocket = []
  pending : o.backend.txPending.length ≤ o'.backend.txPending.length

theorem Carries.refl (o : Serviced) : Carries o o := ⟨rfl, rfl, rfl, id, le_refl _⟩

theorem Carries.trans {o o' o'' : Serviced} (h : Carries o o') (h' : Carries o' o'') :
    Carries o o'' :=
  ⟨h'.state.trans h.state, h'.guest.trans h.guest, h'.host.trans h.host,
    fun hs => h'.socket (h.socket hs), h.pending.trans h'.pending⟩

section Flowing

variable {id : StreamId} {o : Serviced}

theorem flowing_transmit (o : Serviced) :
    ∃ o', (transmit (.flowing id) id).run o = (.ok true, o') ∧ Carries o o' ∧
      o'.sess.toSocket = [] ∧ o'.sess.toGuestCredit = o.sess.toGuestCredit := by
  unfold transmit
  rw [run_read_bind]
  cases hsocket : o.sess.toSocket with
  | nil => exact ⟨o, rfl, .refl o, hsocket, rfl⟩
  | cons byte rest =>
    have hall : ((Env.flowing id).write o.backend.hist id (byte :: rest)).acceptedOf
        (byte :: rest) = some (byte :: rest) := by
      simp [Env.flowing, WriteRes.acceptedOf]
    rw [List.length_cons, flushToSocket, run_read_bind, hsocket, if_neg (by simp),
      run_bind, run_onBackend, run_writeSocket, hall]
    simp only [run_bind, run_onSession, run_onBackend, run_update, hsocket,
      List.drop_length]
    -- nothing is left for the next round
    cases rest with
    | nil | cons byte' rest => exact ⟨_, rfl, ⟨rfl, rfl, rfl, fun _ => rfl, le_refl _⟩, rfl, rfl⟩

theorem flowing_fill (fuel : Nat) (o : Serviced) :
    ∃ o', (fillToGuest (.flowing id) id fuel).run o = (.ok true, o') ∧ Carries o o' ∧
      o.sess.toGuest <+: o'.sess.toGuest ∧
      (0 < fuel → o.sess.toGuest.length < WINDOW_BYTES → o'.sess.toGuest ≠ []) ∧
      o'.sess.toGuestCredit = o.sess.toGuestCredit := by
  induction fuel generalizing o with
  | zero => exact ⟨o, rfl, .refl o, List.prefix_rfl, fun h => absurd h (lt_irrefl 0), rfl⟩
  | succ fuel ih =>
    unfold fillToGuest
    rw [run_read_bind]
    split_ifs with hroom
    swap
    · exact ⟨o, rfl, .refl o, List.prefix_rfl, fun _ h => absurd h hroom, rfl⟩
    obtain ⟨want, hwant⟩ : ∃ n, min (WINDOW_BYTES - o.sess.toGuest.length) READ_CHUNK = n + 1 :=
      Nat.exists_eq_succ_of_ne_zero (by unfold READ_CHUNK; omega)
    have hgot (h : List Ev) : ((Env.flowing id).read h id (want + 1)).clampTo (want + 1) =
        .got (0 :: List.replicate want 0) := by
      simp [Env.flowing, ReadRes.clampTo, List.replicate_succ]
    rw [hwant, run_bind, run_onBackend, run_readSocket, hgot]
    simp only [run_bind, run_onSession]
    obtain ⟨o', hrun, hcarries, hfront, -, hcredit⟩ := ih
      ⟨o.backend.log (.read id (.got (0 :: List.replicate want 0))),
        { o.sess with toGuest := o.sess.toGuest ++ 0 :: List.replicate want 0 }⟩
    refine ⟨o', hrun, ⟨hcarries.state, hcarries.guest, hcarries.host, hcarries.socket,
      hcarries.pending⟩, (List.prefix_append _ _).trans hfront, fun _ _ hempty => ?_, hcredit⟩
    rw [hempty] at hfront
    simp at hfront

theorem flowing_receive (hread : o.sess.hostReadClosed = false) :
    ∃ o', (receive (.flowing id) id).run o = (.ok true, o') ∧ Carries o o' ∧
      o'.sess.toGuest ≠ [] ∧ o'.sess.toGuestCredit = o.sess.toGuestCredit := by
  unfold receive
  rw [run_read_bind, hread, if_neg Bool.false_ne_true]
  obtain ⟨o', hrun, hcarries, hfront, hfilled, hcredit⟩ :=
    @flowing_fill id (WINDOW_BYTES - o.sess.toGuest.length) o
  refine ⟨o', hrun, hcarries, fun hempty => ?_, hcredit⟩
  rw [hempty, List.prefix_nil] at hfront
  rw [hfront] at hfilled
  exact hfilled (by decide) (by decide) hempty

theorem frameToGuest_carries (fuel : Nat) (o : Serviced) :
    ∃ o', (frameToGuest id fuel).run o = (.ok (), o') ∧ Carries o o' ∧
      (0 < fuel → o.sess.toGuest ≠ [] → 0 < o.sess.toGuestCredit →
        o.backend.txPending.length < o'.backend.txPending.length) := by
  induction fuel generalizing o with
  | zero => exact ⟨o, rfl, .refl o, fun h => absurd h (lt_irrefl 0)⟩
  | succ fuel ih =>
    unfold frameToGuest
    rw [run_read_bind]
    split_ifs with hgo
    swap
    · refine ⟨o, rfl, .refl o, fun _ hsome hcredit => absurd ?_ hgo⟩
      simp [hsome, hcredit]
    generalize htake : min (min o.sess.toGuest.length o.sess.toGuestCredit)
      EGRESS_MAX_PAYLOAD = n
    have hok : (encode (.data id (o.sess.toGuest.take n)) []).1 = .ok () :=
      encode_take_ok o.sess.toGuest (by omega)
    have hsize : (o.sess.toGuest.take n).length ≤ EGRESS_MAX_PAYLOAD :=
      (List.length_take_le _ _).trans (by omega)
    obtain ⟨o', hrun, hcarries, -⟩ := ih
      ⟨{ o.backend.grow [.sent (.data id (o.sess.toGuest.take n))] with
          stats := { o.backend.stats with bytesDown := o.backend.stats.bytesDown + n } },
        { o.sess with
          toGuest := o.sess.toGuest.drop n, toGuestCredit := o.sess.toGuestCredit - n }⟩
    have hgain : o.backend.txPending.length < o'.backend.txPending.length := by
      have hpending := hcarries.pending
      simp only [Backend.grow, wire, sents, Ev.frames, List.flatMap_cons, List.flatMap_nil,
        List.append_nil, List.length_append, length_encode_data hsize] at hpending
      omega
    refine ⟨o', ?_, ⟨hcarries.state, hcarries.guest, hcarries.host, hcarries.socket, hgain.le⟩,
      fun _ _ _ => hgain⟩
    rw [← hrun]
    simp only [run_bind, run_onBackend, run_enqueue hok, run_onSession, run_update,
      Backend.grow]

theorem flowing_updateEpoll (o : Serviced) :
    ∃ o', (updateEpoll (.flowing id) id).run o = (.ok (), o') ∧ Carries o o' := by
  unfold updateEpoll
  rw [run_read_bind]
  dsimp only
  split_ifs
  · exact ⟨_, rfl, ⟨rfl, rfl, rfl, fun h => h, le_refl _⟩⟩
  · exact ⟨o, rfl, .refl o⟩

theorem flowing_runOpenIo (hread : o.sess.hostReadClosed = false) :
    ∃ o', (runOpenIo (.flowing id) id).run o = (.ok .keep, o') ∧ Carries o o' ∧
      o'.sess.toSocket = [] ∧ (0 < o.sess.toGuestCredit →
        o.backend.txPending.length < o'.backend.txPending.length) := by
  obtain ⟨o₁, hrun₁, hc₁, hsocket, hcredit₁⟩ := @flowing_transmit id o
  obtain ⟨o₂, hrun₂, hc₂, hfilled, hcredit₂⟩ := @flowing_receive id o₁ (hc₁.host.trans hread)
  obtain ⟨o₃, hrun₃, hc₃, hgain⟩ := @frameToGuest_carries id o₂.sess.toGuest.length o₂
  obtain ⟨o₄, hrun₄, hc₄⟩ := @flowing_updateEpoll id o₃
  have hc := hc₁.trans (hc₂.trans (hc₃.trans hc₄))
  have hread₃ : o₃.sess.hostReadClosed = false := by rw [hc₃.host, hc₂.host, hc₁.host, hread]
  have hread₄ : o₄.sess.hostReadClosed = false := hc.host.trans hread
  have hquiet : (announceClose id).run o₃ = (.ok (), o₃) := by
    unfold announceClose
    rw [run_read_bind, hread₃]
    rfl
  have hkept : (retire id).run o₄ = (.ok .keep, o₄) := by
    unfold retire Session.isDrained
    rw [run_read_bind, hread₄, Bool.and_false]
    rfl
  refine ⟨o₄, ?_, hc, hc₄.socket (hc₃.socket (hc₂.socket hsocket)), fun hcredit => ?_⟩
  · unfold runOpenIo
    rw [run_bind_ok hrun₁, if_pos rfl, run_bind_ok hrun₂, if_pos rfl]
    have hdeliver : (deliver id).run o₂ = (.ok (), o₃) := hrun₃
    rw [run_bind_ok hdeliver, run_bind_ok hquiet, run_bind_ok hrun₄, hkept]
  · have hstep := hgain (List.length_pos_iff.mpr hfilled) hfilled (by
      rw [hcredit₂, hcredit₁]
      exact hcredit)
    have h₁₂ := (hc₁.trans hc₂).pending
    have h₄ := hc₄.pending
    omega

/-- A session that flows once it is serviced: its socket is connected, or about to be, and open
for reading. -/
structure Session.Ready (closed : Bool) (s : Session) : Prop where
  host : s.hostReadClosed = false
  guest : s.guestWriteClosed = closed
  progress : s.isOpen ∨ s.state = .connecting ∧ s.toSocket = []

def Backend.Flowing (id : StreamId) (closed : Bool) (b : Backend) : Prop :=
  ∃ s, b.sessions[id]? = some s ∧ s.Ready closed ∧ s.isOpen ∧ s.toSocket = []

theorem flowing_runConnecting {closed : Bool} (hready : o.sess.Ready closed) :
    ∃ o', (runConnecting (.flowing id) id).run o = (.ok .keep, o') ∧ o'.sess.Ready closed ∧
      o'.sess.isOpen ∧ (o.sess.toSocket = [] → o'.sess.toSocket = []) ∧
      o.backend.txPending.length ≤ o'.backend.txPending.length := by
  have hpoll : (pollConnect (.flowing id) id).run o = (.ok .connected,
      { o with backend := o.backend.log (.pollConnect id o.sess .connected) }) := rfl
  obtain ⟨es, hrun⟩ := run_finishConnect id
    { o with backend := o.backend.log (.pollConnect id o.sess .connected) }
  obtain ⟨o', hrun', hcarries⟩ := @flowing_updateEpoll id
    ⟨(o.backend.log (.pollConnect id o.sess .connected)).grow es, o.sess.connected⟩
  have hopen : o'.sess.isOpen := by
    unfold Session.isOpen
    rw [hcarries.state]
    exact connected_isOpen o.sess
  refine ⟨o', ?_, ⟨hcarries.host.trans hready.host, hcarries.guest.trans hready.guest, .inl hopen⟩,
    hopen, hcarries.socket, le_trans ?_ hcarries.pending⟩
  · unfold runConnecting
    rw [run_bind_ok hpoll]
    simp only
    rw [run_bind_ok hrun, run_bind_ok hrun']
    rfl
  · simp [Backend.grow, Backend.log]

theorem flowing_runSession {closed : Bool} (hready : o.sess.Ready closed) :
    ∃ o', (runSession (.flowing id) id).run o = (.ok .keep, o') ∧ o'.sess.Ready closed ∧
      o'.sess.isOpen ∧ o'.sess.toSocket = [] ∧
      o.backend.txPending.length ≤ o'.backend.txPending.length ∧
      (o.sess.isOpen → 0 < o.sess.toGuestCredit →
        o.backend.txPending.length < o'.backend.txPending.length) := by
  unfold runSession
  rw [run_read_bind]
  rcases hready.progress with hopen | ⟨hst, hsocket⟩
  · obtain ⟨o', hrun, hcarries, hsocket, hgain⟩ := @flowing_runOpenIo id o hready.host
    have hopen' : o'.sess.isOpen := by
      unfold Session.isOpen
      rw [hcarries.state]
      exact hopen
    refine ⟨o', ?_, ⟨hcarries.host.trans hready.host, hcarries.guest.trans hready.guest,
      .inl hopen'⟩, hopen', hsocket, hcarries.pending, fun _ => hgain⟩
    rcases hopen with hst | hst
    · rw [hst]
      exact hrun
    · rw [hst]
      exact hrun
  · obtain ⟨o', hrun, hready', hopen, hsocket', hpending⟩ := @flowing_runConnecting id o _ hready
    refine ⟨o', ?_, hready', hopen, hsocket' hsocket, hpending, fun hearly => ?_⟩
    · rw [hst]
      exact hrun
    · exact absurd hst (isOpen_not_connecting hearly)

theorem flowing_serviceOne {b : Backend} {s : Session} {closed : Bool}
    (hs : b.sessions[id]? = some s) (hready : s.Ready closed) :
    ∃ b', (serviceOne (.flowing id) id).run b = (.ok (), b') ∧ b'.Flowing id closed ∧
      b.txPending.length ≤ b'.txPending.length ∧
      (s.isOpen → 0 < s.toGuestCredit → b.txPending.length < b'.txPending.length) := by
  obtain ⟨o', hrun, hready', hopen, hsocket, hpending, hgain⟩ :=
    @flowing_runSession id ⟨{ b with sessions := b.sessions.erase id }, s⟩ closed hready
  refine ⟨o'.putBack id, ?_, ⟨o'.sess, insert_self o'.backend id o'.sess, hready', hopen, hsocket⟩,
    hpending, hgain⟩
  simp only [Eff.run] at hrun
  simp only [Eff.run, serviceOne, hs, hrun]

theorem flowing_serviceOther {b : Backend} {j : StreamId} (hj : id ≠ j) :
    ∃ b', (serviceOne (.flowing id) j).run b = (.ok (), b') ∧
      b'.sessions[id]? = b.sessions[id]? ∧ b.txPending.length ≤ b'.txPending.length := by
  obtain ⟨res, b', hrun, hadv, hok⟩ :=
    @serviceOne_advance True (.flowing id) (fun _ _ _ => rfl) j b
  obtain ⟨es, -, htx, -⟩ := hadv.grows
  have hsame := (serviceOne_tends (.flowing id) j b).1 id hj
  rw [hok trivial] at hrun
  rw [hrun] at hsame
  refine ⟨b', hrun, hsame, ?_⟩
  rw [htx, List.length_append]
  omega

theorem flowing_serviceAll {closed : Bool} (ids : List StreamId) (b : Backend) (s : Session)
    (hs : b.sessions[id]? = some s) (hready : s.Ready closed) :
    ∃ b', (serviceAll (.flowing id) ids).run b = (.ok (), b') ∧
      b.txPending.length ≤ b'.txPending.length ∧
      (id ∉ ids → b'.sessions[id]? = some s) ∧
      (id ∈ ids → b'.Flowing id closed ∧
        (s.isOpen → 0 < s.toGuestCredit → b.txPending.length < b'.txPending.length)) := by
  induction ids generalizing b s with
  | nil => exact ⟨b, rfl, le_refl _, fun _ => hs, fun h => absurd h List.not_mem_nil⟩
  | cons j ids ih =>
    by_cases hj : id = j
    · subst hj
      obtain ⟨b₁, hrun₁, ⟨s₁, hs₁, hready₁, hopen₁, hsocket₁⟩, hle₁, hgain⟩ :=
        flowing_serviceOne hs hready
      obtain ⟨b₂, hrun₂, hle₂, hleft, hserved⟩ := ih b₁ s₁ hs₁ hready₁
      refine ⟨b₂, (run_bind_ok hrun₁).trans hrun₂, hle₁.trans hle₂,
        fun h => absurd List.mem_cons_self h, fun _ => ⟨?_, fun hopen hcredit => ?_⟩⟩
      · -- serviced again or left as it is, it keeps flowing
        by_cases hin : id ∈ ids
        · exact (hserved hin).1
        · exact ⟨s₁, hleft hin, hready₁, hopen₁, hsocket₁⟩
      · exact (hgain hopen hcredit).trans_le hle₂
    · obtain ⟨b₁, hrun₁, hsame, hle₁⟩ := @flowing_serviceOther id b j hj
      obtain ⟨b₂, hrun₂, hle₂, hleft, hserved⟩ := ih b₁ s (hsame.trans hs) hready
      refine ⟨b₂, (run_bind_ok hrun₁).trans hrun₂, hle₁.trans hle₂,
        fun h => hleft fun hin => h (List.mem_cons_of_mem _ hin), fun h => ?_⟩
      rcases List.mem_cons.mp h with heq | hin
      · exact absurd heq hj
      · exact ⟨(hserved hin).1, fun hopen hcredit =>
          hle₁.trans_lt ((hserved hin).2 hopen hcredit)⟩

theorem flowing_serviceSessions {b : Backend} {s : Session} {closed : Bool}
    (hs : b.sessions[id]? = some s) (hready : s.Ready closed) :
    ∃ b', (serviceSessions (.flowing id)).run b = (.ok (), b') ∧ b'.Flowing id closed ∧
      b.txPending.length ≤ b'.txPending.length ∧
      (s.isOpen → 0 < s.toGuestCredit → b.txPending.length < b'.txPending.length) := by
  have hmem : id ∈ b.sessions.keys := by
    rw [Std.ExtTreeMap.mem_keys, ← Std.ExtTreeMap.contains_iff_mem]
    exact contains_of_getElem? hs
  obtain ⟨b', hrun, hle, -, hserved⟩ := flowing_serviceAll b.sessions.keys b s hs hready
  exact ⟨b', hrun, (hserved hmem).1, hle, (hserved hmem).2⟩

theorem flowing_handle {b : Backend} {f : OwnedFrame} {closed closed' : Bool} (hid : f.stream = id)
    (hopen : ∀ port host, f ≠ .openTo id port host)
    (hsmall : ∀ payload, f = .data id payload → payload.length ≤ TO_SOCKET_CAP)
    (hst : standingAfter (some closed) f = some closed') (hb : b.Flowing id closed) :
    ∃ b' s', (handleFrame f).run b = (.ok (), b') ∧ b'.sessions[id]? = some s' ∧
      s'.Ready closed' ∧ s'.isOpen ∧ b'.txPending = b.txPending ∧
      (∀ credit, f = .window id credit → credit ≠ 0 → 0 < s'.toGuestCredit) := by
  obtain ⟨s, hs, hready, hisopen, hsocket⟩ := hb
  have hlog (e : Ev) : (b.log e).sessions[id]? = some s := hs
  cases f with
  | openTo stream port host =>
    obtain rfl : stream = id := hid
    exact absurd rfl (hopen port host)
  -- no stream stands after a reset or an unexpected frame
  | rst => cases hst
  | unexpected => cases hst
  | data stream payload =>
    obtain rfl : stream = id := hid
    have hguest : s.guestWriteClosed = false := by
      rw [hready.guest]
      cases closed with
      | false => rfl
      | true => cases hst
    -- the buffer to the socket is empty, so a payload up to the cap fits
    have hfits : ¬ (s.toSocket ++ payload).length > TO_SOCKET_CAP := by
      rw [hsocket, List.nil_append]
      exact Nat.not_lt.mpr (hsmall payload rfl)
    have hclosed : closed' = false := by
      rw [standingAfter, if_neg (by rw [← hready.guest, hguest]; simp)] at hst
      rw [← Option.some.inj hst, ← hready.guest, hguest]
    refine ⟨{ b.log (b.recvEv (.data stream payload)) with
        sessions := b.sessions.insert stream { s with toSocket := s.toSocket ++ payload } },
      { s with toSocket := s.toSocket ++ payload }, ?_, insert_self b stream _,
      ⟨hready.host, hguest.trans hclosed.symm, .inl hisopen⟩, hisopen, rfl,
      fun credit hwindow => by cases hwindow⟩
    unfold handleFrame handleData
    simp only [run_read_bind, run_emit_bind, hlog, hguest, Bool.not_false, if_true,
      run_update_bind, hfits, if_false, run_pure]
    rfl
  | close stream =>
    obtain rfl : stream = id := hid
    refine ⟨Backend.log { b.log (b.recvEv (.close stream)) with
        sessions := b.sessions.insert stream s.closeGuest } (.shutdownWrite stream),
      s.closeGuest, ?_, insert_self b stream _,
      ⟨hready.host, Option.some.inj hst, .inl (closeGuest_isOpen.mpr hisopen)⟩,
      closeGuest_isOpen.mpr hisopen, rfl, fun credit hwindow => by cases hwindow⟩
    unfold handleFrame handleClose
    simp only [run_read_bind, run_emit_bind, hlog, run_update_bind, run_emit]
    rfl
  | window stream credit =>
    obtain rfl : stream = id := hid
    refine ⟨{ b.log (b.recvEv (.window stream credit)) with
        sessions := b.sessions.insert stream
          { s with toGuestCredit := min (s.toGuestCredit + credit.toNat) USIZE_MAX } },
      { s with toGuestCredit := min (s.toGuestCredit + credit.toNat) USIZE_MAX }, ?_,
      insert_self b stream _, ⟨hready.host, hready.guest.trans (Option.some.inj hst),
      .inl hisopen⟩, hisopen, rfl, fun grant hwindow hne => ?_⟩
    · unfold handleFrame handleWindow
      simp only [run_read_bind, run_emit_bind, hlog, run_update]
      rfl
    · cases hwindow
      have hpos : 0 < credit.toNat := Nat.pos_of_ne_zero fun hzero =>
        hne (UInt32.toNat_inj.mp (by rw [hzero]; rfl))
      have hmax : 0 < USIZE_MAX := by decide
      show 0 < min (s.toGuestCredit + credit.toNat) USIZE_MAX
      omega

theorem flowing_handleOther {b : Backend} {f : OwnedFrame} (hid : f.stream ≠ id) :
    ∃ b', (handleFrame f).run b = (.ok (), b') ∧ b'.sessions[id]? = b.sessions[id]? ∧
      b.txPending.length ≤ b'.txPending.length := by
  obtain ⟨b', hrun, hhandles⟩ : ∃ b', (handleFrame f).run b = (.ok (), b') ∧
      Handles True f b b' := handleFrame_handles f b
  obtain ⟨es, hloc, -⟩ := hhandles.handled
  obtain ⟨es', -, htx, -⟩ := hhandles.advance.grows
  refine ⟨b', hrun, hloc.sessions id hid.symm, ?_⟩
  rw [htx, List.length_append]
  omega

theorem flowing_rest {b b₁ : Backend} {f : OwnedFrame} {s : Session} {closed : Bool}
    (hframe : (handleFrame f).run b = (.ok (), b₁)) (hs : b₁.sessions[id]? = some s)
    (hready : s.Ready closed) (hopen : s.isOpen)
    (hle : b.txPending.length ≤ b₁.txPending.length) :
    ∃ b', (pumpFrames (.flowing id) [f]).run b = (.ok (), b') ∧ b'.Flowing id closed ∧
      b.txPending.length ≤ b'.txPending.length ∧
      (0 < s.toGuestCredit → b.txPending.length < b'.txPending.length) := by
  -- the rest of a pump, with the session past its connect
  have hframes : (handleFrames [f]).run b = (.ok (), b₁) := run_bind_ok hframe
  -- the answer comes too late: the session is past resolving
  have hstale : (harvestOne (.flowing id) ⟨id, some ⟨[127, 0, 0, 1], 80⟩⟩).run
      (b₁.log (.takeResolved [⟨id, some ⟨[127, 0, 0, 1], 80⟩⟩])) = (.ok (),
        Backend.answer (b₁.log (.takeResolved [⟨id, some ⟨[127, 0, 0, 1], 80⟩⟩]))
          ⟨id, some ⟨[127, 0, 0, 1], 80⟩⟩) := by
    rw [run_harvestOne, if_neg]
    · rfl
    · have hlog : (b₁.log (.takeResolved [⟨id, some ⟨[127, 0, 0, 1], 80⟩⟩])).sessions[id]? =
          some s := hs
      rw [hlog]
      rcases hopen with hst | hst <;> simp [hst]
  obtain ⟨b', hrun, hflow, hle', hgain⟩ := @flowing_serviceSessions id
    (Backend.answer (b₁.log (.takeResolved [⟨id, some ⟨[127, 0, 0, 1], 80⟩⟩]))
      ⟨id, some ⟨[127, 0, 0, 1], 80⟩⟩) s closed hs hready
  refine ⟨b', ?_, hflow, hle.trans hle', fun hcredit => hle.trans_lt (hgain hopen hcredit)⟩
  unfold pumpFrames
  rw [run_bind_ok hframes, run_bind_ok (run_harvestResolves rfl hstale), hrun]

theorem flowing_connect {b : Backend} {s : Session} (hs : b.sessions[id]? = some s)
    (hst : s.state = .resolving) :
    ∃ b', (harvestOne (.flowing id) ⟨id, some ⟨[127, 0, 0, 1], 80⟩⟩).run b = (.ok (), b') ∧
      b'.sessions[id]? =
        some { s with state := .connecting, epollMask := EPOLLIN ||| EPOLLOUT } := by
  have hstate : b.sessions[id]?.map Session.state = some .resolving := by
    rw [hs, Option.map_some, hst]
  generalize hanswer : b.answer ⟨id, some ⟨[127, 0, 0, 1], 80⟩⟩ = b₁
  have hs₁ (e e' : Ev) : ((b₁.log e).log e').sessions[id]? = some s := by
    rw [← hanswer]
    exact hs
  rw [run_harvestOne, if_pos hstate, hanswer]
  unfold finishResolve startConnect beginConnecting epollCtl
  simp only [run_bind, run_read, run_emit, run_pure, Env.flowing, if_true, hs₁,
    run_update]
  exact ⟨_, rfl, insert_self b₁ id _⟩

theorem flowing_open {b : Backend} {port : UInt16} {host : Bytes} (h : b.Idle)
    (hvalid : ¬ (host = [] ∨ port = 0)) :
    ∃ b', (pumpFrames (.flowing id) [.openTo id port host]).run b = (.ok (), b') ∧
      b'.Flowing id false := by
  have hlog : (b.log (b.recvEv (.openTo id port host))).Idle := ⟨h.sessions, h.resolving⟩
  have hframe : (handleFrame (.openTo id port host)).run b =
      (.ok (), (b.log (b.recvEv (.openTo id port host))).accept id port host) :=
    (hlog.handleOpen id port host).trans (if_neg hvalid)
  have hframes : (handleFrames [.openTo id port host]).run b =
      (.ok (), (b.log (b.recvEv (.openTo id port host))).accept id port host) :=
    run_bind_ok hframe
  obtain ⟨b₂, hrun₂, hs₂⟩ := @flowing_connect id
    (((b.log (b.recvEv (.openTo id port host))).accept id port host).log
      (.takeResolved [⟨id, some ⟨[127, 0, 0, 1], 80⟩⟩])) .newResolving
    (insert_self (b.log (b.recvEv (.openTo id port host))) id _) rfl
  obtain ⟨b', hrun, hflow, -⟩ := flowing_serviceSessions hs₂
    ⟨rfl, rfl, .inr ⟨rfl, rfl⟩⟩
  refine ⟨b', ?_, hflow⟩
  unfold pumpFrames
  rw [run_bind_ok hframes, run_bind_ok (run_harvestResolves rfl hrun₂), hrun]

end Flowing

end Tdvmm.Egress
