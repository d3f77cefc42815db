import Tdvmm.Egress.Bounds
import Tdvmm.Egress.Framing

/-!
# Egress.Wake — the gate park is woken by every session that could go on

While the phase gate parks, the sockets wake it through epoll. What is registered for a stream
is what the last successful `epoll_ctl` asked for (`registered`); `epoll_mask` of its session is
the backend's record of it, and the two agree (`armed_step`). An open one has its interest
brought in step each time it is serviced, and a successful pump services every session
(`serviceAll_tends`), so afterwards the interest is the one its buffers call for.
-/

namespace Tdvmm.Egress

open Lib Lib.Eff Tdvmm.Proto

/-! ## What is registered -/

/-- What an event leaves registered with epoll for its stream. -/
def Ev.registers (now : Option UInt32) : Ev → Option UInt32
  | .epollCtl _ mask true => some mask
  | .close _ => none
  | _ => now

/-- The interest registered with epoll after the events about one stream. -/
def registered (h : List Ev) : Option UInt32 := h.foldl Ev.registers none

theorem registered_append (h h' : List Ev) :
    registered (h ++ h') = h'.foldl Ev.registers (registered h) :=
  List.foldl_append

/-- Past its resolution a session knows what is registered for it. -/
def StreamView.Armed (v : StreamView) : Prop :=
  ∀ s, v.sess = some s → s.state ≠ .resolving → registered v.hist = some s.epollMask

theorem StreamView.Armed.keep {s s' : Session} {r r' : Bool} {h es : List Ev}
    (harmed : StreamView.Armed ⟨some s, r, h⟩) (hmask : s'.epollMask = s.epollMask)
    (hst : s.state = .resolving → s'.state = .resolving)
    (hes : ∀ now, es.foldl Ev.registers now = now) :
    StreamView.Armed ⟨some s', r', h ++ es⟩ := by
  intro t ht hpast
  cases ht
  rw [registered_append, hes, hmask]
  exact harmed s rfl (mt hst hpast)

theorem armed_step {calm : Prop} {id : StreamId} {v v' : StreamView}
    (hstep : StreamStep calm id v v') (h : v.Armed) : v'.Armed := by
  cases hstep with
  | accept =>
    intro s hs hst
    cases hs
    exact absurd rfl hst
  | refuse | reject | ignore | drop | unresolved | unreachable | connectFailed | writeFailed
  | readFailed | drained =>
    -- no session is left
    intro s hs
    cases hs
  | connect | epoll =>
    intro s' hs' _
    cases hs'
    rw [registered_append]
    rfl
  | connectStuck _ hres =>
    intro s' hs' hst
    cases hs'
    exact absurd hres hst
  | @stale sess =>
    cases sess with
    | none =>
      intro s hs
      cases hs
    | some s => exact h.keep rfl (fun hst => hst) fun _ => rfl
  | @close s =>
    refine h.keep rfl (fun hst => ?_) fun _ => rfl
    simp [Session.closeGuest, hst]
  | @eof s _ _ hopen =>
    refine h.keep rfl (fun hst => ?_) fun _ => rfl
    simp [Session.closeHost, hst]
  | @connected s _ _ hconn =>
    refine h.keep rfl (fun hst => ?_) fun now => ?_
    · rw [hconn] at hst
      cases hst
    · cases s.guestWriteClosed with
      | true => rfl
      | false => rfl
  | _ => exact h.keep rfl (fun hst => hst) fun _ => rfl

theorem Reachable.armed {ok : Env → Prop} {b : Backend} (h : Reachable ok b) (id : StreamId) :
    (b.view id).Armed := by
  have hsteps := (@Reachable.streams False b ok (fun _ _ => False.elim) h).1 id
  generalize b.view id = v at hsteps ⊢
  induction hsteps with
  | refl =>
    intro s hs
    cases hs
  | tail _ hstep ih => exact armed_step hstep ih

/-! ## Before the connect is done -/

/-- A connecting session is registered for both directions, and nothing has been read for a session
that is not open. -/
structure Session.Early (s : Session) : Prop where
  mask : s.state = .connecting → s.epollMask = EPOLLIN ||| EPOLLOUT
  unread : ¬ s.isOpen → s.toGuest = [] ∧ s.hostReadClosed = false

theorem isOpen_not_connecting {s : Session} (h : s.isOpen) : s.state ≠ .connecting := by
  rcases h with h | h <;> simp [h]

theorem early_stable : Stable Session.Early where
  fresh := ⟨by simp [Session.newResolving], by simp [Session.newResolving]⟩
  data _ _ hs _ := ⟨hs.mask, hs.unread⟩
  close s hs := by
    constructor
    · intro hst
      apply hs.mask
      cases hst' : s.state <;> simp [Session.closeGuest, hst'] at hst ⊢
    · intro hopen
      exact hs.unread (mt closeGuest_isOpen.mpr hopen)
  window _ _ hs := ⟨hs.mask, hs.unread⟩
  connect s hs hres := by
    have hnot : ¬ s.isOpen := by
      rintro (hst | hst) <;> rw [hres] at hst <;> cases hst
    exact ⟨fun _ => rfl, fun _ => hs.unread hnot⟩
  connected s hs :=
    ⟨fun hst => absurd hst (isOpen_not_connecting (connected_isOpen s)),
      fun hopen => absurd (connected_isOpen s) hopen⟩
  flush s n hs hopen :=
    ⟨fun hst => absurd hst (isOpen_not_connecting hopen), fun hnot => absurd hopen hnot⟩
  eof s hs hopen :=
    ⟨fun hst => absurd hst (isOpen_not_connecting (closeHost_isOpen hopen)),
      fun hnot => absurd (closeHost_isOpen hopen) hnot⟩
  read s _ hs hopen _ :=
    ⟨fun hst => absurd hst (isOpen_not_connecting hopen), fun hnot => absurd hopen hnot⟩
  frame s n hs hopen :=
    ⟨fun hst => absurd hst (isOpen_not_connecting hopen), fun hnot => absurd hopen hnot⟩
  announce s hs hopen :=
    ⟨fun hst => absurd hst (isOpen_not_connecting hopen), fun hnot => absurd hopen hnot⟩
  epoll s hs hopen :=
    ⟨fun hst => absurd hst (isOpen_not_connecting hopen), fun hnot => absurd hopen hnot⟩

/-! ## After servicing -/

/-- The session has nothing to write, and reads nothing: its socket is at EOF or its window is
full. -/
def Session.Unwatched (s : Session) : Prop :=
  s.toSocket = [] ∧ (s.hostReadClosed = true ∨ WINDOW_BYTES ≤ s.toGuest.length)

/-- An open session on which servicing has nothing to do. -/
structure Session.AtRest (s : Session) : Prop where
  opened : s.isOpen
  unwatched : s.Unwatched
  framed : s.toGuest = [] ∨ s.toGuestCredit = 0
  announced : s.hostReadClosed = true → s.toGuest = [] → s.hostCloseSent = true
  instep : s.epollMask = s.wantMask
  undrained : s.isDrained = false

/-- A session as a successful pump leaves it. -/
structure Session.Tended (s : Session) : Prop where
  instep : s.isOpen → s.epollMask = s.wantMask
  rests : s.isOpen → s.Unwatched → s.AtRest

theorem tended_of_not_open {s : Session} (h : ¬ s.isOpen) : s.Tended :=
  ⟨fun hopen => absurd hopen h, fun hopen => absurd hopen h⟩

section Env

variable {env : Env} {id : StreamId} {o o' : Serviced}

theorem frameToGuest_ends (fuel : Nat) (o : Serviced) (hfuel : o.sess.toGuest.length ≤ fuel) :
    ∃ o', (frameToGuest id fuel).run o = (.ok (), o') ∧
      (o'.sess.toGuest = [] ∨ o'.sess.toGuestCredit = 0) := by
  induction fuel generalizing o with
  | zero => exact ⟨o, rfl, .inl (List.length_eq_zero_iff.mp (Nat.le_zero.mp hfuel))⟩
  | succ fuel ih =>
    unfold frameToGuest
    rw [run_read_bind]
    split_ifs with hgo
    · generalize htake : min (min o.sess.toGuest.length o.sess.toGuestCredit)
        EGRESS_MAX_PAYLOAD = n
      have hpos : 0 < n := by
        have h : o.sess.toGuest ≠ [] ∧ 0 < o.sess.toGuestCredit := by simpa using hgo
        have hl := List.length_pos_iff.mpr h.1
        simp only [EGRESS_MAX_PAYLOAD] at htake
        omega
      have hok : (encode (.data id (o.sess.toGuest.take n)) []).1 = .ok () :=
        encode_take_ok o.sess.toGuest (by omega)
      simp only [run_bind, run_onBackend, run_enqueue hok, run_onSession, run_update]
      apply ih
      simp only [List.length_drop]
      omega
    · refine ⟨o, rfl, ?_⟩
      by_cases hempty : o.sess.toGuest = []
      · exact .inl hempty
      · exact .inr (by simpa [hempty] using hgo)

theorem updateEpoll_instep (h : (updateEpoll env id).run o = (.ok (), o')) :
    o'.sess = { o.sess with epollMask := o.sess.wantMask } := by
  unfold updateEpoll epollCtl at h
  rw [run_read_bind] at h
  dsimp only at h
  split_ifs at h with hmask
  · simp only [run_bind, run_onBackend, run_read, run_emit] at h
    cases hok : env.epollCtl o.backend.hist id with
    | true =>
      simp only [hok, if_true, run_pure, run_onSession, Prod.mk.injEq, true_and] at h
      rw [← h]
    | false =>
      simp [hok] at h
  · cases h
    have hsame : o.sess.wantMask = o.sess.epollMask := not_not.mp hmask
    rw [hsame]

theorem announceClose_ends (id : StreamId) (o : Serviced) :
    ∃ o', (announceClose id).run o = (.ok (), o') ∧ o'.sess.toGuest = o.sess.toGuest ∧
      o'.sess.toGuestCredit = o.sess.toGuestCredit ∧
      (o'.sess.hostReadClosed = true → o'.sess.toGuest = [] → o'.sess.hostCloseSent = true) := by
  unfold announceClose
  rw [run_read_bind]
  split_ifs with hgo
  · simp only [run_bind, run_onBackend, run_enqueue_close, run_onSession]
    exact ⟨_, rfl, rfl, rfl, fun _ _ => rfl⟩
  · refine ⟨o, rfl, rfl, rfl, fun hread hempty => ?_⟩
    simpa [hread, hempty] using hgo

theorem abortOpen_removes (o : Serviced) :
    ((onBackend (abortOpen id)).run o).1 ≠ .ok .keep := by
  simp only [abortOpen, detachSocket, run_onBackend, run_bind, run_emit, run_enqueue_rst,
    run_pure]
  intro h
  cases h

theorem stable_true : Stable fun _ => True :=
  ⟨trivial, fun _ _ _ _ => trivial, fun _ _ => trivial, fun _ _ _ => trivial, fun _ _ _ => trivial,
    fun _ _ => trivial, fun _ _ _ _ => trivial, fun _ _ _ => trivial, fun _ _ _ _ _ => trivial,
    fun _ _ _ _ => trivial, fun _ _ _ => trivial, fun _ _ _ => trivial⟩

theorem runOpenIo_tends (hopen : o.sess.isOpen)
    (h : (runOpenIo env id).run o = (.ok .keep, o')) : o'.sess.Tended := by
  have hopen' : o'.sess.isOpen := by
    have hheld := held_runOpenIo env id stable_true o ⟨rfl, trivial, hopen⟩
    rw [h] at hheld
    exact hheld.2.2
  have hkeep : ((runOpenIo env id).run o).1 = .ok .keep := by rw [h]
  unfold runOpenIo at h hkeep
  obtain ⟨written, o₁, -, hrest₁⟩ := ok_bind hkeep
  rw [hrest₁] at h hkeep
  cases written with
  | false => exact absurd hkeep (abortOpen_removes o₁)
  | true =>
  simp only [if_true] at h hkeep
  obtain ⟨received, o₂, -, hrest₂⟩ := ok_bind hkeep
  rw [hrest₂] at h hkeep
  cases received with
  | false => exact absurd hkeep (abortOpen_removes o₂)
  | true =>
  simp only [if_true] at h hkeep
  -- both directions went well: the buffer is framed, the EOF announced, the interest updated
  obtain ⟨o₃, hdeliver, hframed⟩ : ∃ o₃, (deliver id).run o₂ = (.ok (), o₃) ∧
      (o₃.sess.toGuest = [] ∨ o₃.sess.toGuestCredit = 0) :=
    frameToGuest_ends o₂.sess.toGuest.length o₂ le_rfl
  obtain ⟨o₄, hannounce, hguest, hcredit, hsent⟩ := announceClose_ends id o₃
  rw [run_bind_ok hdeliver, run_bind_ok hannounce] at h hkeep
  obtain ⟨u, o₅, hepoll, hrest₅⟩ := ok_bind hkeep
  have hinstep := updateEpoll_instep hepoll
  rw [hrest₅] at h
  unfold retire at h
  rw [run_read_bind] at h
  split_ifs at h with hdrained
  · simp only [detachSocket, run_onBackend, run_bind, run_emit, run_pure] at h
    cases h
  · cases h
    have hwant : o'.sess.epollMask = o'.sess.wantMask := by
      rw [hinstep]
      rfl
    refine ⟨fun _ => hwant, fun _ hun => ⟨hopen', hun, ?_, ?_, hwant, by simpa using hdrained⟩⟩
    · rw [hinstep, hguest, hcredit]
      exact hframed
    · rw [hinstep]
      exact hsent

/-- A connecting session that is kept has been tended, too: it still connects, or its connect is
done and nothing has been read. -/
theorem runConnecting_tends (hearly : o.sess.Early) (hst : o.sess.state = .connecting)
    (h : (runConnecting env id).run o = (.ok .keep, o')) : o'.sess.Tended := by
  have hnot : ¬ o.sess.isOpen := fun hopen => isOpen_not_connecting hopen hst
  obtain ⟨hempty, hread⟩ := hearly.unread hnot
  have hpoll : (pollConnect env id).run o =
      (.ok (env.pollConnect o.backend.hist id),
        ⟨o.backend.log (.pollConnect id o.sess (env.pollConnect o.backend.hist id)), o.sess⟩) := rfl
  unfold runConnecting at h
  rw [run_bind_ok hpoll] at h
  cases hres : env.pollConnect o.backend.hist id with
  | pending =>
    rw [hres] at h
    cases h
    exact tended_of_not_open hnot
  | failed reason =>
    rw [hres] at h
    simp only [run_onBackend, detachSocket, run_bind, run_emit, run_update,
      run_enqueue_openErr, run_pure] at h
    cases h
  | connected =>
    rw [hres] at h
    simp only at h
    obtain ⟨es, hrun⟩ := run_finishConnect id
      ⟨o.backend.log (.pollConnect id o.sess .connected), o.sess⟩
    rw [run_bind_ok hrun] at h
    have hkeep := congrArg Prod.fst h
    obtain ⟨u, o₁, hepoll, hrest⟩ := ok_bind hkeep
    have hinstep := updateEpoll_instep hepoll
    rw [hrest] at h
    cases h
    constructor
    · intro _
      rw [hinstep]
      rfl
    · -- the window is empty and its socket open, so the session is watched
      rintro _ ⟨-, hclosed | hfull⟩
      · rw [hinstep] at hclosed
        exact absurd (hread.symm.trans hclosed) (by simp)
      · rw [hinstep] at hfull
        have hfull' : WINDOW_BYTES ≤ o.sess.toGuest.length := hfull
        rw [hempty] at hfull'
        exact absurd hfull' (by simp [WINDOW_BYTES])

theorem runSession_tends (hearly : o.sess.Early)
    (h : (runSession env id).run o = (.ok .keep, o')) : o'.sess.Tended := by
  unfold runSession at h
  rw [run_read_bind] at h
  cases hst : o.sess.state with
  | resolving =>
    rw [hst] at h
    cases h
    apply tended_of_not_open
    rintro (hopen | hopen) <;> rw [hst] at hopen <;> cases hopen
  | connecting =>
    rw [hst] at h
    exact runConnecting_tends hearly hst h
  | established =>
    rw [hst] at h
    exact runOpenIo_tends (.inl hst) h
  | halfClosed =>
    rw [hst] at h
    exact runOpenIo_tends (.inr hst) h

/-- Servicing one session leaves the others alone, and tends it unless it fails. -/
theorem serviceOne_tends (env : Env) (id : StreamId) (b : Backend) :
    (∀ j, j ≠ id → ((serviceOne env id).run b).2.sessions[j]? = b.sessions[j]?) ∧
      (b.Holds Session.Early → ((serviceOne env id).run b).1 = .ok () →
        ∀ s, ((serviceOne env id).run b).2.sessions[id]? = some s → s.Tended) := by
  simp only [Eff.run, serviceOne]
  cases hs : b.sessions[id]? with
  | none =>
    refine ⟨fun _ _ => rfl, fun _ _ s hsome => ?_⟩
    rw [hs] at hsome
    cases hsome
  | some s =>
    have hheld := held_runSession env id stable_true
      ⟨{ b with sessions := b.sessions.erase id }, s⟩ ⟨rfl, trivial⟩
    have htends (hearly : s.Early) (o' : Serviced) (h : (runSession env id).run
        ⟨{ b with sessions := b.sessions.erase id }, s⟩ = (.ok .keep, o')) : o'.sess.Tended :=
      runSession_tends hearly h
    revert hheld htends
    simp only [Eff.run]
    rcases runSession env id ⟨{ b with sessions := b.sessions.erase id }, s⟩ with ⟨res, o⟩
    rintro ⟨htable, -⟩ htends
    have htable' : o.backend.sessions = b.sessions.erase id := htable
    have hback (j : StreamId) (hj : j ≠ id) : (o.putBack id).sessions[j]? = b.sessions[j]? := by
      refine (insert_other o.backend id o.sess j hj).trans ?_
      rw [htable']
      exact erase_other b id j hj
    have hgone (j : StreamId) (hj : j ≠ id) : o.backend.sessions[j]? = b.sessions[j]? := by
      rw [htable']
      exact erase_other b id j hj
    rcases res with e | d
    · refine ⟨hback, fun _ hok => ?_⟩
      cases hok
    · cases d with
      | keep =>
        refine ⟨hback, fun hearly _ s' hs' => ?_⟩
        have hself : (o.putBack id).sessions[id]? = some o.sess :=
          insert_self o.backend id o.sess
        rw [hself] at hs'
        cases hs'
        exact htends (hearly.holds id s hs) o rfl
      | remove =>
        -- a session that is removed is not put back
        refine ⟨hgone, fun _ _ s' hs' => ?_⟩
        have hself : o.backend.sessions[id]? = none := by
          rw [htable']
          exact erase_self b id
        rw [show (o.backend.log (.removed id)).sessions = o.backend.sessions from rfl, hself] at hs'
        cases hs'

theorem serviceAll_tends (env : Env) (ids : List StreamId) (b : Backend)
    (hearly : b.Holds Session.Early)
    (hdone : ∀ (j : StreamId) (s : Session), b.sessions[j]? = some s → j ∉ ids → s.Tended)
    (hok : ((serviceAll env ids).run b).1 = .ok ()) :
    ∀ (j : StreamId) (s : Session), ((serviceAll env ids).run b).2.sessions[j]? = some s →
      s.Tended := by
  induction ids generalizing b with
  | nil => exact fun j s hs => hdone j s hs List.not_mem_nil
  | cons id ids ih =>
    unfold serviceAll at hok ⊢
    obtain ⟨u, b₁, hrun, hrest⟩ := ok_bind hok
    obtain ⟨hothers, hself⟩ := serviceOne_tends env id b
    have hearly₁ := keeps_serviceOne env id early_stable b hearly
    rw [hrun] at hothers hself hearly₁
    rw [hrest] at hok ⊢
    refine ih b₁ hearly₁ (fun j s hs hj => ?_) hok
    by_cases hjid : j = id
    · subst hjid
      exact hself hearly rfl s hs
    · rw [hothers j hjid] at hs
      exact hdone j s hs (by simp [hjid, hj])

/-- A successful pump leaves every session tended, and what it could not parse cannot be parsed
again without more bytes. -/
theorem pump_tends {b : Backend} (hearly : b.Holds Session.Early) {fromGuest : Bytes}
    (hok : ((pump env fromGuest).run b).1 = .ok ()) :
    (∀ (j : StreamId) (s : Session), ((pump env fromGuest).run b).2.sessions[j]? = some s →
      s.Tended) ∧
    codec.parseAll ((pump env fromGuest).run b).2.rxParse =
      ⟨[], ((pump env fromGuest).run b).2.rxParse, none⟩ := by
  cases herr : (codec.parseAll (b.rxParse ++ fromGuest)).error with
  | some e =>
    rw [pump_loses herr] at hok
    cases hok
  | none =>
  constructor
  · rw [run_pump] at hok ⊢
    split at hok
    · rename_i fs rest _
      have hframes := keeps_handleFrames early_stable fs { b with rxParse := rest } hearly
      unfold pumpFrames at hok ⊢
      obtain ⟨u₁, b₁, hrun₁, hrest₁⟩ := ok_bind hok
      rw [hrun₁] at hframes
      rw [hrest₁] at hok ⊢
      have hharvest := keeps_harvestResolves env early_stable b₁ hframes
      obtain ⟨u₂, b₂, hrun₂, hrest₂⟩ := ok_bind hok
      rw [hrun₂] at hharvest
      rw [hrest₂] at hok ⊢
      refine serviceAll_tends env b₂.sessions.keys b₂ hharvest (fun j s hs hj => ?_) hok
      have hmem : j ∈ b₂.sessions.keys := by
        rw [Std.ExtTreeMap.mem_keys, ← Std.ExtTreeMap.contains_iff_mem]
        exact contains_of_getElem? hs
      exact absurd hmem hj
    · cases hok
  · obtain ⟨res, b', hrun, -, hrest, -⟩ := @pump_parses b env fromGuest herr
    rw [hrun, hrest]
    exact Decoder.parseAll_rest herr

/-! ## At rest -/

theorem runOpenIo_atRest (h : o.sess.AtRest) : (runOpenIo env id).run o = (.ok .keep, o) := by
  obtain ⟨hopen, ⟨hsocket, hread⟩, hframed, hannounced, hinstep, hdrained⟩ := h
  have htransmit : (transmit env id).run o = (.ok true, o) := by
    unfold transmit
    rw [run_read_bind, hsocket]
    rfl
  have hreceive : (receive env id).run o = (.ok true, o) := by
    unfold receive
    rw [run_read_bind]
    rcases hread with hread | hread
    · rw [if_pos hread]
      rfl
    · rw [Nat.sub_eq_zero_of_le hread]
      split_ifs
      · rfl
      · rfl
  have hdeliver : (deliver id).run o = (.ok (), o) := by
    unfold deliver
    rw [run_read_bind]
    cases o.sess.toGuest.length with
    | zero => rfl
    | succ fuel =>
      unfold frameToGuest
      rw [run_read_bind, if_neg]
      · rfl
      · rcases hframed with hframed | hframed <;> simp [hframed]
  have hannounce : (announceClose id).run o = (.ok (), o) := by
    unfold announceClose
    rw [run_read_bind, if_neg]
    · rfl
    · simp only [Bool.and_eq_true, List.isEmpty_iff, Bool.not_eq_true']
      rintro ⟨⟨hclosed, hempty⟩, hsent⟩
      rw [hannounced hclosed hempty] at hsent
      cases hsent
  have hepoll : (updateEpoll env id).run o = (.ok (), o) := by
    unfold updateEpoll
    rw [run_read_bind]
    dsimp only
    rw [if_neg (not_not.mpr hinstep.symm)]
    rfl
  -- none of the five parts finds anything to do
  unfold runOpenIo
  rw [run_bind_ok htransmit, if_pos rfl, run_bind_ok hreceive, if_pos rfl,
    run_bind_ok hdeliver, run_bind_ok hannounce, run_bind_ok hepoll]
  unfold retire
  rw [run_read_bind, hdrained]
  rfl

variable {s : Session}

abbrev Backend.Sits (id : StreamId) (s : Session) (b : Backend) : Prop := b.sessions[id]? = some s

theorem sits_serviceOne (hrest : s.AtRest) (j : StreamId) :
    Keeps (Backend.Sits id s) (serviceOne env j) := by
  intro b hb
  by_cases hj : id = j
  · subst hj
    have hrun : (runSession env id).run ⟨{ b with sessions := b.sessions.erase id }, s⟩ =
        (.ok .keep, ⟨{ b with sessions := b.sessions.erase id }, s⟩) := by
      unfold runSession
      rw [run_read_bind]
      rcases hrest.opened with hst | hst
      · simp only [hst]
        exact runOpenIo_atRest hrest
      · simp only [hst]
        exact runOpenIo_atRest hrest
    have hb' : b.sessions[id]? = some s := hb
    simp only [Eff.run] at hrun
    simp only [Eff.run, serviceOne, hb', hrun]
    exact insert_self { b with sessions := b.sessions.erase id } id s
  · exact ((serviceOne_tends env j b).1 id hj).trans hb

theorem sits_harvestOne (hopen : s.isOpen) (r : Resolved) :
    Keeps (Backend.Sits id s) (harvestOne env r) := by
  intro b hb
  have hb' : b.sessions[id]? = some s := hb
  by_cases hid : id = r.stream
  · -- an answer for a session that is past resolving is only dropped
    have hstate : ¬ (b.sessions[r.stream]?.map Session.state = some .resolving) := by
      rw [← hid, hb']
      rcases hopen with hst | hst <;> simp [hst]
    rw [run_harvestOne, if_neg hstate]
    exact hb
  · obtain ⟨res, b', hrun, hh, -⟩ := @harvestOne_harvests False b env False.elim r False.elim
    obtain ⟨es, hloc, -⟩ := hh.acted
    rw [hrun]
    exact (hloc.sessions id hid).trans hb

/-- Without new guest bytes a session at rest stays as it is. -/
theorem sits_pump (hrest : s.AtRest) {b : Backend} (hb : b.Sits id s)
    (hparsed : codec.parseAll b.rxParse = ⟨[], b.rxParse, none⟩) :
    ∃ res b', (pump env []).run b = (res, b') ∧ (∀ e, res = .error e → e.IsIo) ∧ b'.Sits id s ∧
      b'.rxParse = b.rxParse := by
  have hnil : codec.parseAll (b.rxParse ++ []) = ⟨[], b.rxParse, none⟩ := by
    rw [List.append_nil, hparsed]
  obtain ⟨res, b', hrun, hio, hrx, -⟩ := @pump_parses b env [] (by rw [hnil])
  refine ⟨res, b', hrun, hio, ?_, by rw [hrx, hnil]⟩
  have hharvest : Keeps (Backend.Sits id s) (harvestResolves env) := by
    refine Keeps.bind ?_ fun rs => ?_
    · exact keeps_read.bind fun b => Keeps.bind (keeps_update fun _ hb => hb)
        fun _ => keeps_pure _
    · induction rs with
      | nil => exact keeps_pure ()
      | cons r rs ih => exact (sits_harvestOne hrest.opened r).bind fun _ => ih
  have hservice : Keeps (Backend.Sits id s) (serviceSessions env) := by
    refine keeps_read.bind fun b => ?_
    induction b.sessions.keys with
    | nil => exact keeps_pure ()
    | cons j ids ih => exact (sits_serviceOne hrest j).bind fun _ => ih
  have hpump : Keeps (Backend.Sits id s) (pumpFrames env []) :=
    (keeps_pure ()).bind fun _ => hharvest.bind fun _ => hservice
  have hsplit : (pump env []).run b = (pumpFrames env []).run { b with rxParse := b.rxParse } := by
    rw [run_pump, parseFrames_eq, Decoder.parse_eq_parseAll (Nat.lt_succ_self _), hnil]
    rfl
  have hend := hpump { b with rxParse := b.rxParse } hb
  rwa [← hsplit, hrun] at hend

theorem sits_pumps (hrest : s.AtRest) (envs : List Env) (b : Backend) (hb : b.Sits id s)
    (hparsed : codec.parseAll b.rxParse = ⟨[], b.rxParse, none⟩) :
    (pumps (envs.map fun env => (env, [])) b).2.Sits id s := by
  induction envs generalizing b with
  | nil => exact hb
  | cons env envs ih =>
    obtain ⟨res, b', hrun, hio, hb', hrx⟩ := @sits_pump env id s hrest b hb hparsed
    have hstep : pumps ((env :: envs).map fun env => (env, [])) b =
        pumps (envs.map fun env => (env, [])) b' := by
      rw [List.map_cons, pumps, hrun]
      rcases res with e | u
      · obtain ⟨what, rfl⟩ := hio e rfl
        rfl
      · rfl
    rw [hstep]
    exact ih b' hb' (by rw [hrx, hparsed])

end Env

/-! ## The park is woken -/

theorem wantMask_in {s : Session} (hread : s.hostReadClosed = false)
    (hroom : s.toGuest.length < WINDOW_BYTES) : s.wantMask &&& EPOLLIN ≠ 0 := by
  unfold Session.wantMask
  simp only [hread, hroom, Bool.not_false, decide_true, Bool.and_self, if_true]
  split_ifs <;> decide

theorem wantMask_out {s : Session} (hsocket : s.toSocket ≠ []) : s.wantMask &&& EPOLLOUT ≠ 0 := by
  unfold Session.wantMask
  have hne : (!s.toSocket.isEmpty) = true := by simpa using hsocket
  simp only [hne, if_true]
  split_ifs <;> decide

/-- After every successful pump, a session past resolving has registered the interest it needs: in
both directions while it connects, in writability while guest bytes wait for its socket, in
readability while its read side is open and its window has room. An open session that needs none
of these does not move without new guest bytes, however often it is pumped and whatever the
connector answers. -/
theorem wake_complete {b : Backend} (hb : Reachable (fun _ => True) b) (env : Env)
    (fromGuest : Bytes) (hok : ((pump env fromGuest).run b).1 = .ok ()) (id : StreamId)
    (s : Session) (hs : ((pump env fromGuest).run b).2.sessions[id]? = some s) :
    (s.state ≠ .resolving → ∃ mask,
      registered (about id ((pump env fromGuest).run b).2.hist) = some mask ∧
      (s.state = .connecting → mask &&& EPOLLIN ≠ 0 ∧ mask &&& EPOLLOUT ≠ 0) ∧
      (s.isOpen → s.toSocket ≠ [] → mask &&& EPOLLOUT ≠ 0) ∧
      (s.isOpen → s.hostReadClosed = false → s.toGuest.length < WINDOW_BYTES →
        mask &&& EPOLLIN ≠ 0)) ∧
    (s.isOpen → s.toSocket = [] →
      (s.hostReadClosed = true ∨ WINDOW_BYTES ≤ s.toGuest.length) → ∀ envs : List Env,
      (pumps (envs.map fun env => (env, [])) ((pump env fromGuest).run b).2).2.sessions[id]? =
        some s) := by
  have hreach : Reachable (fun _ => True) ((pump env fromGuest).run b).2 :=
    .pump fromGuest hb trivial
  have hearly := (hreach.bounded early_stable).holds id s hs
  obtain ⟨htended, hparsed⟩ := pump_tends (hb.bounded early_stable) hok
  have htend := htended id s hs
  constructor
  · intro hpast
    refine ⟨s.epollMask, hreach.armed id s hs hpast, ?_, ?_, ?_⟩
    · intro hst
      rw [hearly.mask hst]
      decide
    · intro hopen hsocket
      rw [htend.instep hopen]
      exact wantMask_out hsocket
    · intro hopen hread hroom
      rw [htend.instep hopen]
      exact wantMask_in hread hroom
  · intro hopen hsocket hread envs
    exact sits_pumps (htend.rests hopen ⟨hsocket, hread⟩) envs _ hs hparsed

theorem wake_complete_opened :
    ∃ mask, registered (about 7
        ((pump (.prompt 7 ⟨[], 80⟩) (frameBytes [.openTo 7 80 [104]])).run .init).2.hist) =
          some mask ∧ mask &&& EPOLLIN ≠ 0 := by
  -- the session of stream 7 after its `OPEN`, with a connector that answers at once
  have hopened : ((pump (.prompt 7 ⟨[], 80⟩) (frameBytes [.openTo 7 80 [104]])).run
      .init).2.sessions[(7 : StreamId)]? =
        some { Session.newResolving with state := .established, epollMask := EPOLLIN } := by
    decide +kernel
  obtain ⟨mask, hmask, -, -, hin⟩ := (wake_complete .init (.prompt 7 ⟨[], 80⟩)
    (frameBytes [.openTo 7 80 [104]]) (by decide +kernel) 7 _ hopened).1 (by simp)
  exact ⟨mask, hmask, hin (.inl rfl) rfl (by decide)⟩

end Tdvmm.Egress
