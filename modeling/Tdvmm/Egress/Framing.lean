import Tdvmm.Egress.Refine
import Tdvmm.Lib.Incremental
import Tdvmm.Proto.Codec

/-!
# Egress.Framing — what the pumps do to the bytes not yet parsed

The parse buffer is the business of `ingest_and_parse` alone: the rest of a pump leaves it as it
is, and what can fail there is an epoll call, never the framing. So a run of pumps parses the
chunks it is handed as one stream (`pumps_feed`), whatever the connector answers meanwhile.
-/

namespace Tdvmm.Egress

open Lib Lib.Eff Tdvmm.Proto

def codec : Decoder UInt8 EgressCodecError EgressFrame where
  decode input :=
    match decode input with
    | .ok (some d) => .ok (some (d.frame, d.consumed))
    | .ok none => .ok none
    | .error e => .error e
  waits := rfl
  bounds := by
    intro input t n h
    split at h
    · rename_i d hdec
      cases h
      exact decode_bounds hdec
    · cases h
    · cases h
  stable := by
    intro input more h
    have hsays : decode input ≠ .ok none := by
      intro hnone
      rw [hnone] at h
      exact h rfl
    rw [decode_append hsays]

theorem codec_decode (input : Bytes) :
    codec.decode input =
      match decode input with
      | .ok (some d) => .ok (some (d.frame, d.consumed))
      | .ok none => .ok none
      | .error e => .error e := rfl

theorem parseFrames_eq (fuel : Nat) (buf : Bytes) :
    parseFrames fuel buf =
      match (codec.parse fuel buf).error with
      | none => .ok ((codec.parse fuel buf).tokens.map toOwned, (codec.parse fuel buf).rest)
      | some e => .error e := by
  induction fuel generalizing buf with
  | zero => rfl
  | succ fuel ih =>
    rw [parseFrames, Decoder.parse, codec_decode]
    rcases decode buf with e | _ | d
    · rfl
    · rfl
    · simp only [ih, Parsed.after]
      cases (codec.parse fuel (buf.drop d.consumed)).error <;> rfl

/-! ## The rest of a pump -/

def EgressError.IsIo (e : EgressError) : Prop := ∃ what, e = .io what

/-- Leaves the parse buffer alone and does not lose the framing. -/
abbrev Aside {α : Type} (m : EgressM α) : Prop :=
  ∀ rx, Tame (fun b : Backend => b.rxParse = rx) EgressError.IsIo m

/-- The same of a method that works on the session taken out. -/
abbrev SessAside {α : Type} (m : SessM α) : Prop :=
  ∀ rx, Tame (fun o : Serviced => o.backend.rxParse = rx) EgressError.IsIo m

theorem Aside.onBackend {α : Type} {m : EgressM α} (h : Aside m) : SessAside (onBackend m) :=
  fun rx o ho => h rx o.backend ho

theorem aside_emit (e : Ev) : Aside (emit e) := fun _ => tame_update fun _ hb => hb

theorem aside_enqueue {frame : EgressFrame} (h : (encode frame []).1 = .ok ()) :
    Aside (enqueue frame) :=
  fun _ => tame_of_ok fun b hb => ⟨(), b.grow [.sent frame], run_enqueue h b, hb⟩

theorem sessAside_onSession (f : Session → Session) : SessAside (onSession f) :=
  fun _ => tame_update fun _ ho => ho

theorem aside_failOpen (id : StreamId) (reason : EgressReason) : Aside (failOpen id reason) :=
  fun _ => tame_of_ok fun b hb => ⟨(), _, run_failOpen id reason b, hb⟩

theorem aside_resetStream (id : StreamId) : Aside (resetStream id) :=
  fun _ => tame_of_ok fun b hb => ⟨(), _, run_resetStream id b, hb⟩

theorem aside_dropStream (id : StreamId) : Aside (dropStream id) :=
  fun _ => tame_of_ok fun b hb => ⟨(), _, run_dropStream id b, hb⟩

theorem aside_handleOpen (stream : StreamId) (port : UInt16) (host : Bytes) :
    Aside (handleOpen stream port host) := by
  intro rx
  refine tame_read_bind fun b => ?_
  split_ifs
  · exact aside_resetStream stream rx
  · exact aside_failOpen stream _ rx
  · exact aside_failOpen stream _ rx
  · exact (aside_emit _ rx).bind fun _ => (aside_emit _ rx).bind fun _ =>
      tame_update fun _ hb => hb

theorem aside_handleData (stream : StreamId) (payload : Bytes) :
    Aside (handleData stream payload) := by
  intro rx
  refine tame_read_bind fun b => ?_
  split
  · split_ifs
    · refine Tame.bind (tame_update ?_) fun _ => ?_
      · exact fun _ hb => hb
      · split_ifs
        · exact aside_resetStream stream rx
        · exact tame_pure ()
    · exact aside_resetStream stream rx
  · exact aside_resetStream stream rx

theorem aside_handleClose (stream : StreamId) : Aside (handleClose stream) := by
  intro rx
  refine tame_read_bind fun b => ?_
  split
  · refine Tame.bind (tame_update ?_) fun _ => aside_emit _ rx
    exact fun _ hb => hb
  · exact tame_pure ()

theorem aside_handleWindow (stream : StreamId) (credit : UInt32) :
    Aside (handleWindow stream credit) := by
  intro rx
  refine tame_read_bind fun b => ?_
  split
  · exact tame_update fun _ hb => hb
  · exact tame_pure ()

theorem aside_handleFrame (frame : OwnedFrame) : Aside (handleFrame frame) := by
  intro rx
  refine tame_read_bind fun b => (aside_emit _ rx).bind fun _ => ?_
  cases frame with
  | openTo stream port host => exact aside_handleOpen stream port host rx
  | data stream payload => exact aside_handleData stream payload rx
  | close stream => exact aside_handleClose stream rx
  | rst stream => exact aside_dropStream stream rx
  | window stream credit => exact aside_handleWindow stream credit rx
  | unexpected stream => exact aside_resetStream stream rx

theorem aside_handleFrames (frames : List OwnedFrame) : Aside (handleFrames frames) := by
  intro rx
  induction frames with
  | nil => exact tame_pure ()
  | cons frame frames ih => exact (aside_handleFrame frame rx).bind fun _ => ih

section Env

variable (env : Env) (id : StreamId)

theorem aside_epollCtl (mask : UInt32) (what : String) : Aside (epollCtl env id mask what) := by
  intro rx
  refine tame_read_bind fun b => (aside_emit _ rx).bind fun _ => ?_
  split_ifs
  · exact tame_pure ()
  · exact tame_fail ⟨what, rfl⟩

theorem aside_finishResolve (addr : Option SocketAddr) : Aside (finishResolve env id addr) := by
  intro rx
  cases addr with
  | none => exact aside_failOpen id _ rx
  | some addr =>
    have hstart : Tame (fun b : Backend => b.rxParse = rx) EgressError.IsIo
        (startConnect env id addr) :=
      tame_read_bind fun b => (aside_emit _ rx).bind fun _ => tame_pure _
    refine hstart.bind fun ok => ?_
    cases ok with
    | false => exact aside_failOpen id _ rx
    | true =>
      refine (aside_epollCtl env id _ _ rx).bind fun _ => tame_read_bind fun b => ?_
      split
      · exact tame_update fun _ hb => hb
      · exact tame_pure ()

theorem aside_harvestAll (rs : List Resolved) : Aside (harvestAll env rs) := by
  intro rx
  induction rs with
  | nil => exact tame_pure ()
  | cons r rs ih =>
    refine Tame.bind ?_ fun _ => ih
    refine (aside_emit _ rx).bind fun _ => Tame.bind (tame_update ?_) fun _ =>
      tame_read_bind fun b => ?_
    · exact fun _ hb => hb
    · split_ifs
      · exact aside_finishResolve env r.stream r.addr rx
      · exact tame_pure ()

theorem aside_harvestResolves : Aside (harvestResolves env) := by
  intro rx
  refine Tame.bind ?_ fun rs => aside_harvestAll env rs rx
  exact tame_read_bind fun b => (aside_emit _ rx).bind fun _ => tame_pure _

theorem aside_updateEpoll : SessAside (updateEpoll env id) := by
  intro rx
  refine tame_read_bind fun o => ?_
  dsimp only
  split_ifs
  · exact ((aside_epollCtl env id _ _).onBackend rx).bind fun _ => sessAside_onSession _ rx
  · exact tame_pure ()

theorem aside_runConnecting : SessAside (runConnecting env id) := by
  intro rx
  have hpoll : Tame (fun o : Serviced => o.backend.rxParse = rx) EgressError.IsIo
      (pollConnect env id) :=
    tame_read_bind fun o => ((aside_emit _).onBackend rx).bind fun _ => tame_pure _
  refine hpoll.bind fun res => ?_
  cases res with
  | pending => exact tame_pure _
  | connected =>
    refine Tame.bind ?_ fun _ => (aside_updateEpoll env id rx).bind fun _ => tame_pure _
    refine ((aside_enqueue (encode_ok_of_small [] (by simp) (by simp))).onBackend rx).bind fun _ =>
      (sessAside_onSession _ rx).bind fun _ => tame_read_bind fun o => ?_
    split_ifs
    · exact ((aside_emit _).onBackend rx).bind fun _ => sessAside_onSession _ rx
    · exact tame_pure ()
  | failed reason =>
    refine Aside.onBackend (fun rx => ?_) rx
    refine (aside_emit _ rx).bind fun _ => Tame.bind (tame_update ?_) fun _ =>
      (aside_enqueue (encode_ok_of_small [] (by simp) (by simp)) rx).bind fun _ => tame_pure _
    exact fun _ hb => hb

theorem aside_flushToSocket (fuel : Nat) : SessAside (flushToSocket env id fuel) := by
  intro rx
  induction fuel with
  | zero => exact tame_pure _
  | succ fuel ih =>
    refine tame_read_bind fun o => ?_
    split_ifs
    · exact tame_pure _
    · have hwrite : Aside (writeSocket env id o.sess.toSocket) :=
        fun rx => tame_read_bind fun b => (aside_emit _ rx).bind fun _ => tame_pure _
      refine (hwrite.onBackend rx).bind fun accepted => ?_
      split
      · exact tame_pure _
      · refine (sessAside_onSession _ rx).bind fun _ => Tame.bind ?_ fun _ => ih
        exact Aside.onBackend (fun rx => tame_update fun _ hb => hb) rx
      · exact tame_pure _

theorem aside_fillToGuest (fuel : Nat) : SessAside (fillToGuest env id fuel) := by
  intro rx
  induction fuel with
  | zero => exact tame_pure _
  | succ fuel ih =>
    refine tame_read_bind fun o => ?_
    split_ifs
    · have hread (want : Nat) : Aside (readSocket env id want) :=
        fun rx => tame_read_bind fun b => (aside_emit _ rx).bind fun _ => tame_pure _
      refine ((hread _).onBackend rx).bind fun res => ?_
      split
      · exact (sessAside_onSession _ rx).bind fun _ => tame_pure _
      · exact (sessAside_onSession _ rx).bind fun _ => ih
      · exact tame_pure _
      · exact tame_pure _
    · exact tame_pure _

theorem aside_frameToGuest (fuel : Nat) : SessAside (frameToGuest id fuel) := by
  intro rx
  induction fuel with
  | zero => exact tame_pure _
  | succ fuel ih =>
    refine tame_read_bind fun o => ?_
    split_ifs
    · refine ((aside_enqueue (encode_take_ok _ (min_le_right _ _))).onBackend rx).bind fun _ =>
        (sessAside_onSession _ rx).bind fun _ => Tame.bind ?_ fun _ => ih
      exact Aside.onBackend (fun rx => tame_update fun _ hb => hb) rx
    · exact tame_pure _

theorem aside_abortOpen : SessAside (onBackend (abortOpen id)) := by
  refine Aside.onBackend fun rx => ?_
  exact (aside_emit _ rx).bind fun _ =>
    (aside_enqueue (encode_ok_of_small [] (by simp) (by simp)) rx).bind fun _ => tame_pure _

theorem aside_announceClose : SessAside (announceClose id) := by
  intro rx
  refine tame_read_bind fun o => ?_
  split_ifs
  · exact ((aside_enqueue (encode_ok_of_small [] (by simp) (by simp))).onBackend rx).bind fun _ =>
      sessAside_onSession _ rx
  · exact tame_pure ()

theorem aside_retire : SessAside (retire id) := by
  intro rx
  refine tame_read_bind fun o => ?_
  split_ifs
  · exact ((aside_emit _).onBackend rx).bind fun _ => tame_pure _
  · exact tame_pure _

theorem aside_receive : SessAside (receive env id) := by
  intro rx
  refine tame_read_bind fun o => ?_
  split_ifs
  · exact tame_pure _
  · exact aside_fillToGuest env id _ rx

theorem aside_runOpenIo : SessAside (runOpenIo env id) := by
  intro rx
  have htransmit : Tame (fun o : Serviced => o.backend.rxParse = rx) EgressError.IsIo
      (transmit env id) := tame_read_bind fun o => aside_flushToSocket env id _ rx
  have hdeliver : Tame (fun o : Serviced => o.backend.rxParse = rx) EgressError.IsIo
      (deliver id) := tame_read_bind fun o => aside_frameToGuest id _ rx
  refine htransmit.bind fun written => ?_
  split_ifs
  · refine (aside_receive env id rx).bind fun received => ?_
    split_ifs
    · exact hdeliver.bind fun _ => (aside_announceClose id rx).bind fun _ =>
        (aside_updateEpoll env id rx).bind fun _ => aside_retire id rx
    · exact aside_abortOpen id rx
  · exact aside_abortOpen id rx

theorem aside_runSession : SessAside (runSession env id) := by
  intro rx
  refine tame_read_bind fun o => ?_
  cases o.sess.state with
  | resolving => exact tame_pure _
  | connecting => exact aside_runConnecting env id rx
  | established | halfClosed => exact aside_runOpenIo env id rx

theorem aside_serviceOne : Aside (serviceOne env id) := by
  intro rx b hb
  simp only [Eff.run, serviceOne]
  cases hs : b.sessions[id]? with
  | none => exact ⟨hb, by simp⟩
  | some s =>
    have hrun := aside_runSession env id rx ⟨{ b with sessions := b.sessions.erase id }, s⟩ hb
    revert hrun
    simp only [Eff.run]
    rcases runSession env id ⟨{ b with sessions := b.sessions.erase id }, s⟩ with ⟨res, o⟩
    rintro ⟨hrx, herror⟩
    rcases res with e | d
    · exact ⟨hrx, fun e' he' => herror e' (by simpa using he')⟩
    · cases d with
      | keep | remove => exact ⟨hrx, by simp⟩

theorem aside_serviceAll (ids : List StreamId) : Aside (serviceAll env ids) := by
  intro rx
  induction ids with
  | nil => exact tame_pure ()
  | cons id ids ih => exact (aside_serviceOne env id rx).bind fun _ => ih

end Env

theorem aside_pumpFrames (env : Env) (frames : List OwnedFrame) :
    Aside (pumpFrames env frames) := by
  intro rx
  exact (aside_handleFrames frames rx).bind fun _ => (aside_harvestResolves env rx).bind fun _ =>
    tame_read_bind fun b => aside_serviceAll env _ rx

/-! ## Runs of pumps -/

/-- Pump chunk after chunk, up to one that loses the framing; the error it reports. -/
def pumps : List (Env × Bytes) → Backend → Option EgressCodecError × Backend
  | [], b => (none, b)
  | (env, chunk) :: run, b =>
    match (pump env chunk).run b with
    | (.error (.frame e), b') => (some e, b')
    | (_, b') => pumps run b'

theorem pump_parses {b : Backend} {env : Env} {chunk : Bytes}
    (h : (codec.parseAll (b.rxParse ++ chunk)).error = none) :
    ∃ res b', (pump env chunk).run b = (res, b') ∧ (∀ e, res = .error e → e.IsIo) ∧
      b'.rxParse = (codec.parseAll (b.rxParse ++ chunk)).rest ∧
      recvs b'.hist = recvs b.hist ++ (codec.parseAll (b.rxParse ++ chunk)).tokens.map toOwned := by
  generalize hparsed : codec.parseAll (b.rxParse ++ chunk) = r at h ⊢
  have hsplit : parseFrames ((b.rxParse ++ chunk).length + 1) (b.rxParse ++ chunk) =
      .ok (r.tokens.map toOwned, r.rest) := by
    rw [parseFrames_eq, Decoder.parse_eq_parseAll (Nat.lt_succ_self _), hparsed, h]
  obtain ⟨hrx, herror⟩ := aside_pumpFrames env (r.tokens.map toOwned) r.rest
    { b with rxParse := r.rest } rfl
  obtain ⟨res, b', ts, hs, hrun, hadv, -⟩ := @pumpFrames_advance False { b with rxParse := r.rest }
    env False.elim False.elim (r.tokens.map toOwned)
  rw [hrun] at hrx herror
  obtain ⟨es, hhist, -, hrecv, -⟩ := hadv.grows
  refine ⟨res, b', ?_, herror, hrx, ?_⟩
  · rw [run_pump, hsplit]
    exact hrun
  · rw [hhist, recvs_append, hrecv]

theorem pump_loses {b : Backend} {env : Env} {chunk : Bytes} {e : EgressCodecError}
    (h : (codec.parseAll (b.rxParse ++ chunk)).error = some e) :
    (pump env chunk).run b = (.error (.frame e), { b with rxParse := [] }) := by
  rw [run_pump, parseFrames_eq, Decoder.parse_eq_parseAll (Nat.lt_succ_self _), h]

theorem pumps_feed (run : List (Env × Bytes)) (b : Backend) (base : List OwnedFrame)
    (s : Parsed UInt8 EgressCodecError EgressFrame) (hs : s.error = none)
    (hrest : b.rxParse = s.rest) (hrecv : recvs b.hist = base ++ s.tokens.map toOwned) :
    match ((run.map Prod.snd).foldl codec.feed s).error with
    | none => ∃ b', pumps run b = (none, b') ∧
        b'.rxParse = ((run.map Prod.snd).foldl codec.feed s).rest ∧
        recvs b'.hist = base ++ ((run.map Prod.snd).foldl codec.feed s).tokens.map toOwned
    | some e => (pumps run b).1 = some e := by
  induction run generalizing b s with
  | nil =>
    simp only [List.map_nil, List.foldl_nil, hs]
    exact ⟨b, rfl, hrest, hrecv⟩
  | cons turn run ih =>
    obtain ⟨env, chunk⟩ := turn
    have hfeed : codec.feed s chunk = (codec.parseAll (b.rxParse ++ chunk)).after s.tokens := by
      rw [Decoder.feed, hs, hrest]
    rw [List.map_cons, List.foldl_cons]
    cases herr : (codec.parseAll (b.rxParse ++ chunk)).error with
    | none =>
      obtain ⟨res, b', hrun, hio, hrx, hrecv'⟩ := @pump_parses b env chunk herr
      -- an error of the sockets does not stop the parsing
      have hpumps : pumps ((env, chunk) :: run) b = pumps run b' := by
        rw [pumps, hrun]
        rcases res with e | u
        · obtain ⟨what, rfl⟩ := hio e rfl
          rfl
        · rfl
      rw [hpumps]
      refine ih b' (codec.feed s chunk) ?_ ?_ ?_
      · rw [hfeed]
        exact herr
      · rw [hrx, hfeed]
        rfl
      · rw [hrecv', hrecv, hfeed, Parsed.after, List.map_append, List.append_assoc]
    | some e =>
      have hlost : (codec.feed s chunk).error = some e := by
        rw [hfeed]
        exact herr
      rw [(Decoder.foldl_feed_of_error hlost _).1]
      simp only [pumps, pump_loses herr]

end Tdvmm.Egress
