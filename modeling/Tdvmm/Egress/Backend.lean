import Mathlib.Algebra.Ring.Nat
import Std.Data.ExtTreeMap
import Std.Data.ExtTreeSet
import Tdvmm.Lib.Eff
import Tdvmm.Lib.Utf8
import Tdvmm.Proto.Egress

/-!
# Egress.Backend — the host-side egress backend

The session table behind `--allow-egress` (`src/egress.rs`): the backend parses the mux frames
the guest wrote, resolves and connects on its behalf, moves bytes between sockets and frames,
and tears streams down. `pump` is its one effects function.

The connector (DNS and sockets) is the outside world. Every call to it is recorded in the
history `hist` together with its answer, and an `Env` answers a call by an arbitrary function of
the history so far; since the history grows with every call, this is every possible behaviour of
the connector.
-/

namespace Tdvmm.Egress

open Lib Tdvmm.Proto

def WINDOW_BYTES : Nat := 32 * 1024

def READ_CHUNK : Nat := 16 * 1024

def TO_SOCKET_CAP : Nat := 256 * 1024

def MAX_SESSIONS : Nat := 256

def USIZE_MAX : Nat := 2 ^ 64 - 1

def EPOLLIN : UInt32 := 1

def EPOLLOUT : UInt32 := 4

abbrev StreamId := UInt16

inductive EgressError where
  | io (what : String)
  | frame (source : EgressCodecError)
deriving DecidableEq, Repr

structure EgressStats where
  sessionsTotal : Nat := 0
  opensFailed : Nat := 0
  bytesUp : Nat := 0
  bytesDown : Nat := 0
  gatedRealNs : Nat := 0
  gatedIntervals : Nat := 0
deriving DecidableEq, Repr

structure SocketAddr where
  ip : Bytes
  port : UInt16
deriving DecidableEq, Repr

/-- A completed resolution; `addr` is `none` when it failed. -/
structure Resolved where
  stream : StreamId
  addr : Option SocketAddr
deriving DecidableEq, Repr

inductive ConnectPoll where
  | pending
  | connected
  | failed (reason : EgressReason)
deriving DecidableEq, Repr

/-- The answer to a non-blocking read: the bytes read (none of them at EOF),
would-block, or an error. -/
inductive ReadRes where
  | got (bytes : Bytes)
  | wouldBlock
  | err
deriving DecidableEq, Repr

inductive WriteRes where
  | accepted (n : Nat)
  | wouldBlock
  | err
deriving DecidableEq, Repr

inductive SessionState where
  | resolving
  | connecting
  | established
  | halfClosed
deriving DecidableEq, Repr

structure Session where
  state : SessionState
  toSocket : Bytes
  toGuest : Bytes
  toGuestCredit : Nat
  guestWriteClosed : Bool
  hostReadClosed : Bool
  hostCloseSent : Bool
  epollMask : UInt32
deriving DecidableEq, Repr

namespace Session

def newResolving : Session where
  state := .resolving
  toSocket := []
  toGuest := []
  toGuestCredit := WINDOW_BYTES
  guestWriteClosed := false
  hostReadClosed := false
  hostCloseSent := false
  epollMask := 0

def isDrained (s : Session) : Bool :=
  s.guestWriteClosed && s.hostReadClosed && s.toSocket.isEmpty && s.toGuest.isEmpty

def wantMask (s : Session) : UInt32 :=
  (if !s.hostReadClosed && s.toGuest.length < WINDOW_BYTES then EPOLLIN else 0) |||
    (if !s.toSocket.isEmpty then EPOLLOUT else 0)

end Session

inductive OwnedFrame where
  | openTo (stream : StreamId) (port : UInt16) (host : Bytes)
  | data (stream : StreamId) (payload : Bytes)
  | close (stream : StreamId)
  | rst (stream : StreamId)
  | window (stream : StreamId) (credit : UInt32)
  | unexpected (stream : StreamId)
deriving DecidableEq, Repr

namespace OwnedFrame

def stream : OwnedFrame → StreamId
  | .openTo stream _ _ => stream
  | .data stream _ => stream
  | .close stream => stream
  | .rst stream => stream
  | .window stream _ => stream
  | .unexpected stream => stream

end OwnedFrame

/-- `to_owned`: `OPEN_OK` and `OPEN_ERR` are host→guest only, so receiving one
from the guest is flagged. -/
def toOwned : EgressFrame → OwnedFrame
  | .openTo stream port host => .openTo stream port host
  | .data stream payload => .data stream payload
  | .close stream => .close stream
  | .rst stream => .rst stream
  | .window stream credit => .window stream credit
  | .openOk stream => .unexpected stream
  | .openErr stream _ => .unexpected stream

inductive Disposition where
  | keep
  | remove
deriving DecidableEq, Repr

/-! ## The history and the outside world -/

/-- One entry of the history. -/
inductive Ev where
  /-- A guest frame is handled; its stream's session and its membership in the
  resolving set before that. -/
  | recv (frame : OwnedFrame) (pre : Option Session) (resolving : Bool)
  /-- An `OPEN` is accepted: a session begins. -/
  | opened (stream : StreamId)
  /-- `start_resolve`. -/
  | startResolve (stream : StreamId) (host : Bytes) (port : UInt16)
  /-- `take_resolved` and its answers. -/
  | takeResolved (answers : List Resolved)
  /-- One answer of `take_resolved` is acted on. -/
  | harvest (answer : Resolved)
  /-- `start_connect` and whether it succeeded. -/
  | startConnect (stream : StreamId) (addr : SocketAddr) (ok : Bool)
  /-- `poll_connect`, with the session it is called for. -/
  | pollConnect (stream : StreamId) (pre : Session) (res : ConnectPoll)
  /-- `read`, with the bytes it put into the slice it was given. -/
  | read (stream : StreamId) (res : ReadRes)
  /-- `write`, with the bytes it accepted; `none` is an error. -/
  | write (stream : StreamId) (accepted : Option Bytes)
  /-- `shutdown_write`. -/
  | shutdownWrite (stream : StreamId)
  /-- `close`. -/
  | close (stream : StreamId)
  /-- An epoll registration or change for the stream's fd, if it has one, with the interest asked
  for. -/
  | epollCtl (stream : StreamId) (mask : UInt32) (ok : Bool)
  /-- A frame is enqueued toward the guest. -/
  | sent (frame : EgressFrame)
  /-- The session of the stream has been removed. -/
  | removed (stream : StreamId)
deriving DecidableEq, Repr

/-- The answers of the connector and of epoll, as functions of the history. -/
structure Env where
  takeResolved : List Ev → List Resolved
  startConnect : List Ev → StreamId → SocketAddr → Bool
  pollConnect : List Ev → StreamId → ConnectPoll
  read : List Ev → StreamId → Nat → ReadRes
  write : List Ev → StreamId → Bytes → WriteRes
  /-- The stream has no fd, or the epoll call on it succeeded. -/
  epollCtl : List Ev → StreamId → Bool

structure Backend where
  sessions : Std.ExtTreeMap StreamId Session
  resolving : Std.ExtTreeSet StreamId
  rxParse : Bytes
  txPending : Bytes
  stats : EgressStats
  hist : List Ev

namespace Backend

def init : Backend where
  sessions := ∅
  resolving := ∅
  rxParse := []
  txPending := []
  stats := {}
  hist := []

def isQuiescent (b : Backend) : Bool :=
  b.sessions.isEmpty && b.resolving.isEmpty && b.rxParse.isEmpty && b.txPending.isEmpty

def drainToGuest (b : Backend) (max : Nat) : Bytes × Backend :=
  (b.txPending.take max, { b with txPending := b.txPending.drop max })

def unshiftToGuest (b : Backend) (bytes : Bytes) : Backend :=
  { b with txPending := bytes ++ b.txPending }

def hasFramesForGuest (b : Backend) : Bool := !b.txPending.isEmpty

/-- Record one real-rate interval the phase gate imposed (saturating `u64`). -/
def noteGatedInterval (b : Backend) (realNs : Nat) : Backend :=
  { b with stats := { b.stats with
      gatedRealNs := min (b.stats.gatedRealNs + realNs) (2 ^ 64 - 1)
      gatedIntervals := min (b.stats.gatedIntervals + 1) (2 ^ 64 - 1) } }

def log (b : Backend) (e : Ev) : Backend := { b with hist := b.hist ++ [e] }

end Backend

abbrev EgressM := Eff EgressError Backend

/-- A backend and the session that `service_sessions` has taken out of its
table. -/
structure Serviced where
  backend : Backend
  sess : Session

abbrev SessM := Eff EgressError Serviced

/-- A backend method, run beside a session that is taken out. -/
def onBackend {α : Type} (m : EgressM α) : SessM α := fun o =>
  let r := m.run o.backend
  (r.1, { o with backend := r.2 })

def onSession (f : Session → Session) : SessM Unit :=
  Eff.update fun o => { o with sess := f o.sess }

/-! ## Frames toward the guest and teardown -/

def emit (e : Ev) : EgressM Unit := Eff.update fun b => b.log e

def enqueue (frame : EgressFrame) : EgressM Unit :=
  match encode frame [] with
  | (.ok (), buf) =>
    Eff.update fun b => { b with txPending := b.txPending ++ buf }.log (.sent frame)
  | (.error e, _) => Eff.fail (.frame e)

def detachSocket (stream : StreamId) : EgressM Unit := emit (.close stream)

/-- The end of a session is recorded when there was one. -/
def endSession (had : Bool) (stream : StreamId) : EgressM Unit :=
  if had then emit (.removed stream) else pure ()

/-- Reset a stream: drop the socket, remove the session, tell the guest. -/
def resetStream (stream : StreamId) : EgressM Unit := do
  let had := (← Eff.read).sessions.contains stream
  detachSocket stream
  Eff.update fun b => { b with sessions := b.sessions.erase stream }
  enqueue (.rst stream)
  endSession had stream

/-- The reset of a session that is already taken out of the table. -/
def abortOpen (id : StreamId) : EgressM Disposition := do
  detachSocket id
  enqueue (.rst id)
  pure .remove

def failOpen (stream : StreamId) (reason : EgressReason) : EgressM Unit := do
  let had := (← Eff.read).sessions.contains stream
  detachSocket stream
  Eff.update fun b => { b with
    sessions := b.sessions.erase stream
    stats := { b.stats with opensFailed := b.stats.opensFailed + 1 } }
  enqueue (.openErr stream reason)
  endSession had stream

/-- A guest `RST`: drop the socket and the session with no frame back. -/
def dropStream (stream : StreamId) : EgressM Unit := do
  let had := (← Eff.read).sessions.contains stream
  detachSocket stream
  Eff.update fun b => { b with sessions := b.sessions.erase stream }
  endSession had stream

/-! ## Guest frames -/

def handleOpen (stream : StreamId) (port : UInt16) (host : Bytes) : EgressM Unit := do
  let b ← Eff.read
  if b.sessions.contains stream || b.resolving.contains stream then
    resetStream stream
  else if b.sessions.size ≥ MAX_SESSIONS then
    failOpen stream .streamLimit
  else if host.isEmpty || port == 0 then
    failOpen stream .protocolError
  else
    emit (.opened stream)
    emit (.startResolve stream (utf8Lossy host) port)
    Eff.update fun b => { b with
      resolving := b.resolving.insert stream
      stats := { b.stats with sessionsTotal := b.stats.sessionsTotal + 1 }
      sessions := b.sessions.insert stream Session.newResolving }

/-- A `DATA` frame from the guest: buffered, or the stream is reset because
there is none, it was half-closed, or the buffer overran. -/
def handleData (stream : StreamId) (payload : Bytes) : EgressM Unit := do
  let b ← Eff.read
  match b.sessions[stream]? with
  | some s =>
    if !s.guestWriteClosed then
      let s' := { s with toSocket := s.toSocket ++ payload }
      Eff.update fun b => { b with sessions := b.sessions.insert stream s' }
      if s'.toSocket.length > TO_SOCKET_CAP then resetStream stream else pure ()
    else
      resetStream stream
  | none => resetStream stream

/-- A `CLOSE` from the guest: the write side of the socket is shut down at
once, whatever is still buffered for it. -/
def handleClose (stream : StreamId) : EgressM Unit := do
  let b ← Eff.read
  match b.sessions[stream]? with
  | some s =>
    let s' := { s with
      guestWriteClosed := true
      state := if s.state = .established then .halfClosed else s.state }
    Eff.update fun b => { b with sessions := b.sessions.insert stream s' }
    emit (.shutdownWrite stream)
  | none => pure ()

/-- A `WINDOW` grant (saturating `usize`). -/
def handleWindow (stream : StreamId) (credit : UInt32) : EgressM Unit := do
  let b ← Eff.read
  match b.sessions[stream]? with
  | some s =>
    let s' := { s with toGuestCredit := min (s.toGuestCredit + credit.toNat) USIZE_MAX }
    Eff.update fun b => { b with sessions := b.sessions.insert stream s' }
  | none => pure ()

def handleFrame (frame : OwnedFrame) : EgressM Unit := do
  let b ← Eff.read
  emit (.recv frame b.sessions[frame.stream]? (b.resolving.contains frame.stream))
  match frame with
  | .openTo stream port host => handleOpen stream port host
  | .data stream payload => handleData stream payload
  | .close stream => handleClose stream
  | .rst stream => dropStream stream
  | .window stream credit => handleWindow stream credit
  | .unexpected stream => resetStream stream

def handleFrames : List OwnedFrame → EgressM Unit
  | [] => pure ()
  | f :: rest => do
    handleFrame f
    handleFrames rest

/-- Split every whole frame off the front of a buffer: the frames and the bytes
left. A frame takes six bytes at least, so the length of the buffer is fuel
enough (`parseFrames_fuel`). -/
def parseFrames : Nat → Bytes → Except EgressCodecError (List OwnedFrame × Bytes)
  | 0, buf => .ok ([], buf)
  | fuel + 1, buf =>
    match decode buf with
    | .ok (some d) =>
      match parseFrames fuel (buf.drop d.consumed) with
      | .ok (frames, rest) => .ok (toOwned d.frame :: frames, rest)
      | .error e => .error e
    | .ok none => .ok ([], buf)
    | .error e => .error e

/-- Absorb new guest bytes, split off the whole frames and act on each. On lost
framing nothing is acted on and the unparsed bytes are dropped. -/
def ingestAndParse (fromGuest : Bytes) : EgressM Unit := do
  let b ← Eff.read
  let buf := b.rxParse ++ fromGuest
  match parseFrames (buf.length + 1) buf with
  | .ok (owned, rest) =>
    Eff.update fun b => { b with rxParse := rest }
    handleFrames owned
  | .error e =>
    Eff.update fun b => { b with rxParse := [] }
    Eff.fail (.frame e)

/-! ## Resolutions -/

def takeResolved (env : Env) : EgressM (List Resolved) := do
  let b ← Eff.read
  let rs := env.takeResolved b.hist
  emit (.takeResolved rs)
  pure rs

def startConnect (env : Env) (stream : StreamId) (addr : SocketAddr) : EgressM Bool := do
  let b ← Eff.read
  let ok := env.startConnect b.hist stream addr
  emit (.startConnect stream addr ok)
  pure ok

def epollCtl (env : Env) (stream : StreamId) (mask : UInt32) (what : String) : EgressM Unit := do
  let b ← Eff.read
  let ok := env.epollCtl b.hist stream
  emit (.epollCtl stream mask ok)
  if ok then pure () else Eff.fail (.io what)

/-- `start_connect` succeeded: register the fd and go to `Connecting`. -/
def beginConnecting (env : Env) (stream : StreamId) : EgressM Unit := do
  let mask := EPOLLIN ||| EPOLLOUT
  epollCtl env stream mask "registering egress socket"
  let b ← Eff.read
  match b.sessions[stream]? with
  | some s =>
    let s' := { s with state := .connecting, epollMask := mask }
    Eff.update fun b => { b with sessions := b.sessions.insert stream s' }
  | none => pure ()

def finishResolve (env : Env) (stream : StreamId) : Option SocketAddr → EgressM Unit
  | none => failOpen stream .resolveFailed
  | some addr => do
    let ok ← startConnect env stream addr
    if ok then beginConnecting env stream else failOpen stream .unreachable

/-- Act on one finished resolution. An answer whose session is gone, or no
longer resolving, only leaves the resolving set. -/
def harvestOne (env : Env) (r : Resolved) : EgressM Unit := do
  emit (.harvest r)
  Eff.update fun b => { b with resolving := b.resolving.erase r.stream }
  let b ← Eff.read
  if b.sessions[r.stream]?.map Session.state = some .resolving then
    finishResolve env r.stream r.addr
  else
    pure ()

def harvestAll (env : Env) : List Resolved → EgressM Unit
  | [] => pure ()
  | r :: rest => do
    harvestOne env r
    harvestAll env rest

def harvestResolves (env : Env) : EgressM Unit := do
  let rs ← takeResolved env
  harvestAll env rs

/-! ## Sessions -/

def updateEpoll (env : Env) (id : StreamId) : SessM Unit := do
  let o ← Eff.read
  let mask := o.sess.wantMask
  if mask ≠ o.sess.epollMask then
    onBackend (epollCtl env id mask "updating egress epoll interest")
    onSession fun s => { s with epollMask := mask }
  else
    pure ()

def pollConnect (env : Env) (id : StreamId) : SessM ConnectPoll := do
  let o ← Eff.read
  let res := env.pollConnect o.backend.hist id
  onBackend (emit (.pollConnect id o.sess res))
  pure res

/-- The connect has completed: tell the guest, and apply a `CLOSE` that came
before the socket existed. -/
def finishConnect (id : StreamId) : SessM Unit := do
  onBackend (enqueue (.openOk id))
  onSession fun s => { s with state := .established }
  let o ← Eff.read
  if o.sess.guestWriteClosed then
    onBackend (emit (.shutdownWrite id))
    onSession fun s => { s with state := .halfClosed }
  else
    pure ()

def runConnecting (env : Env) (id : StreamId) : SessM Disposition := do
  let res ← pollConnect env id
  match res with
  | .pending => pure .keep
  | .connected => do
    finishConnect id
    updateEpoll env id
    pure .keep
  | .failed reason => onBackend do
      detachSocket id
      Eff.update fun b =>
        { b with stats := { b.stats with opensFailed := b.stats.opensFailed + 1 } }
      enqueue (.openErr id reason)
      pure .remove

/-- The bytes a write accepts of those it was handed; an over-report is clamped
and an error is `none`. -/
def WriteRes.acceptedOf (front : Bytes) : WriteRes → Option Bytes
  | .accepted n => some (front.take n)
  | .wouldBlock => some []
  | .err => none

/-- Hand bytes to the socket; the bytes it accepted, `none` on an error. -/
def writeSocket (env : Env) (id : StreamId) (front : Bytes) : EgressM (Option Bytes) := do
  let b ← Eff.read
  let accepted := (env.write b.hist id front).acceptedOf front
  emit (.write id accepted)
  pure accepted

/-- The bytes a read delivers into a slice of length `want`. -/
def ReadRes.clampTo (want : Nat) : ReadRes → ReadRes
  | .got bytes => .got (bytes.take want)
  | .wouldBlock => .wouldBlock
  | .err => .err

def readSocket (env : Env) (id : StreamId) (want : Nat) : EgressM ReadRes := do
  let b ← Eff.read
  let res := (env.read b.hist id want).clampTo want
  emit (.read id res)
  pure res

/-- Flush guest→host bytes to the socket; `false` when a write failed. Every
round but the last takes a byte at least, so the length of the buffer is fuel
enough. -/
def flushToSocket (env : Env) (id : StreamId) : Nat → SessM Bool
  | 0 => pure true
  | fuel + 1 => do
    let o ← Eff.read
    if o.sess.toSocket.isEmpty then
      pure true
    else
      let accepted ← onBackend (writeSocket env id o.sess.toSocket)
      match accepted with
      | some [] => pure true
      | some bytes => do
        onSession fun s => { s with toSocket := s.toSocket.drop bytes.length }
        onBackend (Eff.update fun b => { b with
          stats := { b.stats with bytesUp := b.stats.bytesUp + bytes.length } })
        flushToSocket env id fuel
      | none => pure false

/-- Read host→guest bytes into the window buffer; `false` when a read failed.
Every round but the last adds a byte at least, so the room in the window is
fuel enough. -/
def fillToGuest (env : Env) (id : StreamId) : Nat → SessM Bool
  | 0 => pure true
  | fuel + 1 => do
    let o ← Eff.read
    if o.sess.toGuest.length < WINDOW_BYTES then
      let want := min (WINDOW_BYTES - o.sess.toGuest.length) READ_CHUNK
      let res ← onBackend (readSocket env id want)
      match res with
      | .got [] => do
        -- EOF: the CLOSE must follow the last DATA, so it is not framed here.
        onSession fun s => { s with
          hostReadClosed := true
          state := if s.state = .established then .halfClosed else s.state }
        pure true
      | .got bytes => do
        onSession fun s => { s with toGuest := s.toGuest ++ bytes }
        fillToGuest env id fuel
      | .wouldBlock => pure true
      | .err => pure false
    else
      pure true

/-- Frame the window buffer toward the guest, bounded by the remaining credit.
Every round takes a byte at least. -/
def frameToGuest (id : StreamId) : Nat → SessM Unit
  | 0 => pure ()
  | fuel + 1 => do
    let o ← Eff.read
    if !o.sess.toGuest.isEmpty && o.sess.toGuestCredit > 0 then
      let take := min (min o.sess.toGuest.length o.sess.toGuestCredit) EGRESS_MAX_PAYLOAD
      onBackend (enqueue (.data id (o.sess.toGuest.take take)))
      onSession fun s => { s with
        toGuestCredit := s.toGuestCredit - take
        toGuest := s.toGuest.drop take }
      onBackend (Eff.update fun b => { b with
        stats := { b.stats with bytesDown := b.stats.bytesDown + take } })
      frameToGuest id fuel
    else
      pure ()

/-- Announce the read-side EOF once everything read has been framed. -/
def announceClose (id : StreamId) : SessM Unit := do
  let o ← Eff.read
  if o.sess.hostReadClosed && o.sess.toGuest.isEmpty && !o.sess.hostCloseSent then
    onBackend (enqueue (.close id))
    onSession fun s => { s with hostCloseSent := true }
  else
    pure ()

/-- The end of `run_open_io`: a session is removed only once both directions are
closed and both buffers drained. -/
def retire (id : StreamId) : SessM Disposition := do
  let o ← Eff.read
  if o.sess.isDrained then
    onBackend (detachSocket id)
    pure .remove
  else
    pure .keep

/-- The read side of `run_open_io`; `false` when a read failed. -/
def receive (env : Env) (id : StreamId) : SessM Bool := do
  let o ← Eff.read
  if o.sess.hostReadClosed then
    pure true
  else
    fillToGuest env id (WINDOW_BYTES - o.sess.toGuest.length)

/-- The write side of `run_open_io`; `false` when a write failed. -/
def transmit (env : Env) (id : StreamId) : SessM Bool := do
  let o ← Eff.read
  flushToSocket env id o.sess.toSocket.length

def deliver (id : StreamId) : SessM Unit := do
  let o ← Eff.read
  frameToGuest id o.sess.toGuest.length

def runOpenIo (env : Env) (id : StreamId) : SessM Disposition := do
  let written ← transmit env id
  if written then
    let received ← receive env id
    if received then
      deliver id
      announceClose id
      updateEpoll env id
      retire id
    else
      onBackend (abortOpen id)
  else
    onBackend (abortOpen id)

def runSession (env : Env) (id : StreamId) : SessM Disposition := do
  let o ← Eff.read
  match o.sess.state with
  | .resolving => pure .keep
  | .connecting => runConnecting env id
  | .established => runOpenIo env id
  | .halfClosed => runOpenIo env id

def Serviced.putBack (o : Serviced) (id : StreamId) : Backend :=
  { o.backend with sessions := o.backend.sessions.insert id o.sess }

/-- Take a session out of the table, service it, and put it back unless it is
done. -/
def serviceOne (env : Env) (id : StreamId) : EgressM Unit := fun b =>
  match b.sessions[id]? with
  | none => (.ok (), b)
  | some s =>
    match (runSession env id).run ⟨{ b with sessions := b.sessions.erase id }, s⟩ with
    | (.ok .keep, o) => (.ok (), o.putBack id)
    | (.ok .remove, o) => (.ok (), o.backend.log (.removed id))
    | (.error e, o) => (.error e, o.putBack id)

def serviceAll (env : Env) : List StreamId → EgressM Unit
  | [] => pure ()
  | id :: rest => do
    serviceOne env id
    serviceAll env rest

def serviceSessions (env : Env) : EgressM Unit := do
  let b ← Eff.read
  serviceAll env b.sessions.keys

/-- What a pump does once the whole frames have been split off. -/
def pumpFrames (env : Env) (frames : List OwnedFrame) : EgressM Unit := do
  handleFrames frames
  harvestResolves env
  serviceSessions env

/-- The one effects function of the backend. -/
def pump (env : Env) (fromGuest : Bytes) : EgressM Unit := do
  ingestAndParse fromGuest
  harvestResolves env
  serviceSessions env

/-- A fast-forward jump is legal iff egress is absent or quiescent. -/
def ffJumpAllowed (egress : Option Backend) : Bool :=
  match egress with
  | none => true
  | some backend => backend.isQuiescent

end Tdvmm.Egress
