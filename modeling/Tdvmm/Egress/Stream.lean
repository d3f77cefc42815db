import Tdvmm.Egress.Backend
import Tdvmm.Lib.Trace

/-!
# Egress.Stream — one stream of the backend, and what a step can do to it

The backend serves every stream id by itself: nothing it does for one id looks at the session of
another. `Backend.view` is the part of the backend that one id sees, and `StreamStep` lists once
what can happen to that part; each constructor is one atomic effect of the source with the
events it records.

`calm` is the assumption that epoll calls succeed and that the connector answers no resolve
twice; the steps it excludes carry it as a premise.
-/

namespace Tdvmm.Egress

open Lib Tdvmm.Proto

/-! ## What a history says -/

def Ev.stream? : Ev → Option StreamId
  | .recv frame _ _ => some frame.stream
  | .opened stream => some stream
  | .startResolve stream _ _ => some stream
  | .takeResolved _ => none
  | .harvest answer => some answer.stream
  | .startConnect stream _ _ => some stream
  | .pollConnect stream _ _ => some stream
  | .read stream _ => some stream
  | .write stream _ => some stream
  | .shutdownWrite stream => some stream
  | .close stream => some stream
  | .epollCtl stream _ _ => some stream
  | .sent frame => some frame.stream
  | .removed stream => some stream

def about (id : StreamId) (h : List Ev) : List Ev := h.filter fun e => e.stream? == some id

def recvs (h : List Ev) : List OwnedFrame :=
  h.filterMap fun
    | .recv frame _ _ => some frame
    | _ => none

@[simp] def Ev.frames : Ev → List EgressFrame
  | .sent frame => [frame]
  | _ => []

def sents (h : List Ev) : List EgressFrame := h.flatMap Ev.frames

def wire (h : List Ev) : Bytes := (sents h).flatMap fun frame => (encode frame []).2

@[simp] def Ev.guestData : Ev → Bytes
  | .recv (.data _ payload) _ _ => payload
  | _ => []

@[simp] def Ev.written : Ev → Bytes
  | .write _ (some bytes) => bytes
  | _ => []

@[simp] def Ev.readBytes : Ev → Bytes
  | .read _ (.got bytes) => bytes
  | _ => []

def guestData (h : List Ev) : Bytes := h.flatMap Ev.guestData

def bytesWritten (h : List Ev) : Bytes := h.flatMap Ev.written

def bytesRead (h : List Ev) : Bytes := h.flatMap Ev.readBytes

@[simp] def dataOf : EgressFrame → Bytes
  | .data _ payload => payload
  | _ => []

def hostData (frames : List EgressFrame) : Bytes := frames.flatMap dataOf

def Ev.isStart : Ev → Bool
  | .startResolve _ _ _ => true
  | _ => false

def Ev.isHarvest : Ev → Bool
  | .harvest _ => true
  | _ => false

def started (h : List Ev) : Nat := h.countP Ev.isStart

def harvested (h : List Ev) : Nat := h.countP Ev.isHarvest

def takes (h : List Ev) : List Resolved :=
  h.flatMap fun
    | .takeResolved answers => answers
    | _ => []

def harvests (h : List Ev) : List Resolved :=
  h.filterMap fun
    | .harvest answer => some answer
    | _ => none

def answered (id : StreamId) (h : List Ev) : Nat := (takes h).countP fun r => r.stream == id

def trackSocket (held : Bool) : Ev → Bool
  | .startConnect _ _ true => true
  | .close _ => false
  | _ => held

/-- Whether the connector holds a socket, by the history of its stream: a
`start_connect` that succeeded, and no `close` since. -/
def hasSocket (h : List Ev) : Bool := h.foldl trackSocket false

theorem hasSocket_append {h es : List Ev} :
    hasSocket (h ++ es) = es.foldl trackSocket (hasSocket h) :=
  List.foldl_append

def track (life : Option (List Ev)) : Ev → Option (List Ev)
  | .opened _ => some []
  | .removed _ => none
  | e => life.map (· ++ [e])

/-- The session alive at the end of a stream's history: what has happened since
its `OPEN` was accepted. -/
def incarnation (h : List Ev) : Option (List Ev) := h.foldl track none

theorem incarnation_append {h es : List Ev} :
    incarnation (h ++ es) = es.foldl track (incarnation h) :=
  List.foldl_append

/-- Whether a session begins or ends. -/
@[simp] def Ev.isBorder : Ev → Bool
  | .opened _ => true
  | .removed _ => true
  | _ => false

theorem incarnation_extend {h life : List Ev} (es : List Ev) (hlife : incarnation h = some life)
    (hes : ∀ e ∈ es, e.isBorder = false) : incarnation (h ++ es) = some (life ++ es) := by
  -- events inside the life of a session
  rw [incarnation_append, hlife]
  clear hlife
  induction es generalizing life with
  | nil => simp
  | cons e es ih =>
    have he := hes e List.mem_cons_self
    have htrack : track (some life) e = some (life ++ [e]) := by
      cases e <;> simp_all [track]
    rw [List.foldl_cons, htrack, ih fun e' he' => hes e' (List.mem_cons_of_mem _ he')]
    simp

/-! ## The view of one stream -/

/-- What one stream id sees of the backend. -/
structure StreamView where
  sess : Option Session
  resolving : Bool
  hist : List Ev

def Backend.view (b : Backend) (id : StreamId) : StreamView where
  sess := b.sessions[id]?
  resolving := b.resolving.contains id
  hist := about id b.hist

/-- Whether the backend answers a guest frame by resetting the stream. -/
def rejects : OwnedFrame → Option Session → Bool → Bool
  | .openTo _ _ _, sess, resolving => sess.isSome || resolving
  | .data _ payload, some s, _ =>
    s.guestWriteClosed || (s.toSocket ++ payload).length > TO_SOCKET_CAP
  | .data _ _, none, _ => true
  | .unexpected _, _, _ => true
  | _, _, _ => false

def Session.closeGuest (s : Session) : Session :=
  { s with
    guestWriteClosed := true
    state := if s.state = .established then .halfClosed else s.state }

def Session.closeHost (s : Session) : Session :=
  { s with
    hostReadClosed := true
    state := if s.state = .established then .halfClosed else s.state }

def Session.connected (s : Session) : Session :=
  { s with state := if s.guestWriteClosed then .halfClosed else .established }

def Session.isOpen (s : Session) : Prop := s.state = .established ∨ s.state = .halfClosed

/-- The session's end, when there was one. -/
def ended (id : StreamId) (sess : Option Session) : List Ev :=
  if sess.isSome then [.removed id] else []

inductive StreamStep (calm : Prop) (id : StreamId) : StreamView → StreamView → Prop where
  -- guest frames
  | accept {h : List Ev} {port : UInt16} {host : Bytes} (hhost : host ≠ []) (hport : port ≠ 0) :
      StreamStep calm id ⟨none, false, h⟩
        ⟨some .newResolving, true, h ++ [.recv (.openTo id port host) none false, .opened id,
          .startResolve id (utf8Lossy host) port]⟩
  | refuse {h : List Ev} {port : UInt16} {host : Bytes} {reason : EgressReason} :
      StreamStep calm id ⟨none, false, h⟩
        ⟨none, false, h ++ [.recv (.openTo id port host) none false, .close id,
          .sent (.openErr id reason)]⟩
  | reject {sess : Option Session} {r : Bool} {h : List Ev} {f : OwnedFrame} (hid : f.stream = id)
      (hrej : rejects f sess r = true) :
      StreamStep calm id ⟨sess, r, h⟩
        ⟨none, r, h ++ ([.recv f sess r, .close id, .sent (.rst id)] ++ ended id sess)⟩
  | data {s : Session} {r : Bool} {h : List Ev} {payload : Bytes}
      (hrej : rejects (.data id payload) (some s) r = false) :
      StreamStep calm id ⟨some s, r, h⟩
        ⟨some { s with toSocket := s.toSocket ++ payload }, r,
          h ++ [.recv (.data id payload) (some s) r]⟩
  | close {s : Session} {r : Bool} {h : List Ev} :
      StreamStep calm id ⟨some s, r, h⟩
        ⟨some s.closeGuest, r, h ++ [.recv (.close id) (some s) r, .shutdownWrite id]⟩
  | window {s : Session} {r : Bool} {h : List Ev} {credit : UInt32} :
      StreamStep calm id ⟨some s, r, h⟩
        ⟨some { s with toGuestCredit := min (s.toGuestCredit + credit.toNat) USIZE_MAX }, r,
          h ++ [.recv (.window id credit) (some s) r]⟩
  | ignore {r : Bool} {h : List Ev} {f : OwnedFrame}
      (hf : f = .close id ∨ ∃ credit, f = .window id credit) :
      StreamStep calm id ⟨none, r, h⟩ ⟨none, r, h ++ [.recv f none r]⟩
  | drop {sess : Option Session} {r : Bool} {h : List Ev} :
      StreamStep calm id ⟨sess, r, h⟩
        ⟨none, r, h ++ ([.recv (.rst id) sess r, .close id] ++ ended id sess)⟩
  -- finished resolutions
  | stale {sess : Option Session} {r : Bool} {h : List Ev} {addr : Option SocketAddr}
      (hcalm : calm → harvested h < started h) (hst : sess.map Session.state ≠ some .resolving) :
      StreamStep calm id ⟨sess, r, h⟩ ⟨sess, false, h ++ [.harvest ⟨id, addr⟩]⟩
  | unresolved {s : Session} {r : Bool} {h : List Ev}
      (hcalm : calm → harvested h < started h) (hst : s.state = .resolving) :
      StreamStep calm id ⟨some s, r, h⟩
        ⟨none, false, h ++ [.harvest ⟨id, none⟩, .close id, .sent (.openErr id .resolveFailed),
          .removed id]⟩
  | unreachable {s : Session} {r : Bool} {h : List Ev} {addr : SocketAddr}
      (hcalm : calm → harvested h < started h) (hst : s.state = .resolving) :
      StreamStep calm id ⟨some s, r, h⟩
        ⟨none, false, h ++ [.harvest ⟨id, some addr⟩, .startConnect id addr false, .close id,
          .sent (.openErr id .unreachable), .removed id]⟩
  | connect {s : Session} {r : Bool} {h : List Ev} {addr : SocketAddr}
      (hcalm : calm → harvested h < started h) (hst : s.state = .resolving) :
      StreamStep calm id ⟨some s, r, h⟩
        ⟨some { s with state := .connecting, epollMask := EPOLLIN ||| EPOLLOUT }, false,
          h ++ [.harvest ⟨id, some addr⟩, .startConnect id addr true,
            .epollCtl id (EPOLLIN ||| EPOLLOUT) true]⟩
  | connectStuck {s : Session} {r : Bool} {h : List Ev} {addr : SocketAddr} (hcalm : ¬ calm)
      (hst : s.state = .resolving) :
      StreamStep calm id ⟨some s, r, h⟩
        ⟨some s, false,
          h ++ [.harvest ⟨id, some addr⟩, .startConnect id addr true,
            .epollCtl id (EPOLLIN ||| EPOLLOUT) false]⟩
  -- a connect under way
  | pending {s : Session} {r : Bool} {h : List Ev} (hst : s.state = .connecting) :
      StreamStep calm id ⟨some s, r, h⟩ ⟨some s, r, h ++ [.pollConnect id s .pending]⟩
  | connected {s : Session} {r : Bool} {h : List Ev} (hst : s.state = .connecting) :
      StreamStep calm id ⟨some s, r, h⟩
        ⟨some s.connected, r, h ++ ([.pollConnect id s .connected, .sent (.openOk id)] ++
          if s.guestWriteClosed then [.shutdownWrite id] else [])⟩
  | connectFailed {s : Session} {r : Bool} {h : List Ev} {reason : EgressReason}
      (hst : s.state = .connecting) :
      StreamStep calm id ⟨some s, r, h⟩
        ⟨none, r, h ++ [.pollConnect id s (.failed reason), .close id, .sent (.openErr id reason),
          .removed id]⟩
  -- socket I/O
  | write {s : Session} {r : Bool} {h : List Ev} {bytes rest : Bytes} (hopen : s.isOpen)
      (hsplit : s.toSocket = bytes ++ rest) :
      StreamStep calm id ⟨some s, r, h⟩
        ⟨some { s with toSocket := rest }, r, h ++ [.write id (some bytes)]⟩
  | writeFailed {s : Session} {r : Bool} {h : List Ev} (hopen : s.isOpen) :
      StreamStep calm id ⟨some s, r, h⟩
        ⟨none, r, h ++ [.write id none, .close id, .sent (.rst id), .removed id]⟩
  | eof {s : Session} {r : Bool} {h : List Ev} (hopen : s.isOpen)
      (hread : s.hostReadClosed = false) :
      StreamStep calm id ⟨some s, r, h⟩ ⟨some s.closeHost, r, h ++ [.read id (.got [])]⟩
  | read {s : Session} {r : Bool} {h : List Ev} {bytes : Bytes} (hopen : s.isOpen)
      (hread : s.hostReadClosed = false) :
      StreamStep calm id ⟨some s, r, h⟩
        ⟨some { s with toGuest := s.toGuest ++ bytes }, r, h ++ [.read id (.got bytes)]⟩
  | readBlocked {s : Session} {r : Bool} {h : List Ev} (hopen : s.isOpen)
      (hread : s.hostReadClosed = false) :
      StreamStep calm id ⟨some s, r, h⟩ ⟨some s, r, h ++ [.read id .wouldBlock]⟩
  | readFailed {s : Session} {r : Bool} {h : List Ev} (hopen : s.isOpen)
      (hread : s.hostReadClosed = false) :
      StreamStep calm id ⟨some s, r, h⟩
        ⟨none, r, h ++ [.read id .err, .close id, .sent (.rst id), .removed id]⟩
  -- frames toward the guest
  | frame {s : Session} {r : Bool} {h : List Ev} {payload rest : Bytes} (hopen : s.isOpen)
      (hsplit : s.toGuest = payload ++ rest) (hne : payload ≠ [])
      (hcredit : payload.length ≤ s.toGuestCredit) (hsize : payload.length ≤ EGRESS_MAX_PAYLOAD) :
      StreamStep calm id ⟨some s, r, h⟩
        ⟨some { s with toGuest := rest, toGuestCredit := s.toGuestCredit - payload.length }, r,
          h ++ [.sent (.data id payload)]⟩
  | hostClose {s : Session} {r : Bool} {h : List Ev} (hopen : s.isOpen)
      (hread : s.hostReadClosed = true) (hempty : s.toGuest = [])
      (hsent : s.hostCloseSent = false) :
      StreamStep calm id ⟨some s, r, h⟩
        ⟨some { s with hostCloseSent := true }, r, h ++ [.sent (.close id)]⟩
  -- bookkeeping
  | epoll {s : Session} {r : Bool} {h : List Ev} {mask : UInt32} :
      StreamStep calm id ⟨some s, r, h⟩
        ⟨some { s with epollMask := mask }, r, h ++ [.epollCtl id mask true]⟩
  | epollStuck {s : Session} {r : Bool} {h : List Ev} {mask : UInt32} (hcalm : ¬ calm) :
      StreamStep calm id ⟨some s, r, h⟩ ⟨some s, r, h ++ [.epollCtl id mask false]⟩
  | drained {s : Session} {r : Bool} {h : List Ev} (hopen : s.isOpen) (hdrained : s.isDrained)
      (hsent : s.hostCloseSent = true) :
      StreamStep calm id ⟨some s, r, h⟩ ⟨none, r, h ++ [.close id, .removed id]⟩

abbrev StreamSteps (calm : Prop) (id : StreamId) : StreamView → StreamView → Prop :=
  Relation.ReflTransGen (StreamStep calm id)

theorem dead_step {calm : Prop} {id : StreamId} {v v' : StreamView}
    (hstep : StreamStep calm id v v') (hinv : v.sess = none → incarnation v.hist = none) :
    v'.sess = none → incarnation v'.hist = none := by
  -- a stream without a session has no life going on
  cases hstep with
  | @reject sess | @drop sess => cases sess <;> simp_all [incarnation_append, track, ended]
  | _ => simp_all [incarnation_append, track]

end Tdvmm.Egress
