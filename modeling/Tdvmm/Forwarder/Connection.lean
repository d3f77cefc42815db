import Tdvmm.Egress.Stream
import Tdvmm.Forwarder.Socks

/-!
# Forwarder.Connection — one client of the guest forwarder

The thread that serves one accepted client (`handle_connection`) and the thread that relays its
bytes to the host (`relay_up`), as moves of one record.

A move is what a thread does between two points where it can be interrupted with an effect
another thread can see: one blocking call with the code up to the next. Whether a call on the
client's socket succeeds is part of the move.
-/

namespace Tdvmm.Forwarder

open Lib Proto Egress

def READ_CHUNK : Nat := 16 * 1024

/-- The delivered bytes after which window credit is granted back. -/
def WINDOW_GRANT_THRESHOLD : Nat := 16 * 1024

/-! ## The writer -/

/-- `TtyWriter::send`: encode the frame and write it whole. The frame as the host
takes it from its parse buffer, `none` on an error. -/
def send (tty : Bool) (frame : EgressFrame) : Option OwnedFrame :=
  if tty && (encode frame []).1.toBool then some (toOwned frame) else none

/-- Split into pieces of at most `n` bytes; every piece but the last is full, so the
length is fuel enough. -/
def chunks (n : Nat) : Nat → Bytes → List Bytes
  | 0, _ => []
  | fuel + 1, bs => if bs.isEmpty then [] else bs.take n :: chunks n fuel (bs.drop n)

/-- Send frames in order, up to the first error: whether all were sent, and those
that were. -/
def sendAll (tty : Bool) : List EgressFrame → Bool × List OwnedFrame
  | [] => (true, [])
  | frame :: rest =>
    match send tty frame with
    | some f => ((sendAll tty rest).1, f :: (sendAll tty rest).2)
    | none => (false, [])

def sendData (tty : Bool) (stream : StreamId) (payload : Bytes) : Bool × List OwnedFrame :=
  sendAll tty ((chunks EGRESS_MAX_PAYLOAD payload.length payload).map (.data stream))

/-! ## The state of a connection -/

inductive Inbound where
  | connected
  | failed (reason : EgressReason)
  | data (bytes : Bytes)
  | close
  | rst
deriving DecidableEq, Repr

/-- The event of a host frame; the two frames only the guest sends have none. -/
def inbound : EgressFrame → Option Inbound
  | .openOk _ => some .connected
  | .openErr _ reason => some (.failed reason)
  | .data _ payload => some (.data payload)
  | .close _ => some .close
  | .rst _ => some .rst
  | .openTo _ _ _ => none
  | .window _ _ => none

/-- A registered stream: its mux id and the destination of its `CONNECT`. -/
structure MuxStream where
  id : StreamId
  target : Socks5Target
deriving DecidableEq, Repr

/-- The two relay loops: which still run, and the delivered bytes that no window
credit has been granted for. -/
structure Relay where
  up : Bool
  down : Bool
  ungranted : Nat
deriving DecidableEq, Repr

inductive Phase where
  /-- In the SOCKS handshake. -/
  | negotiating
  /-- Dropped in the handshake. -/
  | refused
  /-- The handshake is done. -/
  | ready (target : Socks5Target)
  /-- Registered; the `OPEN` is not sent yet. -/
  | opening (st : MuxStream)
  /-- The `OPEN` is sent; waiting for the verdict. -/
  | awaiting (st : MuxStream)
  /-- Connected. -/
  | relaying (st : MuxStream) (relay : Relay)
  /-- About to deregister. -/
  | leaving (st : MuxStream)
  /-- Deregistered. -/
  | gone (st : MuxStream)
deriving DecidableEq, Repr

/-- The stream a connection has or had. -/
@[simp] def Phase.stream? : Phase → Option MuxStream
  | .negotiating => none
  | .refused => none
  | .ready _ => none
  | .opening st => some st
  | .awaiting st => some st
  | .relaying st _ => some st
  | .leaving st => some st
  | .gone st => some st

/-- The stream a connection has registered. -/
@[simp] def Phase.held? : Phase → Option MuxStream
  | .gone _ => none
  | phase => phase.stream?

/-- A connection. The last four fields are bookkeeping: the bytes the client has
sent after its handshake, the bytes written to it after the SOCKS replies, the
frames sent for it and the host frames routed to it. -/
structure Conn where
  phase : Phase
  client : Client
  inbox : List Inbound
  payload : Bytes
  delivered : Bytes
  out : List OwnedFrame
  fed : List EgressFrame
deriving DecidableEq, Repr

def Conn.new : Conn where
  phase := .negotiating
  client := ⟨[], []⟩
  inbox := []
  payload := []
  delivered := []
  out := []
  fed := []

namespace Conn

def reply (c : Conn) (writable : Bool) (rep : UInt8) : Conn :=
  { c with client := c.client.write writable (socks5Reply rep) }

def deliver (c : Conn) (bytes : Bytes) : Conn :=
  { c with client := c.client.write true bytes, delivered := c.delivered ++ bytes }

def receive (c : Conn) (frame : EgressFrame) : Conn :=
  { c with inbox := c.inbox ++ (inbound frame).toList, fed := c.fed ++ [frame] }

def register (c : Conn) (st : MuxStream) : Conn := { c with phase := .opening st }

def setRelay (c : Conn) (st : MuxStream) (relay : Relay) : Conn :=
  { c with phase := .relaying st relay }

end Conn

/-! ## Moves -/

/-- The result of a read from the client. `got n` offers up to `n` bytes. -/
inductive ClientRead where
  | got (n : Nat)
  | eof
  | interrupted
  | err
deriving DecidableEq, Repr

/-- The result of a `write_all` to the client; `failed n` after `n` bytes. -/
inductive ClientWrite where
  | all
  | failed (n : Nat)
deriving DecidableEq, Repr

inductive Move where
  /-- The client sends bytes. -/
  | clientSends (bytes : Bytes)
  | negotiate (writable : Bool)
  | sendOpen
  | verdict (replyOk cloneOk : Bool)
  | relayUp (res : ClientRead)
  | relayDown (res : ClientWrite)
deriving DecidableEq, Repr

namespace Conn

/-- The client has sent bytes; those after the handshake are payload. -/
def clientSends (bytes : Bytes) (c : Conn) : Conn :=
  { c with
    client := { c.client with unread := c.client.unread ++ bytes }
    payload := if c.phase = .negotiating then c.payload else c.payload ++ bytes }

def negotiate (writable : Bool) (c : Conn) : Conn :=
  match c.phase with
  | .negotiating =>
    match (socks5Negotiate writable).run c.client with
    | (.ok target, client) =>
      { c with phase := .ready target, client := client, payload := client.unread }
    | (.error (.rejected rep), client) =>
      { c with
        phase := .refused
        client := client.write (writable && rep != 0) (socks5Reply rep) }
    | (.error .io, client) => { c with phase := .refused, client := client }
  | _ => c

/-- Open the stream; without a transport the connection is dropped. -/
def sendOpen (tty : Bool) (c : Conn) : Conn × List OwnedFrame :=
  match c.phase with
  | .opening st =>
    match send tty (.openTo st.id st.target.port st.target.host) with
    | some f => ({ c with phase := .awaiting st }, [f])
    | none => ({ c with phase := .leaving st }, [])
  | _ => (c, [])

/-- `teardown`, up to the deregistration. -/
def teardown (tty : Bool) (st : MuxStream) (c : Conn) : Conn × List OwnedFrame :=
  ({ c with phase := .leaving st }, (send tty (.rst st.id)).toList)

/-- Act on the first event: the connect verdict. Any event but the two verdicts
ends the connection, without a word to the host. -/
def verdict (tty replyOk cloneOk : Bool) (c : Conn) : Conn × List OwnedFrame :=
  match c.phase, c.inbox with
  | .awaiting st, .connected :: rest =>
    let c' := { c with inbox := rest }.reply replyOk SOCKS_OK
    if replyOk && cloneOk then (c'.setRelay st ⟨true, true, 0⟩, []) else c'.teardown tty st
  | .awaiting st, .failed reason :: rest =>
    ({ { c with inbox := rest }.reply replyOk (replyCodeFor reason) with phase := .leaving st }, [])
  | .awaiting st, _ :: rest =>
    ({ { c with inbox := rest }.reply replyOk SOCKS_GENERAL_FAILURE with phase := .leaving st }, [])
  | _, _ => (c, [])

/-- One round of `relay_up`. A read with nothing there blocks. -/
def relayUp (tty : Bool) (res : ClientRead) (c : Conn) : Conn × List OwnedFrame :=
  match c.phase with
  | .relaying st r =>
    if r.up then
      match res with
      | .eof => (c.setRelay st { r with up := false }, (send tty (.close st.id)).toList)
      | .err => (c.setRelay st { r with up := false }, (send tty (.rst st.id)).toList)
      | .interrupted => (c, [])
      | .got n =>
        let buf := c.client.unread.take (min n READ_CHUNK)
        if buf.isEmpty then (c, [])
        else
          let c' := { c with client := { c.client with
            unread := c.client.unread.drop (min n READ_CHUNK) } }
          let sent := sendData tty st.id buf
          (if sent.1 then c' else c'.setRelay st { r with up := false }, sent.2)
    else (c, [])
  | _ => (c, [])

def relayDown (tty : Bool) (res : ClientWrite) (c : Conn) : Conn × List OwnedFrame :=
  match c.phase, c.inbox with
  | .relaying st r, msg :: rest =>
    if r.down then
      let c' := { c with inbox := rest }
      match msg with
      | .data bytes =>
        match res with
        | .failed n =>
          ((c'.deliver (bytes.take n)).setRelay st { r with down := false },
            (send tty (.rst st.id)).toList)
        | .all =>
          let ungranted := r.ungranted + bytes.length
          if ungranted ≥ WINDOW_GRANT_THRESHOLD then
            ((c'.deliver bytes).setRelay st { r with ungranted := 0 },
              (send tty (.window st.id (UInt32.ofNat ungranted))).toList)
          else ((c'.deliver bytes).setRelay st { r with ungranted := ungranted }, [])
      | .close | .rst => (c'.setRelay st { r with down := false }, [])
      | .connected | .failed _ => (c', [])
    else (c, [])
  | _, _ => (c, [])

/-- The stream a connection is ready to deregister: it has given up, or both relay
loops have ended and the up thread is joined. -/
def leaves? (c : Conn) : Option MuxStream :=
  match c.phase with
  | .leaving st => some st
  | .relaying st r => if !r.up && !r.down then some st else none
  | _ => none

/-- A move: the connection after it and the frames sent. -/
def move (tty : Bool) (c : Conn) : Move → Conn × List OwnedFrame
  | .clientSends bytes => (c.clientSends bytes, [])
  | .negotiate writable => (c.negotiate writable, [])
  | .sendOpen => c.sendOpen tty
  | .verdict replyOk cloneOk => c.verdict tty replyOk cloneOk
  | .relayUp res => c.relayUp tty res
  | .relayDown res => c.relayDown tty res

end Conn

end Tdvmm.Forwarder
