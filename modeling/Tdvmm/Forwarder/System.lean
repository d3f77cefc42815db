import Tdvmm.Egress.Refine
import Tdvmm.Forwarder.Moves

/-!
# Forwarder.System — the forwarder, the two channels and the host backend

Every client connection of the guest forwarder, its registry of mux streams, the
frames in flight in either direction and the host backend, as one system. An act
is one step of one party; a run is any sequence of acts, so it is any interleaving
of the connection threads, the demultiplexer and the pumps of the host.

The channels carry whole frames in order. A tty that fails takes no more frames.
-/

namespace Tdvmm.Forwarder

open Lib Proto Egress

/-- Every connection ever accepted, in order; the registry of live streams, by the
position of their connection; the stream-id counter; whether the tty works and
whether the registry lock is held for good; the frames in flight; the backend and
whether a pump of it has failed. `issued` records the ids handed out. -/
structure Sys where
  conns : List Conn
  registry : Std.ExtTreeMap StreamId Nat
  counter : UInt32
  tty : Bool
  wedged : Bool
  toHost : List OwnedFrame
  toGuest : List EgressFrame
  host : Backend
  halted : Bool
  issued : List (StreamId × Nat)

/-- The forwarder just started; the counter begins at 1. -/
def Sys.init : Sys where
  conns := []
  registry := ∅
  counter := 1
  tty := true
  wedged := false
  toHost := []
  toGuest := []
  host := .init
  halted := false
  issued := []

/-! ## The registry -/

/-- The loop of `register`: the first of `n` candidates that is free, and the
counter after it. -/
def findFree (reg : Std.ExtTreeMap StreamId Nat) : Nat → UInt32 → Option (StreamId × UInt32)
  | 0, _ => none
  | n + 1, counter =>
    if reg.contains counter.toUInt16 then findFree reg n (counter + 1)
    else some (counter.toUInt16, counter + 1)

/-- `register`: with every id taken the loop never ends. -/
def register (reg : Std.ExtTreeMap StreamId Nat) (counter : UInt32) : Option (StreamId × UInt32) :=
  findFree reg 65536 counter

/-- The connection an id was handed out to last. -/
def lastOwner (id : StreamId) (issued : List (StreamId × Nat)) : Option Nat :=
  issued.foldl (fun owner p => if p.1 = id then some p.2 else owner) none

theorem lastOwner_append (id j : StreamId) (i : Nat) (issued : List (StreamId × Nat)) :
    lastOwner id (issued ++ [(j, i)]) = if j = id then some i else lastOwner id issued := by
  simp [lastOwner, List.foldl_append]

namespace Sys

/-- A connection whose handshake is done registers. When it never finds an id it
spins with the registry locked. -/
def registerConn (s : Sys) (i : Nat) : Sys :=
  match s.conns[i]? with
  | some c =>
    match c.phase with
    | .ready target =>
      match register s.registry s.counter with
      | some (id, counter) =>
        { s with
          conns := s.conns.set i (c.register ⟨id, target⟩)
          registry := s.registry.insert id i
          counter := counter
          issued := s.issued ++ [(id, i)] }
      | none => { s with wedged := true }
    | _ => s
  | none => s

/-- A connection that is done removes its stream. -/
def leaveConn (s : Sys) (i : Nat) : Sys :=
  match s.conns[i]? with
  | some c =>
    match c.leaves? with
    | some st =>
      { s with
        conns := s.conns.set i { c with phase := .gone st }
        registry := s.registry.erase st.id }
    | none => s
  | none => s

def moveConn (s : Sys) (i : Nat) (mv : Move) : Sys :=
  match s.conns[i]? with
  | some c =>
    { s with
      conns := s.conns.set i (c.moved s.tty mv)
      toHost := s.toHost ++ (c.move s.tty mv).2 }
  | none => s

/-- The demultiplexer takes the next host frame and routes it; a frame whose stream
is not registered is dropped. -/
def routeFrame (s : Sys) : Sys :=
  match s.toGuest with
  | [] => s
  | frame :: rest =>
    match s.registry[frame.stream]? with
    | some i => { s with toGuest := rest, conns := s.conns.modify i (·.receive frame) }
    | none => { s with toGuest := rest }

/-- The host pumps its backend with the next `n` guest frames. A pump that fails
ends the run. -/
def pumpHost (s : Sys) (n : Nat) (env : Env) : Sys :=
  let r := (pumpFrames env (s.toHost.take n)).run s.host
  { s with
    toHost := s.toHost.drop n
    toGuest := s.toGuest ++ sents (r.2.hist.drop s.host.hist.length)
    host := { r.2 with txPending := [] }
    halted := !r.1.toBool }

end Sys

/-! ## Runs -/

inductive Act where
  | accept
  | conn (i : Nat) (mv : Move)
  | register (i : Nat)
  | leave (i : Nat)
  | route
  | pump (n : Nat) (env : Env)
  | ttyFails

def Act.locks : Act → Bool
  | .register _ => true
  | .leave _ => true
  | .route => true
  | _ => false

namespace Sys

def perform (s : Sys) : Act → Sys
  | .accept => { s with conns := s.conns ++ [Conn.new] }
  | .conn i mv => s.moveConn i mv
  | .register i => s.registerConn i
  | .leave i => s.leaveConn i
  | .route => s.routeFrame
  | .pump n env => s.pumpHost n env
  | .ttyFails => { s with tty := false }

/-- One step. An act that cannot be done leaves the system as it is. -/
def step (s : Sys) (a : Act) : Sys :=
  if s.halted || (s.wedged && a.locks) then s else s.perform a

def hands? (s : Sys) : Act → Option StreamId
  | .register i =>
    match s.conns[i]? with
    | some c =>
      match c.phase with
      | .ready _ => (Forwarder.register s.registry s.counter).map (·.1)
      | _ => none
    | none => none
  | _ => none

end Sys

def run (acts : List Act) : Sys := acts.foldl Sys.step .init

/-! ## A client and its peer, for concrete runs -/

/-- The next client is accepted as connection `i`, asks for host `h`, sends `payload`
after its handshake, and is registered. -/
def clientArrives (i : Nat) (payload : Bytes) : List Act :=
  [.accept, .conn i (.clientSends (connectDomain [104] 80 ++ payload)), .conn i (.negotiate true),
    .register i]

/-- Resolves and connects stream `id` at once; its peer says `greeting`. -/
def Env.greets (id : StreamId) (greeting : Bytes) : Env :=
  { Env.prompt id ⟨[127, 0, 0, 1], 80⟩ with
    read := fun h j _ => if bytesRead (about j h) = [] then .got greeting else .wouldBlock }

def exchange : List Act :=
  clientArrives 0 [1, 2, 3] ++
    [.conn 0 .sendOpen, .pump 1 (Env.greets 1 [5, 6]), .route, .conn 0 (.verdict true true),
      .conn 0 (.relayUp (.got 100)), .pump 1 (Env.greets 1 [5, 6]), .route,
      .conn 0 (.relayDown .all)]

end Tdvmm.Forwarder
