import Tdvmm.Lib.Text
import Tdvmm.Lib.Utf8
import Tdvmm.Proto.Control

/-!
# Guest.Shell — the agent's calls to podman, nft and the file system

`Shell W` stands for what runs outside the agent: each call answers from a state `W`
of the guest and may change it. The helpers over it are the agent's own: which
container of a service is meant, its address, a chunk of its log. They fail with an
`AgentError`, whose text goes on the wire.
-/

namespace Tdvmm.Guest

open Lib Lib.Text Proto

/-- The label compose sets on the containers of a service. -/
def COMPOSE_SERVICE_LABEL : String := "com.docker.compose.service"

/-! ## Errors -/

inductive AgentError where
  | io (what source : String)
  | command (what : String) (status : Option Int32) (stderr : String)
  | parse (what source : String)
  | missing (what : String)
deriving DecidableEq, Repr

def AgentError.toString : AgentError → String
  | io what source => what ++ ": " ++ source
  | command what status stderr =>
    (match status with
      | some code => what ++ " exited with status " ++ ToString.toString code
      | none => what ++ " did not complete") ++
    (if stderr.isEmpty then "" else ": " ++ stderr)
  | parse what source => what ++ ": " ++ source
  | missing what => what

/-! ## Text -/

def firstWord (s : String) : Option String :=
  match (s.toList.dropWhile isWhitespace).takeWhile fun c => !isWhitespace c with
  | [] => none
  | w => some (String.ofList w)

def contains (s sub : String) : Bool := s.toList.tails.any (sub.toList.isPrefixOf ·)

/-! ## Outside the agent -/

structure Output where
  success : Bool
  code : Option Int32
  stdout : Bytes := []
  stderr : Bytes := []

structure PodmanPs where
  id : String := ""
  names : List String := []
  state : String := ""
  exitCode : Int64 := 0
  labels : List (String × String) := []
  status : String := ""

/-- What opening a log gives. `read total room` is one read, `total` bytes after the
position sought, into `room` bytes. -/
inductive OpenedLog where
  | notFound
  | failed (e : String)
  | opened (seek : Except String Unit) (read : Nat → Nat → Except String Bytes)

/-- The guest's side of each call. Errors are texts of `io::Error`. -/
structure Shell (W : Type) where
  podman : List String → StateM W (Except String Output)
  /-- A podman command under a timeout in seconds: how it ended, if it did, and its
  error output. -/
  podmanWithin : UInt64 → List String →
    StateM W (Except String (Option (Bool × Option Int32) × Bytes))
  /-- `nft -f -` with a ruleset on its standard input: whether the write went through,
  and how nft ended. -/
  nft : String → StateM W (Except String (Except String Unit × Except String Output))
  enableBridgeNetfilter : StateM W Unit
  openLog : String → UInt64 → StateM W OpenedLog
  elapsedMs : StateM W UInt64
  parsePs : Bytes → Except String (List PodmanPs)
  toLowercase : String → String
  /-- The build hash of the agent. -/
  build : String

/-! ## Helpers -/

section Helpers

variable {W : Type} (sh : Shell W)

/-- `podman <args>`, its output read as a list of containers. -/
def podmanJson (args : List String) : StateM W (Except AgentError (List PodmanPs)) := do
  let label := "podman " ++ " ".intercalate args
  match ← sh.podman args with
  | .error e => return .error (.io ("running " ++ label) e)
  | .ok out =>
    if out.success then
      match sh.parsePs out.stdout with
      | .ok list => return .ok list
      | .error e => return .error (.parse ("parsing " ++ label ++ " output") e)
    else return .error (.command label out.code (trim (fromUtf8Lossy out.stderr)))

def healthOf (status : String) : String :=
  if contains status "unhealthy" then "unhealthy"
  else if contains status "healthy" then "healthy"
  else if contains status "starting" then "starting"
  else ""

def listContainers : StateM W (Except AgentError (List ContainerInfo)) := do
  match ← podmanJson sh ["ps", "-a", "--format", "json"] with
  | .error e => return .error e
  | .ok raw =>
    return .ok <| raw.map fun c =>
      { name := c.names.headD ""
        service := (c.labels.lookup COMPOSE_SERVICE_LABEL).getD ""
        state := sh.toLowercase c.state
        exitCode := c.exitCode
        health := healthOf (sh.toLowercase c.status) }

def PodmanPs.labelled (c : PodmanPs) (service : String) : Bool :=
  c.labels.lookup COMPOSE_SERVICE_LABEL == some service

/-- A running container of the service: its id and its name, or the name that matched. -/
def resolveRunning (service : String) :
    StateM W (Except AgentError (Option (String × String))) := do
  match ← podmanJson sh ["ps", "--format", "json"] with
  | .error e => return .error e
  | .ok raw =>
    return .ok <| raw.findSome? fun c =>
      if c.state ≠ "running" then none
      else if c.labelled service then some (c.id, c.names.headD "")
      else (c.names.find? (· == service)).map fun n => (c.id, n)

inductive Want where
  | running
  | stopped
deriving DecidableEq, Repr

/-- The first container of the service in the wanted state. -/
def resolveByService (service : String) (want : Want) :
    StateM W (Except AgentError (Option (String × String))) := do
  match ← podmanJson sh ["ps", "-a", "--format", "json"] with
  | .error e => return .error e
  | .ok raw =>
    return .ok <| raw.findSome? fun c =>
      let matched := c.labelled service || c.names.any (· == service)
      let running := c.state == "running"
      let wanted := match want with
        | .running => running
        | .stopped => !running
      if matched && wanted then some (c.id, c.names.headD "") else none

def containerIp (idOrName : String) : StateM W (Except AgentError String) := do
  match ← sh.podman ["inspect", "-f",
    "\x7b\x7brange .NetworkSettings.Networks\x7d\x7d\x7b\x7b.IPAddress\x7d\x7d \x7b\x7bend\x7d\x7d",
    idOrName] with
  | .error e => return .error (.io "running podman inspect" e)
  | .ok out =>
    if out.success then
      match firstWord (fromUtf8Lossy out.stdout) with
      | some ip => return .ok ip
      | none => return .error (.missing ("no bridge IP for " ++ idOrName))
    else
      return .error
        (.command "podman inspect (network IP)" out.code (trim (fromUtf8Lossy out.stderr)))

def containerLogPath (idOrName : String) : StateM W (Except AgentError String) := do
  match ← sh.podman ["inspect", "--format", "\x7b\x7b.HostConfig.LogConfig.Path\x7d\x7d",
      idOrName] with
  | .error e => return .error (.io "running podman inspect" e)
  | .ok out =>
    if out.success then
      let p := trim (fromUtf8Lossy out.stdout)
      if p.isEmpty then return .error (.missing ("empty log path for " ++ idOrName))
      else return .ok p
    else
      return .error
        (.command "podman inspect (log path)" out.code (trim (fromUtf8Lossy out.stderr)))

/-- Read until `cap` bytes are there or a read gives none. Every round adds a byte, so
`cap` bounds the rounds. -/
def readUpTo (read : Nat → Nat → Except String Bytes) (cap : Nat) :
    Nat → Bytes → Except String Bytes
  | 0, buf => .ok buf
  | fuel + 1, buf =>
    if buf.length < cap then
      match read buf.length (cap - buf.length) with
      | .error e => .error e
      | .ok [] => .ok buf
      | .ok bs => readUpTo read cap fuel (buf ++ bs.take (cap - buf.length))
    else .ok buf

/-- A chunk of a log: its text, the raw bytes read, and whether the end was reached. -/
def readLogChunk (path : String) (cursor : UInt64) (cap : Nat) :
    StateM W (Except AgentError (String × Nat × Bool)) := do
  match ← sh.openLog path cursor with
  | .notFound => return .ok ("", 0, true)
  | .failed e => return .error (.io ("opening log " ++ path) e)
  | .opened (.error e) _ => return .error (.io ("seeking log " ++ path) e)
  | .opened (.ok ()) read =>
    match readUpTo read cap cap [] with
    | .error e => return .error (.io ("reading log " ++ path) e)
    | .ok buf => return .ok (fromUtf8Lossy buf, buf.length, buf.length < cap)

/-- A podman command under a timeout, 60 seconds where none is given. -/
def runPodman (timeoutS : UInt64) (args : List String) : StateM W (Except AgentError Unit) := do
  let label := "podman " ++ " ".intercalate args
  match ← sh.podmanWithin (if timeoutS = 0 then 60 else timeoutS) args with
  | .error e => return .error (.io ("spawning " ++ label) e)
  | .ok (some (true, _), _) => return .ok ()
  | .ok (ended, stderr) =>
    return .error (.command label (ended.bind (·.2)) (fromUtf8Lossy stderr))

end Helpers

end Tdvmm.Guest
