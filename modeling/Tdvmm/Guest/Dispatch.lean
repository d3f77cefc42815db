import Mathlib.Algebra.Ring.Nat
import Tdvmm.Guest.Shell

/-!
# Guest.Dispatch — the agent's state and its request dispatch

`Agent.handle` answers one request, whether it came from the host or from a container.
The first `finish` is recorded and answered with success; every later one is refused
with the verdict recorded (`doFinish_accepted_iff`). No other op touches the record
(`handle_finished`).
-/

namespace Tdvmm.Guest

open Lib Lib.Text Proto

def AGENT_ID : String := "tdvmm-agent/1"

/-- The partitions in force: an unordered pair of services and the two addresses to
drop between. Kept in the order of the keys. -/
abbrev Partitions := List (String × String × String)

namespace Partitions

def insert (key : String) (ips : String × String) : Partitions → Partitions
  | [] => [(key, ips)]
  | (k, v) :: rest =>
    if key = k then (key, ips) :: rest
    else if key < k then (key, ips) :: (k, v) :: rest
    else (k, v) :: insert key ips rest

def remove (key : String) (p : Partitions) : Partitions := p.filter (·.1 ≠ key)

end Partitions

structure Agent where
  partitions : Partitions := []
  /-- The verdict of the first `finish` served. -/
  finished : Option Int64 := none

def err (id : UInt64) (op error : String) : Reply :=
  { id := some id, ok := some false, op := some op, error := some error }

def okStdout (id : UInt64) (op stdout : String) : Reply :=
  { id := some id, ok := some true, op := some op, stdout := some stdout }

def pairKey (a b : String) : String := if b < a then b ++ "\x00" ++ a else a ++ "\x00" ++ b

def nonempty (bytes : Bytes) : Option String :=
  if bytes.isEmpty then none else some (fromUtf8Lossy bytes)

/-! ## The ops -/

def doFinish (a : Agent) (req : Request) : Reply × Agent :=
  let verdict := req.exit.getD 0
  match a.finished with
  | some first =>
    (err req.id OP_FINISH ("run already finished with exit " ++ toString first), a)
  | none =>
    (okStdout req.id OP_FINISH ("finish " ++ toString verdict),
      { a with finished := some verdict })

def doPing (build : String) (req : Request) : Reply :=
  { id := some req.id, ok := some true, op := some "ping", agent := some AGENT_ID,
    schema := some SCHEMA, build := some build }

section Ops

variable {W : Type} (sh : Shell W)

def doContainers (req : Request) : StateM W Reply := do
  match ← listContainers sh with
  | .ok list =>
    return { id := some req.id, ok := some true, op := some "containers",
             containers := some list }
  | .error e => return err req.id "containers" (ErrorKind.podmanPs.msg e.toString)

def doExec (req : Request) : StateM W Reply := do
  let container := req.container.getD ""
  let cmd := req.cmd.getD []
  if container.isEmpty ∨ cmd.isEmpty then
    return err req.id "exec" "exec requires `container` and `cmd`"
  match ← resolveRunning sh container with
  | .error e => return err req.id "exec" (ErrorKind.podmanPs.msg e.toString)
  | .ok none =>
    return err req.id "exec"
      (ErrorKind.noContainer.msg ("no running container for service " ++ container))
  | .ok (some (id, _)) =>
    let out ← sh.podman (["exec", id] ++ cmd)
    let dur ← sh.elapsedMs
    match out with
    | .ok o =>
      return { id := some req.id, ok := some true, op := some "exec",
               exit := some (o.code.getD (-1)).toInt64, stdout := nonempty o.stdout,
               stderr := nonempty o.stderr, durMs := some dur }
    | .error e =>
      return { id := some req.id, ok := some false, op := some "exec",
               error := some (ErrorKind.podmanExec.msg e), durMs := some dur }

/-- `kill` and `stop`: the podman verb on the running container, then wait for it. -/
def doLifecycle (req : Request) (op : String) : StateM W Reply := do
  let container := req.container.getD ""
  if container.isEmpty then return err req.id op (op ++ " requires `container`")
  match ← resolveByService sh container .running with
  | .error e => return err req.id op (ErrorKind.podmanPs.msg e.toString)
  | .ok none =>
    return err req.id op
      (ErrorKind.noContainer.msg ("no running container for service " ++ container))
  | .ok (some (id, name)) =>
    match ← runPodman sh (req.timeoutS.getD 0) [op, id] with
    | .error e => return err req.id op ("podman_" ++ op ++ ": " ++ e.toString)
    | .ok () =>
      let _ ← runPodman sh (req.timeoutS.getD 0) ["wait", id]
      return okStdout req.id op (op ++ " " ++ container ++ " (" ++ name ++ ")")

def doStart (req : Request) : StateM W Reply := do
  let container := req.container.getD ""
  if container.isEmpty then return err req.id "start" "start requires `container`"
  match ← resolveByService sh container .stopped with
  | .error e => return err req.id "start" (ErrorKind.podmanPs.msg e.toString)
  | .ok none =>
    match ← resolveByService sh container .running with
    | .ok (some _) => return okStdout req.id "start" ("already running " ++ container)
    | _ =>
      return err req.id "start"
        (ErrorKind.noContainer.msg ("no stopped container for service " ++ container))
  | .ok (some (id, name)) =>
    match ← runPodman sh (req.timeoutS.getD 0) ["start", id] with
    | .error e => return err req.id "start" ("podman_start: " ++ e.toString)
    | .ok () => return okStdout req.id "start" ("start " ++ container ++ " (" ++ name ++ ")")

/-- The ruleset of the partitions: our table anew, and two drop rules a pair. -/
def ruleset (p : Partitions) : String :=
  "add table inet tdvmm_faults\n" ++
  "delete table inet tdvmm_faults\n" ++
  "add table inet tdvmm_faults\n" ++
  "add chain inet tdvmm_faults partition \x7b type filter hook forward priority -300 ; " ++
  "policy accept ; \x7d\n" ++
  String.join (p.map fun (_, a, b) =>
    "add rule inet tdvmm_faults partition ip saddr " ++ a ++ " ip daddr " ++ b ++ " drop\n" ++
    "add rule inet tdvmm_faults partition ip saddr " ++ b ++ " ip daddr " ++ a ++ " drop\n")

def applyPartitions (p : Partitions) : StateM W (Except AgentError Unit) := do
  match ← sh.nft (ruleset p) with
  | .error e => return .error (.io "spawning nft" e)
  | .ok (_, .error e) => return .error (.io "waiting for nft" e)
  | .ok (written, .ok out) =>
    if out.success then
      match written with
      | .ok () => return .ok ()
      | .error e => return .error (.io "writing ruleset to nft stdin" e)
    else return .error (.command "nft -f -" out.code (trim (fromUtf8Lossy out.stderr)))

/-- Drop the traffic between two services. A refused ruleset takes the entry out
again. -/
def doPartition (p : Partitions) (req : Request) : StateM W (Reply × Partitions) := do
  let a := req.container.getD ""
  let b := req.peer.getD ""
  if a.isEmpty ∨ b.isEmpty then
    return (err req.id "partition" "partition requires two services (`container` and `peer`)", p)
  match ← resolveByService sh a .running with
  | .error e => return (err req.id "partition" (ErrorKind.podmanPs.msg e.toString), p)
  | .ok aid =>
  match ← resolveByService sh b .running with
  | .error e => return (err req.id "partition" (ErrorKind.podmanPs.msg e.toString), p)
  | .ok bid =>
  match aid, bid with
  | some (aid, _), some (bid, _) =>
    match ← containerIp sh aid with
    | .error e => return (err req.id "partition" ("ip(" ++ a ++ "): " ++ e.toString), p)
    | .ok aip =>
    match ← containerIp sh bid with
    | .error e => return (err req.id "partition" ("ip(" ++ b ++ "): " ++ e.toString), p)
    | .ok bip =>
    sh.enableBridgeNetfilter
    let key := pairKey a b
    let inserted := p.insert key (aip, bip)
    match ← applyPartitions sh inserted with
    | .error e =>
      return (err req.id "partition" (ErrorKind.nft.msg e.toString), inserted.remove key)
    | .ok () =>
      return (okStdout req.id "partition"
        ("partition " ++ a ++ "(" ++ aip ++ ") <-x-> " ++ b ++ "(" ++ bip ++ ")"), inserted)
  | aopt, bopt =>
    return (err req.id "partition" (ErrorKind.noContainer.msg
      ("need both running (" ++ a ++ " running=" ++ toString aopt.isSome ++ ", " ++ b ++
        " running=" ++ toString bopt.isSome ++ ")")), p)

/-- Take the partition of a pair away, or all of them where no service is named. -/
def doHeal (p : Partitions) (req : Request) : StateM W (Reply × Partitions) := do
  let a := req.container.getD ""
  let b := req.peer.getD ""
  let healed : Option Partitions :=
    if a.isEmpty ∧ b.isEmpty then some []
    else if ¬ a.isEmpty ∧ ¬ b.isEmpty then some (p.remove (pairKey a b))
    else none
  match healed with
  | none =>
    return (err req.id "heal"
      "heal needs two services (`container` and `peer`) or none (heal all)", p)
  | some p =>
    match ← applyPartitions sh p with
    | .error e => return (err req.id "heal" (ErrorKind.nft.msg e.toString), p)
    | .ok () =>
      return (okStdout req.id "heal"
        (if a.isEmpty then "heal all" else "heal " ++ a ++ " <-> " ++ b), p)

def resolveForLogs (service : String) :
    StateM W (Except AgentError (Option (String × String))) := do
  match ← resolveByService sh service .running with
  | .ok none => resolveByService sh service .stopped
  | other => return other

def doLogs (req : Request) : StateM W Reply := do
  let service := req.container.getD ""
  if service.isEmpty then return err req.id "logs" "logs requires `container`"
  let cursor := req.cursor.getD 0
  let cap := (min (req.maxBytes.getD MAX_LOGS_CHUNK_BYTES).toNat MAX_LOGS_CHUNK_BYTES.toNat)
  match ← resolveForLogs sh service with
  | .error e => return err req.id "logs" (ErrorKind.podmanPs.msg e.toString)
  | .ok none =>
    return err req.id "logs" (ErrorKind.noContainer.msg ("no container for service " ++ service))
  | .ok (some (id, _)) =>
    match ← containerLogPath sh id with
    | .error e => return err req.id "logs" (ErrorKind.podmanPs.msg e.toString)
    | .ok path =>
      match ← readLogChunk sh path cursor cap with
      | .ok (data, n, eof) =>
        return { id := some req.id, ok := some true, op := some "logs",
                 data := if data.isEmpty then none else some data,
                 nextCursor := some (.ofNat (min (cursor.toNat + n) (2 ^ 64 - 1))),
                 eof := some eof }
      | .error e => return err req.id "logs" (ErrorKind.podmanOp.msg e.toString)

/-! ## Dispatch -/

def Agent.handle (a : Agent) (req : Request) : StateM W (Reply × Agent) :=
  let keep (m : StateM W Reply) : StateM W (Reply × Agent) := do return (← m, a)
  let change (m : StateM W (Reply × Partitions)) : StateM W (Reply × Agent) := do
    let (reply, p) ← m
    return (reply, { a with partitions := p })
  if req.op = OP_FINISH then pure (doFinish a req)
  else if req.op = "ping" then keep (pure (doPing sh.build req))
  else if req.op = "containers" then keep (doContainers sh req)
  else if req.op = "exec" then keep (doExec sh req)
  else if req.op = "kill" then keep (doLifecycle sh req "kill")
  else if req.op = "stop" then keep (doLifecycle sh req "stop")
  else if req.op = "start" then keep (doStart sh req)
  else if req.op = "partition" then change (doPartition sh a.partitions req)
  else if req.op = "heal" then change (doHeal sh a.partitions req)
  else if req.op = "logs" then keep (doLogs sh req)
  else keep (pure (err req.id req.op (ErrorKind.unknownOp.msg req.op)))

def acceptedFinish (req : Request) (reply : Reply) : Bool :=
  req.op == OP_FINISH && reply.ok == some true

end Ops

section Finish

variable {W : Type} {sh : Shell W} {a : Agent} {req : Request}

theorem doFinish_accepted_iff (hop : req.op = OP_FINISH) :
    acceptedFinish req (doFinish a req).1 = true ↔ a.finished = none := by
  have hop' : (req.op == OP_FINISH) = true := beq_iff_eq.mpr hop
  unfold doFinish acceptedFinish
  rw [hop']
  cases h : a.finished with
  | none => exact iff_of_true rfl rfl
  | some first => exact iff_of_false Bool.false_ne_true (Option.some_ne_none first)

theorem doFinish_finished :
    (doFinish a req).2.finished = some (a.finished.getD (req.exit.getD 0)) := by
  unfold doFinish
  cases h : a.finished with
  | none => rfl
  | some first => exact h

theorem handle_finish (hop : req.op = OP_FINISH) (w : W) :
    a.handle sh req w = (doFinish a req, w) := by
  unfold Agent.handle
  rw [if_pos hop]
  rfl

theorem handle_finished (hop : req.op ≠ OP_FINISH) (w : W) :
    (a.handle sh req w).1.2.finished = a.finished := by
  -- one case an op, in the order of the dispatch; each keeps `a` or only its partitions
  let P (m : StateM W (Reply × Agent)) : Prop := (m w).1.2.finished = a.finished
  have cases {c : Prop} [Decidable c] {m m' : StateM W (Reply × Agent)} (hm : P m) (hm' : P m') :
      P (if c then m else m') := by
    split
    · exact hm
    · exact hm'
  show P (a.handle sh req)
  unfold Agent.handle
  rw [if_neg hop]
  iterate 9 refine cases rfl ?_
  rfl

theorem handle_event (hop : req.op = "ping" ∨ req.op = "logs") (w : W) :
    (a.handle sh req w).1.1.event = none := by
  have bind {α : Type} {m : StateM W α} {f : α → StateM W Reply}
      (hf : ∀ x w, (f x w).1.event = none) (w : W) : ((m >>= f) w).1.event = none := hf _ _
  rcases hop with hop | hop
  · unfold Agent.handle
    rw [if_neg (by rw [hop]; decide), if_pos hop]
    rfl
  · have hlogs : ∀ w, (doLogs sh req w).1.event = none := by
      intro w
      unfold doLogs
      dsimp only
      split
      · rfl
      · refine bind (fun found w => ?_) w
        rcases found with e | _ | ⟨id, name⟩
        · rfl
        · rfl
        · refine bind (fun path w => ?_) w
          rcases path with e | path
          · rfl
          · refine bind (fun chunk w => ?_) w
            rcases chunk with e | ⟨data, n, eof⟩ <;> rfl
    unfold Agent.handle
    iterate 9 rw [if_neg (by rw [hop]; decide)]
    rw [if_pos hop]
    exact hlogs w

end Finish

end Tdvmm.Guest
