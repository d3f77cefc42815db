import Tdvmm.Proto.Egress

/-!
# Proto.Control — the line protocol of the control channel

One JSON object a line, in both directions. `Json` stands for `serde_json` at the
types that cross the wire; what is relied on is `Json.Documented`. Framing is the
crate's own: a message is written with one newline behind it, and read after the
white space around it is cut.
-/

namespace Tdvmm.Proto

def SCHEMA : UInt32 := 4

/-- The bound on the payload of one `logs` reply. -/
def MAX_LOGS_CHUNK_BYTES : UInt64 := 128 * 1024

/-- The op with which a container ends the run, and the kind of the event that
carries its verdict. -/
def OP_FINISH : String := "finish"

/-- The kinds of events only the agent may originate. -/
def RESERVED_EVENT_KINDS : List String := [OP_FINISH, "ctl"]

def isReservedEventKind (kind : String) : Bool := RESERVED_EVENT_KINDS.contains kind

/-! ## Messages -/

structure Request where
  id : UInt64
  op : String
  container : Option String := none
  peer : Option String := none
  cmd : Option (List String) := none
  timeoutS : Option UInt64 := none
  cursor : Option UInt64 := none
  maxBytes : Option UInt64 := none
  exit : Option Int64 := none
  message : Option String := none
deriving DecidableEq, Repr

structure ContainerInfo where
  name : String := ""
  service : String := ""
  state : String := ""
  exitCode : Int64 := 0
  health : String := ""
deriving DecidableEq, Repr

/-- A JSON value, the free-form part of an event. A number is kept as it is written. -/
inductive Value where
  | null
  | bool (b : Bool)
  | number (text : String)
  | string (s : String)
  | array (vs : List Value)
  | object (fields : List (String × Value))
deriving Repr

structure GuestEvent where
  kind : String
  name : String := ""
  ok : Option Bool := none
  exit : Option Int64 := none
  details : Option Value := none
deriving Repr

/-- A line of the agent: a hello, the reply to a command, or an event. -/
structure Reply where
  id : Option UInt64 := none
  ok : Option Bool := none
  op : Option String := none
  exit : Option Int64 := none
  stdout : Option String := none
  stderr : Option String := none
  error : Option String := none
  durMs : Option UInt64 := none
  containers : Option (List ContainerInfo) := none
  agent : Option String := none
  schema : Option UInt32 := none
  build : Option String := none
  data : Option String := none
  nextCursor : Option UInt64 := none
  eof : Option Bool := none
  event : Option GuestEvent := none
  seq : Option UInt64 := none
deriving Repr

namespace Reply

def hello (agent build : String) : Reply :=
  { agent := some agent, schema := some SCHEMA, build := some build }

def isHello (r : Reply) : Bool := r.id.isNone && r.agent.isSome

def fromEvent (seq : UInt64) (event : GuestEvent) : Reply :=
  { seq := some seq, event := some event }

/-- The reply without the free-form part of its event. -/
def sansDetails (r : Reply) : Reply :=
  { r with event := r.event.map fun ev => { ev with details := none } }

end Reply

/-- The `finish` event a line carries. -/
def verdictOf (r : Reply) : Option GuestEvent := r.event.filter (·.kind = OP_FINISH)

inductive ErrorKind where
  | badRequest
  | unknownOp
  | missingArgs
  | noContainer
  | podmanPs
  | podmanExec
  | podmanOp
  | ip
  | nft
deriving DecidableEq, Repr

namespace ErrorKind

def code : ErrorKind → String
  | badRequest => "bad_request"
  | unknownOp => "unknown_op"
  | missingArgs => "missing_args"
  | noContainer => "no_container"
  | podmanPs => "podman_ps"
  | podmanExec => "podman_exec"
  | podmanOp => "podman_op"
  | ip => "ip"
  | nft => "nft"

def msg (k : ErrorKind) (detail : String) : String := k.code ++ ": " ++ detail

end ErrorKind

/-! ## Framing -/

def isAsciiWhitespace (b : UInt8) : Bool := b == 32 || b == 9 || b == 10 || b == 12 || b == 13

/-- Cut the white space at both ends of a line. -/
def trimFrame (line : Bytes) : Bytes :=
  ((line.dropWhile isAsciiWhitespace).reverse.dropWhile isAsciiWhitespace).reverse

/-- `serde_json` at the types of the wire. -/
structure Json where
  writeReply : Reply → Bytes
  readReply : Bytes → Except String Reply
  readRequest : Bytes → Except String Request
  readEvent : Bytes → Except String GuestEvent

/-- What is relied on. A message is written as an object, in braces, with no newline
in it (control characters in strings are escaped). Read back it is the same message;
only an event's free-form part may be read back otherwise (a `null` becomes absent) or
be too deep to be read. -/
structure Json.Documented (J : Json) : Prop where
  braces : ∀ r, ∃ body, J.writeReply r = 0x7b :: body ++ [0x7d]
  no_newline : ∀ r, 10 ∉ J.writeReply r
  read_write : ∀ r : Reply, r.sansDetails = r → J.readReply (J.writeReply r) = .ok r
  read_write_details : ∀ r r' : Reply, J.readReply (J.writeReply r) = .ok r' →
    r'.sansDetails = r.sansDetails

namespace Json

variable (J : Json)

def encodeLine (r : Reply) : Bytes := J.writeReply r ++ [10]

def decodeReply (line : Bytes) : Except String Reply := J.readReply (trimFrame line)

def decodeRequest (line : Bytes) : Except String Request := J.readRequest (trimFrame line)

variable {J}

theorem trimFrame_braces (body : Bytes) :
    trimFrame (0x7b :: body ++ [0x7d]) = 0x7b :: body ++ [0x7d] := by
  have hopen : isAsciiWhitespace 0x7b = false := by decide
  have hclose : isAsciiWhitespace 0x7d = false := by decide
  simp [trimFrame, hopen, hclose]

theorem Documented.trimFrame_writeReply (hJ : J.Documented) (r : Reply) :
    trimFrame (J.writeReply r) = J.writeReply r := by
  obtain ⟨body, hbody⟩ := hJ.braces r
  rw [hbody]
  exact trimFrame_braces body

theorem Documented.getLast_writeReply (hJ : J.Documented) (r : Reply) :
    (J.writeReply r).getLast? = some 0x7d := by
  obtain ⟨body, hbody⟩ := hJ.braces r
  rw [hbody]
  exact List.getLast?_concat

end Json

end Tdvmm.Proto
