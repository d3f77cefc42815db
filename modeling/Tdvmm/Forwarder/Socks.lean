import Tdvmm.Lib.Eff
import Tdvmm.Lib.Utf8
import Tdvmm.Proto.Egress

/-!
# Forwarder.Socks — the SOCKS5h negotiation

The handshake the guest forwarder runs with each client
(`tdvmm-agent/src/forwarder.rs`): method negotiation without authentication, then
one `CONNECT` request. The client's bytes are untrusted; a field that is missing
ends the handshake with an I/O error and a bad one with a reply code.
-/

namespace Tdvmm.Forwarder

open Lib Proto

/-- The destination a `CONNECT` names. The host is a `String`, so its bytes are
well-formed UTF-8. -/
structure Socks5Target where
  host : Bytes
  port : UInt16
  utf8 : utf8Valid host = true
deriving DecidableEq, Repr

/-- How a negotiation fails: with the reply code to send (0 for none), or because
the client is gone. -/
inductive SocksError where
  | rejected (rep : UInt8)
  | io
deriving DecidableEq, Repr

def SOCKS_OK : UInt8 := 0x00
def SOCKS_GENERAL_FAILURE : UInt8 := 0x01
def SOCKS_NET_UNREACHABLE : UInt8 := 0x03
def SOCKS_HOST_UNREACHABLE : UInt8 := 0x04
def SOCKS_CONN_REFUSED : UInt8 := 0x05
def SOCKS_CMD_UNSUPPORTED : UInt8 := 0x07
def SOCKS_ATYP_UNSUPPORTED : UInt8 := 0x08

/-- The socket of a client: the bytes it has sent that nobody has read, and the
bytes written to it. -/
structure Client where
  unread : Bytes
  written : Bytes
deriving DecidableEq, Repr

abbrev SocksM := Eff SocksError Client

/-- Read one byte; a client that has sent no more is gone. -/
def readU8 : SocksM UInt8 := fun c =>
  match c.unread with
  | [] => (.error .io, c)
  | b :: rest => (.ok b, { c with unread := rest })

def readExact : Nat → SocksM Bytes
  | 0 => pure []
  | n + 1 => do
    let b ← readU8
    let bs ← readExact n
    pure (b :: bs)

def Client.write (c : Client) (writable : Bool) (bytes : Bytes) : Client :=
  if writable then { c with written := c.written ++ bytes } else c

def writeAll (writable : Bool) (bytes : Bytes) : SocksM Unit :=
  if writable then Eff.update fun c => c.write true bytes else Eff.fail .io

/-! ## Address literals -/

/-- A digit, in lower case past nine. -/
def digit (n : Nat) : UInt8 := if n < 10 then UInt8.ofNat (48 + n) else UInt8.ofNat (87 + n)

/-- A number of at most `width` digits, without leading zeros. -/
def formatNat (base : Nat) : Nat → Nat → Bytes
  | 0, _ => []
  | width + 1, n =>
    if n < base then [digit n] else formatNat base width (n / base) ++ [digit (n % base)]

def segments : Bytes → List UInt16
  | a :: b :: rest => UInt16.ofNat (256 * a.toNat + b.toNat) :: segments rest
  | _ => []

def formatV4 (a : Bytes) : Bytes := [46].intercalate (a.map fun b => formatNat 10 3 b.toNat)

def formatV6 (a : Bytes) : Bytes :=
  [58].intercalate ((segments a).map fun s => formatNat 16 4 s.toNat)

theorem digit_ascii {n : Nat} (h : n < 16) : digit n < 0x80 := by
  have hall : ∀ n < 16, digit n < 0x80 := by decide
  exact hall n h

theorem formatNat_ascii {base : Nat} (hpos : 0 < base) (hbase : base ≤ 16) (width n : Nat) :
    ∀ b ∈ formatNat base width n, b < 0x80 := by
  induction width generalizing n with
  | zero => simp [formatNat]
  | succ width ih =>
    intro b hb
    unfold formatNat at hb
    split at hb
    · have heq : b = digit n := by simpa using hb
      rw [heq]
      exact digit_ascii (by omega)
    · rcases List.mem_append.mp hb with hb | hb
      · exact ih _ b hb
      · have heq : b = digit (n % base) := by simpa using hb
        rw [heq]
        have hlt := Nat.mod_lt n hpos
        exact digit_ascii (by omega)

theorem intercalate_ascii {sep : UInt8} (hsep : sep < 0x80) {parts : List Bytes}
    (h : ∀ p ∈ parts, ∀ b ∈ p, b < 0x80) : ∀ b ∈ [sep].intercalate parts, b < 0x80 := by
  induction parts with
  | nil => simp
  | cons p rest ih =>
    have hp := h p List.mem_cons_self
    have hrest := ih fun q hq => h q (List.mem_cons_of_mem _ hq)
    cases rest with
    | nil => simpa using hp
    | cons q rest =>
      intro b hb
      rw [List.intercalate_cons_cons] at hb
      rcases List.mem_append.mp hb with hb | hb
      · rcases List.mem_append.mp hb with hb | hb
        · exact hp b hb
        · rw [List.mem_singleton.mp hb]
          exact hsep
      · exact hrest b hb

theorem formatV4_utf8 (a : Bytes) : utf8Valid (formatV4 a) = true := by
  refine utf8Valid_of_ascii (intercalate_ascii (by decide) ?_)
  intro p hp
  obtain ⟨b, -, rfl⟩ := List.mem_map.mp hp
  exact formatNat_ascii (by decide) (by decide) _ _

theorem formatV6_utf8 (a : Bytes) : utf8Valid (formatV6 a) = true := by
  refine utf8Valid_of_ascii (intercalate_ascii (by decide) ?_)
  intro p hp
  obtain ⟨b, -, rfl⟩ := List.mem_map.mp hp
  exact formatNat_ascii (by decide) (by decide) _ _

/-! ## The handshake -/

def readHost (atyp : UInt8) : SocksM { host : Bytes // utf8Valid host = true } :=
  if atyp = 0x01 then do
    let a ← readExact 4
    pure ⟨formatV4 a, formatV4_utf8 a⟩
  else if atyp = 0x03 then do
    let len ← readU8
    let name ← readExact len.toNat
    if h : utf8Valid name = true then pure ⟨name, h⟩
    else Eff.fail (.rejected SOCKS_GENERAL_FAILURE)
  else if atyp = 0x04 then do
    let a ← readExact 16
    pure ⟨formatV6 a, formatV6_utf8 a⟩
  else
    Eff.fail (.rejected SOCKS_ATYP_UNSUPPORTED)

def socks5Request : SocksM Socks5Target := do
  let ver ← readU8
  let cmd ← readU8
  let _ ← readU8
  let atyp ← readU8
  if ver ≠ 0x05 then
    Eff.fail (.rejected SOCKS_GENERAL_FAILURE)
  else if cmd ≠ 0x01 then
    Eff.fail (.rejected SOCKS_CMD_UNSUPPORTED)
  else
    let host ← readHost atyp
    let p0 ← readU8
    let p1 ← readU8
    let port := UInt16.ofNat (256 * p0.toNat + p1.toNat)
    if host.1.isEmpty || port == 0 then Eff.fail (.rejected SOCKS_GENERAL_FAILURE)
    else pure ⟨host.1, port, host.2⟩

def socks5Negotiate (writable : Bool) : SocksM Socks5Target := do
  let ver ← readU8
  let nmethods ← readU8
  if ver ≠ 0x05 then
    Eff.fail (.rejected 0)
  else
    let methods ← readExact nmethods.toNat
    if methods.contains 0x00 then
      writeAll writable [0x05, 0x00]
      socks5Request
    else
      -- no acceptable method: said so if the client still listens
      Eff.update fun c => c.write writable [0x05, 0xFF]
      Eff.fail (.rejected 0)

def socks5Reply (rep : UInt8) : Bytes := [0x05, rep, 0x00, 0x01, 0, 0, 0, 0, 0, 0]

/-- The reply code closest to a failure of the host. -/
def replyCodeFor : EgressReason → UInt8
  | .resolveFailed => SOCKS_HOST_UNREACHABLE
  | .connectRefused => SOCKS_CONN_REFUSED
  | .unreachable => SOCKS_NET_UNREACHABLE
  | .streamLimit | .protocolError | .overrun | .other _ => SOCKS_GENERAL_FAILURE

/-- A greeting and a `CONNECT` to a domain name. -/
def connectDomain (host : Bytes) (port : UInt16) : Bytes :=
  [0x05, 0x01, 0x00] ++ [0x05, 0x01, 0x00, 0x03] ++ UInt8.ofNat host.length :: host ++
    [UInt8.ofNat (port.toNat / 256), UInt8.ofNat (port.toNat % 256)]

example : (((socks5Negotiate true).run ⟨connectDomain [104] 443 ++ [7], []⟩).1.toOption.map
    fun t => (t.host, t.port)) = some ([104], 443) := by decide

example : (((socks5Negotiate true).run
    ⟨[5, 1, 0, 5, 1, 0, 1, 127, 0, 0, 1, 0, 80], []⟩).1.toOption.map
    fun t => (t.host, t.port)) = some ([49, 50, 55, 46, 48, 46, 48, 46, 49], 80) := by decide

end Tdvmm.Forwarder
