import Mathlib.Data.List.Basic

/-!
# Proto.Egress — the binary mux of the egress channel

The frames that the forwarder in the guest and the backend on the host exchange
over COM4 (`tdvmm-proto/src/egress.rs`). A frame is a six byte header
(`ver`, `type`, `stream`, `len`) and a payload of `len` bytes; all integers are
little-endian.
-/

namespace Tdvmm.Proto

/-- A byte string: a `Vec<u8>`, a `VecDeque<u8>` or a slice of one. -/
abbrev Bytes := List UInt8

def EGRESS_VERSION : UInt8 := 1

def EGRESS_HEADER_LEN : Nat := 6

/-- The largest payload of one frame: `len` is a `u16`. -/
def EGRESS_MAX_PAYLOAD : Nat := 65535

def EGRESS_MAX_HOST_LEN : Nat := 255

def T_OPEN : UInt8 := 1
def T_OPEN_OK : UInt8 := 2
def T_OPEN_ERR : UInt8 := 3
def T_DATA : UInt8 := 4
def T_CLOSE : UInt8 := 5
def T_RST : UInt8 := 6
def T_WINDOW : UInt8 := 7

inductive EgressReason where
  | resolveFailed
  | connectRefused
  | unreachable
  | streamLimit
  | protocolError
  | overrun
  | other (code : UInt8)
deriving DecidableEq, Repr

namespace EgressReason

def code : EgressReason → UInt8
  | .resolveFailed => 0
  | .connectRefused => 1
  | .unreachable => 2
  | .streamLimit => 3
  | .protocolError => 4
  | .overrun => 5
  | .other x => x

def fromCode (code : UInt8) : EgressReason :=
  if code = 0 then .resolveFailed
  else if code = 1 then .connectRefused
  else if code = 2 then .unreachable
  else if code = 3 then .streamLimit
  else if code = 4 then .protocolError
  else if code = 5 then .overrun
  else .other code

end EgressReason

inductive EgressFrame where
  | openTo (stream port : UInt16) (host : Bytes)
  | openOk (stream : UInt16)
  | openErr (stream : UInt16) (reason : EgressReason)
  | data (stream : UInt16) (payload : Bytes)
  | close (stream : UInt16)
  | rst (stream : UInt16)
  | window (stream : UInt16) (credit : UInt32)
deriving DecidableEq, Repr

def EgressFrame.stream : EgressFrame → UInt16
  | .openTo stream _ _ => stream
  | .openOk stream => stream
  | .openErr stream _ => stream
  | .data stream _ => stream
  | .close stream => stream
  | .rst stream => stream
  | .window stream _ => stream

structure Decoded where
  frame : EgressFrame
  consumed : Nat
deriving DecidableEq, Repr

inductive EgressCodecError where
  | unsupportedVersion (ver : UInt8)
  | unknownType (ty : UInt8)
  | badLength (frameType : UInt8) (len : UInt16)
  | hostTooLong (n : Nat)
  | payloadTooLong (n : Nat)
deriving DecidableEq, Repr

/-! ## Little-endian integers -/

def u16ToLeBytes (x : UInt16) : Bytes :=
  [UInt8.ofNat (x.toNat % 256), UInt8.ofNat (x.toNat / 256)]

def u16FromLeBytes (a b : UInt8) : UInt16 := UInt16.ofNat (a.toNat + 256 * b.toNat)

def u32ToLeBytes (x : UInt32) : Bytes :=
  [UInt8.ofNat (x.toNat % 256), UInt8.ofNat (x.toNat / 256 % 256),
    UInt8.ofNat (x.toNat / 65536 % 256), UInt8.ofNat (x.toNat / 16777216)]

def u32FromLeBytes (a b c d : UInt8) : UInt32 :=
  UInt32.ofNat (a.toNat + 256 * b.toNat + 65536 * c.toNat + 16777216 * d.toNat)

/-! ## Encoding -/

/-- Write the header onto `out`; a `len` past the `u16` field is refused before
any byte is written. -/
def writeHeader (out : Bytes) (ty : UInt8) (stream : UInt16) (len : Nat) :
    Except EgressCodecError Unit × Bytes :=
  if len ≤ 65535 then
    (.ok (), out ++ [EGRESS_VERSION, ty] ++ u16ToLeBytes stream ++ u16ToLeBytes (UInt16.ofNat len))
  else
    (.error (.payloadTooLong len), out)

/-- Append a payload after a header that was written. -/
def withPayload (r : Except EgressCodecError Unit × Bytes) (payload : Bytes) :
    Except EgressCodecError Unit × Bytes :=
  match r with
  | (.ok (), out) => (.ok (), out ++ payload)
  | (.error e, out) => (.error e, out)

def encode (frame : EgressFrame) (out : Bytes) : Except EgressCodecError Unit × Bytes :=
  match frame with
  | .openTo stream port host =>
    if host.length > EGRESS_MAX_HOST_LEN then
      (.error (.hostTooLong host.length), out)
    else
      withPayload (writeHeader out T_OPEN stream (2 + host.length)) (u16ToLeBytes port ++ host)
  | .openOk stream => writeHeader out T_OPEN_OK stream 0
  | .openErr stream reason => withPayload (writeHeader out T_OPEN_ERR stream 1) [reason.code]
  | .data stream payload =>
    if payload.length > EGRESS_MAX_PAYLOAD then
      (.error (.payloadTooLong payload.length), out)
    else
      withPayload (writeHeader out T_DATA stream payload.length) payload
  | .close stream => writeHeader out T_CLOSE stream 0
  | .rst stream => writeHeader out T_RST stream 0
  | .window stream credit => withPayload (writeHeader out T_WINDOW stream 4) (u32ToLeBytes credit)

/-! ## Decoding -/

/-- The frame of a complete header and payload. -/
def decodePayload (ty : UInt8) (stream len : UInt16) (payload : Bytes) :
    Except EgressCodecError EgressFrame :=
  if ty = T_OPEN then
    match payload with
    | a :: b :: host =>
      if host.length > EGRESS_MAX_HOST_LEN then .error (.badLength ty len)
      else .ok (.openTo stream (u16FromLeBytes a b) host)
    | _ => .error (.badLength ty len)
  else if ty = T_OPEN_OK then
    if len ≠ 0 then .error (.badLength ty len) else .ok (.openOk stream)
  else if ty = T_OPEN_ERR then
    match payload with
    | [a] => .ok (.openErr stream (EgressReason.fromCode a))
    | _ => .error (.badLength ty len)
  else if ty = T_DATA then
    .ok (.data stream payload)
  else if ty = T_CLOSE then
    if len ≠ 0 then .error (.badLength ty len) else .ok (.close stream)
  else if ty = T_RST then
    if len ≠ 0 then .error (.badLength ty len) else .ok (.rst stream)
  else if ty = T_WINDOW then
    match payload with
    | [a, b, c, d] => .ok (.window stream (u32FromLeBytes a b c d))
    | _ => .error (.badLength ty len)
  else
    .error (.unknownType ty)

/-- Decode the frame at the front of `input`: `none` when more bytes are needed.
A bad version is refused as soon as the first byte is there. -/
def decode (input : Bytes) : Except EgressCodecError (Option Decoded) :=
  match input with
  | [] => .ok none
  | ver :: rest =>
    if ver ≠ EGRESS_VERSION then .error (.unsupportedVersion ver)
    else
      match rest with
      | ty :: s0 :: s1 :: l0 :: l1 :: body =>
        let len := u16FromLeBytes l0 l1
        if body.length < len.toNat then .ok none
        else
          match decodePayload ty (u16FromLeBytes s0 s1) len (body.take len.toNat) with
          | .ok frame => .ok (some ⟨frame, EGRESS_HEADER_LEN + len.toNat⟩)
          | .error e => .error e
      | _ => .ok none

/-! ## Facts the users of the codec need -/

theorem encode_append (frame : EgressFrame) (out : Bytes) :
    encode frame out = ((encode frame []).1, out ++ (encode frame []).2) := by
  cases frame <;> simp only [encode, writeHeader, withPayload] <;> split_ifs <;> simp

theorem encode_ok_of_small {frame : EgressFrame} (out : Bytes)
    (hopen : ∀ stream port host, frame ≠ .openTo stream port host)
    (hdata : ∀ stream payload, frame = .data stream payload → payload.length ≤ EGRESS_MAX_PAYLOAD) :
    (encode frame out).1 = .ok () := by
  cases frame with
  | openTo stream port host => exact absurd rfl (hopen stream port host)
  | data stream payload =>
    have hlen := hdata stream payload rfl
    simp only [EGRESS_MAX_PAYLOAD] at hlen
    simp [encode, writeHeader, withPayload, EGRESS_MAX_PAYLOAD, hlen, Nat.not_lt.mpr hlen]
  | _ => simp [encode, writeHeader, withPayload]

end Tdvmm.Proto
