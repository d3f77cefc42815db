import Tdvmm.Proto.Egress

/-!
# Proto.Codec — encoding and decoding of mux frames are inverse

Every frame has a type byte and a payload; an encoding is a header followed by the payload, and
a decoding is a header, enough bytes behind it, and a payload that is legal for the type. Both
directions of the codec, its stability under more input and its silence on proper prefixes
follow from these two descriptions.
-/

namespace Tdvmm.Proto

/-! ## Little-endian fields -/

section LittleEndian

variable (a b c d : UInt8)

theorem u16FromLeBytes_toNat : (u16FromLeBytes a b).toNat = a.toNat + 256 * b.toNat := by
  have ha := a.toNat_lt
  have hb := b.toNat_lt
  simp only [u16FromLeBytes, UInt16.toNat_ofNat']
  omega

theorem u16_of_leBytes (x : UInt16) :
    u16FromLeBytes (UInt8.ofNat (x.toNat % 256)) (UInt8.ofNat (x.toNat / 256)) = x := by
  have hx := x.toNat_lt
  apply UInt16.toNat_inj.mp
  rw [u16FromLeBytes_toNat]
  simp only [UInt8.toNat_ofNat']
  omega

theorem leBytes_of_u16 : u16ToLeBytes (u16FromLeBytes a b) = [a, b] := by
  have ha := a.toNat_lt
  unfold u16ToLeBytes
  rw [u16FromLeBytes_toNat]
  have hlow : (a.toNat + 256 * b.toNat) % 256 = a.toNat := by omega
  have hhigh : (a.toNat + 256 * b.toNat) / 256 = b.toNat := by omega
  rw [hlow, hhigh, UInt8.ofNat_toNat, UInt8.ofNat_toNat]

theorem u32FromLeBytes_toNat :
    (u32FromLeBytes a b c d).toNat =
      a.toNat + 256 * b.toNat + 65536 * c.toNat + 16777216 * d.toNat := by
  have ha := a.toNat_lt
  have hb := b.toNat_lt
  have hc := c.toNat_lt
  have hd := d.toNat_lt
  simp only [u32FromLeBytes, UInt32.toNat_ofNat']
  omega

theorem u32_of_leBytes (x : UInt32) :
    u32FromLeBytes (UInt8.ofNat (x.toNat % 256)) (UInt8.ofNat (x.toNat / 256 % 256))
      (UInt8.ofNat (x.toNat / 65536 % 256)) (UInt8.ofNat (x.toNat / 16777216)) = x := by
  have hx := x.toNat_lt
  apply UInt32.toNat_inj.mp
  rw [u32FromLeBytes_toNat]
  simp only [UInt8.toNat_ofNat']
  omega

theorem leBytes_of_u32 : u32ToLeBytes (u32FromLeBytes a b c d) = [a, b, c, d] := by
  have ha := a.toNat_lt
  have hb := b.toNat_lt
  have hc := c.toNat_lt
  have hd := d.toNat_lt
  unfold u32ToLeBytes
  rw [u32FromLeBytes_toNat]
  generalize hn : a.toNat + 256 * b.toNat + 65536 * c.toNat + 16777216 * d.toNat = n
  have h₀ : n % 256 = a.toNat := by omega
  have h₁ : n / 256 % 256 = b.toNat := by omega
  have h₂ : n / 65536 % 256 = c.toNat := by omega
  have h₃ : n / 16777216 = d.toNat := by omega
  rw [h₀, h₁, h₂, h₃]
  simp only [UInt8.ofNat_toNat]

end LittleEndian

/-! ## What a frame is on the wire -/

namespace EgressFrame

def wireType : EgressFrame → UInt8
  | .openTo _ _ _ => T_OPEN
  | .openOk _ => T_OPEN_OK
  | .openErr _ _ => T_OPEN_ERR
  | .data _ _ => T_DATA
  | .close _ => T_CLOSE
  | .rst _ => T_RST
  | .window _ _ => T_WINDOW

def wirePayload : EgressFrame → Bytes
  | .openTo _ port host => u16ToLeBytes port ++ host
  | .openErr _ reason => [reason.code]
  | .data _ payload => payload
  | .window _ credit => u32ToLeBytes credit
  | _ => []

/-- The frames that encoding accepts. -/
def Encodable : EgressFrame → Prop
  | .openTo _ _ host => host.length ≤ EGRESS_MAX_HOST_LEN
  | .data _ payload => payload.length ≤ EGRESS_MAX_PAYLOAD
  | _ => True

/-- A reason that is spelled by its own name when it has one. -/
def Canonical : EgressFrame → Prop
  | .openErr _ (.other code) => 6 ≤ code
  | _ => True

end EgressFrame

def header (ty : UInt8) (stream : UInt16) (len : Nat) : Bytes :=
  [EGRESS_VERSION, ty] ++ u16ToLeBytes stream ++ u16ToLeBytes (UInt16.ofNat len)

section Wire

variable {f : EgressFrame} {input p q : Bytes} {d : Decoded} {e : EgressCodecError}

@[simp] theorem length_header (ty : UInt8) (stream : UInt16) (len : Nat) :
    (header ty stream len).length = 6 := rfl

theorem length_wirePayload (h : f.Encodable) : f.wirePayload.length ≤ 65535 := by
  cases f with
  | openTo stream port host =>
    have hhost : host.length ≤ 255 := h
    simp only [EgressFrame.wirePayload, u16ToLeBytes, List.length_append, List.length_cons,
      List.length_nil]
    omega
  | data stream payload => exact h
  | _ => simp [EgressFrame.wirePayload, u32ToLeBytes]

theorem encode_of_encodable (h : f.Encodable) :
    encode f [] = (.ok (), header f.wireType f.stream f.wirePayload.length ++ f.wirePayload) := by
  have hlen := length_wirePayload h
  cases f with
  | openTo stream port host =>
    have hhost : ¬ host.length > EGRESS_MAX_HOST_LEN := Nat.not_lt.mpr h
    have htotal : (u16ToLeBytes port ++ host).length = 2 + host.length := by
      simp only [u16ToLeBytes, List.length_append, List.length_cons, List.length_nil]
    simp only [EgressFrame.wirePayload, htotal] at hlen
    simp only [encode, hhost, if_false, writeHeader, hlen, if_true, withPayload,
      EgressFrame.wirePayload, htotal]
    rfl
  | data stream payload =>
    have hpay : ¬ payload.length > EGRESS_MAX_PAYLOAD := Nat.not_lt.mpr h
    simp only [EgressFrame.wirePayload] at hlen
    simp only [encode, hpay, if_false, writeHeader, hlen, if_true, withPayload,
      EgressFrame.wirePayload]
    rfl
  | _ => rfl

theorem encode_of_not_encodable (h : ¬ f.Encodable) (out : Bytes) :
    ∃ e, encode f out = (.error e, out) := by
  cases f with
  | openTo stream port host =>
    have hhost : host.length > EGRESS_MAX_HOST_LEN := Nat.not_le.mp h
    exact ⟨.hostTooLong host.length, by simp only [encode, hhost, if_true]⟩
  | data stream payload =>
    have hpay : payload.length > EGRESS_MAX_PAYLOAD := Nat.not_le.mp h
    exact ⟨.payloadTooLong payload.length, by simp only [encode, hpay, if_true]⟩
  | _ => exact absurd trivial h

theorem encodable_iff (out : Bytes) : f.Encodable ↔ (encode f out).1 = .ok () := by
  constructor
  · intro h
    rw [encode_append, encode_of_encodable h]
  · intro hok
    by_contra h
    obtain ⟨e, he⟩ := encode_of_not_encodable h out
    rw [he] at hok
    cases hok

/-! ## The payload -/

theorem fromCode_code {reason : EgressReason}
    (h : ∀ code, reason = .other code → 6 ≤ code) : EgressReason.fromCode reason.code = reason := by
  cases reason with
  | other code =>
    have hcode : 6 ≤ code.toNat := UInt8.le_iff_toNat_le.mp (h code rfl)
    have hne : ∀ n : UInt8, n.toNat < 6 → code ≠ n := by
      rintro n hn rfl
      omega
    simp only [EgressReason.fromCode, EgressReason.code, hne 0 (by decide), hne 1 (by decide),
      hne 2 (by decide), hne 3 (by decide), hne 4 (by decide), hne 5 (by decide), if_false]
  | _ => rfl

theorem code_fromCode (a : UInt8) : (EgressReason.fromCode a).code = a := by
  unfold EgressReason.fromCode
  split_ifs with h₀ h₁ h₂ h₃ h₄ h₅
  · exact h₀.symm
  · exact h₁.symm
  · exact h₂.symm
  · exact h₃.symm
  · exact h₄.symm
  · exact h₅.symm
  · rfl

theorem decodePayload_wirePayload (h : f.Encodable) (hcanon : f.Canonical) :
    decodePayload f.wireType f.stream (UInt16.ofNat f.wirePayload.length) f.wirePayload =
      .ok f := by
  cases f with
  | openTo stream port host =>
    have hhost : ¬ host.length > EGRESS_MAX_HOST_LEN := Nat.not_lt.mpr h
    simp only [decodePayload, EgressFrame.wireType, EgressFrame.wirePayload, u16ToLeBytes,
      List.cons_append, List.nil_append, if_true, hhost, if_false, u16_of_leBytes]
    rfl
  | openErr stream reason =>
    have hreason : EgressReason.fromCode reason.code = reason := by
      apply fromCode_code
      rintro code rfl
      exact hcanon
    simp [decodePayload, EgressFrame.wireType, EgressFrame.wirePayload, EgressFrame.stream,
      hreason, T_OPEN, T_OPEN_OK, T_OPEN_ERR]
  | window stream credit =>
    simp [decodePayload, EgressFrame.wireType, EgressFrame.wirePayload, EgressFrame.stream,
      u32ToLeBytes, u32_of_leBytes, T_OPEN, T_OPEN_OK, T_OPEN_ERR, T_DATA, T_CLOSE, T_RST,
      T_WINDOW]
  | _ => rfl

theorem decodePayload_ok {ty : UInt8} {stream len : UInt16} {payload : Bytes}
    (hlen : payload.length = len.toNat) (h : decodePayload ty stream len payload = .ok f) :
    f.wireType = ty ∧ f.stream = stream ∧ f.wirePayload = payload ∧ f.Encodable := by
  have hempty : len = 0 → payload = [] := by
    rintro rfl
    exact List.length_eq_zero_iff.mp hlen
  unfold decodePayload at h
  split_ifs at h with h₁ h₂ h₂' h₃ h₄ h₅ h₅' h₆ h₆' h₇
  · -- OPEN
    split at h
    · rename_i a b host
      split_ifs at h with hhost
      cases h
      refine ⟨h₁.symm, rfl, ?_, Nat.not_lt.mp hhost⟩
      rw [EgressFrame.wirePayload, leBytes_of_u16]
      rfl
    · cases h
  · -- OPEN_OK
    cases h
    exact ⟨h₂.symm, rfl, (hempty (not_not.mp h₂')).symm, trivial⟩
  · -- OPEN_ERR
    split at h
    · cases h
      refine ⟨h₃.symm, rfl, ?_, trivial⟩
      rw [EgressFrame.wirePayload, code_fromCode]
    · cases h
  · -- DATA
    cases h
    refine ⟨h₄.symm, rfl, rfl, ?_⟩
    have hlt := len.toNat_lt
    show payload.length ≤ 65535
    omega
  · -- CLOSE
    cases h
    exact ⟨h₅.symm, rfl, (hempty (not_not.mp h₅')).symm, trivial⟩
  · -- RST
    cases h
    exact ⟨h₆.symm, rfl, (hempty (not_not.mp h₆')).symm, trivial⟩
  · -- WINDOW
    split at h
    · cases h
      refine ⟨h₇.symm, rfl, ?_, trivial⟩
      rw [EgressFrame.wirePayload, leBytes_of_u32]
    · cases h

/-! ## Decoding -/

theorem decode_header (ty : UInt8) (stream : UInt16) {len : Nat} (hlen : len ≤ 65535)
    (body : Bytes) :
    decode (header ty stream len ++ body) =
      if body.length < len then .ok none
      else
        match decodePayload ty stream (UInt16.ofNat len) (body.take len) with
        | .ok frame => .ok (some ⟨frame, EGRESS_HEADER_LEN + len⟩)
        | .error e => .error e := by
  have hnat : (UInt16.ofNat len).toNat = len := by
    rw [UInt16.toNat_ofNat']
    omega
  have hread := u16_of_leBytes (UInt16.ofNat len)
  rw [hnat] at hread
  cases hpayload : decodePayload ty stream (UInt16.ofNat len) (body.take len) <;>
    simp only [header, u16ToLeBytes, List.cons_append, List.nil_append, decode, ne_eq,
      not_true_eq_false, if_false, u16_of_leBytes, hnat, hread, hpayload]

/-- The bytes that `decode` says something about: a wrong version, or a header with all that its
length announces. -/
theorem decode_cases (input : Bytes) :
    (∃ ver rest, input = ver :: rest ∧ ver ≠ EGRESS_VERSION ∧
      decode input = .error (.unsupportedVersion ver)) ∨
    (∃ ty stream len body, input = header ty stream len ++ body ∧ len ≤ 65535 ∧
      len ≤ body.length) ∨
    decode input = .ok none := by
  cases input with
  | nil => exact .inr (.inr rfl)
  | cons ver rest =>
    by_cases hver : ver = EGRESS_VERSION
    · subst hver
      right
      match rest with
      | ty :: s₀ :: s₁ :: l₀ :: l₁ :: body =>
        have hlt := (u16FromLeBytes l₀ l₁).toNat_lt
        have hsplit : EGRESS_VERSION :: ty :: s₀ :: s₁ :: l₀ :: l₁ :: body =
            header ty (u16FromLeBytes s₀ s₁) (u16FromLeBytes l₀ l₁).toNat ++ body := by
          simp only [header, leBytes_of_u16, UInt16.ofNat_toNat]
          rfl
        rw [hsplit, decode_header _ _ (by omega)]
        by_cases hbody : body.length < (u16FromLeBytes l₀ l₁).toNat
        · right
          rw [if_pos hbody]
        · exact .inl ⟨_, _, _, _, rfl, by omega, by omega⟩
      | [] | [_] | [_, _] | [_, _, _] | [_, _, _, _] => exact .inr rfl
    · left
      refine ⟨ver, rest, rfl, hver, ?_⟩
      simp only [decode, ne_eq, hver, not_false_eq_true, if_true]

theorem decode_encode (h : f.Encodable) (hcanon : f.Canonical) (suffix : Bytes) :
    decode ((encode f []).2 ++ suffix) = .ok (some ⟨f, (encode f []).2.length⟩) := by
  rw [encode_of_encodable h, List.append_assoc, decode_header _ _ (length_wirePayload h)]
  have hlong : ¬ (f.wirePayload ++ suffix).length < f.wirePayload.length := by
    rw [List.length_append]
    omega
  rw [if_neg hlong, List.take_left, decodePayload_wirePayload h hcanon]
  simp [EGRESS_HEADER_LEN]

theorem decode_some (h : decode input = .ok (some d)) :
    ∃ ty stream len body, input = header ty stream len ++ body ∧ len ≤ 65535 ∧
      len ≤ body.length ∧ d.consumed = EGRESS_HEADER_LEN + len ∧
      decodePayload ty stream (UInt16.ofNat len) (body.take len) = .ok d.frame := by
  rcases decode_cases input with ⟨ver, rest, _, _, herr⟩ | ⟨ty, stream, len, body, rfl, hlen, hbody⟩
    | hnone
  · rw [herr] at h
    cases h
  · rw [decode_header _ _ hlen, if_neg (Nat.not_lt.mpr hbody)] at h
    split at h
    · rename_i frame hpay
      cases h
      exact ⟨ty, stream, len, body, rfl, hlen, hbody, rfl, hpay⟩
    · cases h
  · rw [hnone] at h
    cases h

theorem encode_decode (h : decode input = .ok (some d)) :
    encode d.frame [] = (.ok (), input.take d.consumed) := by
  obtain ⟨ty, stream, len, body, rfl, hlen, hbody, hconsumed, hpay⟩ := decode_some h
  have hnat : (UInt16.ofNat len).toNat = len := by
    rw [UInt16.toNat_ofNat']
    omega
  have htake : (body.take len).length = (UInt16.ofNat len).toNat := by
    rw [List.length_take, hnat]
    omega
  obtain ⟨hty, hstream, hpayload, henc⟩ := decodePayload_ok htake hpay
  rw [encode_of_encodable henc, hty, hstream, hpayload, htake, hnat, hconsumed]
  have hcut : (header ty stream len ++ body).take (EGRESS_HEADER_LEN + len) =
      header ty stream len ++ body.take len := by
    show (header ty stream len ++ body).take ((header ty stream len).length + len) = _
    rw [List.take_length_add_append]
  rw [hcut]

theorem decode_bounds (h : decode input = .ok (some d)) :
    0 < d.consumed ∧ d.consumed ≤ input.length := by
  obtain ⟨ty, stream, len, body, rfl, -, hbody, hconsumed, -⟩ := decode_some h
  rw [hconsumed, List.length_append, length_header]
  unfold EGRESS_HEADER_LEN
  omega

theorem decode_append (h : decode input ≠ .ok none) (more : Bytes) :
    decode (input ++ more) = decode input := by
  rcases decode_cases input with ⟨ver, rest, rfl, hver, herr⟩ |
    ⟨ty, stream, len, body, rfl, hlen, hbody⟩ | hnone
  · rw [herr]
    simp only [List.cons_append, decode, ne_eq, hver, not_false_eq_true, if_true]
  · have hmore : ¬ (body ++ more).length < len := by
      rw [List.length_append]
      omega
    rw [List.append_assoc, decode_header _ _ hlen, decode_header _ _ hlen, if_neg hmore,
      if_neg (Nat.not_lt.mpr hbody), List.take_append_of_le_length hbody]
  · exact absurd hnone h

theorem decode_proper_prefix (h : f.Encodable) (hsplit : (encode f []).2 = p ++ q) (hq : q ≠ []) :
    decode p = .ok none := by
  by_contra hsays
  have hlen : p.length < (encode f []).2.length := by
    rw [hsplit, List.length_append]
    have := List.length_pos_iff.mpr hq
    omega
  rw [encode_of_encodable h] at hsplit hlen
  simp only [List.length_append, length_header] at hlen
  rcases decode_cases p with ⟨ver, rest, rfl, hver, -⟩ | ⟨ty, stream, len, body, rfl, hl, hbody⟩ |
    hnone
  · -- the first byte is the version
    have hfirst : EGRESS_VERSION = ver := (List.cons.inj hsplit).1
    exact hver hfirst.symm
  · -- the header is that of the frame, so the length it announces is not reached
    have hheads : header f.wireType f.stream f.wirePayload.length = header ty stream len := by
      rw [List.append_assoc] at hsplit
      exact List.append_inj_left hsplit rfl
    have hfield : u16ToLeBytes (UInt16.ofNat f.wirePayload.length) =
        u16ToLeBytes (UInt16.ofNat len) := congrArg (List.drop 4) hheads
    have hsame : UInt16.ofNat f.wirePayload.length = UInt16.ofNat len := by
      simp only [u16ToLeBytes, List.cons.injEq, and_true] at hfield
      rw [← u16_of_leBytes (UInt16.ofNat f.wirePayload.length), hfield.1, hfield.2, u16_of_leBytes]
    have hpay := length_wirePayload h
    have heq := congrArg UInt16.toNat hsame
    simp only [UInt16.toNat_ofNat', List.length_append, length_header] at heq hlen
    omega
  · exact hsays hnone

end Wire

/-- The codec is a bijection between frames and their encodings: encoding and decoding undo each
other in both directions, an answer is stable under more input, a proper prefix of an encoding
has no answer, and what cannot be encoded leaves the output alone. -/
theorem codec_bijective :
    (∀ (f : EgressFrame) (suffix : Bytes), (encode f []).1 = .ok () → f.Canonical →
      decode ((encode f []).2 ++ suffix) = .ok (some ⟨f, (encode f []).2.length⟩)) ∧
    (∀ (input : Bytes) (d : Decoded), decode input = .ok (some d) →
      encode d.frame [] = (.ok (), input.take d.consumed)) ∧
    (∀ input more : Bytes, decode input ≠ .ok none → decode (input ++ more) = decode input) ∧
    (∀ (f : EgressFrame) (p q : Bytes), (encode f []).1 = .ok () → (encode f []).2 = p ++ q →
      q ≠ [] → decode p = .ok none) ∧
    (∀ (f : EgressFrame) (out : Bytes), (encode f out).1 ≠ .ok () → (encode f out).2 = out) := by
  refine ⟨?_, ?_, ?_, ?_, ?_⟩
  · intro f suffix hok hcanon
    exact decode_encode ((encodable_iff []).mpr hok) hcanon suffix
  · intro input d h
    exact encode_decode h
  · intro input more h
    exact decode_append h more
  · intro f p q hok hsplit hq
    exact decode_proper_prefix ((encodable_iff []).mpr hok) hsplit hq
  · intro f out hfail
    obtain ⟨e, he⟩ := encode_of_not_encodable (mt (encodable_iff out).mp hfail) out
    rw [he]

/-- A `DATA` frame, with the first bytes of another frame behind it. -/
theorem codec_bijective_data :
    (encode (.data 7 [104, 105]) []).1 = .ok () ∧
      decode ((encode (.data 7 [104, 105]) []).2 ++ [1, 5]) = .ok (some ⟨.data 7 [104, 105], 8⟩) :=
  ⟨by decide, codec_bijective.1 (.data 7 [104, 105]) [1, 5] (by decide) trivial⟩

end Tdvmm.Proto
