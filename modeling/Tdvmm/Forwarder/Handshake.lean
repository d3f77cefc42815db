import Tdvmm.Egress.Intake
import Tdvmm.Forwarder.Socks
import Tdvmm.Proto.Codec

/-!
# Forwarder.Handshake — the handshakes that succeed

`Handshake` is the grammar of a greeting that offers no authentication and a `CONNECT`. A part
of the negotiation takes a piece of the client's bytes off the front (`Takes`), so the whole
takes exactly a handshake (`negotiate_iff`).

What it accepts is within the limits of the rest of the way: the `OPEN` frame can be encoded,
is decoded to the same destination, and the host has no reason to call it malformed
(`socks_open`).
-/

namespace Tdvmm.Forwarder

open Lib Lib.Eff Proto Egress

/-! ## The grammar -/

inductive Address where
  | v4 (a : Bytes) (size : a.length = 4)
  | domain (len : UInt8) (name : Bytes) (size : name.length = len.toNat) (named : name ≠ [])
      (utf8 : utf8Valid name = true)
  | v6 (a : Bytes) (size : a.length = 16)

namespace Address

/-- `ATYP` and `DST.ADDR`. -/
def wire : Address → Bytes
  | v4 a _ => 0x01 :: a
  | domain len name _ _ _ => 0x03 :: len :: name
  | v6 a _ => 0x04 :: a

def host : Address → { host : Bytes // utf8Valid host = true }
  | v4 a _ => ⟨formatV4 a, formatV4_utf8 a⟩
  | domain _ name _ _ utf8 => ⟨name, utf8⟩
  | v6 a _ => ⟨formatV6 a, formatV6_utf8 a⟩

end Address

def portOf (p0 p1 : UInt8) : UInt16 := UInt16.ofNat (256 * p0.toNat + p1.toNat)

/-- A greeting that offers no authentication, and a `CONNECT`. -/
structure Handshake where
  nmethods : UInt8
  methods : Bytes
  count : methods.length = nmethods.toNat
  noAuth : 0x00 ∈ methods
  rsv : UInt8
  address : Address
  p0 : UInt8
  p1 : UInt8
  port : portOf p0 p1 ≠ 0

namespace Handshake

def wire (h : Handshake) : Bytes :=
  [0x05, h.nmethods] ++ h.methods ++ [0x05, 0x01, h.rsv] ++ h.address.wire ++ [h.p0, h.p1]

def target (h : Handshake) : Socks5Target := ⟨h.address.host.1, portOf h.p0 h.p1, h.address.host.2⟩

end Handshake

/-! ## What a part of the negotiation takes -/

section Takes

variable {α β : Type}

/-- The part succeeds exactly by taking bytes off the front that `P` relates to its result, and
writes nothing. -/
def Takes (m : SocksM α) (P : Bytes → α → Prop) : Prop :=
  ∀ c a c', m.run c = (.ok a, c') ↔ ∃ bytes, P bytes a ∧ c = ⟨bytes ++ c'.unread, c'.written⟩

theorem takes_pure (a : α) : Takes (pure a) fun bytes b => bytes = [] ∧ b = a := by
  intro c b c'
  rw [run_pure]
  constructor
  · intro h
    obtain ⟨hb, rfl⟩ := Prod.mk.inj h
    exact ⟨[], ⟨rfl, (Except.ok.inj hb).symm⟩, rfl⟩
  · rintro ⟨bytes, ⟨rfl, rfl⟩, rfl⟩
    rfl

theorem takes_fail (e : SocksError) : Takes (Eff.fail e : SocksM α) fun _ _ => False := by
  intro c b c'
  simp

theorem takes_readU8 : Takes readU8 fun bytes b => bytes = [b] := by
  rintro ⟨unread, written⟩ b ⟨unread', written'⟩
  rcases unread with _ | ⟨x, rest⟩
  · simp [readU8, Eff.run]
  · simp [readU8, Eff.run, and_assoc]

theorem Takes.bind {m : SocksM α} {f : α → SocksM β} {P : Bytes → α → Prop}
    {Q : α → Bytes → β → Prop} (hm : Takes m P) (hf : ∀ a, Takes (f a) (Q a)) :
    Takes (m >>= f) fun bytes b =>
      ∃ front a back, P front a ∧ Q a back b ∧ bytes = front ++ back := by
  intro c b c'
  constructor
  · intro h
    obtain ⟨a, c₁, hrun, hrest⟩ := ok_bind (congrArg Prod.fst h)
    rw [hrest] at h
    obtain ⟨front, hP, rfl⟩ := (hm _ _ _).mp hrun
    obtain ⟨back, hQ, rfl⟩ := (hf a _ _ _).mp h
    exact ⟨front ++ back, ⟨front, a, back, hP, hQ, rfl⟩, by simp⟩
  · rintro ⟨bytes, ⟨front, a, back, hP, hQ, rfl⟩, rfl⟩
    have hrun : m.run ⟨front ++ back ++ c'.unread, c'.written⟩ =
        (.ok a, ⟨back ++ c'.unread, c'.written⟩) := (hm _ _ _).mpr ⟨front, hP, by simp⟩
    rw [run_bind_ok hrun]
    exact (hf a _ _ _).mpr ⟨back, hQ, rfl⟩

theorem Takes.congr {m : SocksM α} {P Q : Bytes → α → Prop} (h : Takes m P)
    (hiff : ∀ bytes a, P bytes a ↔ Q bytes a) : Takes m Q := by
  intro c a c'
  simp only [h c a c', hiff]

theorem takes_readExact (n : Nat) :
    Takes (readExact n) fun bytes bs => bytes = bs ∧ bs.length = n := by
  induction n with
  | zero =>
    refine (takes_pure []).congr fun bytes bs => ?_
    rw [List.length_eq_zero_iff]
    constructor
    · rintro ⟨rfl, rfl⟩
      exact ⟨rfl, rfl⟩
    · rintro ⟨rfl, rfl⟩
      exact ⟨rfl, rfl⟩
  | succ n ih =>
    refine (takes_readU8.bind fun b => ih.bind fun bs => takes_pure (b :: bs)).congr
      fun bytes bs => ?_
    constructor
    · rintro ⟨_, b, _, rfl, ⟨_, bs', _, ⟨rfl, rfl⟩, ⟨rfl, rfl⟩, rfl⟩, rfl⟩
      simp
    · rintro ⟨rfl, hlength⟩
      obtain ⟨b, bs', rfl⟩ := List.exists_cons_of_length_eq_add_one hlength
      exact ⟨[b], b, bs', rfl, ⟨bs', bs', [], ⟨rfl, by simpa using hlength⟩, ⟨rfl, rfl⟩, by simp⟩,
        rfl⟩

theorem Takes.ite {c : Prop} [Decidable c] {m m' : SocksM α} {P Q : Bytes → α → Prop}
    (hm : Takes m P) (hm' : Takes m' Q) :
    Takes (if c then m else m') fun bytes a => if c then P bytes a else Q bytes a := by
  split_ifs
  · exact hm
  · exact hm'

end Takes

/-! ## Addresses -/

theorem formatNat_ne_nil (base width n : Nat) : formatNat base (width + 1) n ≠ [] := by
  unfold formatNat
  split_ifs <;> simp

theorem length_formatNat (base width n : Nat) : (formatNat base width n).length ≤ width := by
  induction width generalizing n with
  | zero => simp [formatNat]
  | succ width ih =>
    unfold formatNat
    split_ifs
    · simp
    · rw [List.length_append]
      exact Nat.succ_le_succ (ih _)

theorem intercalate_formatNat (sep : UInt8) (base width : Nat) {ns : List Nat} (h : ns ≠ []) :
    [sep].intercalate (ns.map (formatNat base (width + 1))) ≠ [] ∧
      ([sep].intercalate (ns.map (formatNat base (width + 1)))).length ≤
        (width + 2) * ns.length := by
  induction ns with
  | nil => exact absurd rfl h
  | cons n ns ih =>
    have hlength := length_formatNat base (width + 1) n
    rcases ns with _ | ⟨m, ns⟩
    · simp only [List.map_cons, List.map_nil, List.intercalate_singleton, List.length_singleton]
      exact ⟨formatNat_ne_nil _ _ _, by omega⟩
    · have hrest := (ih (by simp)).2
      simp only [List.map_cons, List.intercalate_cons_cons] at hrest ⊢
      refine ⟨by simp, ?_⟩
      simp only [List.length_append, List.length_cons, List.length_nil] at hrest ⊢
      rw [Nat.mul_add (width + 2) (ns.length + 1) 1]
      omega

theorem length_segments {a : Bytes} {n : Nat} (h : a.length = 2 * n) : (segments a).length = n := by
  induction n generalizing a with
  | zero => rw [List.length_eq_zero_iff.mp h]; rfl
  | succ n ih =>
    rcases a with _ | ⟨x, _ | ⟨y, rest⟩⟩
    · simp at h
    · simp at h
      omega
    · simp only [segments, List.length_cons]
      rw [ih (by simp only [List.length_cons] at h; omega)]

theorem Address.host_size (a : Address) :
    a.host.1 ≠ [] ∧ a.host.1.length ≤ EGRESS_MAX_HOST_LEN := by
  rcases a with ⟨a, hsize⟩ | ⟨len, name, hsize, hnamed, -⟩ | ⟨a, hsize⟩
  · have h := @intercalate_formatNat 46 10 2 (a.map (·.toNat)) (by
      intro h
      simp [List.map_eq_nil_iff.mp h] at hsize)
    rw [List.map_map, List.length_map, hsize] at h
    exact ⟨h.1, h.2.trans (by decide)⟩
  · have hlen := len.toNat_lt
    exact ⟨hnamed, by simp only [Address.host, EGRESS_MAX_HOST_LEN]; omega⟩
  · have hcount : (segments a).length = 8 := length_segments hsize
    have h := @intercalate_formatNat 58 16 3 ((segments a).map (·.toNat)) (by
      intro h
      simp [List.map_eq_nil_iff.mp h] at hcount)
    rw [List.map_map, List.length_map, hcount] at h
    exact ⟨h.1, h.2.trans (by decide)⟩

theorem takes_fixed {α : Type} (n : Nat) (f : Bytes → α) :
    Takes (readExact n >>= fun a => pure (f a)) fun bytes b => bytes.length = n ∧ b = f bytes := by
  refine ((takes_readExact n).bind fun a => takes_pure (f a)).congr fun bytes b => ?_
  constructor
  · rintro ⟨a, _, _, ⟨rfl, hsize⟩, ⟨rfl, rfl⟩, rfl⟩
    simpa using hsize
  · rintro ⟨hsize, rfl⟩
    exact ⟨bytes, bytes, [], ⟨rfl, hsize⟩, ⟨rfl, rfl⟩, by simp⟩

/-- The address that is read, or a domain name without a character. -/
theorem takes_readHost (atyp : UInt8) :
    Takes (readHost atyp) fun bytes host =>
      (∃ address : Address, atyp :: bytes = address.wire ∧ host = address.host) ∨
        atyp = 0x03 ∧ bytes = [0] ∧ host.1 = [] := by
  unfold readHost
  split_ifs with h1 h3 h4
  · -- an IPv4 address is four bytes
    subst h1
    refine (takes_fixed 4 _).congr fun bytes host => ?_
    constructor
    · rintro ⟨hsize, rfl⟩
      exact .inl ⟨.v4 bytes hsize, rfl, rfl⟩
    · rintro (⟨⟨a, hsize⟩ | _ | _, hwire, rfl⟩ | ⟨hatyp, -⟩)
      · obtain ⟨-, rfl⟩ := List.cons.inj hwire
        exact ⟨hsize, rfl⟩
      · simp [Address.wire] at hwire
      · simp [Address.wire] at hwire
      · simp at hatyp
  · -- a domain name comes with its length, which may be zero
    subst h3
    have hname (name : Bytes) : Takes (if h : utf8Valid name = true then pure ⟨name, h⟩
        else Eff.fail (.rejected SOCKS_GENERAL_FAILURE))
        fun bytes (host : { host : Bytes // utf8Valid host = true }) =>
          bytes = [] ∧ host.1 = name := by
      split_ifs with h
      · exact (takes_pure _).congr fun bytes host => and_congr_right fun _ => Subtype.ext_iff
      · exact (takes_fail _).congr fun bytes host => ⟨False.elim, fun ⟨_, heq⟩ => h (heq ▸ host.2)⟩
    refine (takes_readU8.bind fun len => (takes_readExact len.toNat).bind hname).congr
      fun bytes host => ?_
    constructor
    · rintro ⟨_, len, _, rfl, ⟨_, name, _, ⟨rfl, hsize⟩, ⟨rfl, rfl⟩, rfl⟩, rfl⟩
      by_cases hnamed : host.1 = []
      · refine .inr ⟨rfl, ?_, hnamed⟩
        have hlen : len = 0 := UInt8.toNat_inj.mp (by simpa [hnamed] using hsize.symm)
        simp [hnamed, hlen]
      · exact .inl ⟨.domain len host.1 hsize hnamed host.2, by simp [Address.wire], rfl⟩
    · rintro (⟨_ | ⟨len, name, hsize, hnamed, hutf8⟩ | _, hwire, rfl⟩ | ⟨-, rfl, hempty⟩)
      · simp [Address.wire] at hwire
      · obtain ⟨-, rfl⟩ := List.cons.inj hwire
        exact ⟨[len], len, name, rfl, ⟨name, name, [], ⟨rfl, hsize⟩, ⟨rfl, rfl⟩, by simp⟩, rfl⟩
      · simp [Address.wire] at hwire
      · exact ⟨[0], 0, [], rfl, ⟨[], [], [], ⟨rfl, rfl⟩, ⟨rfl, hempty⟩, rfl⟩, rfl⟩
  · -- an IPv6 address is sixteen
    subst h4
    refine (takes_fixed 16 _).congr fun bytes host => ?_
    constructor
    · rintro ⟨hsize, rfl⟩
      exact .inl ⟨.v6 bytes hsize, rfl, rfl⟩
    · rintro (⟨_ | _ | ⟨a, hsize⟩, hwire, rfl⟩ | ⟨hatyp, -⟩)
      · simp [Address.wire] at hwire
      · simp [Address.wire] at hwire
      · obtain ⟨-, rfl⟩ := List.cons.inj hwire
        exact ⟨hsize, rfl⟩
      · simp at hatyp
  · refine (takes_fail _).congr fun bytes host => ⟨False.elim, ?_⟩
    rintro (⟨_ | _ | _, hwire, -⟩ | ⟨hatyp, -⟩)
    · exact h1 (List.cons.inj hwire).1
    · exact h3 (List.cons.inj hwire).1
    · exact h4 (List.cons.inj hwire).1
    · exact h3 hatyp

/-! ## The negotiation -/

theorem takes_socks5Request :
    Takes socks5Request fun bytes t => ∃ (rsv : UInt8) (address : Address) (p0 p1 : UInt8),
      portOf p0 p1 ≠ 0 ∧ bytes = [0x05, 0x01, rsv] ++ address.wire ++ [p0, p1] ∧
        t = ⟨address.host.1, portOf p0 p1, address.host.2⟩ := by
  refine (takes_readU8.bind fun ver => takes_readU8.bind fun cmd => takes_readU8.bind fun rsv =>
    takes_readU8.bind fun atyp => Takes.ite (takes_fail _) (Takes.ite (takes_fail _)
      ((takes_readHost atyp).bind fun host => takes_readU8.bind fun p0 =>
        takes_readU8.bind fun p1 =>
        Takes.ite (takes_fail _) (takes_pure _)))).congr fun bytes t => ?_
  constructor
  · rintro ⟨_, ver, _, rfl,
      ⟨_, cmd, _, rfl, ⟨_, rsv, _, rfl, ⟨_, atyp, rest, rfl, hrest, rfl⟩, rfl⟩,
      rfl⟩, rfl⟩
    split_ifs at hrest with hver hcmd
    obtain ⟨front, host, _, hhost, ⟨_, p0, _, rfl, ⟨_, p1, _, rfl, hend, rfl⟩, rfl⟩, rfl⟩ := hrest
    split_ifs at hend with hbad
    obtain ⟨rfl, rfl⟩ := hend
    simp only [ne_eq, not_not] at hver hcmd
    simp only [Bool.or_eq_true, List.isEmpty_iff, beq_iff_eq, not_or] at hbad
    rcases hhost with ⟨address, hwire, rfl⟩ | ⟨-, -, hempty⟩
    · exact ⟨rsv, address, p0, p1, hbad.2, by simp [← hwire, hver, hcmd], rfl⟩
    · exact absurd hempty hbad.1
  · rintro ⟨rsv, address, p0, p1, hport, rfl, rfl⟩
    obtain ⟨atyp, front, hwire⟩ : ∃ atyp front, address.wire = atyp :: front := by
      cases address <;> exact ⟨_, _, rfl⟩
    have hgood : ¬ (address.host.1.isEmpty || portOf p0 p1 == 0) = true := by
      simp [address.host_size.1, hport]
    refine ⟨[5], 5, _, rfl,
      ⟨[1], 1, _, rfl, ⟨[rsv], rsv, _, rfl, ⟨[atyp], atyp, front ++ [p0, p1], rfl,
      ?_, rfl⟩, rfl⟩, rfl⟩, by simp [hwire]⟩
    rw [if_neg (by simp), if_neg (by simp)]
    refine ⟨front, address.host, [p0, p1], .inl ⟨address, hwire.symm, rfl⟩,
      ⟨[p0], p0, [p1], rfl, ⟨[p1], p1, [], rfl, ?_, rfl⟩, rfl⟩, rfl⟩
    exact (if_neg hgood).mpr ⟨rfl, rfl⟩

theorem negotiate_iff (c : Client) (t : Socks5Target) (c' : Client) :
    (socks5Negotiate true).run c = (.ok t, c') ↔
      ∃ h : Handshake, t = h.target ∧ c.unread = h.wire ++ c'.unread ∧
        c'.written = c.written ++ [0x05, 0x00] := by
  unfold socks5Negotiate
  constructor
  · -- each read in turn takes its part of the handshake
    intro h
    obtain ⟨ver, c₁, hver, hrest⟩ := ok_bind (congrArg Prod.fst h)
    rw [hrest] at h
    obtain ⟨nmethods, c₂, hnmethods, hrest⟩ := ok_bind (congrArg Prod.fst h)
    rw [hrest] at h
    split_ifs at h with hbad
    · cases h
    obtain ⟨methods, c₃, hmethods, hrest⟩ := ok_bind (congrArg Prod.fst h)
    rw [hrest] at h
    split_ifs at h with hnoAuth
    · obtain ⟨bytes, ⟨rsv, address, p0, p1, hport, rfl, rfl⟩, hreq⟩ :=
        (takes_socks5Request _ _ _).mp h
      obtain ⟨_, rfl, rfl⟩ := (takes_readU8 _ _ _).mp hver
      obtain ⟨_, rfl, rfl⟩ := (takes_readU8 _ _ _).mp hnmethods
      obtain ⟨taken, ⟨rfl, hcount⟩, rfl⟩ := (takes_readExact _ _ _ _).mp hmethods
      obtain ⟨hunread, hwritten⟩ := Client.mk.inj hreq
      refine ⟨⟨nmethods, taken, hcount, by simpa using hnoAuth, rsv, address, p0, p1, hport⟩, rfl,
        ?_, hwritten.symm⟩
      simp only [ne_eq, not_not] at hbad
      simp [Handshake.wire, hbad, hunread]
    · cases h
  · rintro ⟨h, rfl, hunread, hwritten⟩
    obtain ⟨unread, written⟩ := c
    obtain ⟨unread', written'⟩ := c'
    dsimp only at hunread hwritten
    subst hunread hwritten
    have hmethods : (readExact h.nmethods.toNat).run
        ⟨h.methods ++ ([0x05, 0x01, h.rsv] ++ h.address.wire ++ [h.p0, h.p1] ++ unread'), written⟩ =
        (.ok h.methods, ⟨[0x05, 0x01, h.rsv] ++ h.address.wire ++ [h.p0, h.p1] ++ unread',
          written⟩) :=
      (takes_readExact _ _ _ _).mpr ⟨h.methods, ⟨rfl, h.count⟩, rfl⟩
    have hrequest := (takes_socks5Request
      ⟨[0x05, 0x01, h.rsv] ++ h.address.wire ++ [h.p0, h.p1] ++ unread',
        written ++ [0x05, 0x00]⟩ h.target
      ⟨unread', written ++ [0x05, 0x00]⟩).mpr ⟨_, ⟨h.rsv, h.address, h.p0, h.p1, h.port, rfl, rfl⟩,
        rfl⟩
    have hwire : h.wire ++ unread' = 0x05 :: h.nmethods ::
        (h.methods ++ ([0x05, 0x01, h.rsv] ++ h.address.wire ++ [h.p0, h.p1] ++ unread')) := by
      simp [Handshake.wire]
    rw [hwire]
    refine (run_bind_ok rfl).trans ((run_bind_ok rfl).trans ?_)
    rw [if_neg (by simp), run_bind_ok hmethods, if_pos (by simpa using h.noAuth)]
    exact hrequest

/-! ## The `OPEN` of a target -/

/-- The host's answer to an `OPEN` with a host and a port: it is not called malformed, and the
name is resolved unless the id is in use or there is no room. -/
theorem handleOpen_valid {id : StreamId} {port : UInt16} {host : Bytes} (hhost : host ≠ [])
    (hport : port ≠ 0) (hutf8 : utf8Valid host = true) (b : Backend) :
    ∃ evs, ((handleOpen id port host).run b).2.hist = b.hist ++ evs ∧
      Ev.sent (.openErr id .protocolError) ∉ evs ∧
      (b.sessions.contains id = false → b.resolving.contains id = false →
        b.sessions.size < MAX_SESSIONS → Ev.startResolve id host port ∈ evs) := by
  unfold handleOpen
  rw [run_read_bind]
  have hended (sess : Option Session) : Ev.sent (.openErr id .protocolError) ∉ ended id sess := by
    unfold ended
    split_ifs <;> simp
  split_ifs with hlive hfull hbad
  · rw [run_resetStream]
    refine ⟨_, rfl, by simp [hended], fun hsess hres => ?_⟩
    simp [hsess, hres] at hlive
  · rw [run_failOpen]
    exact ⟨_, rfl, by simp [hended], fun _ _ hroom => absurd hroom (Nat.not_lt.mpr hfull)⟩
  · simp [hhost, hport] at hbad
  · refine ⟨[.opened id, .startResolve id host port], ?_, by simp, by simp⟩
    rw [utf8Lossy_of_valid hutf8]
    simp [emit, Backend.log, run_bind]

/-- The negotiation succeeds exactly on the streams that begin with a handshake and leaves what
follows it; and what it accepts is opened with a frame that encodes, decodes to the same
destination and is not refused as malformed, in whatever state the host is. -/
theorem socks_open (c : Client) (t : Socks5Target) (c' : Client) :
    ((socks5Negotiate true).run c = (.ok t, c') ↔
      ∃ h : Handshake, t = h.target ∧ c.unread = h.wire ++ c'.unread ∧
        c'.written = c.written ++ [0x05, 0x00]) ∧
    ((socks5Negotiate true).run c = (.ok t, c') → ∀ (id : StreamId) (later : Bytes) (b : Backend),
      ∃ wire, encode (.openTo id t.port t.host) [] = (.ok (), wire) ∧
        decode (wire ++ later) = .ok (some ⟨.openTo id t.port t.host, wire.length⟩) ∧
        ∃ evs, ((handleOpen id t.port t.host).run b).2.hist = b.hist ++ evs ∧
          Ev.sent (.openErr id .protocolError) ∉ evs ∧
          (b.sessions.contains id = false → b.resolving.contains id = false →
            b.sessions.size < MAX_SESSIONS → Ev.startResolve id t.host t.port ∈ evs)) := by
  refine ⟨negotiate_iff c t c', fun hrun id later b => ?_⟩
  obtain ⟨h, rfl, -, -⟩ := (negotiate_iff c t c').mp hrun
  obtain ⟨hhost, hsize⟩ := h.address.host_size
  have hencodable : (EgressFrame.openTo id h.target.port h.target.host).Encodable := hsize
  refine ⟨_, encode_of_encodable hencodable, ?_, handleOpen_valid hhost h.port h.target.utf8 b⟩
  have hdecode := decode_encode hencodable trivial later
  rwa [encode_of_encodable hencodable] at hdecode

theorem socks_open_domain :
    (socks5Negotiate true).run ⟨connectDomain [104] 443 ++ [7], []⟩ =
        (.ok ⟨[104], 443, by decide⟩, ⟨[7], [0x05, 0x00]⟩) ∧
      decode ((encode (.openTo 1 443 [104]) []).2 ++ [7]) =
        .ok (some ⟨.openTo 1 443 [104], (encode (.openTo 1 443 [104]) []).2.length⟩) ∧
      Ev.startResolve 1 [104] 443 ∈ ((handleOpen 1 443 [104]).run .init).2.hist ∧
      Ev.sent (.openErr 1 .protocolError) ∉ ((handleOpen 1 443 [104]).run .init).2.hist := by
  -- a `CONNECT` to `h:443` with a byte of data behind it: the host resolves `h`
  have hrun : (socks5Negotiate true).run ⟨connectDomain [104] 443 ++ [7], []⟩ =
      (.ok ⟨[104], 443, by decide⟩, ⟨[7], [0x05, 0x00]⟩) := by
    decide
  obtain ⟨wire, hencode, hdecode, evs, hhist, hsent, hstart⟩ :=
    (socks_open _ _ _).2 hrun 1 [7] .init
  rw [hhist]
  refine ⟨hrun, by rw [hencode]; exact hdecode, ?_, ?_⟩
  · exact List.mem_append_right _ (hstart (by decide) (by decide) (by decide))
  · exact fun hmem => hsent ((List.mem_append.mp hmem).resolve_left List.not_mem_nil)

end Tdvmm.Forwarder
