import Tdvmm.Vmm.Devices

/-!
# Vmm.Pit — latched counts and live counts

A count of two bytes is read by two port reads, so a guest that wants a consistent one latches
it first.

An access is at most one operation on each channel (`PitAccess.on`, `channel_access`), which
leaves three channels that do not see each other. On one channel, `latched_reads` follows a
latched count to its second read and `Loading.Tracks` the last load that was completed
(`pit_counts`).
-/

namespace Tdvmm.Vmm

/-- A port access at a vtsc: a write of a byte, or a read. -/
structure PitAccess where
  now : UInt64
  port : UInt16
  value : Option UInt8

/-- What an access comes to for one channel. -/
inductive ChannelOp where
  | read
  | write (byte : UInt8)
  | program (access : AccessMode)
  | latch
  | idle
deriving DecidableEq

/-- A control word, for one channel. -/
def controlOp (cw : UInt8) (i : Fin 3) : ChannelOp :=
  if cw >>> 6 = 0b11 then
    if cw &&& 0x20 = 0 ∧ cw &&& (1 <<< UInt8.ofNat (i + 1)) ≠ 0 then .latch else .idle
  else if (cw >>> 6).toNat % 3 = i.val then
    if (cw >>> 4) &&& 0b11 = 0 then .latch else .program (.fromBits ((cw >>> 4) &&& 0b11))
  else .idle

def dataPort : Fin 3 → UInt16
  | 0 => 0x40
  | 1 => 0x41
  | 2 => 0x42

def PitAccess.on (a : PitAccess) (i : Fin 3) : ChannelOp :=
  if a.port = dataPort i then a.value.elim .read .write
  else if a.port = PIT_CTRL then a.value.elim .idle (controlOp · i)
  else .idle

def ChannelOp.apply (now : UInt64) (freq : TscFrequency) (c : PitChannel) : ChannelOp → PitChannel
  | .read => (c.readByte now freq).2
  | .write byte => c.writeByte byte now
  | .program access => c.program access
  | .latch => c.latch now freq
  | .idle => c

namespace PitStub

def access (p : PitStub) (a : PitAccess) : Option UInt8 × PitStub :=
  match a.value with
  | some byte => (none, p.writeAt a.port byte a.now)
  | none => ((p.readAt a.port a.now).1, (p.readAt a.port a.now).2)

def run (p : PitStub) (accesses : List PitAccess) : PitStub :=
  accesses.foldl (fun p a => (p.access a).2) p

def reads (i : Fin 3) : PitStub → List PitAccess → List UInt8
  | _, [] => []
  | p, a :: accesses =>
    (if a.on i = .read then (p.access a).1.toList else []) ++ reads i (p.access a).2 accesses

theorem dataPort_range (i : Fin 3) : PIT_CH0 ≤ dataPort i ∧ dataPort i ≤ PIT_CH2 := by
  revert i
  decide

theorem exists_dataPort {port : UInt16} (h : PIT_CH0 ≤ port ∧ port ≤ PIT_CH2) :
    ∃ i, port = dataPort i := by
  have hlow : 0x40 ≤ port.toNat := UInt16.le_iff_toNat_le.mp h.1
  have hhigh : port.toNat ≤ 0x42 := UInt16.le_iff_toNat_le.mp h.2
  obtain hport | hport | hport : port.toNat = 0x40 ∨ port.toNat = 0x41 ∨ port.toNat = 0x42 := by
    omega
  · exact ⟨0, UInt16.toNat_inj.mp hport⟩
  · exact ⟨1, UInt16.toNat_inj.mp hport⟩
  · exact ⟨2, UInt16.toNat_inj.mp hport⟩

theorem channelOf_dataPort (i : Fin 3) : channelOf (dataPort i) = i := by
  revert i
  decide

theorem dataPort_inj {i j : Fin 3} : dataPort j = dataPort i ↔ j = i := by
  revert i j
  decide

theorem get_set (v : Vector PitChannel 3) (i j : Fin 3) (c : PitChannel) :
    (v.set i c).get j = if i = j then c else v.get j := by
  change (v.set i c)[(j : Nat)] = if i = j then c else v[(j : Nat)]
  rw [Vector.getElem_set]
  simp only [Fin.ext_iff]

theorem channel_writeControl (p : PitStub) (cw : UInt8) (now : UInt64) (i : Fin 3) :
    (p.writeControl cw now).channels.get i =
      (controlOp cw i).apply now p.freq (p.channels.get i) := by
  unfold writeControl controlOp
  dsimp only
  by_cases hback : cw >>> 6 = 0b11
  · rw [if_pos hback, if_pos hback]
    by_cases hcount : cw &&& 0x20 = 0
    · simp only [hcount, true_and]
      change (p.channels.mapIdx _)[(i : Nat)] = _
      rw [Vector.getElem_mapIdx]
      split_ifs <;> rfl
    · rw [if_neg hcount, if_neg fun h => hcount h.1]
      rfl
  · rw [if_neg hback, if_neg hback]
    dsimp only
    rw [get_set]
    by_cases hsel : (cw >>> 6).toNat % 3 = i.val
    · have hi : Fin.ofNat 3 (cw >>> 6).toNat = i := Fin.ext hsel
      rw [if_pos hi, if_pos hsel, hi]
      split_ifs
      · rfl
      · rfl
    · rw [if_neg fun hi => hsel (congrArg Fin.val hi), if_neg hsel]
      rfl

theorem channel_access (p : PitStub) (a : PitAccess) (i : Fin 3) :
    (p.access a).2.channels.get i = (a.on i).apply a.now p.freq (p.channels.get i) := by
  obtain ⟨now, port, value⟩ := a
  unfold access PitAccess.on
  by_cases hdata : PIT_CH0 ≤ port ∧ port ≤ PIT_CH2
  · obtain ⟨j, rfl⟩ := exists_dataPort hdata
    have hctrl : dataPort j ≠ PIT_CTRL := by
      revert j
      decide
    rcases value with _ | byte
    · simp only [readAt, if_pos hdata, get_set, channelOf_dataPort, dataPort_inj, if_neg hctrl]
      split_ifs with hsel
      · rw [← hsel]
        rfl
      · rfl
    · simp only [writeAt, if_pos hdata, get_set, channelOf_dataPort, dataPort_inj, if_neg hctrl]
      split_ifs with hsel
      · rw [← hsel]
        rfl
      · rfl
  · have hne : port ≠ dataPort i := by
      rintro rfl
      exact hdata (dataPort_range i)
    rcases value with _ | byte
    · simp only [readAt, if_neg hdata, if_neg hne]
      split_ifs <;> rfl
    · simp only [writeAt, if_neg hdata, if_neg hne]
      split_ifs
      · exact channel_writeControl p byte now i
      · rfl
      · rfl
      · rfl

theorem controlOp_ne_read (cw : UInt8) (i : Fin 3) : controlOp cw i ≠ .read := by
  unfold controlOp
  split_ifs <;> simp

theorem access_read {p : PitStub} {a : PitAccess} {i : Fin 3} (h : a.on i = .read) :
    (p.access a).1 = some ((p.channels.get i).readByte a.now p.freq).1 := by
  obtain ⟨now, port, value⟩ := a
  unfold PitAccess.on at h
  unfold access
  dsimp only at h ⊢
  rcases value with _ | byte
  · split_ifs at h with hport
    · rw [hport]
      simp only [readAt, if_pos (dataPort_range i), channelOf_dataPort]
    all_goals cases h
  · exfalso
    split_ifs at h
    · cases h
    · exact controlOp_ne_read byte i h

theorem freq_access (p : PitStub) (a : PitAccess) : (p.access a).2.freq = p.freq := by
  unfold access readAt writeAt writeControl
  split <;> dsimp only <;> split_ifs <;> rfl

end PitStub

/-! ## A latched count -/

/-- A latched count on its way, with the byte that is read next. -/
structure PitChannel.Holds (c : PitChannel) (v : UInt16) (low : Bool) : Prop where
  access : c.access = .loHiByte
  latched : c.latched = some v
  readLoNext : c.readLoNext = low

theorem PitChannel.Holds.apply {c : PitChannel} {v : UInt16} {low : Bool} (h : c.Holds v low)
    {op : ChannelOp} (hread : op ≠ .read) (hprogram : ∀ m, op ≠ .program m) (now : UInt64)
    (freq : TscFrequency) : (op.apply now freq c).Holds v low := by
  rcases c with ⟨access, writeLoNext, writeLoLatch, initial, anchor, readLoNext, latched⟩
  obtain ⟨rfl, rfl, rfl⟩ : access = _ ∧ latched = _ ∧ readLoNext = _ := ⟨h.1, h.2, h.3⟩
  rcases op with _ | byte | m | _ | _
  · exact absurd rfl hread
  · cases writeLoNext with
    | true | false => exact ⟨rfl, rfl, rfl⟩
  · exact absurd rfl (hprogram m)
  · exact h
  · exact h

theorem PitChannel.Holds.readByte {c : PitChannel} {v : UInt16} {low : Bool} (h : c.Holds v low)
    (now : UInt64) (freq : TscFrequency) :
    (c.readByte now freq).1 = (if low then v.toUInt8 else (v >>> 8).toUInt8) ∧
      (low = true → (c.readByte now freq).2.Holds v false) := by
  rcases c with ⟨access, writeLoNext, writeLoLatch, initial, anchor, readLoNext, latched⟩
  obtain ⟨rfl, rfl, rfl⟩ : access = _ ∧ latched = _ ∧ readLoNext = _ := ⟨h.1, h.2, h.3⟩
  cases readLoNext with
  | true => exact ⟨rfl, fun _ => ⟨rfl, rfl, rfl⟩⟩
  | false => exact ⟨rfl, by simp⟩

theorem PitStub.latched_reads {p : PitStub} {i : Fin 3} {v : UInt16} {low : Bool}
    {accesses : List PitAccess} (h : (p.channels.get i).Holds v low)
    (hkeep : ∀ a ∈ accesses, ∀ m, a.on i ≠ .program m) :
    (p.reads i accesses).take (if low then 2 else 1) <+:
      if low then [v.toUInt8, (v >>> 8).toUInt8] else [(v >>> 8).toUInt8] := by
  induction accesses generalizing p low with
  | nil => simp [PitStub.reads]
  | cons a accesses ih =>
    have hkeep' := fun b hb => hkeep b (List.mem_cons_of_mem _ hb)
    have hnext := p.channel_access a i
    unfold PitStub.reads
    by_cases hread : a.on i = .read
    · obtain ⟨hbyte, hrest⟩ := h.readByte a.now p.freq
      rw [hread] at hnext
      rw [if_pos hread, PitStub.access_read hread, hbyte]
      cases low with
      | true =>
        have hafter : ((p.access a).2.channels.get i).Holds v false := hnext ▸ hrest rfl
        have htail := ih hafter hkeep'
        simpa using htail
      | false => simp
    · have hafter := h.apply hread (hkeep a List.mem_cons_self) a.now p.freq
      rw [if_neg hread, List.nil_append]
      exact ih (hnext ▸ hafter) hkeep'

/-! ## The loaded count -/

/-- The loads of a channel as its user sees them: the count that was loaded last and when, and
the low byte of one that is not complete. -/
structure Loading where
  access : AccessMode := .loHiByte
  low : Option UInt8 := none
  count : Nat := 0xffff
  since : UInt64 := 0

namespace Loading

def step (l : Loading) (now : UInt64) : ChannelOp → Loading
  | .program access => { l with access := access, low := none }
  | .write byte =>
    match l.access, l.low with
    | .loByte, _ => { l with count := byte.toNat, since := now }
    | .hiByte, _ => { l with count := 256 * byte.toNat, since := now }
    | .loHiByte, none => { l with low := some byte }
    | .loHiByte, some lo =>
      { l with low := none, count := 256 * byte.toNat + lo.toNat, since := now }
  | _ => l

/-- The loads among some accesses. -/
def after (i : Fin 3) (accesses : List PitAccess) (l : Loading) : Loading :=
  accesses.foldl (fun l a => l.step a.now (a.on i)) l

/-- The count at a time: the loaded one less the whole ticks since the load. -/
def live (l : Loading) (now : UInt64) (freq : TscFrequency) : Int :=
  (l.count - ((now.toNat : Int) - l.since.toNat) * PIT_FREQ_HZ / freq.hz.toNat) % 2 ^ 16

/-- The channel has these loads. -/
structure Tracks (l : Loading) (c : PitChannel) : Prop where
  access : c.access = l.access
  writeLoNext : c.writeLoNext = l.low.isNone
  writeLoLatch : ∀ byte ∈ l.low, c.writeLoLatch = byte
  initial : c.initial.toNat = l.count
  anchor : c.anchorVtsc = l.since

variable {l : Loading} {c : PitChannel}

theorem toNat_bytes (hi lo : UInt8) :
    ((hi.toUInt16 <<< 8) ||| lo.toUInt16).toNat = 256 * hi.toNat + lo.toNat := by
  have hhi := hi.toNat_lt
  have hlo := lo.toNat_lt
  have hshift : hi.toNat <<< 8 % 2 ^ 16 = hi.toNat <<< 8 := by
    rw [Nat.shiftLeft_eq]
    omega
  simp only [UInt16.toNat_or, UInt16.toNat_shiftLeft, UInt8.toNat_toUInt16, UInt16.reduceToNat,
    Nat.reduceMod, hshift]
  rw [← Nat.shiftLeft_add_eq_or_of_lt (by omega), Nat.shiftLeft_eq]
  omega

theorem Tracks.apply (h : l.Tracks c) (op : ChannelOp) (now : UInt64) (freq : TscFrequency) :
    (l.step now op).Tracks (op.apply now freq c) := by
  rcases c with ⟨access, writeLoNext, writeLoLatch, initial, anchor, readLoNext, latched⟩
  rcases l with ⟨access', low, count, since⟩
  obtain ⟨haccess, hnext, hlow, hinitial, hanchor⟩ := h
  dsimp only at haccess hnext hlow hinitial hanchor
  subst haccess hnext hinitial hanchor
  rcases op with _ | byte | m | _ | _
  · rcases access with _ | _ | _ <;> cases readLoNext <;> exact ⟨rfl, rfl, hlow, rfl, rfl⟩
  · rcases access with _ | _ | _
    · exact ⟨rfl, rfl, hlow, UInt8.toNat_toUInt16 byte, rfl⟩
    · refine ⟨rfl, rfl, hlow, ?_, rfl⟩
      change (byte.toUInt16 <<< 8).toNat = 256 * byte.toNat
      simpa using toNat_bytes byte 0
    · rcases low with _ | lo
      · exact ⟨rfl, rfl, fun _ h => Option.some.inj h, rfl, rfl⟩
      · obtain rfl := hlow lo rfl
        exact ⟨rfl, rfl, nofun, toNat_bytes byte writeLoLatch, rfl⟩
  · exact ⟨rfl, rfl, nofun, rfl, rfl⟩
  · cases latched <;> exact ⟨rfl, rfl, hlow, rfl, rfl⟩
  · exact ⟨rfl, rfl, hlow, rfl, rfl⟩

theorem Tracks.counter (h : l.Tracks c) {now : UInt64} (hsince : l.since ≤ now)
    (freq : TscFrequency) : ((c.counter now freq).toNat : Int) = l.live now freq := by
  have hle : l.since.toNat ≤ now.toNat := hsince
  have hcast : ((now.toNat : Int) - l.since.toNat) * PIT_FREQ_HZ / freq.hz.toNat =
      ((now.toNat - l.since.toNat) * PIT_FREQ_HZ / freq.hz.toNat : Nat) := by
    push_cast [Int.ofNat_sub hle]
    rfl
  unfold live PitChannel.counter pitTicksSince
  rw [hcast, h.anchor, ← h.initial]
  generalize (now.toNat - l.since.toNat) * PIT_FREQ_HZ / freq.hz.toNat = ticks
  have hinitial := c.initial.toNat_lt
  simp only [UInt64.toNat_toUInt16, UInt64.toNat_sub, UInt16.toNat_toUInt64, UInt64.toNat_ofNat']
  omega

theorem tracks_run {p : PitStub} {i : Fin 3} (h : l.Tracks (p.channels.get i))
    (accesses : List PitAccess) :
    (l.after i accesses).Tracks ((p.run accesses).channels.get i) := by
  induction accesses generalizing p l with
  | nil => exact h
  | cons a accesses ih =>
    refine ih ?_
    rw [p.channel_access a i]
    exact h.apply _ _ _

theorem since_le {now : UInt64} (h : l.since ≤ now) {i : Fin 3} {accesses : List PitAccess}
    (hall : ∀ a ∈ accesses, a.now ≤ now) : (l.after i accesses).since ≤ now := by
  induction accesses generalizing l with
  | nil => exact h
  | cons a accesses ih =>
    refine ih ?_ fun b hb => hall b (List.mem_cons_of_mem _ hb)
    have hnow := hall a List.mem_cons_self
    change (l.step a.now (a.on i)).since ≤ now
    unfold step
    split
    · exact h
    · split <;> first | exact h | exact hnow
    · exact h

end Loading

theorem PitStub.freq_run (p : PitStub) (accesses : List PitAccess) :
    (p.run accesses).freq = p.freq := by
  induction accesses generalizing p with
  | nil => rfl
  | cons a accesses ih => exact (ih _).trans (p.freq_access a)

theorem Loading.tracks_default {i : Fin 3} (freq : TscFrequency) :
    Loading.Tracks {} ((PitStub.new freq).channels.get i) := by
  have hdefault : (PitStub.new freq).channels.get i = .default := Vector.getElem_replicate i.isLt
  rw [hdefault]
  exact ⟨rfl, rfl, nofun, rfl, rfl⟩

/-- A read without a latch returns a byte of the counter: the byte of the access mode, or in
low/high mode the one whose turn it is. -/
theorem PitChannel.readByte_live {c : PitChannel} (h : c.latched = none) (now : UInt64)
    (freq : TscFrequency) :
    (c.readByte now freq).1 =
      if c.access = .loByte ∨ c.access = .loHiByte ∧ c.readLoNext = true then
        (c.counter now freq).toUInt8
      else (c.counter now freq >>> 8).toUInt8 := by
  unfold PitChannel.readByte
  simp only [h, Option.getD_none]
  rcases c.access with _ | _ | _
  · rfl
  · rfl
  · cases c.readLoNext <;> rfl

/-- After every sequence of accesses at times that do not go back, from power-on: a count that is
latched in low/high mode is what the next two data reads of its channel return, whatever else is
accessed until then, and it and every byte read from a channel that is not latched are of the
loaded count less the ticks since its load. -/
theorem pit_counts (freq : TscFrequency) (i : Fin 3) (before later : List PitAccess)
    (a : PitAccess) (htimes : ((before ++ a :: later).map (·.now)).Pairwise (· ≤ ·))
    (hfree : (((PitStub.new freq).run before).channels.get i).latched = none) :
    ∃ v : UInt16, (v.toNat : Int) = (Loading.after i before {}).live a.now freq ∧
      (a.on i = .latch → (Loading.after i before {}).access = .loHiByte →
        (∀ b ∈ later, ∀ m, b.on i ≠ .program m) →
        ((((PitStub.new freq).run before).access a).2.reads i later).take 2 <+:
          [v.toUInt8, (v >>> 8).toUInt8]) ∧
      (a.on i = .read → (((PitStub.new freq).run before).access a).1 =
        if (Loading.after i before {}).access = .loByte ∨
            (Loading.after i before {}).access = .loHiByte ∧
              (((PitStub.new freq).run before).channels.get i).readLoNext = true then
          some v.toUInt8
        else some (v >>> 8).toUInt8) := by
  have htrack := Loading.tracks_run (Loading.tracks_default (i := i) freq) before
  have hfreq := (PitStub.new freq).freq_run before
  generalize (PitStub.new freq).run before = p at hfree htrack hfreq ⊢
  have hbefore : ∀ b ∈ before, b.now ≤ a.now := by
    intro b hb
    rw [List.map_append, List.pairwise_append] at htimes
    exact htimes.2.2 _ (List.mem_map_of_mem hb) _ (by simp)
  have hsince := Loading.since_le (l := {}) (i := i) (UInt64.zero_le) hbefore
  refine ⟨(p.channels.get i).counter a.now freq, htrack.counter hsince freq, ?_, ?_⟩
  · intro hlatch hmode hkeep
    refine @PitStub.latched_reads _ i _ true later ?_ hkeep
    rw [p.channel_access a i, hlatch, hfreq]
    simp only [ChannelOp.apply, PitChannel.latch, hfree]
    exact ⟨htrack.access.trans hmode, rfl, rfl⟩
  · intro hread
    rw [PitStub.access_read hread, PitChannel.readByte_live hfree, hfreq, htrack.access]
    split_ifs <;> rfl

/-- Channel 2 is loaded with `0x1234` at 3 and latched at 5, with a clock of one kilohertz. -/
def loadedRun : List PitAccess :=
  [⟨1, PIT_CTRL, some 0xb0⟩, ⟨2, PIT_CH2, some 0x34⟩, ⟨3, PIT_CH2, some 0x12⟩]

/-- A second latch, another channel and a new load come between the reads. -/
def readRun : List PitAccess :=
  [⟨6, PIT_CTRL, some 0x80⟩, ⟨7, PIT_CH2, none⟩, ⟨8, PIT_CH0, none⟩, ⟨9, PIT_CH2, some 0⟩,
    ⟨10, PIT_CH2, none⟩]

theorem pit_counts_reads :
    ((((PitStub.new ⟨1000, TscFrequency.kilohertz_pos⟩).run loadedRun).access
      ⟨5, PIT_CTRL, some 0x80⟩).2.reads 2 readRun).take 2 <+: [0xe2, 0x08] := by
  obtain ⟨v, hv, hlatch, -⟩ := pit_counts ⟨1000, TscFrequency.kilohertz_pos⟩ 2 loadedRun readRun
    ⟨5, PIT_CTRL, some 0x80⟩ (by decide) (by decide +kernel)
  have hkeep : ∀ b ∈ readRun, ∀ m, b.on 2 ≠ .program m := by
    intro b hb m
    cases m <;> revert b <;> decide +kernel
  have hlive : (Loading.after 2 loadedRun {}).live 5 ⟨1000, TscFrequency.kilohertz_pos⟩ =
      0x08e2 := by
    decide +kernel
  obtain rfl : v = 0x08e2 := UInt16.toNat_inj.mp (Int.ofNat_inj.mp (hv.trans hlive))
  exact hlatch (by decide +kernel) (by decide +kernel) hkeep

end Tdvmm.Vmm
