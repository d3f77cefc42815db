import Tdvmm.Lib.Spool
import Tdvmm.Vmm.Outbox
import Tdvmm.Vmm.Run

/-!
# Vmm.Framing — the lines the host reads from COM2

`pollLine` cuts what the guest wrote on COM2 into lines. The stream is all that the UART
emitted; a poll that answers has taken its line from some place of it. The line is whole when
that place is the start of a line (`Polled.Whole`).

The buffer is emptied when a poll finds it past the cap with no newline in it. So the polls
answer with whole lines exactly when no line that is taken was cut before (`poll_framing_iff`),
which the lengths of the lines and the places of the polls decide (`Intact`).
-/

namespace Tdvmm.Vmm

open Lib Proto Egress

namespace ControlChannel

variable {U : Type}

def new (uart : U) : ControlChannel U := ⟨⟨uart, false, []⟩, []⟩

def chomp (line : Bytes) : Bytes := if line.getLast? = some 13 then line.dropLast else line

def lineOf : Spool.Out UInt8 → Option Bytes
  | .line _ rest => some (chomp rest)
  | .dropped _ => none
  | .none => none

theorem pollLine_eq (c : ControlChannel U) (gone : Bytes) :
    c.pollLine =
      (lineOf (Spool.take 10 TX_BUF_CAP ⟨gone, c.serial.tx⟩).1,
        { c with
          serial :=
            { c.serial with tx := (Spool.take 10 TX_BUF_CAP ⟨gone, c.serial.tx⟩).2.buf } }) := by
  -- a poll takes a line from the buffer, whatever is gone of the line it begins in
  unfold pollLine Spool.take
  rcases hspan : c.serial.tx.span (· ≠ 10) with ⟨line, _ | ⟨b, rest⟩⟩
  · simp only [hspan]
    split_ifs
    · rfl
    · rfl
  · simp only [hspan]
    rfl

/-! ## The stream -/

namespace Op

def emitted (hw : Uart U) (c : ControlChannel U) : Op → Bytes
  | .pioWrite port byte _ _ => (hw.write c.serial.uart (port - SERIAL2_PORT_BASE).toUInt8 byte).2.1
  | _ => []

end Op

theorem feed_tx (hw : Uart U) (fuel : Nat) (c : ControlChannel U) :
    (feed hw fuel c).2.serial.tx = c.serial.tx := by
  induction fuel generalizing c with
  | zero => rfl
  | succ fuel ih =>
    unfold feed
    dsimp only
    split_ifs
    · rfl
    · split
      · rename_i n serial henq
        exact (ih _).trans (congrArg (·.2.tx) henq).symm
      · rename_i serial _ henq
        exact (congrArg (·.2.tx) henq).symm

theorem pump_tx (hw : Uart U) (c : ControlChannel U) (lapic : Lapic) (ioapic : Ioapic) :
    (c.pump hw lapic ioapic).1.serial.tx = c.serial.tx := by
  unfold pump
  dsimp only
  split_ifs
  · exact (Serial.afterIo_tx _ lapic ioapic SERIAL2_IRQ).trans (feed_tx hw _ c)
  · exact feed_tx hw _ c

theorem pioWrite_tx (hw : Uart U) (c : ControlChannel U) (port : UInt16) (byte : UInt8)
    (lapic : Lapic) (ioapic : Ioapic) :
    (c.pioWrite hw port byte lapic ioapic).1.serial.tx =
      c.serial.tx ++ (hw.write c.serial.uart (port - SERIAL2_PORT_BASE).toUInt8 byte).2.1 :=
  Serial.afterIo_tx _ lapic ioapic SERIAL2_IRQ

theorem pioRead_tx (hw : Uart U) (c : ControlChannel U) (port : UInt16) (lapic : Lapic)
    (ioapic : Ioapic) : (c.pioRead hw port lapic ioapic).1.serial.tx = c.serial.tx :=
  Serial.afterIo_tx _ lapic ioapic SERIAL2_IRQ

theorem Op.perform_tx (hw : Uart U) (c : ControlChannel U) {op : Op} (h : op ≠ .pollLine) :
    (op.perform hw c).serial.tx = c.serial.tx ++ op.emitted hw c := by
  cases op with
  | sendFrame framed => exact (List.append_nil _).symm
  | pump lapic ioapic => exact (pump_tx hw c lapic ioapic).trans (List.append_nil _).symm
  | pollLine => exact absurd rfl h
  | pioRead port lapic ioapic =>
    exact (pioRead_tx hw c port lapic ioapic).trans (List.append_nil _).symm
  | pioWrite port byte lapic ioapic => exact pioWrite_tx hw c port byte lapic ioapic

/-- All that the guest transmits in a run. -/
def stream (hw : Uart U) (c : ControlChannel U) : List Op → Bytes
  | [] => []
  | op :: ops => op.emitted hw c ++ stream hw (op.perform hw c) ops

/-- A line as a poll returned it, with the place of the stream it was taken from. -/
structure Polled where
  start : Nat
  text : Bytes
deriving DecidableEq, Repr

/-- The answer of an operation on a channel that has received `w`: its buffer is the
end of `w`. -/
def Op.polled (w : Bytes) (c : ControlChannel U) : Op → Option Polled
  | .pollLine => c.pollLine.1.map fun text => ⟨w.length - c.serial.tx.length, text⟩
  | _ => none

/-- The lines that the polls of a run return. -/
def polled (hw : Uart U) (w : Bytes) (c : ControlChannel U) : List Op → List Polled
  | [] => []
  | op :: ops => (op.polled w c).toList ++ polled hw (w ++ op.emitted hw c) (op.perform hw c) ops

/-- A line that the guest wrote: from the start of the stream or after a newline, up
to the next newline, less one carriage return. -/
def Polled.Whole (w : Bytes) (p : Polled) : Prop :=
  ∃ before line after, w = before ++ line ++ 10 :: after ∧
    (before = [] ∨ before.getLast? = some 10) ∧ 10 ∉ line ∧
    p.start = before.length ∧ p.text = chomp line

/-- The polls of a run return lines that the guest wrote, in order and each once. -/
def Framed (hw : Uart U) (uart : U) (ops : List Op) : Prop :=
  (∀ p ∈ polled hw [] (new uart) ops, p.Whole (stream hw (new uart) ops)) ∧
    (polled hw [] (new uart) ops).Pairwise fun p p' => p.start < p'.start

/-! ## What decides it -/

/-- What happens to the buffer: the guest transmits, or the host polls. -/
inductive Traffic where
  | write (bytes : Bytes)
  | poll
deriving DecidableEq, Repr

def Op.traffic (hw : Uart U) (c : ControlChannel U) : Op → Traffic
  | .pollLine => .poll
  | op => .write (op.emitted hw c)

def traffic (hw : Uart U) (c : ControlChannel U) : List Op → List Traffic
  | [] => []
  | op :: ops => op.traffic hw c :: traffic hw (op.perform hw c) ops

/-- No poll takes a line that an earlier poll found unfinished and past the cap. -/
def Intact : Gauge → List Traffic → Prop
  | _, [] => True
  | g, .write bytes :: ts => Intact (g.write 10 bytes) ts
  | g, .poll :: ts => (0 < g.finished → g.lost = 0) ∧ Intact (g.take TX_BUF_CAP) ts

variable {hw : Uart U} {c : ControlChannel U} {w done gone : Bytes} {g : Gauge}

/-- The buffer of the channel in its place of the stream, with its counts. -/
structure Follows (w done gone : Bytes) (g : Gauge) (c : ControlChannel U) : Prop where
  place : Spool.At 10 w done ⟨gone, c.serial.tx⟩
  counts : Gauge.Measures 10 g ⟨gone, c.serial.tx⟩

theorem Follows.start (h : Follows w done gone g c) :
    w.length - c.serial.tx.length = (done ++ gone).length := by
  have hlen := congrArg List.length h.place.whole
  simp only [List.length_append] at hlen ⊢
  omega

theorem Follows.write (h : Follows w done gone g c) {op : Op} (hop : op ≠ .pollLine) :
    Follows (w ++ op.emitted hw c) done gone (g.write 10 (op.emitted hw c)) (op.perform hw c) where
  place := by
    rw [op.perform_tx hw c hop]
    exact h.place.write _
  counts := by
    rw [op.perform_tx hw c hop]
    exact h.counts.write _

theorem Follows.poll (h : Follows w done gone g c) :
    (∃ rest later, c.serial.tx = rest ++ 10 :: later ∧ 10 ∉ rest ∧ 0 < g.finished ∧
        Op.polled w c .pollLine = some ⟨(done ++ gone).length, chomp rest⟩ ∧
        Follows w (done ++ gone ++ rest ++ [10]) [] (g.take TX_BUF_CAP) c.pollLine.2) ∨
      (g.finished = 0 ∧ Op.polled w c .pollLine = none ∧
        ∃ gone', Follows w done gone' (g.take TX_BUF_CAP) c.pollLine.2) := by
  -- a poll answers with the first line of the buffer, and its place is the start of a line exactly
  -- when the line is not cut
  have htaken := Spool.take_taken 10 TX_BUF_CAP ⟨gone, c.serial.tx⟩
  have hpoll := c.pollLine_eq gone
  have hcounts := h.counts.take TX_BUF_CAP h.place.within htaken
  have hplace := h.place
  have hfinished := h.counts.finished
  generalize hout : Spool.take 10 TX_BUF_CAP ⟨gone, c.serial.tx⟩ = out at htaken hpoll hcounts
  rcases out with ⟨out, s'⟩
  dsimp only at htaken hpoll hcounts hfinished
  generalize c.serial.tx = tx at *
  cases htaken with
  | @line _ rest later hrest =>
    refine .inl ⟨rest, later, rfl, hrest, ?_, ?_, ?_, ?_⟩
    · simp [hfinished]
    · simp only [Op.polled, hpoll, lineOf, Option.map_some, h.start]
    · rw [hpoll]
      exact hplace.take_line
    · rw [hpoll]
      exact hcounts
  | @dropped _ _ hbuf hlong =>
    refine .inr ⟨hfinished.trans (List.count_eq_zero.mpr hbuf), ?_, gone ++ tx, ?_, ?_⟩
    · simp [Op.polled, hpoll, lineOf]
    · rw [hpoll]
      exact hplace.take_dropped hbuf
    · rw [hpoll]
      exact hcounts
  | @none _ _ hbuf hshort =>
    refine .inr ⟨hfinished.trans (List.count_eq_zero.mpr hbuf), ?_, gone, ?_, ?_⟩
    · simp [Op.polled, hpoll, lineOf]
    · rw [hpoll]
      exact hplace
    · rw [hpoll]
      exact hcounts

theorem Follows.whole_iff {rest later more : Bytes} (h : Follows w done gone g c)
    (htx : c.serial.tx = rest ++ 10 :: later) (hrest : 10 ∉ rest) :
    (⟨(done ++ gone).length, chomp rest⟩ : Polled).Whole (w ++ more) ↔ gone = [] := by
  -- a line taken at this place is whole exactly when nothing of it is gone, however the stream
  -- goes on
  have hw : w ++ more = (done ++ gone) ++ (rest ++ 10 :: (later ++ more)) := by
    rw [h.place.whole, htx]
    simp
  rw [← h.place.start_iff]
  constructor
  · rintro ⟨before, line, after, hsplit, hbefore, -, hlen, -⟩
    -- Both splits cut the stream at the same place.
    rw [hw, List.append_assoc before] at hsplit
    rw [(List.append_inj hsplit hlen).1]
    exact hbefore
  · intro hstart
    exact ⟨done ++ gone, rest, later ++ more, by simpa using hw, hstart, hrest, rfl, rfl⟩

theorem polled_of_ne (h : Op) (hop : h ≠ .pollLine) : h.polled w c = none := by
  cases h with
  | pollLine => exact absurd rfl hop
  | sendFrame framed | pump lapic ioapic | pioRead port lapic ioapic
  | pioWrite port byte lapic ioapic => rfl

theorem traffic_of_ne (op : Op) (hop : op ≠ .pollLine) :
    op.traffic hw c = .write (op.emitted hw c) := by
  cases op with
  | pollLine => exact absurd rfl hop
  | sendFrame framed | pump lapic ioapic | pioRead port lapic ioapic
  | pioWrite port byte lapic ioapic => rfl

theorem Follows.le_start (h : Follows w done gone g c) (ops : List Op) :
    ∀ p ∈ polled hw w c ops, done.length ≤ p.start := by
  induction ops generalizing w done gone g c with
  | nil => simp [polled]
  | cons op ops ih =>
    intro p hp
    by_cases hop : op = .pollLine
    · subst hop
      simp only [polled, Op.emitted, List.append_nil] at hp
      rcases h.poll with ⟨rest, later, -, -, -, hpolled, hnext⟩ | ⟨-, hpolled, gone', hnext⟩
      · rw [hpolled] at hp
        rcases List.mem_cons.mp hp with rfl | hlater
        · simp
        · have hle := ih hnext p hlater
          simp only [List.length_append] at hle
          omega
      · rw [hpolled] at hp
        exact ih hnext p hp
    · rw [polled, polled_of_ne op hop] at hp
      exact ih (h.write hop) p hp

theorem Follows.pairwise_start (h : Follows w done gone g c) (ops : List Op) :
    (polled hw w c ops).Pairwise fun p p' => p.start < p'.start := by
  induction ops generalizing w done gone g c with
  | nil => exact List.Pairwise.nil
  | cons op ops ih =>
    by_cases hop : op = .pollLine
    · subst hop
      simp only [polled, Op.emitted, List.append_nil]
      rcases h.poll with ⟨rest, later, -, -, -, hpolled, hnext⟩ | ⟨-, hpolled, gone', hnext⟩
      · rw [hpolled]
        refine List.pairwise_cons.mpr ⟨fun p hp => ?_, ih hnext⟩
        have hle := hnext.le_start ops p hp
        simp only [List.length_append, List.length_singleton] at hle ⊢
        omega
      · rw [hpolled]
        exact ih hnext
    · rw [polled, polled_of_ne op hop]
      exact ih (h.write hop)

theorem Follows.whole_iff_intact (h : Follows w done gone g c) (ops : List Op) :
    (∀ p ∈ polled hw w c ops, p.Whole (w ++ stream hw c ops)) ↔ Intact g (traffic hw c ops) := by
  -- the lines are whole exactly when none that is taken is cut
  induction ops generalizing w done gone g c with
  | nil => simp [polled, traffic, Intact]
  | cons op ops ih =>
    by_cases hop : op = .pollLine
    · subst hop
      simp only [polled, stream, traffic, Op.traffic, Intact, Op.emitted, List.append_nil,
        List.nil_append]
      rcases h.poll with
        ⟨rest, later, htx, hrest, hpos, hpolled, hnext⟩ | ⟨hzero, hpolled, gone', hnext⟩
      · have hcut : gone = [] ↔ g.lost = 0 := by rw [h.counts.lost, List.length_eq_zero_iff]
        rw [hpolled, Option.toList_some, List.singleton_append, List.forall_mem_cons,
          h.whole_iff htx hrest, hcut]
        exact and_congr (by simp [hpos]) (ih hnext)
      · rw [hpolled, Option.toList_none, List.nil_append]
        have hidle : (0 < g.finished → g.lost = 0) ↔ True := by simp [hzero]
        rw [hidle, true_and]
        exact ih hnext
    · rw [polled, polled_of_ne op hop, traffic, traffic_of_ne op hop, stream, ← List.append_assoc]
      exact ih (h.write hop)

theorem follows_new (uart : U) : Follows [] [] [] {} (new uart) where
  place := ⟨rfl, .inl rfl, by simp⟩
  counts := Gauge.measures_empty

theorem Framed.intact {uart : U} {ops : List Op} (h : Framed hw uart ops) :
    Intact {} (traffic hw (new uart) ops) :=
  ((follows_new uart).whole_iff_intact ops).mp h.1

end ControlChannel

/-- For every UART and every run of the channel, the polls return whole lines in order
exactly when no poll takes a line that an earlier poll found unfinished, with no other
line waiting, and past the cap. -/
theorem poll_framing_iff {U : Type} (hw : Uart U) (uart : U) (ops : List ControlChannel.Op) :
    ControlChannel.Framed hw uart ops ↔
      ControlChannel.Intact {} (ControlChannel.traffic hw (.new uart) ops) := by
  have hstart := ControlChannel.follows_new uart
  constructor
  · exact ControlChannel.Framed.intact
  · intro hintact
    exact ⟨(hstart.whole_iff_intact ops).mpr hintact, hstart.pairwise_start ops⟩

namespace ControlChannel

def guestByte (b : UInt8) : Op :=
  .pioWrite SERIAL2_PORT_BASE b
    (Lapic.new ⟨0, ⟨1000, TscFrequency.kilohertz_pos⟩⟩ 1 1 Lapic.one_to_one)
    (Ioapic.new 0)

theorem traffic_bare (c : ControlChannel Unit) (ops : List Op) :
    traffic Uart.bare c ops = ops.map (Op.traffic Uart.bare (new ())) := by
  induction ops generalizing c with
  | nil => rfl
  | cons op ops ih =>
    rw [traffic, ih, List.map_cons]
    cases op with
    | pollLine | sendFrame framed | pump lapic ioapic | pioRead port lapic ioapic
    | pioWrite port byte lapic ioapic => rfl

theorem intact_replicate {b : UInt8} (hb : b ≠ 10) (n : Nat) (g : Gauge) (ts : List Traffic) :
    Intact g (List.replicate n (.write [b]) ++ ts) ↔
      Intact { g with unfinished := g.unfinished + n } ts := by
  induction n generalizing g with
  | zero => rfl
  | succ n ih =>
    have hwrite : g.write 10 [b] = { g with unfinished := g.unfinished + 1 } := by
      simp [Gauge.write, Spool.unfinished, hb]
    rw [List.replicate_succ, List.cons_append, Intact, hwrite, ih]
    simp only [Nat.add_assoc, Nat.add_comm 1 n]

/-- A line past the cap, a poll, then its end and another poll: the second poll returns
the end of the line as if it were a line. -/
theorem not_framed_of_long {n : Nat} (hlong : TX_BUF_CAP < n) :
    ¬ Framed Uart.bare () (List.replicate n (guestByte 97) ++
      [.pollLine, guestByte 120, guestByte 10, .pollLine]) := by
  intro hframed
  have hintact := hframed.intact
  rw [traffic_bare, List.map_append, List.map_replicate] at hintact
  have hend := (intact_replicate (b := 97) (by decide) n _ _).mp hintact
  revert hend
  simp [Intact, Op.traffic, Gauge.take, Gauge.write, Spool.unfinished, Op.emitted, guestByte,
    Uart.bare, hlong]
  omega

end ControlChannel

/-- The line is one byte past the cap when it is polled. -/
theorem rest_of_line_polled :
    ¬ ControlChannel.Framed Uart.bare ()
      (List.replicate 1048577 (ControlChannel.guestByte 97) ++
        [.pollLine, ControlChannel.guestByte 120, ControlChannel.guestByte 10, .pollLine]) :=
  ControlChannel.not_framed_of_long (by decide)

end Tdvmm.Vmm
