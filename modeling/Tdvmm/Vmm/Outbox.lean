import Tdvmm.Egress.Flow
import Tdvmm.Vmm.Channel

/-!
# Vmm.Outbox — bytes for the guest are neither lost nor duplicated

Both channels keep the bytes for the guest that its receive FIFO has not taken yet. To say what
the FIFO has taken, the same code is run over a UART that also keeps a record of it
(`Uart.recording`): the channels are parametric in the UART, so nothing else about them changes.

* `ControlChannel.feed_outbox`, `EgressChannel.feed_outbox`: the two loops.
* `outbox_conserved`: taken and pending bytes are what was enqueued, over every run.
* `EgressChannel.pump_unread`: over a FIFO that is never read, a pump is a turn of
  `Egress.Stall`.
-/

namespace Tdvmm.Vmm

open Lib Proto Egress

variable {U : Type}

/-! ## The record -/

/-- The receive FIFO takes a front part of the bytes offered, or fails and takes none of them. -/
def Uart.TakesPrefix (hw : Uart U) : Prop :=
  ∀ u bytes n, (hw.enqueueRawBytes u bytes).1 = some n → n ≤ bytes.length

/-- The UART, with a record of the bytes its receive FIFO has taken. -/
def Uart.recording (hw : Uart U) : Uart (U × Bytes) where
  write u off byte :=
    let (u', out, fired) := hw.write u.1 off byte
    ((u', u.2), out, fired)
  read u off :=
    let (v, u', fired) := hw.read u.1 off
    (v, (u', u.2), fired)
  enqueueRawBytes u bytes :=
    let (n, u', fired) := hw.enqueueRawBytes u.1 bytes
    (n, (u', u.2 ++ bytes.take (n.getD 0)), fired)
  fifoCapacity u := hw.fifoCapacity u.1

namespace Serial

def taken (s : Serial (U × Bytes)) : Bytes := s.uart.2

variable (hw : Uart U) (s : Serial (U × Bytes))

@[simp] theorem taken_enqueue (bytes : Bytes) :
    (s.enqueueRawBytes hw.recording bytes).2.taken =
      s.taken ++ bytes.take ((s.enqueueRawBytes hw.recording bytes).1.getD 0) := rfl

@[simp] theorem taken_afterIo (lapic : Lapic) (ioapic : Ioapic) (irq : UInt8) :
    (s.afterIo lapic ioapic irq).1.taken = s.taken := by
  unfold afterIo
  split_ifs <;> rfl

theorem enqueue_le {hw : Uart U} (htakes : hw.TakesPrefix) {bytes : Bytes} {n : Nat}
    {s' : Serial (U × Bytes)} (h : s.enqueueRawBytes hw.recording bytes = (some n, s')) :
    n ≤ bytes.length := by
  apply htakes s.uart.1
  exact congrArg Prod.fst h

theorem take_none {res : Option Nat} {bytes : Bytes} (h : ∀ n, res = some (n + 1) → False) :
    bytes.take (res.getD 0) = [] := by
  rcases res with _ | _ | n
  · rfl
  · rfl
  · exact (h n rfl).elim

end Serial

/-! ## COM2 -/

namespace ControlChannel

/-- What the guest has been handed, and what waits. -/
def outbox (c : ControlChannel (U × Bytes)) : Bytes := c.serial.taken ++ c.pendingRx

theorem feed_outbox {hw : Uart U} (htakes : hw.TakesPrefix) (fuel : Nat)
    (c : ControlChannel (U × Bytes)) : (feed hw.recording fuel c).2.outbox = c.outbox := by
  -- the loop removes from the queue exactly what the FIFO took
  induction fuel generalizing c with
  | zero => rfl
  | succ fuel ih =>
    unfold feed
    dsimp only
    split_ifs with hstop
    · rfl
    · generalize hchunk : c.pendingRx.take (hw.recording.fifoCapacity c.serial.uart) = chunk
      have htaken := c.serial.taken_enqueue hw chunk
      split
      · rename_i n serial henq
        have hle := c.serial.enqueue_le htakes henq
        rw [henq] at htaken
        refine (ih _).trans ?_
        -- the chunk is a front part of the queue, so is what was taken of it
        have hfront : chunk.take (n + 1) = c.pendingRx.take (n + 1) := by
          rw [← hchunk, List.take_take]
          rw [← hchunk, List.length_take] at hle
          rw [min_eq_left (by omega)]
        simp only [outbox, htaken, Option.getD_some, hfront, List.append_assoc,
          List.take_append_drop]
      · rename_i res serial hnone henq
        rw [henq] at htaken
        simp only [outbox, htaken, Serial.take_none hnone, List.append_nil]

variable {hw : Uart U}

theorem outbox_afterUartIo (c : ControlChannel (U × Bytes)) (lapic : Lapic) (ioapic : Ioapic) :
    (c.afterUartIo lapic ioapic).1.outbox = c.outbox := by
  simp [afterUartIo, outbox]

theorem pump_conserves (htakes : hw.TakesPrefix) (c : ControlChannel (U × Bytes)) (lapic : Lapic)
    (ioapic : Ioapic) : (c.pump hw.recording lapic ioapic).1.outbox = c.outbox := by
  unfold pump
  dsimp only
  split_ifs
  · exact (outbox_afterUartIo _ lapic ioapic).trans (feed_outbox htakes _ c)
  · exact feed_outbox htakes _ c

/-- What is done to the channel: by the VMM, and by the guest on its registers. -/
inductive Op where
  | sendFrame (framed : Bytes)
  | pump (lapic : Lapic) (ioapic : Ioapic)
  | pollLine
  | pioRead (port : UInt16) (lapic : Lapic) (ioapic : Ioapic)
  | pioWrite (port : UInt16) (byte : UInt8) (lapic : Lapic) (ioapic : Ioapic)

namespace Op

def enqueued : Op → Bytes
  | .sendFrame framed => framed
  | _ => []

def perform (hw : Uart U) (c : ControlChannel U) : Op → ControlChannel U
  | .sendFrame framed => c.sendFrame framed
  | .pump lapic ioapic => (c.pump hw lapic ioapic).1
  | .pollLine => c.pollLine.2
  | .pioRead port lapic ioapic => (c.pioRead hw port lapic ioapic).1
  | .pioWrite port byte lapic ioapic => (c.pioWrite hw port byte lapic ioapic).1

theorem perform_outbox (htakes : hw.TakesPrefix) (c : ControlChannel (U × Bytes)) (op : Op) :
    (op.perform hw.recording c).outbox = c.outbox ++ op.enqueued := by
  cases op with
  | sendFrame framed => simp [perform, ControlChannel.sendFrame, outbox, enqueued]
  | pump lapic ioapic =>
    simp only [perform, enqueued, List.append_nil]
    exact pump_conserves htakes c lapic ioapic
  | pollLine =>
    unfold perform ControlChannel.pollLine enqueued
    dsimp only
    split
    · simp [outbox, Serial.taken]
    · split_ifs <;> simp [outbox, Serial.taken]
  | pioRead port lapic ioapic | pioWrite port byte lapic ioapic =>
    simp only [perform, enqueued, List.append_nil]
    exact outbox_afterUartIo _ lapic ioapic

end Op

theorem run_outbox (htakes : hw.TakesPrefix) (ops : List Op) (c : ControlChannel (U × Bytes)) :
    (ops.foldl (Op.perform hw.recording) c).outbox = c.outbox ++ ops.flatMap Op.enqueued := by
  induction ops generalizing c with
  | nil => simp
  | cons op ops ih =>
    rw [List.foldl_cons, ih, op.perform_outbox htakes, List.flatMap_cons, List.append_assoc]

end ControlChannel

/-! ## COM4 -/

namespace EgressChannel

variable {hw : Uart U}

/-- What the guest has been handed, and what waits. -/
def outbox (c : EgressChannel (U × Bytes)) : Bytes := c.serial.taken ++ c.backend.txPending

theorem feed_hist (hw : Uart U) (fuel : Nat) (c : EgressChannel U) :
    (feed hw fuel c).2.backend.hist = c.backend.hist := by
  induction fuel generalizing c with
  | zero => rfl
  | succ fuel ih =>
    unfold feed
    dsimp only
    split_ifs
    · rfl
    · split
      · split_ifs
        · rfl
        · exact ih _
      · rfl

theorem drainToGuest_append (b : Backend) (max : Nat) :
    (b.drainToGuest max).1 ++ (b.drainToGuest max).2.txPending = b.txPending :=
  List.take_append_drop max b.txPending

theorem feed_outbox (htakes : hw.TakesPrefix) (fuel : Nat) (c : EgressChannel (U × Bytes)) :
    (feed hw.recording fuel c).2.outbox = c.outbox := by
  -- the loop puts back what it took out and the FIFO did not take
  induction fuel generalizing c with
  | zero => rfl
  | succ fuel ih =>
    unfold feed
    dsimp only
    split_ifs with hstop
    · rfl
    · have hwhole := drainToGuest_append c.backend (hw.recording.fifoCapacity c.serial.uart)
      have htaken := c.serial.taken_enqueue hw
        (c.backend.drainToGuest (hw.recording.fifoCapacity c.serial.uart)).1
      split
      · rename_i n serial henq
        have hle := c.serial.enqueue_le htakes henq
        rw [henq] at htaken
        split_ifs with hpart
        · simp only [outbox, Backend.unshiftToGuest, htaken, Option.getD_some]
          rw [List.append_assoc, ← List.append_assoc (List.take (n + 1) _),
            List.take_append_drop, hwhole]
        · refine (ih _).trans ?_
          simp only [outbox, htaken, Option.getD_some]
          rw [List.take_of_length_le (Nat.le_of_not_lt hpart), List.append_assoc, hwhole]
      · rename_i res serial hnone henq
        rw [henq] at htaken
        simp only [outbox, Backend.unshiftToGuest, htaken, Serial.take_none hnone,
          List.append_nil, hwhole]

theorem outbox_afterUartIo (c : EgressChannel (U × Bytes)) (lapic : Lapic) (ioapic : Ioapic) :
    (c.afterUartIo lapic ioapic).1.outbox = c.outbox := by
  simp [afterUartIo, outbox]

theorem deliverToGuest_conserves (htakes : hw.TakesPrefix) (c : EgressChannel (U × Bytes))
    (lapic : Lapic) (ioapic : Ioapic) :
    (deliverToGuest hw.recording c lapic ioapic).1.outbox = c.outbox ∧
      (deliverToGuest hw.recording c lapic ioapic).1.backend.hist = c.backend.hist := by
  have hbox := feed_outbox htakes c.backend.txPending.length c
  have hhist := feed_hist hw.recording c.backend.txPending.length c
  unfold deliverToGuest
  dsimp only
  split_ifs
  · exact ⟨(outbox_afterUartIo _ lapic ioapic).trans hbox, hhist⟩
  · exact ⟨hbox, hhist⟩

/-- The outbox is what the backend has enqueued. -/
def Conserved (c : EgressChannel (U × Bytes)) : Prop := c.outbox = wire c.backend.hist

variable {c : EgressChannel (U × Bytes)}

theorem backend_conserves (env : Env) (fromGuest : Bytes)
    (h : c.Conserved) (tx : Bytes) :
    Conserved { c with
      serial := { c.serial with tx := tx }
      backend := ((Egress.pump env fromGuest).run c.backend).2 } := by
  obtain ⟨res, b', fs, ts, hs, hrun, hadv, -⟩ :=
    @pump_advance False c.backend env False.elim False.elim fromGuest
  obtain ⟨es, hhist, htx, -⟩ := hadv.grows
  have hbefore : c.serial.taken ++ c.backend.txPending = wire c.backend.hist := h
  rw [hrun]
  unfold Conserved outbox
  dsimp only
  rw [hhist, htx, wire_append, ← hbefore, List.append_assoc]
  rfl

theorem pump_conserves (htakes : hw.TakesPrefix) (env : Env)
    (lapic : Lapic) (ioapic : Ioapic) (h : c.Conserved) :
    (c.pump hw.recording env lapic ioapic).2.1.Conserved := by
  have hbackend := backend_conserves env c.serial.tx h []
  unfold pump
  dsimp only
  split
  · rename_i e backend hrun
    rwa [hrun] at hbackend
  · rename_i backend hrun
    rw [hrun] at hbackend
    obtain ⟨hbox, hhist⟩ := deliverToGuest_conserves htakes
      { c with serial := { c.serial with tx := [] }, backend := backend } lapic ioapic
    unfold Conserved at hbackend ⊢
    rw [hbox, hhist]
    exact hbackend

/-- What is done to the channel: by the VMM, and by the guest on its registers. -/
inductive Op where
  | pump (env : Env) (lapic : Lapic) (ioapic : Ioapic)
  | noteGatedInterval (realNs : Nat)
  | pioRead (port : UInt16) (lapic : Lapic) (ioapic : Ioapic)
  | pioWrite (port : UInt16) (byte : UInt8) (lapic : Lapic) (ioapic : Ioapic)

def Op.perform (hw : Uart U) (c : EgressChannel U) : Op → EgressChannel U
  | .pump env lapic ioapic => (c.pump hw env lapic ioapic).2.1
  | .noteGatedInterval realNs => { c with backend := c.backend.noteGatedInterval realNs }
  | .pioRead port lapic ioapic => (c.pioRead hw port lapic ioapic).1
  | .pioWrite port byte lapic ioapic => (c.pioWrite hw port byte lapic ioapic).1

theorem Op.perform_conserves (htakes : hw.TakesPrefix)
    (h : c.Conserved) (op : Op) : (op.perform hw.recording c).Conserved := by
  cases op with
  | pump env lapic ioapic => exact pump_conserves htakes env lapic ioapic h
  | noteGatedInterval realNs => exact h
  | pioRead port lapic ioapic | pioWrite port byte lapic ioapic =>
    exact (outbox_afterUartIo _ lapic ioapic).trans h

theorem run_conserves (htakes : hw.TakesPrefix) (ops : List Op)
    (h : c.Conserved) : (ops.foldl (Op.perform hw.recording) c).Conserved := by
  induction ops generalizing c with
  | nil => exact h
  | cons op ops ih => exact ih (op.perform_conserves htakes h)

end EgressChannel

/-! ## Both channels -/

/-- A port whose UART is in state `u` and has taken nothing. -/
def Serial.fresh (u : U) : Serial (U × Bytes) := ⟨(u, []), false, []⟩

/-- From a fresh channel, after any run: what the UART has taken, followed by what is pending, is
what has been enqueued, in order. -/
theorem outbox_conserved (hw : Uart U) (htakes : hw.TakesPrefix) (u : U) :
    (∀ ops : List ControlChannel.Op,
      let c := ops.foldl (ControlChannel.Op.perform hw.recording) ⟨.fresh u, []⟩
      c.serial.taken ++ c.pendingRx = ops.flatMap ControlChannel.Op.enqueued) ∧
    (∀ (ops : List EgressChannel.Op) (unsafeJumps : Bool),
      let c := ops.foldl (EgressChannel.Op.perform hw.recording) ⟨.init, .fresh u, unsafeJumps⟩
      c.serial.taken ++ c.backend.txPending =
        (sents c.backend.hist).flatMap fun frame => (encode frame []).2) := by
  constructor
  · intro ops
    have hrun := ControlChannel.run_outbox htakes ops ⟨.fresh u, []⟩
    exact hrun
  · intro ops unsafeJumps
    exact EgressChannel.run_conserves htakes ops (c := ⟨.init, .fresh u, unsafeJumps⟩) rfl

/-- A UART whose state is the room left in its receive FIFO; a read makes room for one byte. -/
def Uart.ofRoom : Uart Nat where
  write u _ _ := (u, [], false)
  read u _ := (0, u + 1, false)
  enqueueRawBytes u bytes := (some (min u bytes.length), u - min u bytes.length, false)
  fifoCapacity u := u

/-- Two commands and a FIFO of three bytes. -/
theorem outbox_conserved_commands :
    let ops : List ControlChannel.Op := [.sendFrame [1, 2],
      .pump (.new ⟨0, ⟨1, by decide⟩⟩ 1 1 (by decide)) (.new 0), .sendFrame [3, 4],
      .pump (.new ⟨0, ⟨1, by decide⟩⟩ 1 1 (by decide)) (.new 0)]
    let c := ops.foldl (ControlChannel.Op.perform Uart.ofRoom.recording) ⟨.fresh 3, []⟩
    c.serial.taken ++ c.pendingRx = [1, 2, 3, 4] :=
  (outbox_conserved Uart.ofRoom (fun u bytes n h => by
    simp only [Uart.ofRoom, Option.some.injEq] at h
    omega) 3).1 _

/-! ## A FIFO that is never read -/

/-- The receive FIFO of a UART that the guest never reads: `held` is what it has taken, it has room
for the rest of its capacity, and it takes the front of what it is offered, a part of it, or
nothing. -/
structure Uart.Unread (hw : Uart U) (capacity : Nat) (held : U → Bytes) : Prop where
  room : ∀ u, hw.fifoCapacity u = capacity - (held u).length
  takes : ∀ u bytes n u' fired, hw.enqueueRawBytes u bytes = (some n, u', fired) →
    n ≤ bytes.length ∧ held u' = held u ++ bytes.take n
  refuses : ∀ u bytes u' fired, hw.enqueueRawBytes u bytes = (none, u', fired) → held u' = held u

/-- What fits is taken whole. -/
def Uart.TakesFitting (hw : Uart U) : Prop :=
  ∀ u bytes, bytes ≠ [] → bytes.length ≤ hw.fifoCapacity u →
    (hw.enqueueRawBytes u bytes).1 = some bytes.length

/-- The FIFO of the `vm-superio` UART, from which nothing is read. -/
def Uart.unread (capacity : Nat) : Uart Bytes where
  write u _ byte := (u, [byte], false)
  read u _ := (0, u, false)
  enqueueRawBytes u bytes :=
    let n := min (capacity - u.length) bytes.length
    (if capacity ≤ u.length then none else some n, u ++ bytes.take n, true)
  fifoCapacity u := capacity - u.length

theorem Uart.unread_unread (capacity : Nat) : (Uart.unread capacity).Unread capacity id where
  room _ := rfl
  takes u bytes n u' fired h := by
    simp only [unread, Prod.mk.injEq] at h
    obtain ⟨hn, rfl, -⟩ := h
    split_ifs at hn
    rw [← Option.some.inj hn]
    exact ⟨min_le_right _ _, rfl⟩
  refuses u bytes u' fired h := by
    simp only [unread, Prod.mk.injEq] at h
    obtain ⟨hn, rfl, -⟩ := h
    split_ifs at hn with hfull
    simp [Nat.sub_eq_zero_of_le hfull]

theorem Uart.unread_takesFitting (capacity : Nat) : (Uart.unread capacity).TakesFitting := by
  intro u bytes hne hle
  have hpos := List.length_pos_iff.mpr hne
  dsimp only [unread] at hle ⊢
  rw [if_neg (by omega), min_eq_right hle]

namespace EgressChannel

section Unread

variable {hw : Uart U} {capacity : Nat} {held : U → Bytes}

theorem held_enqueue (hfifo : hw.Unread capacity held) (s : Serial U) (bytes : Bytes) :
    held (s.enqueueRawBytes hw bytes).2.uart =
        held s.uart ++ bytes.take ((s.enqueueRawBytes hw bytes).1.getD 0) ∧
      (s.enqueueRawBytes hw bytes).1.getD 0 ≤ bytes.length := by
  unfold Serial.enqueueRawBytes
  rcases henq : hw.enqueueRawBytes s.uart bytes with ⟨n | n, u', fired⟩
  · have hheld := hfifo.refuses _ _ _ _ henq
    simp [hheld]
  · obtain ⟨hle, hheld⟩ := hfifo.takes _ _ _ _ _ henq
    exact ⟨hheld, hle⟩

/-- The delivery loop moves a front part of the pending bytes into the FIFO, and all that fits if
the UART takes that. -/
theorem feed_delivers (hfifo : hw.Unread capacity held) (fuel : Nat) (c : EgressChannel U) :
    ∃ k ≤ capacity - (held c.serial.uart).length,
      (feed hw fuel c).2.backend = (c.backend.drainToGuest k).2 ∧
      held (feed hw fuel c).2.serial.uart =
        held c.serial.uart ++ (c.backend.drainToGuest k).1 ∧
      (hw.TakesFitting → c.backend.txPending.length ≤ fuel →
        min (capacity - (held c.serial.uart).length) c.backend.txPending.length ≤ k) := by
  have hnone : ∀ b : Backend, b.drainToGuest 0 = ([], b) := fun _ => rfl
  induction fuel generalizing c with
  | zero =>
    refine ⟨0, Nat.zero_le _, rfl, by simp [hnone, feed], fun _ hle => ?_⟩
    omega
  | succ fuel ih =>
    obtain ⟨room, hroom⟩ : ∃ room, capacity - (held c.serial.uart).length = room := ⟨_, rfl⟩
    have hcap : hw.fifoCapacity c.serial.uart = room := (hfifo.room _).trans hroom
    unfold feed
    dsimp only
    rw [hcap, hroom]
    split_ifs with hstop
    · -- no room, or nothing pending
      refine ⟨0, Nat.zero_le _, rfl, by simp [hnone], fun _ _ => ?_⟩
      rcases hstop with rfl | hempty
      · omega
      · have hpending : c.backend.txPending = [] := by
          simpa [Backend.hasFramesForGuest] using hempty
        simp [hpending]
    · rcases not_or.mp hstop with ⟨hpos, hsome⟩
      have hfit : hw.TakesFitting →
          (c.serial.enqueueRawBytes hw (c.backend.txPending.take room)).1 =
          some (c.backend.txPending.take room).length := by
        intro htakes
        have hne : c.backend.txPending.take room ≠ [] := by
          simpa [hpos, Backend.hasFramesForGuest] using hsome
        exact htakes _ _ hne (by rw [hcap]; exact List.length_take_le _ _)
      obtain ⟨hheld, hle⟩ := held_enqueue hfifo c.serial (c.backend.txPending.take room)
      have hsplit := List.take_append_drop room c.backend.txPending
      have hlen := @List.length_take _ room c.backend.txPending
      obtain ⟨chunk, hchunk⟩ : ∃ chunk, c.backend.txPending.take room = chunk := ⟨_, rfl⟩
      obtain ⟨rest, hrest⟩ : ∃ rest, c.backend.txPending.drop room = rest := ⟨_, rfl⟩
      rw [hchunk] at hfit hheld hle hsplit hlen
      rw [hrest] at hsplit
      simp only [Backend.drainToGuest, hchunk, hrest]
      split
      · rename_i n serial henq
        rw [henq, Option.getD_some] at hheld hle
        split_ifs with hpart
        · -- a part is taken: the rest goes back in front
          refine ⟨n + 1, by omega, ?_, ?_, fun htakes _ => ?_⟩
          · rw [Backend.unshiftToGuest, ← hsplit, List.drop_append_of_le_length hle]
          · rw [hheld, ← hsplit, List.take_append_of_le_length hle]
          · have heq := hfit htakes
            rw [henq] at heq
            exact absurd (Option.some.inj heq) (Nat.ne_of_lt hpart)
        · -- the chunk is taken whole: go on with the rest
          have hwhole : n.succ = chunk.length := by omega
          obtain ⟨k, hk, hbackend, huart, -⟩ := ih { c with
            backend := { c.backend with txPending := rest }, serial := serial }
          rw [hwhole, List.take_length] at hheld
          dsimp only [Backend.drainToGuest] at hk hbackend huart
          rw [hheld, List.length_append] at hk
          refine ⟨chunk.length + k, by omega, ?_, ?_, fun _ _ => by omega⟩
          · rw [hbackend, ← hsplit, List.drop_length_add_append]
          · rw [huart, hheld, ← hsplit, List.take_length_add_append, List.append_assoc]
      · -- nothing is taken: all of it goes back
        rename_i res serial hnot henq
        rw [henq] at hheld
        dsimp only at hheld
        rw [Serial.take_none hnot, List.append_nil] at hheld
        refine ⟨0, Nat.zero_le _, ?_, by rw [hheld, List.take_zero, List.append_nil],
          fun htakes _ => ?_⟩
        · rw [Backend.unshiftToGuest, hsplit, List.drop_zero]
        · have heq := hfit htakes
          rw [henq] at heq
          cases hlength : chunk.length with
          | zero => omega
          | succ n => exact (hnot n (heq.trans (congrArg some hlength))).elim

theorem pump_unread (hfifo : hw.Unread capacity held) (env : Env) (c : EgressChannel U)
    (lapic : Lapic) (ioapic : Ioapic) :
    ∃ k ≤ capacity - (held c.serial.uart).length,
      (⟨(c.pump hw env lapic ioapic).2.1.backend,
          held (c.pump hw env lapic ioapic).2.1.serial.uart⟩ : Stalled) =
        Stalled.turnTaking k ⟨c.backend, held c.serial.uart⟩ env c.serial.tx ∧
      (hw.TakesFitting →
        Stalled.turnTaking k ⟨c.backend, held c.serial.uart⟩ env c.serial.tx =
          Stalled.turn capacity ⟨c.backend, held c.serial.uart⟩ env c.serial.tx) := by
  unfold pump Stalled.turn Stalled.turnTaking
  dsimp only
  rcases (Egress.pump env c.serial.tx).run c.backend with ⟨e | ⟨⟨⟩⟩, b⟩
  · exact ⟨0, Nat.zero_le _, rfl, fun _ => rfl⟩
  · obtain ⟨k, hk, hbackend, huart, hall⟩ := feed_delivers hfifo b.txPending.length
      { c with backend := b, serial := { c.serial with tx := [] } }
    dsimp only at hk hbackend huart hall ⊢
    refine ⟨k, hk, ?_, fun htakes => ?_⟩
    · unfold deliverToGuest
      dsimp only
      split_ifs
      · have hkeeps (c' : EgressChannel U) : (c'.afterUartIo lapic ioapic).1.backend = c'.backend ∧
            (c'.afterUartIo lapic ioapic).1.serial.uart = c'.serial.uart := by
          unfold afterUartIo Serial.afterIo
          dsimp only
          split_ifs <;> exact ⟨rfl, rfl⟩
        rw [(hkeeps _).1, (hkeeps _).2, hbackend, huart]
      · rw [hbackend, huart]
    · -- what is taken beyond the pending bytes makes no difference
      have hle := hall htakes (Nat.le_refl _)
      unfold Backend.drainToGuest
      rcases Nat.lt_or_ge k b.txPending.length with hlt | hge
      · rw [show k = capacity - (held c.serial.uart).length by omega]
      · dsimp only
        rw [List.take_of_length_le hge, List.drop_of_length_le hge,
          List.take_of_length_le (hge.trans hk), List.drop_of_length_le (hge.trans hk)]

end Unread

def pumped (hw : Uart U) (c : EgressChannel U) (run : List ((Env × Bytes) × Lapic × Ioapic)) :
    EgressChannel U :=
  run.foldl (fun c t => (pump hw t.1.1
    { c with serial := { c.serial with tx := c.serial.tx ++ t.1.2 } } t.2.1 t.2.2).2.1) c

/-- Every run of the channel over a FIFO that is never read is a stalled run: what is pending and
what was taken are as if each pump had moved a front part of the pending bytes, and all that fits if
the UART takes that. The capture buffer is empty after each. -/
theorem pumped_unread {hw : Uart U} {capacity : Nat} {held : U → Bytes}
    (hfifo : hw.Unread capacity held) {u : U} (hu : held u = []) (unsafeJumps : Bool)
    (run : List ((Env × Bytes) × Lapic × Ioapic)) :
    let c := pumped hw ⟨.init, ⟨u, false, []⟩, unsafeJumps⟩ run
    c.serial.tx = [] ∧ StalledRun capacity (run.map (·.1)) ⟨c.backend, held c.serial.uart⟩ ∧
      (hw.TakesFitting →
        (⟨c.backend, held c.serial.uart⟩ : Stalled) = stalled capacity (run.map (·.1))) := by
  induction run using List.reverseRecOn with
  | nil =>
    dsimp only [pumped, List.foldl_nil, List.map_nil]
    rw [hu]
    exact ⟨rfl, .init, fun _ => rfl⟩
  | append_singleton run t ih =>
    obtain ⟨htx, hrun, hall⟩ := ih
    obtain ⟨⟨env, chunk⟩, lapic, ioapic⟩ := t
    simp only [pumped, List.foldl_append, List.foldl_cons, List.foldl_nil, List.map_append,
      List.map_singleton] at htx hrun hall ⊢
    generalize hc : List.foldl _ _ run = c at htx hrun hall ⊢
    obtain ⟨k, hk, hturn, hfit⟩ := pump_unread hfifo env
      { c with serial := { c.serial with tx := c.serial.tx ++ chunk } } lapic ioapic
    dsimp only at hk hturn hfit
    rw [htx, List.nil_append] at hturn hfit ⊢
    refine ⟨pump_tx _ _ _ _ _, ?_, fun htakes => ?_⟩
    · rw [hturn]
      exact hrun.turn env chunk hk
    · rw [hturn, hfit htakes, hall htakes, stalled_snoc]

theorem pumped_unread_resets :
    let run := List.replicate 12 (((Env.refusing 7, (encode (.data 7 []) []).2),
      Lapic.new ⟨0, ⟨1, by decide⟩⟩ 1 1 (by decide), Ioapic.new 0) : (Env × Bytes) × Lapic × Ioapic)
    let c := pumped (.unread 64) ⟨.init, ⟨[], false, []⟩, false⟩ run
    c.serial.uart.length = 64 ∧ c.backend.txPending = [0, 0, 1, 6, 7, 0, 0, 0] := by
  -- twelve frames for a stream that does not exist: of the answers, 64 bytes are taken and the
  -- last eight stay pending
  intro run c
  have hrun := ((pumped_unread (Uart.unread_unread 64) rfl false run).2.2
    (Uart.unread_takesFitting 64)).trans (show _ = stalled 64 (List.replicate 12
      (Env.refusing 7, (encode (.data 7 []) []).2)) by rw [List.map_replicate])
  have hfifo := congrArg Stalled.fifo hrun
  have hpending := congrArg (fun t => t.backend.txPending) hrun
  dsimp only [id] at hfifo hpending
  rw [hfifo, hpending]
  decide +kernel

end EgressChannel

end Tdvmm.Vmm
