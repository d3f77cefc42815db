import Tdvmm.Egress.Solicit
import Tdvmm.Egress.Framing

/-!
# Egress.Stall — a guest that takes nothing

The guest writes frames and never reads COM4: its receive FIFO takes what fits and no more, and
everything else the backend sends stays pending. `stalled` is such a run, with any answers of the
connector and any cuts of the guest's stream into chunks.

* `stalled_parses`: the frames handled are those of the bytes pumped.
* `stalled_pending_le`: no more is pending than the soliciting frames account for.
-/

namespace Tdvmm.Egress

open Lib Tdvmm.Proto

/-! ## The run -/

structure Stalled where
  backend : Backend
  fifo : Bytes

/-- A pump, after which the FIFO takes up to `k` bytes; on an error nothing is delivered. -/
def Stalled.turnTaking (k : Nat) (t : Stalled) (env : Env) (chunk : Bytes) : Stalled :=
  match (pump env chunk).run t.backend with
  | (.error _, b) => { t with backend := b }
  | (.ok (), b) =>
    let (bytes, b) := b.drainToGuest k
    { backend := b, fifo := t.fifo ++ bytes }

/-- A turn in which the FIFO takes what still fits. -/
def Stalled.turn (capacity : Nat) (t : Stalled) (env : Env) (chunk : Bytes) : Stalled :=
  t.turnTaking (capacity - t.fifo.length) env chunk

def stalled (capacity : Nat) (run : List (Env × Bytes)) : Stalled :=
  run.foldl (fun t turn => t.turn capacity turn.1 turn.2) ⟨.init, []⟩

/-- A run in which each turn takes some of what still fits. -/
inductive StalledRun (capacity : Nat) : List (Env × Bytes) → Stalled → Prop
  | init : StalledRun capacity [] ⟨.init, []⟩
  | turn {run : List (Env × Bytes)} {t : Stalled} {k : Nat} (env : Env) (chunk : Bytes)
      (h : StalledRun capacity run t) (hk : k ≤ capacity - t.fifo.length) :
      StalledRun capacity (run ++ [(env, chunk)]) (t.turnTaking k env chunk)

section Run

variable {capacity : Nat} {t : Stalled} {env : Env} {chunk : Bytes} {run : List (Env × Bytes)}

theorem stalled_snoc : stalled capacity (run ++ [(env, chunk)]) =
    (stalled capacity run).turn capacity env chunk :=
  List.foldl_concat ..

theorem turn_eq : ∃ bytes rest, ((pump env chunk).run t.backend).2.txPending = bytes ++ rest ∧
    t.turn capacity env chunk =
      ⟨{ ((pump env chunk).run t.backend).2 with txPending := rest }, t.fifo ++ bytes⟩ ∧
    (t.fifo.length ≤ capacity → (t.fifo ++ bytes).length ≤ capacity) := by
  unfold Stalled.turn Stalled.turnTaking
  rcases (pump env chunk).run t.backend with ⟨res, b⟩
  rcases res with e | u
  · exact ⟨[], b.txPending, rfl, by simp, fun h => by simpa using h⟩
  · refine ⟨_, _, (List.take_append_drop (capacity - t.fifo.length) b.txPending).symm, rfl,
      fun h => ?_⟩
    rw [List.length_append, List.length_take]
    omega

/-- What holds after every turn: the streams have moved along their steps, and everything enqueued
is pending or in the FIFO. -/
structure Stalled.Sound (capacity : Nat) (t : Stalled) : Prop where
  streams : ∀ id, StreamSteps False id .init (t.backend.view id)
  conserved : t.fifo ++ t.backend.txPending = wire t.backend.hist
  room : t.fifo.length ≤ capacity

theorem Stalled.Sound.turn (h : t.Sound capacity) : (t.turn capacity env chunk).Sound capacity := by
  obtain ⟨bytes, rest, hsplit, hturn, hroom⟩ := @turn_eq capacity t env chunk
  obtain ⟨res, b', fs, ts, hs, hrun, hadv, -⟩ :=
    @pump_advance False t.backend env False.elim False.elim chunk
  obtain ⟨es, hhist, htx, -⟩ := hadv.grows
  rw [hturn]
  rw [hrun] at hsplit ⊢
  refine ⟨fun id => (h.streams id).trans (hadv.streams id), ?_, hroom h.room⟩
  have hall : t.fifo ++ (bytes ++ rest) = wire b'.hist := by
    rw [← hsplit, htx, ← List.append_assoc, h.conserved, hhist, wire_append]
  simpa using hall

theorem stalled_sound : (stalled capacity run).Sound capacity := by
  induction run using List.reverseRecOn with
  | nil =>
    refine ⟨fun id => ?_, rfl, Nat.zero_le _⟩
    rw [show (stalled capacity []).backend = .init from rfl, view_init]
  | append_singleton run turn ih =>
    rw [stalled_snoc]
    exact ih.turn

theorem stalled_parses (h : (codec.parseAll (run.map Prod.snd).flatten).error = none) :
    (stalled capacity run).backend.rxParse = (codec.parseAll (run.map Prod.snd).flatten).rest ∧
      recvs (stalled capacity run).backend.hist =
        (codec.parseAll (run.map Prod.snd).flatten).tokens.map toOwned := by
  induction run using List.reverseRecOn with
  | nil =>
    rw [List.map_nil, List.flatten_nil, Decoder.parseAll_none codec.waits]
    exact ⟨rfl, rfl⟩
  | append_singleton run turn ih =>
    obtain ⟨env, chunk⟩ := turn
    rw [List.map_append, List.flatten_append, List.map_singleton, List.flatten_singleton] at h ⊢
    have hbefore := (Decoder.parseAll_front h).1
    obtain ⟨hrx, hrecv⟩ := ih hbefore
    rw [← Decoder.feed_parseAll, Decoder.feed, hbefore] at h ⊢
    have hparse : (codec.parseAll ((stalled capacity run).backend.rxParse ++ chunk)).error =
        none := by
      rw [hrx]
      exact h
    obtain ⟨res, b', hrun, -, hrest, hrecv'⟩ := @pump_parses _ env chunk hparse
    obtain ⟨bytes, rest, -, hturn, -⟩ := @turn_eq capacity (stalled capacity run) env chunk
    rw [stalled_snoc, hturn, hrun]
    constructor
    · rw [hrest, hrx]
      rfl
    · rw [hrecv', hrecv, hrx, Parsed.after, List.map_append]

def WellFormed (fs : List EgressFrame) : Prop := ∀ f ∈ fs, f.Encodable ∧ f.Canonical

theorem parseAll_frameBytes {fs : List EgressFrame} (h : WellFormed fs) :
    codec.parseAll (frameBytes fs) = ⟨fs, [], none⟩ := by
  have hread : ∀ f ∈ fs, ∀ suffix, codec.decode ((encode f []).2 ++ suffix) =
      .ok (some (f, (encode f []).2.length)) := by
    intro f hf suffix
    rw [codec_decode, decode_encode (h f hf).1 (h f hf).2]
  have hparse := Decoder.parseAll_tokens fs [] hread
  rw [List.append_nil, Decoder.parseAll_none codec.waits] at hparse
  rw [frameBytes, hparse, Parsed.after, List.append_nil]

theorem stalled_pending_le {fs : List EgressFrame} {n : Nat} (hfs : WellFormed fs)
    (hrun : (run.map Prod.snd).flatten <+: frameBytes fs)
    (hn : ∀ id, solicitations id (fs.map toOwned) ≤ n) :
    (stalled capacity run).backend.txPending.length ≤
      Fintype.card StreamId * (FRAME_COST * n) := by
  obtain ⟨more, hmore⟩ := hrun
  have hwhole : codec.parseAll ((run.map Prod.snd).flatten ++ more) = ⟨fs, [], none⟩ := by
    rw [hmore, parseAll_frameBytes hfs]
  obtain ⟨hparsed, hfront⟩ := @Decoder.parseAll_front _ _ _ codec _ more (by rw [hwhole])
  have hrecv := (@stalled_parses capacity run hparsed).2
  have hsound := @stalled_sound capacity run
  have hwire := wire_le hsound.streams (n := n) fun id => by
    refine (solicitations_mono ?_).trans (hn id)
    rw [hrecv]
    rw [hwhole] at hfront
    exact hfront.map toOwned
  rw [← hsound.conserved, List.length_append] at hwire
  omega

end Run

/-! ## One frame at a time -/

section Single

variable {b b' : Backend} {env : Env} {f : EgressFrame}

theorem pump_frame (hf : f.Encodable ∧ f.Canonical) (hrx : b.rxParse = []) :
    (pump env (encode f []).2).run b = (pumpFrames env [toOwned f]).run b := by
  have hparse := @parseAll_frameBytes [f] (by simpa [WellFormed] using hf)
  rw [frameBytes, List.flatMap_singleton] at hparse
  rw [run_pump, parseFrames_eq, Decoder.parse_eq_parseAll (Nat.lt_succ_self _), hrx,
    List.nil_append, hparse]
  simp only [List.map_singleton]
  congr 1
  rw [← hrx]

def Stalled.sent (t : Stalled) : Nat := t.fifo.length + t.backend.txPending.length

theorem turn_frame {capacity : Nat} {t : Stalled} (hf : f.Encodable ∧ f.Canonical)
    (hrx : t.backend.rxParse = [])
    (hrun : (pumpFrames env [toOwned f]).run t.backend = (.ok (), b')) :
    ∃ rest, (t.turn capacity env (encode f []).2).backend = { b' with txPending := rest } ∧
      (t.turn capacity env (encode f []).2).sent = t.fifo.length + b'.txPending.length := by
  obtain ⟨bytes, rest, hsplit, hturn, -⟩ := @turn_eq capacity t env (encode f []).2
  rw [pump_frame hf hrx, hrun] at hsplit hturn
  refine ⟨rest, by rw [hturn], ?_⟩
  have hlength : b'.txPending.length = bytes.length + rest.length := by
    rw [← List.length_append, ← hsplit]
  rw [hturn, hlength, Stalled.sent]
  simp only [List.length_append]
  omega

theorem turn_consumes {capacity : Nat} {t : Stalled} (hf : f.Encodable ∧ f.Canonical)
    (hrx : t.backend.rxParse = []) :
    (t.turn capacity env (encode f []).2).backend.rxParse = [] ∧
      t.sent ≤ (t.turn capacity env (encode f []).2).sent := by
  obtain ⟨bytes, rest, hsplit, hturn, -⟩ := @turn_eq capacity t env (encode f []).2
  obtain ⟨res, b', fs, ts, hs, hrun, hadv, -⟩ :=
    @pump_advance False t.backend env False.elim False.elim (encode f []).2
  obtain ⟨es, -, htx, -⟩ := hadv.grows
  have hparsed := (aside_pumpFrames env [toOwned f] [] t.backend hrx).1
  rw [← pump_frame hf hrx] at hparsed
  rw [hturn]
  refine ⟨hparsed, ?_⟩
  rw [hrun, htx] at hsplit
  have hlength := congrArg List.length hsplit
  rw [List.length_append, List.length_append] at hlength
  simp only [Stalled.sent, List.length_append]
  omega

end Single

end Tdvmm.Egress
