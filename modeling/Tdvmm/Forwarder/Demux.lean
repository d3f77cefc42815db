import Tdvmm.Egress.Framing
import Tdvmm.Forwarder.System

/-!
# Forwarder.Demux — the guest's reader, and the two parsers side by side

`demux_loop` (`tdvmm-agent/src/forwarder.rs`) reads the egress tty and routes every whole frame
it has. Both keep what they could not yet decode and go on with the next chunk, but they differ
in what they do about an error: the guest has by then routed the frames before it, while the
host acts on no frame of the chunk that loses the framing.

* `demuxLoop_feed`: the loop parses its reads one after the other.
* `chunking_invariant`: neither parser depends on how the stream is cut into chunks.
-/

namespace Tdvmm.Forwarder

open Lib Tdvmm.Proto Tdvmm.Egress

/-! ## The loop -/

/-- What a `read` of the tty answers; no bytes at all is the end of the tty. -/
inductive TtyRead where
  | got (bytes : Bytes)
  | interrupted
  | failed
deriving DecidableEq, Repr

inductive DemuxStop where
  | eof
  | readFailed
  | framingLost (e : EgressCodecError)
deriving DecidableEq, Repr

/-- The state of `demux_loop`: the bytes not yet decoded, the frames handed to `route` (what
`route` does with one is `Sys.routeFrame`), and whether the process has exited. -/
structure Demux where
  buf : Bytes
  routed : List EgressFrame
  stop : Option DemuxStop
deriving DecidableEq, Repr

def Demux.init : Demux := ⟨[], [], none⟩

/-- The inner loop: route the whole frames at the front of the buffer. A frame takes bytes, so
the length of the buffer is fuel enough. -/
def routeAll : Nat → Demux → Demux
  | 0, d => d
  | fuel + 1, d =>
    match decode d.buf with
    | .ok (some x) =>
      routeAll fuel { d with buf := d.buf.drop x.consumed, routed := d.routed ++ [x.frame] }
    | .ok none => d
    | .error e => { d with stop := some (.framingLost e) }

/-- One turn of the outer loop. -/
def demuxTurn (d : Demux) : TtyRead → Demux
  | .got [] => { d with stop := some .eof }
  | .got bytes => routeAll ((d.buf ++ bytes).length + 1) { d with buf := d.buf ++ bytes }
  | .interrupted => d
  | .failed => { d with stop := some .readFailed }

/-- `demux_loop` on the answers of the tty, up to the exit of the process. -/
def demuxLoop : List TtyRead → Demux → Demux
  | [], d => d
  | r :: reads, d =>
    match (demuxTurn d r).stop with
    | none => demuxLoop reads (demuxTurn d r)
    | some _ => demuxTurn d r

/-! ## The loop parses its reads -/

namespace TtyRead

def chunk? : TtyRead → Option Bytes
  | .got bytes => some bytes
  | .interrupted => none
  | .failed => none

/-- The tty is up: a read brings bytes, or is interrupted and made again. -/
def Up : TtyRead → Prop
  | .got bytes => bytes ≠ []
  | .interrupted => True
  | .failed => False

instance (r : TtyRead) : Decidable r.Up := by
  cases r <;> unfold Up <;> infer_instance

end TtyRead

theorem routeAll_parse (fuel : Nat) (d : Demux) :
    routeAll fuel d =
      { buf := (codec.parse fuel d.buf).rest
        routed := d.routed ++ (codec.parse fuel d.buf).tokens
        stop := match (codec.parse fuel d.buf).error with
          | none => d.stop
          | some e => some (.framingLost e) } := by
  induction fuel generalizing d with
  | zero => simp [routeAll, Decoder.parse]
  | succ fuel ih =>
    rw [routeAll, Decoder.parse, codec_decode]
    rcases decode d.buf with e | _ | x
    · simp
    · simp
    · simp only [ih, Parsed.after, List.append_assoc]

def Demux.ofParsed (s : Parsed UInt8 EgressCodecError EgressFrame) : Demux :=
  ⟨s.rest, s.tokens, s.error.map .framingLost⟩

theorem demuxTurn_feed {s : Parsed UInt8 EgressCodecError EgressFrame} (hs : s.error = none)
    {bytes : Bytes} (hbytes : bytes ≠ []) :
    demuxTurn (.ofParsed s) (.got bytes) = .ofParsed (codec.feed s bytes) := by
  obtain ⟨x, xs, rfl⟩ := List.exists_cons_of_ne_nil hbytes
  simp only [demuxTurn, Demux.ofParsed, routeAll_parse,
    Decoder.parse_eq_parseAll (Nat.lt_succ_self _), Decoder.feed, hs, Parsed.after]
  cases (codec.parseAll (s.rest ++ x :: xs)).error <;> rfl

theorem demuxLoop_feed (reads : List TtyRead) (hup : ∀ r ∈ reads, r.Up)
    (s : Parsed UInt8 EgressCodecError EgressFrame) (hs : s.error = none) :
    let t := (reads.filterMap TtyRead.chunk?).foldl codec.feed s
    (demuxLoop reads (.ofParsed s)).routed = t.tokens ∧
      (demuxLoop reads (.ofParsed s)).stop = t.error.map .framingLost ∧
      (t.error = none → (demuxLoop reads (.ofParsed s)).buf = t.rest) := by
  induction reads generalizing s with
  | nil => exact ⟨rfl, rfl, fun _ => rfl⟩
  | cons r reads ih =>
    have hrest : ∀ r' ∈ reads, r'.Up := fun r' hr' => hup r' (List.mem_cons_of_mem _ hr')
    have hr : r.Up := hup r List.mem_cons_self
    cases r with
    | failed => exact hr.elim
    | interrupted =>
      have hturn : (demuxTurn (.ofParsed s) .interrupted).stop = none := by
        simp [demuxTurn, Demux.ofParsed, hs]
      rw [demuxLoop, hturn]
      exact ih hrest s hs
    | got bytes =>
      rw [demuxLoop, demuxTurn_feed hs hr]
      cases herr : (codec.feed s bytes).error with
      | none =>
        have hstop : (Demux.ofParsed (codec.feed s bytes)).stop = none := by
          simp [Demux.ofParsed, herr]
        rw [hstop]
        exact ih hrest (codec.feed s bytes) herr
      | some e =>
        -- the process exits here: what follows is not read, and would not be parsed
        have hstop : (Demux.ofParsed (codec.feed s bytes)).stop = some (.framingLost e) := by
          simp [Demux.ofParsed, herr]
        obtain ⟨herror, htokens⟩ :=
          Decoder.foldl_feed_of_error herr (reads.filterMap TtyRead.chunk?)
        have hchunks : (TtyRead.got bytes :: reads).filterMap TtyRead.chunk? =
            bytes :: reads.filterMap TtyRead.chunk? := rfl
        rw [hstop, hchunks, List.foldl_cons]
        refine ⟨htokens.symm, ?_, ?_⟩
        · rw [herror]
          exact hstop
        · intro hnone
          rw [herror] at hnone
          cases hnone

/-! ## Both parsers -/

theorem parseAll_frameBytes {frames : List EgressFrame}
    (hframes : ∀ f ∈ frames, f.Encodable ∧ f.Canonical) (tail : Bytes) :
    codec.parseAll (frameBytes frames ++ tail) = (codec.parseAll tail).after frames := by
  refine Decoder.parseAll_tokens frames tail fun f hf suffix => ?_
  obtain ⟨henc, hcanon⟩ := hframes f hf
  rw [codec_decode, decode_encode henc hcanon]

theorem feed_stream {frames : List EgressFrame} {tail : Bytes} {chunks : List Bytes}
    (hframes : ∀ f ∈ frames, f.Encodable ∧ f.Canonical)
    (hstream : chunks.flatten = frameBytes frames ++ tail) :
    chunks.foldl codec.feed (codec.parseAll []) = (codec.parseAll tail).after frames := by
  rw [Decoder.feed_chunks, List.nil_append, hstream, parseAll_frameBytes hframes]

/-- Neither parser depends on the cuts between the chunks. On frames and the beginning of one more
(`part`, on which `decode` asks for more: so does every proper prefix of an encoding, by
`decode_proper_prefix`) both handle these frames and keep that beginning; behind frames and bytes
that are malformed (`bad`, on which `decode` fails) both report the framing error, however the
stream goes on. -/
theorem chunking_invariant :
    (∀ (frames : List EgressFrame) (part : Bytes),
      (∀ f ∈ frames, f.Encodable ∧ f.Canonical) → decode part = .ok none →
      (∀ (run : List (Env × Bytes)) (b : Backend), b.rxParse = [] →
        (run.map Prod.snd).flatten = frameBytes frames ++ part →
        ∃ b', pumps run b = (none, b') ∧
          recvs b'.hist = recvs b.hist ++ frames.map toOwned ∧ b'.rxParse = part) ∧
      (∀ reads : List TtyRead, (∀ r ∈ reads, r.Up) →
        (reads.filterMap TtyRead.chunk?).flatten = frameBytes frames ++ part →
        demuxLoop reads .init = ⟨part, frames, none⟩)) ∧
    (∀ (frames : List EgressFrame) (bad more : Bytes) (e : EgressCodecError),
      (∀ f ∈ frames, f.Encodable ∧ f.Canonical) → decode bad = .error e →
      (∀ (run : List (Env × Bytes)) (b : Backend), b.rxParse = [] →
        (run.map Prod.snd).flatten = frameBytes frames ++ (bad ++ more) →
        (pumps run b).1 = some e) ∧
      (∀ reads : List TtyRead, (∀ r ∈ reads, r.Up) →
        (reads.filterMap TtyRead.chunk?).flatten = frameBytes frames ++ (bad ++ more) →
        (demuxLoop reads .init).stop = some (.framingLost e))) := by
  have hempty : codec.parseAll [] = ⟨[], [], none⟩ := Decoder.parseAll_none codec.waits
  have hinit : Demux.init = .ofParsed (codec.parseAll []) := by
    rw [hempty]
    rfl
  constructor
  · intro frames part hframes hpart
    have hstuck : codec.parseAll part = ⟨[], part, none⟩ :=
      Decoder.parseAll_none (by rw [codec_decode, hpart])
    constructor
    · -- the host
      intro run b hrx hstream
      have hrun := pumps_feed run b (recvs b.hist) (codec.parseAll []) (by rw [hempty])
        (by rw [hempty, hrx]) (by rw [hempty, List.map_nil, List.append_nil])
      rw [feed_stream hframes hstream, hstuck] at hrun
      simp only [Parsed.after, List.append_nil] at hrun
      obtain ⟨b', hpumps, hrest, hrecv⟩ := hrun
      exact ⟨b', hpumps, hrecv, hrest⟩
    · -- the guest
      intro reads hup hstream
      obtain ⟨hrouted, hstop, hbuf⟩ := demuxLoop_feed reads hup (codec.parseAll []) (by rw [hempty])
      rw [feed_stream hframes hstream, hstuck, ← hinit] at hrouted hstop hbuf
      simp only [Parsed.after, List.append_nil, Option.map_none, forall_const] at hrouted hstop hbuf
      rw [← hrouted, ← hbuf, ← hstop]
  · intro frames bad more e hframes hbad
    have hlost : codec.parseAll (bad ++ more) = ⟨[], bad ++ more, some e⟩ := by
      apply Decoder.parseAll_error
      rw [codec_decode, decode_append (by rw [hbad]; simp), hbad]
    constructor
    · intro run b hrx hstream
      have hrun := pumps_feed run b (recvs b.hist) (codec.parseAll []) (by rw [hempty])
        (by rw [hempty, hrx]) (by rw [hempty, List.map_nil, List.append_nil])
      rw [feed_stream hframes hstream, hlost] at hrun
      exact hrun
    · intro reads hup hstream
      obtain ⟨-, hstop, -⟩ := demuxLoop_feed reads hup (codec.parseAll []) (by rw [hempty])
      rw [feed_stream hframes hstream, hlost, ← hinit] at hstop
      exact hstop

theorem chunking_invariant_cut :
    demuxLoop [.got [1, 5, 7, 0, 0, 0, 1], .interrupted, .got [6, 7, 0, 0, 0, 1, 2]] .init =
      ⟨[1, 2], [.close 7, .rst 7], none⟩ := by
  -- two frames and the first bytes of a third, the second frame cut in the middle
  refine (chunking_invariant.1 [.close 7, .rst 7] [1, 2] ?_ rfl).2 _ ?_ ?_
  · intro f hf
    simp only [List.mem_cons, List.not_mem_nil, or_false] at hf
    rcases hf with rfl | rfl
    · exact ⟨trivial, trivial⟩
    · exact ⟨trivial, trivial⟩
  · decide
  · decide

end Tdvmm.Forwarder
