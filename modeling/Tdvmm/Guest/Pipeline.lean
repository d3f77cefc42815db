import Tdvmm.Guest.Integrity
import Tdvmm.Lib.Spool

/-!
# Guest.Pipeline — requests one after the other on a connection

A client may send many requests before it reads a reply.

A frame is a line, but a line that a read leaves unfinished and past the cap is surfaced as it
stands and goes on as a frame of its own. So a request line is dispatched exactly once when the
frames before it in the same read were answered and its own frames hold just that request
(`pipeline_iff`).
-/

namespace Tdvmm.Guest

open Lib Proto

variable {W : Type}

/-! ## The reader -/

/-- The frame the reader makes of an answer of its buffer. -/
def frameOf : Spool.Out UInt8 → Option Bytes
  | .line _ rest => some (rest ++ [10])
  | .dropped piece => some piece
  | .none => none

theorem LineReader.next_taken {s s' : Spool UInt8} {out : Spool.Out UInt8}
    (h : Spool.Taken 10 RX_LINE_CAP s out s') :
    (⟨s.buf⟩ : LineReader).next = (frameOf out).map fun frame => (frame, ⟨s'.buf⟩) := by
  unfold next
  cases h with
  | line hrest =>
    simp only
    rw [span_sep hrest]
    rfl
  | dropped hbuf hlong =>
    simp only
    rw [span_free hbuf]
    simp only [frameOf, Option.map_some]
    rw [if_pos hlong]
  | none hbuf hshort =>
    simp only
    rw [span_free hbuf]
    simp only [frameOf, Option.map_none]
    rw [if_neg (Nat.not_lt.mpr hshort)]

theorem LineReader.drainAux_eq (fuel : Nat) (s : Spool UInt8) :
    drainAux fuel ⟨s.buf⟩ =
      ((Spool.drain 10 RX_LINE_CAP fuel s).1.filterMap frameOf,
        ⟨(Spool.drain 10 RX_LINE_CAP fuel s).2.buf⟩) := by
  induction fuel generalizing s with
  | zero => rfl
  | succ fuel ih =>
    have htaken := Spool.take_taken 10 RX_LINE_CAP s
    rw [drainAux, Spool.drain, next_taken htaken]
    generalize s.take 10 RX_LINE_CAP = out at htaken
    rcases out with ⟨out, s'⟩
    dsimp only at htaken ⊢
    cases htaken with
    | line hrest => simp [frameOf, ih ⟨[], _⟩]
    | @dropped gone buf hbuf hlong => simp [frameOf, ih ⟨gone ++ buf, []⟩]
    | none hbuf hshort => simp [frameOf]

theorem LineReader.flatten_drain (r : LineReader) : r.drain.1.flatten ++ r.drain.2.buf = r.buf := by
  have aux : ∀ fuel (r : LineReader),
      (drainAux fuel r).1.flatten ++ (drainAux fuel r).2.buf = r.buf := by
    intro fuel
    induction fuel with
    | zero => exact fun r => rfl
    | succ fuel ih =>
      intro r
      rw [drainAux]
      rcases hnext : r.next with _ | ⟨line, r'⟩
      · rfl
      · rw [(next_buf hnext).1]
        simp only [List.flatten_cons, List.append_assoc, ih r']
  exact aux _ r

def LineReader.feed (r : LineReader) : List Bytes → List Bytes × LineReader
  | [] => ([], r)
  | bytes :: reads =>
    let drained := (r.fill bytes).drain
    (drained.1 ++ (feed drained.2 reads).1, (feed drained.2 reads).2)

/-- A line with its newline, or a piece without one that is past the cap. -/
def FrameShape (frame : Bytes) : Prop :=
  (∃ line, frame = line ++ [10] ∧ 10 ∉ line) ∨ 10 ∉ frame ∧ RX_LINE_CAP < frame.length

theorem LineReader.next_shape {r r' : LineReader} {frame : Bytes} (h : r.next = some (frame, r')) :
    FrameShape frame := by
  rcases r.next_cases with ⟨line, later, -, hline, hnext⟩ | ⟨hbuf, hlong, hnext⟩ | ⟨-, -, hnext⟩
  · obtain rfl : line ++ [10] = frame := congrArg Prod.fst (Option.some.inj (hnext.symm.trans h))
    exact .inl ⟨line, rfl, hline⟩
  · obtain rfl : r.buf = frame := congrArg Prod.fst (Option.some.inj (hnext.symm.trans h))
    exact .inr ⟨hbuf, hlong⟩
  · rw [hnext] at h
    cases h

theorem LineReader.next_none {r : LineReader} (h : r.next = none) :
    10 ∉ r.buf ∧ r.buf.length ≤ RX_LINE_CAP := by
  rcases r.next_cases with ⟨line, later, -, -, hnext⟩ | ⟨-, -, hnext⟩ | ⟨hbuf, hshort, -⟩
  · rw [hnext] at h
    cases h
  · rw [hnext] at h
    cases h
  · exact ⟨hbuf, hshort⟩

theorem LineReader.drain_shape (r : LineReader) : ∀ frame ∈ r.drain.1, FrameShape frame := by
  have aux : ∀ fuel (r : LineReader), ∀ frame ∈ (drainAux fuel r).1, FrameShape frame := by
    intro fuel
    induction fuel with
    | zero => simp [drainAux]
    | succ fuel ih =>
      intro r frame hframe
      rw [drainAux] at hframe
      rcases hnext : r.next with _ | ⟨line, r'⟩
      · rw [hnext] at hframe
        exact absurd hframe List.not_mem_nil
      · rw [hnext] at hframe
        rcases List.mem_cons.mp hframe with rfl | hframe
        · exact next_shape hnext
        · exact ih r' frame hframe
  exact aux _ r

/-- The frames and the buffer are all that was read; a frame ends at its only newline
or is a piece past the cap; and the buffer has neither when the frames are taken. -/
theorem LineReader.feed_conserves (reads : List Bytes) :
    (({} : LineReader).feed reads).1.flatten ++ (({} : LineReader).feed reads).2.buf =
        reads.flatten ∧
      (∀ frame ∈ (({} : LineReader).feed reads).1, FrameShape frame) ∧
      10 ∉ (({} : LineReader).feed reads).2.buf ∧
      (({} : LineReader).feed reads).2.buf.length ≤ RX_LINE_CAP := by
  -- From any reader that has no frame left.
  have aux : ∀ (reads : List Bytes) (r : LineReader), r.next = none →
      (r.feed reads).1.flatten ++ (r.feed reads).2.buf = r.buf ++ reads.flatten ∧
        (∀ frame ∈ (r.feed reads).1, FrameShape frame) ∧ (r.feed reads).2.next = none := by
    intro reads
    induction reads with
    | nil =>
      intro r hr
      exact ⟨by simp [feed], by simp [feed], hr⟩
    | cons bytes reads ih =>
      intro r hr
      obtain ⟨hstream, hshape, hend⟩ := ih _ (r.fill bytes).drain_next
      rw [feed]
      refine ⟨?_, ?_, hend⟩
      · rw [List.flatten_append, List.append_assoc, hstream, ← List.append_assoc,
          (r.fill bytes).flatten_drain, List.flatten_cons, ← List.append_assoc]
        rfl
      · intro frame hframe
        rcases List.mem_append.mp hframe with hframe | hframe
        · exact (r.fill bytes).drain_shape frame hframe
        · exact hshape frame hframe
  obtain ⟨hstream, hshape, hend⟩ := aux reads {} rfl
  exact ⟨hstream, hshape, next_none hend⟩

/-- The lines that a read finishes, each with the length of what was surfaced before. -/
def finishes (u : Unfinished UInt8) (bytes : Bytes) : List (Bytes × Nat) :=
  (u.absorb 10 RX_LINE_CAP bytes).1

/-- The part of the unfinished line that a read surfaces. -/
def surfaces (u : Unfinished UInt8) (bytes : Bytes) : List Bytes :=
  (u.spool.write bytes).excess 10 RX_LINE_CAP

/-- The unfinished line after a read. -/
def leaves (u : Unfinished UInt8) (bytes : Bytes) : Unfinished UInt8 :=
  (u.absorb 10 RX_LINE_CAP bytes).2

theorem sound_leaves {u : Unfinished UInt8} (h : u.Sound 10) (bytes : Bytes) :
    (leaves u bytes).Sound 10 := h.absorb RX_LINE_CAP bytes

def lineFrame (p : Bytes × Nat) : Bytes := p.1.drop p.2 ++ [10]

def framesIn (u : Unfinished UInt8) (bytes : Bytes) : List Bytes :=
  (finishes u bytes).map lineFrame ++ surfaces u bytes

def readerAt (u : Unfinished UInt8) : LineReader := ⟨u.spool.buf⟩

theorem drain_readerAt {u : Unfinished UInt8} (h : u.Sound 10) (bytes : Bytes) :
    ((readerAt u).fill bytes).drain = (framesIn u bytes, readerAt (leaves u bytes)) := by
  have hgone : 10 ∉ (u.spool.write bytes).gone := fun hmem => h.open_ (List.mem_of_mem_take hmem)
  have hdrain := @Spool.drain_eq _ _ 10 RX_LINE_CAP _ hgone _ (Nat.le_refl _)
  rw [Spool.contents_spool h] at hdrain
  have haux := LineReader.drainAux_eq (u.spool.write bytes).buf.length (u.spool.write bytes)
  rw [hdrain] at haux
  refine haux.trans ?_
  simp [framesIn, finishes, surfaces, leaves, readerAt, List.filterMap_append, List.filterMap_map,
    Function.comp_def, frameOf, lineFrame]

/-! ## One frame -/

section Frames

variable (O : Outside W)

def requestIn (J : Json) (frame : Bytes) : Option Request :=
  if (trimFrame frame).isEmpty then none else (J.decodeRequest frame).toOption

/-- Whether a frame is answered, or needs no answer, when `n` lines are on the wire. -/
def answeredAt (n : Nat) (sent : Bool) (frame : Bytes) : Bool :=
  (trimFrame frame).isEmpty || (sent && ((requestIn O.json frame).isNone || O.tty n))

/-- The frames before the first one that is not answered. -/
def answeredFrames (sent : Nat → Bool) : Nat → Nat → List Bytes → List Bytes
  | _, _, [] => []
  | k, n, frame :: frames =>
    if answeredAt O n (sent k) frame then
      frame :: answeredFrames sent (k + 1) (n + (requestIn O.json frame).toList.length) frames
    else []

def handed (fd : Fd) (sent : Nat → Bool) : Nat → List Bytes → Loop W → List Bytes
  | _, [], _ => []
  | k, frame :: frames, s =>
    frame ::
      match (serveLine O fd (sent k) frame).run s with
      | (.ok true, s) => handed fd sent (k + 1) frames s
      | _ => []

/-- The state when a request is answered and its event cannot be written. -/
def Loop.muted (s : Loop W) : Loop W := { s with seq := s.seq + 1 }

variable {O}

theorem forward_eq (ev : GuestEvent) (s : Loop W) :
    (forward O ev).run s =
      if O.tty s.wire.length then (.ok (), s.told ev) else (.error (), s.muted) := by
  unfold forward writeTty
  rw [Eff.run_update_bind, Eff.run_read_bind, Eff.run_read_bind]
  exact apply_ite (fun m : LoopM W Unit => m.run s.muted) ..

/-- What a frame comes to: nothing is to be done, it is no request, or its request is
served with its event on the wire, or not on the wire. -/
theorem serveLine_cases (fd : Fd) (sent : Bool) (frame : Bytes) (s : Loop W) :
    (trimFrame frame).isEmpty = true ∧ requestIn O.json frame = none ∧
        (serveLine O fd sent frame).run s = (.ok true, s) ∨
      (trimFrame frame).isEmpty = false ∧ requestIn O.json frame = none ∧
        (serveLine O fd sent frame).run s = (.ok sent, s) ∨
      ∃ req, (trimFrame frame).isEmpty = false ∧ requestIn O.json frame = some req ∧
        (O.tty s.wire.length = true ∧
            (serveLine O fd sent frame).run s = (.ok sent, s.servedFor O fd req) ∨
          O.tty s.wire.length = false ∧
            (serveLine O fd sent frame).run s =
              (.error (), (s.answered O (.container fd) req).muted)) := by
  unfold serveLine handleCtlLine requestIn
  by_cases hblank : (trimFrame frame).isEmpty = true
  · simp only [if_pos hblank]
    exact .inl ⟨hblank, trivial, rfl⟩
  · have hfull : (trimFrame frame).isEmpty = false := by simpa using hblank
    simp only [if_neg hblank]
    rcases hreq : O.json.decodeRequest frame with e | req
    · exact .inr (.inl ⟨hfull, rfl, rfl⟩)
    · refine .inr (.inr ⟨req, hfull, rfl, ?_⟩)
      have hforward := @forward_eq _ O (s.eventFor O req) (s.answered O (.container fd) req)
      change _ = if O.tty s.wire.length then _ else _ at hforward
      rcases htty : O.tty s.wire.length with _ | _
      · have hmute := hforward.trans (if_neg (Bool.eq_false_iff.mp htty))
        refine .inr ⟨rfl, (Eff.run_bind_ok rfl).trans (Eff.run_bind_error hmute)⟩
      · have htold := hforward.trans (if_pos htty)
        exact .inl ⟨rfl, (Eff.run_bind_ok rfl).trans (Eff.run_bind_ok htold)⟩

theorem serveLine_alive (fd : Fd) (sent : Bool) (frame : Bytes) (s : Loop W) :
    ((serveLine O fd sent frame).run s).1 = .ok true ↔
      answeredAt O s.wire.length sent frame = true := by
  unfold answeredAt
  rcases serveLine_cases (O := O) fd sent frame s with
    ⟨hblank, hnone, hrun⟩ | ⟨hfull, hnone, hrun⟩ | ⟨req, hfull, hreq, ⟨htty, hrun⟩ | ⟨htty, hrun⟩⟩
  · simp [hrun, hblank]
  · simp [hrun, hfull, hnone]
  · simp [hrun, hfull, hreq, htty]
  · simp [hrun, hfull, hreq, htty]

/-- The requests served, with where they came from. -/
def Loop.asked (s : Loop W) : List (Source × Request) := s.served.map fun d => (d.source, d.request)

theorem serveLine_asked (fd : Fd) (sent : Bool) (frame : Bytes) (s : Loop W) :
    ((serveLine O fd sent frame).run s).2.asked =
      s.asked ++ (requestIn O.json frame).toList.map (.container fd, ·) := by
  rcases serveLine_cases (O := O) fd sent frame s with
    ⟨-, hnone, hrun⟩ | ⟨-, hnone, hrun⟩ | ⟨req, -, hreq, ⟨-, hrun⟩ | ⟨-, hrun⟩⟩
  · simp [hrun, hnone]
  · simp [hrun, hnone]
  · simp [hrun, hreq, Loop.asked, Loop.servedFor, Loop.told, Loop.answered]
  · simp [hrun, hreq, Loop.asked, Loop.muted, Loop.answered]

variable {fd : Fd} {s : Loop W} {sent : Nat → Bool} {k : Nat}

theorem serveLine_wire {sent : Bool} {frame : Bytes} {s' : Loop W}
    (h : (serveLine O fd sent frame).run s = (.ok true, s')) :
    s'.wire.length = s.wire.length + (requestIn O.json frame).toList.length := by
  rcases serveLine_cases (O := O) fd sent frame s with
    ⟨-, hnone, hrun⟩ | ⟨-, hnone, hrun⟩ | ⟨req, -, hreq, ⟨-, hrun⟩ | ⟨-, hrun⟩⟩
  · obtain rfl := (Prod.mk.inj (hrun.symm.trans h)).2
    simp [hnone]
  · obtain rfl := (Prod.mk.inj (hrun.symm.trans h)).2
    simp [hnone]
  · obtain rfl := (Prod.mk.inj (hrun.symm.trans h)).2
    simp [hreq, Loop.servedFor, Loop.told, Loop.answered]
  · exact absurd (Prod.mk.inj (hrun.symm.trans h)).1 (by simp)

/-! ## The frames of a read -/

theorem run_serveLines_alive {line : Bytes} {s' : Loop W}
    (h : (serveLine O fd (sent k) line).run s = (.ok true, s')) (lines : List Bytes) :
    (serveLines O fd sent k (line :: lines)).run s =
    (serveLines O fd sent (k + 1) lines).run s' := by
  rw [serveLines_cons, Eff.run_bind_ok h]
  rfl

theorem run_serveLines_broken {line : Bytes}
    (h : ((serveLine O fd (sent k) line).run s).1 ≠ .ok true) (lines : List Bytes) :
    ((serveLines O fd sent k (line :: lines)).run s).1 ≠ .ok false ∧
      ((serveLines O fd sent k (line :: lines)).run s).2 =
        ((serveLine O fd (sent k) line).run s).2 := by
  -- a frame that is not answered is the last one handled
  rw [serveLines_cons, Eff.run_bind]
  rcases hrun : (serveLine O fd (sent k) line).run s with ⟨_ | _ | _, s'⟩
  · exact ⟨by simp, rfl⟩
  · exact ⟨by simp, rfl⟩
  · exact absurd (congrArg Prod.fst hrun) h

theorem handed_broken {frame : Bytes}
    (h : ((serveLine O fd (sent k) frame).run s).1 ≠ .ok true) (frames : List Bytes) :
    handed O fd sent k (frame :: frames) s = [frame] := by
  rw [handed]
  rcases hrun : (serveLine O fd (sent k) frame).run s with ⟨_ | _ | _, s'⟩
  · rfl
  · rfl
  · exact absurd (congrArg Prod.fst hrun) h

/-- What a read's frames come to: those up to the first that is not answered are handed
over, their requests are dispatched in order, and the connection lives on exactly if
all of them are answered. -/
theorem serveLines_spec (fd : Fd) (sent : Nat → Bool) (k : Nat) (frames : List Bytes) (s : Loop W) :
    handed O fd sent k frames s =
        frames.take ((answeredFrames O sent k s.wire.length frames).length + 1) ∧
      ((serveLines O fd sent k frames).run s).2.asked =
        s.asked ++ ((handed O fd sent k frames s).filterMap (requestIn O.json)).map
          (.container fd, ·) ∧
      (((serveLines O fd sent k frames).run s).1 = .ok false ↔
        answeredFrames O sent k s.wire.length frames = frames) := by
  induction frames generalizing k s with
  | nil => simp [handed, answeredFrames, serveLines]
  | cons frame frames ih =>
    have halive := serveLine_alive (O := O) fd (sent k) frame s
    have hasked := serveLine_asked (O := O) fd (sent k) frame s
    by_cases hans : answeredAt O s.wire.length (sent k) frame = true
    · obtain ⟨s', hrun⟩ : ∃ s', (serveLine O fd (sent k) frame).run s = (.ok true, s') :=
        ⟨_, Prod.ext (halive.mpr hans) rfl⟩
      obtain ⟨hhanded, hmore, hlives⟩ := ih (k + 1) s'
      rw [serveLine_wire hrun] at hhanded hlives
      rw [hrun] at hasked
      rw [run_serveLines_alive hrun, handed, hrun, answeredFrames, if_pos hans]
      refine ⟨?_, ?_, ?_⟩
      · simp [hhanded]
      · rw [hmore, hasked, List.filterMap_cons]
        rcases requestIn O.json frame with _ | req
        · simp
        · simp
      · simp [hlives]
    · have hbroken : ((serveLine O fd (sent k) frame).run s).1 ≠ .ok true :=
        fun hok => hans (halive.mp hok)
      rw [handed_broken hbroken, (run_serveLines_broken hbroken frames).2, answeredFrames,
        if_neg hans, hasked]
      refine ⟨by simp, ?_, ?_⟩
      · rw [List.filterMap_cons]
        rcases requestIn O.json frame with _ | req
        · simp
        · simp
      · exact iff_of_false (run_serveLines_broken hbroken frames).1 (by simp)

end Frames

/-! ## A connection -/

/-- What there is to tell of a connection: the bytes received, the frames handed over
and the requests dispatched for it. -/
structure History where
  received : Bytes := []
  handed : List Bytes := []
  dispatched : List (Source × Request) := []

/-- A connection over the rounds that find it ready, each with the state in which it is
served and the round's answer; a round that retires it or stops the agent is the last. -/
def history (O : Outside W) (fd : Fd) : LineReader → List (Loop W × Answer) → History
  | _, [] => {}
  | rd, (s, a) :: visits =>
    match a.conn fd with
    | .closed => {}
    | .data bytes =>
      let outcome := (serveConn O a ⟨fd, rd⟩).run s
      let later :=
        match outcome.1 with
        | .ok (c, false) => history O fd c.rd visits
        | _ => {}
      { received := bytes ++ later.received
        handed := handed O fd (a.sent fd) 0 (rd.fill bytes).drain.1 s ++ later.handed
        dispatched := outcome.2.asked.drop s.asked.length ++ later.dispatched }

/-- Of the frames handed over for each line that is a request, exactly one is a
request, and it is that one. -/
def Once (J : Json) (lines : List Bytes) (groups : List (List Bytes)) : Prop :=
  ∀ (k : Nat) line req, lines[k]? = some line → requestIn J (line ++ [10]) = some req →
    (groups[k]?.getD []).filterMap (requestIn J) = [req]

/-- Each request line received is dispatched once. -/
def History.Complete (J : Json) (h : History) : Prop :=
  Once J (splitLines 10 h.received).1 (byLine 10 h.handed)

/-- In a read whose first `n` frames are answered, each request line has only such frames
before it, and its own frames (one, unless the line was surfaced in part) hold that one
request. `early` are the frames of the unfinished line so far. -/
def Clear (J : Json) (u : Unfinished UInt8) (early : List Bytes) (bytes : Bytes) (n : Nat) : Prop :=
  ∀ k p req, (finishes u bytes)[k]? = some p → requestIn J (p.1 ++ [10]) = some req →
    k ≤ n ∧ ((if k = 0 then early else []) ++ [lineFrame p]).filterMap (requestIn J) = [req]

/-- Every read that takes place is clear; after a read with a frame that is not answered
there is no other. -/
def Undisturbed (O : Outside W) (fd : Fd) :
    Unfinished UInt8 → List Bytes → List (Loop W × Answer) → Prop
  | _, _, [] => True
  | u, early, (s, a) :: visits =>
    match a.conn fd with
    | .closed => True
    | .data bytes =>
      let answered := answeredFrames O (a.sent fd) 0 s.wire.length (framesIn u bytes)
      Clear O.json u early bytes answered.length ∧
      (answered = framesIn u bytes →
        Undisturbed O fd (leaves u bytes)
          ((if finishes u bytes = [] then early else []) ++ surfaces u bytes) visits)

section History

variable {O : Outside W} {J : Json}

theorem Once.append_iff {lines lines' : List Bytes} {groups groups' : List (List Bytes)}
    (hlen : groups.length = lines.length) :
    Once J (lines ++ lines') (groups ++ groups') ↔ Once J lines groups ∧ Once J lines' groups' := by
  constructor
  · intro h
    constructor
    · intro k line req hline hreq
      have hk : k < lines.length := (List.getElem?_eq_some_iff.mp hline).1
      have := h k line req (by rw [List.getElem?_append_left hk, hline]) hreq
      rwa [List.getElem?_append_left (hlen ▸ hk)] at this
    · intro k line req hline hreq
      have := h (lines.length + k) line req
        (by rw [List.getElem?_append_right (by omega), Nat.add_sub_cancel_left, hline]) hreq
      rwa [List.getElem?_append_right (by omega), hlen, Nat.add_sub_cancel_left] at this
  · intro h k line req hline hreq
    rcases Nat.lt_or_ge k lines.length with hk | hk
    · rw [List.getElem?_append_left hk] at hline
      rw [List.getElem?_append_left (hlen ▸ hk)]
      exact h.1 k line req hline hreq
    · rw [List.getElem?_append_right hk] at hline
      rw [List.getElem?_append_right (hlen ▸ hk), hlen]
      exact h.2 _ line req hline hreq

theorem getLast?_lineFrame (p : Bytes × Nat) : (lineFrame p).getLast? = some 10 :=
  List.getLast?_concat ..

theorem once_take_iff (early : List Bytes) (lines : List (Bytes × Nat)) (n : Nat) :
    Once J (lines.map Prod.fst) ((lineGroups early (lines.map lineFrame)).take (n + 1)) ↔
      ∀ k p req, lines[k]? = some p → requestIn J (p.1 ++ [10]) = some req →
        k ≤ n ∧ ((if k = 0 then early else []) ++ [lineFrame p]).filterMap (requestIn J) =
          [req] := by
  have hgroup : ∀ {k p}, lines[k]? = some p →
      ((lineGroups early (lines.map lineFrame)).take (n + 1))[k]? =
        if k ≤ n then some ((if k = 0 then early else []) ++ [lineFrame p]) else none := by
    intro k p hp
    rw [List.getElem?_take, getElem?_lineGroups, List.getElem?_map, hp]
    simp only [Nat.lt_succ_iff]
    rfl
  constructor
  · intro h k p req hp hreq
    have hshare := h k p.1 req (by rw [List.getElem?_map, hp]; rfl) hreq
    rw [hgroup hp] at hshare
    by_cases hk : k ≤ n
    · rw [if_pos hk] at hshare
      exact ⟨hk, hshare⟩
    · rw [if_neg hk] at hshare
      exact absurd hshare (by simp)
  · intro h k line req hline hreq
    rw [List.getElem?_map, Option.map_eq_some_iff] at hline
    rcases hline with ⟨p, hp, rfl⟩
    obtain ⟨hk, hshare⟩ := h k p req hp hreq
    rw [hgroup hp, if_pos hk]
    exact hshare

variable {fd : Fd} {u : Unfinished UInt8} {s : Loop W} {a : Answer}

theorem run_serveConn (hu : u.Sound 10) {s' : Loop W}
    {bytes : Bytes} (hdata : a.conn fd = .data bytes) {outcome : Except Unit Bool}
    (hrun : (serveLines O fd (a.sent fd) 0 (framesIn u bytes)).run s = (outcome, s')) :
    (serveConn O a ⟨fd, readerAt u⟩).run s =
      (outcome.map fun broken => (⟨fd, readerAt (leaves u bytes)⟩, broken), s') := by
  unfold serveConn
  simp only [hdata, drain_readerAt hu]
  cases outcome with
  | error e => exact Eff.run_bind_error hrun
  | ok broken => exact Eff.run_bind_ok hrun

/-- A read: its frames up to the first that is not answered are handed over and their
requests dispatched, and the connection is served again only if there is none such. -/
theorem history_read (hu : u.Sound 10)
    {bytes : Bytes} (hdata : a.conn fd = .data bytes) (visits : List (Loop W × Answer)) :
    history O fd (readerAt u) ((s, a) :: visits) =
      let answered := answeredFrames O (a.sent fd) 0 s.wire.length (framesIn u bytes)
      let front := (framesIn u bytes).take (answered.length + 1)
      let later :=
        if answered = framesIn u bytes then history O fd (readerAt (leaves u bytes)) visits else {}
      { received := bytes ++ later.received
        handed := front ++ later.handed
        dispatched :=
          (front.filterMap (requestIn O.json)).map (.container fd, ·) ++ later.dispatched } := by
  obtain ⟨hhanded, hasked, hlives⟩ :=
    serveLines_spec (O := O) fd (a.sent fd) 0 (framesIn u bytes) s
  rw [hhanded] at hasked
  rw [history]
  simp only [hdata]
  rcases hrun : (serveLines O fd (a.sent fd) 0 (framesIn u bytes)).run s with ⟨outcome, s'⟩
  rw [hrun] at hasked hlives
  dsimp only at hasked hlives
  rw [run_serveConn hu hdata hrun, drain_readerAt hu, hhanded]
  rcases outcome with _ | _ | _
  · rw [if_neg (by simpa using hlives)]
    simp only [hasked, List.drop_left, Except.map]
  · rw [if_pos (by simpa using hlives)]
    simp only [hasked, List.drop_left, Except.map]
  · rw [if_neg (by simpa using hlives)]
    simp only [hasked, List.drop_left, Except.map]

theorem history_closed {rd : LineReader}
    (hclosed : a.conn fd = .closed) (visits : List (Loop W × Answer)) :
    history O fd rd ((s, a) :: visits) = {} := by
  rw [history]
  simp only [hclosed]

/-- The frames handed over are the front of the stream, and the requests in them are
what is dispatched. -/
theorem history_order (hu : u.Sound 10)
    (visits : List (Loop W × Answer)) :
    (history O fd (readerAt u) visits).handed.flatten <+:
        (readerAt u).buf ++ (history O fd (readerAt u) visits).received ∧
      (history O fd (readerAt u) visits).dispatched =
        ((history O fd (readerAt u) visits).handed.filterMap (requestIn O.json)).map
          (.container fd, ·) := by
  induction visits generalizing u with
  | nil => exact ⟨List.nil_prefix, rfl⟩
  | cons visit visits ih =>
    rcases visit with ⟨s, a⟩
    rcases hdata : a.conn fd with bytes | _
    · have hstream := ((readerAt u).fill bytes).flatten_drain
      rw [drain_readerAt hu] at hstream
      change _ = (readerAt u).buf ++ bytes at hstream
      rw [history_read hu hdata]
      dsimp only
      split_ifs with hall
      · -- All frames are handed over, and the rest of the stream is behind them.
        obtain ⟨hfront, hdispatched⟩ := ih (sound_leaves hu bytes)
        rw [hall, List.take_of_length_le (Nat.le_succ _), List.flatten_append,
          ← List.append_assoc, ← hstream, List.append_assoc, List.prefix_append_right_inj]
        refine ⟨hfront, ?_⟩
        rw [List.filterMap_append, List.map_append]
        exact congrArg _ hdispatched
      · simp only [List.append_nil, and_true]
        rw [← hstream]
        exact ((List.take_prefix _ _).flatten).trans (List.prefix_append _ _)
    · rw [history_closed hdata]
      exact ⟨List.nil_prefix, rfl⟩

theorem once_nil (groups : List (List Bytes)) : Once J [] groups := by
  intro k line req hline
  simp at hline

theorem getLast?_ne_of_notMem {piece : Bytes} (h : 10 ∉ piece) : piece.getLast? ≠ some 10 :=
  fun hlast => h (List.mem_of_getLast? hlast)

theorem getLast?_finishes (u : Unfinished UInt8) (bytes : Bytes) (n : Nat) :
    ∀ frame ∈ ((finishes u bytes).map lineFrame).take n, frame.getLast? = some 10 := by
  intro frame hframe
  rcases List.mem_map.mp (List.mem_of_mem_take hframe) with ⟨p, -, rfl⟩
  exact getLast?_lineFrame p

section Read

variable {u : Unfinished UInt8} {early : List Bytes}
  (hearly : ∀ piece ∈ early, piece.getLast? ≠ some 10) (bytes : Bytes)
include hearly

theorem once_read_iff {n : Nat} (hn : (finishes u bytes).length ≤ n + 1) (later : Bytes)
    (rest : List Bytes) :
    Once J (splitLines 10 (u.line ++ (bytes ++ later))).1
        (byLine 10 (early ++ ((finishes u bytes).map lineFrame ++ rest))) ↔
      Clear J u early bytes n ∧
        Once J (splitLines 10 ((leaves u bytes).line ++ later)).1
          (byLine 10 ((if finishes u bytes = [] then early else []) ++ rest)) := by
  have hends := getLast?_finishes u bytes (finishes u bytes).length
  rw [List.take_of_length_le (by simp)] at hends
  have hlines := @Unfinished.splitLines_absorb _ _ 10 RX_LINE_CAP u bytes later
  have hgroups : (lineGroups early ((finishes u bytes).map lineFrame)).length =
      ((finishes u bytes).map Prod.fst).length := by
    simp [length_lineGroups]
  have hread := once_take_iff (J := J) early (finishes u bytes) n
  rw [List.take_of_length_le (by simpa [length_lineGroups] using hn)] at hread
  rw [hlines, byLine_append hearly hends]
  simp only [List.map_eq_nil_iff]
  exact (Once.append_iff hgroups).trans (and_congr_left' hread)

theorem once_broken_iff (hu : u.Sound 10) {n : Nat} :
    Once J (splitLines 10 (u.line ++ (bytes ++ []))).1
        (byLine 10 (early ++ ((framesIn u bytes).take (n + 1) ++ []))) ↔
      Clear J u early bytes n := by
  have hrest : (splitLines 10 ((leaves u bytes).line ++ [])).1 = [] := by
    rw [List.append_nil, splitLines_of_notMem (sound_leaves hu bytes).open_]
  rw [framesIn, List.take_append, List.length_map]
  rcases Nat.lt_or_ge (n + 1) (finishes u bytes).length with hcut | hwhole
  · -- Not all lines are reached, and nothing behind them.
    have hlines := @Unfinished.splitLines_absorb _ _ 10 RX_LINE_CAP u bytes []
    have hne : ((finishes u bytes).map lineFrame).take (n + 1) ≠ [] := by
      intro hnil
      have := congrArg List.length hnil
      simp only [List.length_take, List.length_map, List.length_nil] at this
      omega
    change _ = (finishes u bytes).map Prod.fst ++ (splitLines 10 ((leaves u bytes).line ++ [])).1
      at hlines
    rw [hlines, hrest, List.append_nil, Nat.sub_eq_zero_of_le (Nat.le_of_lt hcut), List.take_zero,
      List.append_nil, byLine_append hearly (getLast?_finishes u bytes (n + 1)), if_neg hne,
      lineGroups_take]
    change Once J _ (_ ++ []) ↔ _
    rw [List.append_nil]
    exact once_take_iff early (finishes u bytes) n
  · rw [List.take_of_length_le (by simpa using hwhole), List.append_assoc,
      once_read_iff hearly bytes hwhole, hrest]
    exact and_iff_left (once_nil _)

end Read

/-- The exact condition, from any unfinished line with its early frames. -/
theorem history_once_iff (hu : u.Sound 10) {early : List Bytes}
    (hearly : ∀ piece ∈ early, piece.getLast? ≠ some 10) (visits : List (Loop W × Answer)) :
    Once O.json (splitLines 10 (u.line ++ (history O fd (readerAt u) visits).received)).1
        (byLine 10 (early ++ (history O fd (readerAt u) visits).handed)) ↔
      Undisturbed O fd u early visits := by
  have hopen : ∀ {u : Unfinished UInt8}, u.Sound 10 → ∀ groups,
      Once O.json (splitLines 10 (u.line ++ [])).1 groups := by
    intro u hu groups
    rw [List.append_nil, splitLines_of_notMem hu.open_]
    exact once_nil _
  induction visits generalizing u early with
  | nil => exact iff_of_true (hopen hu _) trivial
  | cons visit visits ih =>
    rcases visit with ⟨s, a⟩
    rw [Undisturbed]
    rcases hdata : a.conn fd with bytes | _
    · rw [history_read hu hdata]
      dsimp only
      generalize answeredFrames O (a.sent fd) 0 s.wire.length (framesIn u bytes) = answered
      by_cases hall : answered = framesIn u bytes
      · -- The read is served to its end, and the next one goes on from there.
        have hnext : ∀ piece ∈ (if finishes u bytes = [] then early else []) ++ surfaces u bytes,
            piece.getLast? ≠ some 10 := by
          intro piece hpiece
          rcases List.mem_append.mp hpiece with hpiece | hpiece
          · split_ifs at hpiece
            · exact hearly piece hpiece
            · exact absurd hpiece List.not_mem_nil
          · exact getLast?_ne_of_notMem (Spool.notMem_excess _ piece hpiece)
        have hlen : (finishes u bytes).length ≤ answered.length + 1 := by
          rw [hall, framesIn, List.length_append, List.length_map]
          omega
        have hfront : (framesIn u bytes).take (answered.length + 1) = framesIn u bytes :=
          List.take_of_length_le (hall ▸ Nat.le_succ _)
        rw [if_pos hall, hfront, framesIn, List.append_assoc]
        refine (once_read_iff hearly bytes hlen _ _).trans (and_congr_right' ?_)
        rw [← List.append_assoc]
        exact (ih (sound_leaves hu bytes) hnext).trans ⟨fun h _ => h, fun h => h hall⟩
      · rw [if_neg hall]
        refine (once_broken_iff hearly bytes hu).trans ?_
        exact (and_iff_left fun heq => absurd heq hall).symm
    · rw [history_closed hdata]
      exact iff_of_true (hopen hu _) trivial

/-- Whatever a connection receives and whichever writes fail, what is dispatched for it
are the requests in the frames handed over, in the order of the stream. Each complete
request line is dispatched exactly once if and only if in every read it has only
answered frames before it, and is not surfaced in parts that hold something else. -/
theorem pipeline_iff (O : Outside W) (fd : Fd) (visits : List (Loop W × Answer)) :
    (history O fd {} visits).handed.flatten <+: (history O fd {} visits).received ∧
      (history O fd {} visits).dispatched =
        ((history O fd {} visits).handed.filterMap (requestIn O.json)).map (.container fd, ·) ∧
      ((history O fd {} visits).Complete O.json ↔ Undisturbed O fd {} [] visits) := by
  have hstart : Unfinished.Sound (10 : UInt8) {} := ⟨List.not_mem_nil, Nat.le_refl 0⟩
  obtain ⟨hfront, hdispatched⟩ := @history_order W O fd {} hstart visits
  have honce := @history_once_iff W O fd {} hstart [] (List.forall_mem_nil _) visits
  exact ⟨hfront, hdispatched, honce⟩

/-- A `ping` and a `finish` come in one read, and the reply to the `ping` cannot be
written: the verdict is not dispatched. -/
theorem finish_behind_unanswered :
    (history smallGuest 7 {}
        [(Loop.boot 3 none (some 5) "dev" (),
          { poll := fun _ => none, conn := fun _ => .data (pingText ++ 10 :: finishText ++ [10])
            sent := fun _ _ => false })]).dispatched =
        [(.container 7, { id := 2, op := "ping" })] ∧
      ¬ (history smallGuest 7 {}
        [(Loop.boot 3 none (some 5) "dev" (),
          { poll := fun _ => none, conn := fun _ => .data (pingText ++ 10 :: finishText ++ [10])
            sent := fun _ _ => false })]).Complete smallGuest.json := by
  refine ⟨by decide +kernel, ?_⟩
  intro h
  have hfinish := h 1 finishText { id := 1, op := "finish", exit := some 3 } (by decide +kernel)
    (by decide +kernel)
  exact absurd hfinish (by decide +kernel)

end History

end Tdvmm.Guest
