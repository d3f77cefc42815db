import Tdvmm.Egress.Refine

/-!
# Egress.Downstream — the frames from the socket to the guest

The order of the frames the backend enqueues for one session, from its accepted `OPEN` until it
is removed, and what their `DATA` carries.

1. `FrameOrder` is the language of the frames of one session.
2. `Downstream` ties the flags and the window buffer of a live session to the frames enqueued so
   far; a `CLOSE` waits behind data that is held back by the window credit, over any number of
   pumps.
-/

namespace Tdvmm.Egress

open Lib Tdvmm.Proto Relation

section History

variable {h h' : List Ev} {e : Ev} {fs fs' : List EgressFrame} {f : EgressFrame}

@[simp] theorem sents_nil : sents [] = [] := rfl

@[simp] theorem sents_cons : sents (e :: h) = e.frames ++ sents h := List.flatMap_cons

@[simp] theorem bytesRead_nil : bytesRead [] = [] := rfl

@[simp] theorem bytesRead_cons : bytesRead (e :: h) = e.readBytes ++ bytesRead h :=
  List.flatMap_cons

@[simp] theorem bytesRead_append : bytesRead (h ++ h') = bytesRead h ++ bytesRead h' :=
  List.flatMap_append

@[simp] theorem hostData_nil : hostData [] = [] := rfl

@[simp] theorem hostData_cons : hostData (f :: fs) = dataOf f ++ hostData fs := List.flatMap_cons

@[simp] theorem hostData_append : hostData (fs ++ fs') = hostData fs ++ hostData fs' :=
  List.flatMap_append

end History

/-! ## The language of a session -/

/-- The frames of an open session: `OPEN_OK`, `DATA` frames, and perhaps a
`CLOSE`. -/
def openFrames (id : StreamId) (payloads : List Bytes) (closed : Bool) : List EgressFrame :=
  .openOk id :: payloads.map (.data id) ++ if closed then [.close id] else []

/-- A front part of `OPEN_ERR`, or of `RST`, or of `OPEN_OK` followed by `DATA`
frames, at most one `CLOSE` and at most one `RST`. -/
def FrameOrder (id : StreamId) (frames : List EgressFrame) : Prop :=
  (∃ reason, frames <+: [.openErr id reason]) ∨ frames <+: [.rst id] ∨
    ∃ payloads closed, frames <+: openFrames id payloads closed ++ [.rst id]

/-- At this moment, the frames of the session alive are in order and their data is
a front part of what was read from its socket. -/
def FramedInOrder (id : StreamId) (h : List Ev) : Prop :=
  ∀ life, incarnation h = some life →
    FrameOrder id (sents life) ∧ hostData (sents life) <+: bytesRead life

/-- A `CLOSE` is enqueued only when everything read from the socket has been. -/
def CloseAfterData (pre : List Ev) : Ev → Prop
  | .sent (.close _) =>
    ∀ life, incarnation pre = some life → hostData (sents life) = bytesRead life
  | _ => True

/-! ## The invariant of one stream -/

/-- The frames of a live session, by its flags. -/
structure Framed (id : StreamId) (s : Session) (life : List Ev) : Prop where
  fresh : ¬ s.isOpen → sents life = [] ∧ s.toGuest = [] ∧ s.hostReadClosed = false ∧
    s.hostCloseSent = false
  opened : s.isOpen → ∃ payloads, sents life = openFrames id payloads s.hostCloseSent
  data : hostData (sents life) ++ s.toGuest = bytesRead life
  closed : s.hostCloseSent = true → s.hostReadClosed = true ∧ s.toGuest = []

/-- A session alive is framed, and a stream without a session has no life. -/
structure Downstream (id : StreamId) (v : StreamView) : Prop where
  dead : v.sess = none → incarnation v.hist = none
  live : ∀ s, v.sess = some s → ∃ life, incarnation v.hist = some life ∧ Framed id s life

theorem init_downstream (id : StreamId) : Downstream id .init :=
  ⟨fun _ => rfl, by simp [StreamView.init]⟩

variable {calm : Prop} {id : StreamId} {v v' : StreamView} {s s' : Session} {h life : List Ev}

theorem newResolving_framed {life : List Ev} (hsent : sents life = [])
    (hread : bytesRead life = []) :
    Framed id .newResolving life := by
  refine ⟨fun _ => ⟨hsent, rfl, rfl, rfl⟩, ?_, by simp [hsent, hread, Session.newResolving], ?_⟩
  · rintro (h | h) <;> cases h
  · intro h
    cases h

theorem Framed.quiet (hf : Framed id s life) (es : List Ev)
    (hes : sents es = [] ∧ bytesRead es = [])
    (hopen : s'.isOpen ↔ s.isOpen) (htoGuest : s'.toGuest = s.toGuest)
    (hread : s'.hostReadClosed = s.hostReadClosed) (hsent : s'.hostCloseSent = s.hostCloseSent) :
    Framed id s' (life ++ es) := by
  -- events that neither read nor enqueue, and a change of the session that its frames do not
  -- depend on
  refine ⟨fun hno => ?_, fun hyes => ?_, ?_, ?_⟩
  · rw [sents_append, hes.1, List.append_nil, htoGuest, hread, hsent]
    exact hf.fresh fun h => hno (hopen.mpr h)
  · rw [sents_append, hes.1, List.append_nil, hsent]
    exact hf.opened (hopen.mp hyes)
  · rw [sents_append, bytesRead_append, hes.1, hes.2, htoGuest, List.append_nil, List.append_nil]
    exact hf.data
  · rw [hread, hsent, htoGuest]
    exact hf.closed

theorem Framed.connected (hf : Framed id s life) (hst : s.state = .connecting) (es : List Ev)
    (hes : sents es = [.openOk id] ∧ bytesRead es = []) : Framed id s.connected (life ++ es) := by
  have hnot : ¬ s.isOpen := by
    rintro (h | h) <;> rw [hst] at h <;> cases h
  have hopen : s.connected.isOpen := by
    cases hclosed : s.guestWriteClosed <;> simp [Session.isOpen, Session.connected, hclosed]
  obtain ⟨hsents, hempty, hread, hsent⟩ := hf.fresh hnot
  have hdata := hf.data
  rw [hsents, hempty] at hdata
  refine ⟨fun hno => absurd hopen hno, fun _ => ⟨[], ?_⟩, ?_, ?_⟩
  · simp [hsents, hes.1, openFrames, Session.connected, hsent]
  · rw [sents_append, bytesRead_append, hsents, hes.1, hes.2, ← hdata]
    simp [Session.connected, hempty]
  · simp [Session.connected, hsent]

theorem Framed.eof (hf : Framed id s life) (hopen : s.isOpen) :
    Framed id s.closeHost (life ++ [.read id (.got [])]) := by
  have hopen' : s.closeHost.isOpen := by
    rcases hopen with h | h <;> exact .inr (by simp [Session.closeHost, h])
  refine ⟨fun hno => absurd hopen' hno, fun _ => ?_, ?_, fun hsent => ⟨rfl, ?_⟩⟩
  · simpa [Session.closeHost] using hf.opened hopen
  · simpa [Session.closeHost] using hf.data
  · exact (hf.closed hsent).2

theorem Framed.read (hf : Framed id s life) (hopen : s.isOpen) (hread : s.hostReadClosed = false)
    (bytes : Bytes) : Framed id { s with toGuest := s.toGuest ++ bytes }
      (life ++ [.read id (.got bytes)]) := by
  refine ⟨fun hno => absurd hopen hno, fun _ => ?_, ?_, fun hsent => ?_⟩
  · simpa using hf.opened hopen
  · have hdata := hf.data
    simp [← hdata]
  · -- after the CLOSE nothing is read any more
    have hclosed := (hf.closed hsent).1
    rw [hread] at hclosed
    cases hclosed

theorem Framed.frame (hf : Framed id s life) (hopen : s.isOpen) {payload rest : Bytes}
    (hsplit : s.toGuest = payload ++ rest) (hne : payload ≠ []) (credit : Nat) :
    Framed id { s with toGuest := rest, toGuestCredit := credit }
      (life ++ [.sent (.data id payload)]) := by
  have hsent : s.hostCloseSent = false := by
    by_contra hsent
    have hempty := (hf.closed (by simpa using hsent)).2
    rw [hsplit] at hempty
    exact hne (List.append_eq_nil_iff.mp hempty).1
  refine ⟨fun hno => absurd hopen hno, fun _ => ?_, ?_, fun h => ?_⟩
  · obtain ⟨payloads, hsents⟩ := hf.opened hopen
    refine ⟨payloads ++ [payload], ?_⟩
    simp [hsents, openFrames, hsent]
  · have hdata := hf.data
    rw [hsplit] at hdata
    simp [← hdata]
  · rw [hsent] at h
    cases h

theorem Framed.hostClose (hf : Framed id s life) (hopen : s.isOpen)
    (hread : s.hostReadClosed = true) (hempty : s.toGuest = []) (hsent : s.hostCloseSent = false) :
    Framed id { s with hostCloseSent := true } (life ++ [.sent (.close id)]) := by
  refine ⟨fun hno => absurd hopen hno, fun _ => ?_, ?_, fun _ => ⟨hread, hempty⟩⟩
  · obtain ⟨payloads, hsents⟩ := hf.opened hopen
    refine ⟨payloads, ?_⟩
    simp [hsents, openFrames, hsent]
  · simpa using hf.data

theorem Downstream.extend {r : Bool} (hinv : Downstream id ⟨some s, r, h⟩) {es : List Ev}
    (hes : ∀ e ∈ es, e.isBorder = false)
    (hframed : ∀ {life}, Framed id s life → Framed id s' (life ++ es)) :
    ∀ t, some s' = some t → ∃ life, incarnation (h ++ es) = some life ∧ Framed id t life := by
  rintro t ⟨⟩
  obtain ⟨life, hlife, hf⟩ := hinv.live s rfl
  exact ⟨_, incarnation_extend _ hlife hes, hframed hf⟩

theorem framed_step (hstep : StreamStep calm id v v') (hinv : Downstream id v) :
    ∀ s, v'.sess = some s → ∃ life, incarnation v'.hist = some life ∧ Framed id s life := by
  cases hstep with
  | @accept h port host =>
    rintro s' ⟨⟩
    exact ⟨[.startResolve id (utf8Lossy host) port], by simp [incarnation_append, track],
      newResolving_framed (by simp) (by simp)⟩
  | @connected s r h hst =>
    refine hinv.extend ?_ fun hf => hf.connected hst _ ⟨?_, ?_⟩ <;>
      cases hclosed : s.guestWriteClosed <;> simp
  | connect _ hst =>
    exact hinv.extend (by simp) fun hf =>
      hf.quiet _ (by simp) (by simp [Session.isOpen, hst]) rfl rfl rfl
  | eof hopen => exact hinv.extend (by simp) fun hf => hf.eof hopen
  | read hopen hread => exact hinv.extend (by simp) fun hf => hf.read hopen hread _
  | frame hopen hsplit hne => exact hinv.extend (by simp) fun hf => hf.frame hopen hsplit hne _
  | hostClose hopen hread hempty hsent =>
    exact hinv.extend (by simp) fun hf => hf.hostClose hopen hread hempty hsent
  | close =>
    exact hinv.extend (by simp) fun hf =>
      hf.quiet _ (by simp) closeGuest_isOpen rfl rfl rfl
  | @stale sess =>
    intro s hs
    obtain ⟨life, hlife, hf⟩ := hinv.live s hs
    exact ⟨_, incarnation_extend _ hlife (by simp), hf.quiet _ (by simp) Iff.rfl rfl rfl rfl⟩
  | data | window | connectStuck | pending | write | readBlocked | epoll | epollStuck =>
    exact hinv.extend (by simp) fun hf => hf.quiet _ (by simp) Iff.rfl rfl rfl rfl
  | _ => simp

theorem step_downstream (hstep : StreamStep calm id v v') (hinv : Downstream id v) :
    Downstream id v' :=
  ⟨dead_step hstep hinv.dead, framed_step hstep hinv⟩

/-! ## In order at every moment -/

theorem Framed.frameOrder_rst (hf : Framed id s life) :
    FrameOrder id (sents life ++ [.rst id]) := by
  by_cases hopen : s.isOpen
  · obtain ⟨payloads, hsents⟩ := hf.opened hopen
    rw [hsents]
    exact .inr (.inr ⟨payloads, _, List.prefix_rfl⟩)
  · rw [(hf.fresh hopen).1]
    exact .inr (.inl List.prefix_rfl)

theorem Framed.frameOrder (hf : Framed id s life) : FrameOrder id (sents life) := by
  by_cases hopen : s.isOpen
  · obtain ⟨payloads, hsents⟩ := hf.opened hopen
    rw [hsents]
    exact .inr (.inr ⟨payloads, _, List.prefix_append _ _⟩)
  · rw [(hf.fresh hopen).1]
    exact .inr (.inl List.nil_prefix)

theorem Framed.frameOrder_openErr (hf : Framed id s life) (hnot : ¬ s.isOpen)
    (reason : EgressReason) : FrameOrder id (sents life ++ [.openErr id reason]) := by
  rw [(hf.fresh hnot).1]
  exact .inl ⟨reason, List.prefix_rfl⟩

theorem framedInOrder_keeps (h : List Ev) (e : Ev) (he : e.frames = [])
    (hin : FramedInOrder id h) : FramedInOrder id (h ++ [e]) := by
  intro life hlife
  by_cases hborder : e.isBorder = true
  · -- a session begins with no frames, and none is left when one ends
    cases e <;> simp_all [incarnation_append, track]
    exact .inr (.inl List.nil_prefix)
  · cases hprev : incarnation h with
    | none => cases e <;> simp_all [incarnation_append, track]
    | some prev =>
      have hext := incarnation_extend [e] hprev (by simpa using hborder)
      have heq : life = prev ++ [e] := by
        rw [hext] at hlife
        exact (Option.some.inj hlife).symm
      obtain ⟨horder, hdata⟩ := hin prev hprev
      rw [heq, sents_append, bytesRead_append, sents_cons, he]
      simpa using ⟨horder, hdata.trans (List.prefix_append _ _)⟩

theorem framedInOrder_dead {es : List Ev} (hdead : incarnation h = none)
    (hes : ∀ e ∈ es, e.isBorder = false) :
    After (fun pre e => FramedInOrder id (pre ++ [e])) h es := by
  -- whatever is enqueued for a stream without a session is no part of any life
  induction es generalizing h with
  | nil => trivial
  | cons e es ih =>
    have hnone : incarnation (h ++ [e]) = none := by
      have he := hes e List.mem_cons_self
      rw [incarnation_append, hdead]
      cases e <;> simp_all [track]
    refine ⟨fun life hlife => ?_, ih hnone fun e' he' => hes e' (List.mem_cons_of_mem _ he')⟩
    rw [hnone] at hlife
    cases hlife

theorem framedInOrder_last (pre : List Ev) (f : EgressFrame) (hlife : incarnation h = some life)
    (hf : Framed id s life) (hin : FramedInOrder id h) (horder : FrameOrder id (sents life ++ [f]))
    (hdata : dataOf f = []) (hborder : ∀ e ∈ pre, e.isBorder = false)
    (hpre : ∀ e ∈ pre, e.frames = []) :
    After (fun pre e => FramedInOrder id (pre ++ [e])) h (pre ++ [.sent f, .removed id]) := by
  refine after_append.mpr ⟨after_of_keeps framedInOrder_keeps hpre hin, ?_, ?_, trivial⟩
  · intro life' hlife'
    have hsents : sents pre = [] := List.flatMap_eq_nil_iff.mpr hpre
    have hborder' : ∀ e ∈ pre ++ [.sent f], e.isBorder = false := by
      intro e he
      rcases List.mem_append.mp he with he | he
      · exact hborder e he
      · rw [List.mem_singleton.mp he]
        rfl
    have hext := incarnation_extend (pre ++ [.sent f]) hlife hborder'
    rw [← List.append_assoc, hlife'] at hext
    cases hext
    refine ⟨by simpa [hsents] using horder, ?_⟩
    have hle := hf.data
    simp only [sents_append, hsents, bytesRead_append, hostData_append, sents_cons, sents_nil,
      Ev.frames, hostData_cons, hdata, hostData_nil, List.append_nil, ← hle, List.append_assoc]
    exact List.prefix_append _ _
  · intro life' hlife'
    rw [incarnation_append] at hlife'
    cases hlife'

theorem Framed.inOrder (hlife : incarnation h = some life) (hf : Framed id s life) :
    FramedInOrder id h := by
  intro life' hlife'
  have heq : life = life' := Option.some.inj (hlife.symm.trans hlife')
  rw [← heq, ← hf.data]
  exact ⟨hf.frameOrder, List.prefix_append _ _⟩

theorem Downstream.ends {r : Bool} (hinv : Downstream id ⟨some s, r, h⟩)
    (halways : Always (FramedInOrder id) h) (pre : List Ev) (f : EgressFrame)
    (horder : ∀ {life}, Framed id s life → FrameOrder id (sents life ++ [f]))
    (hdata : dataOf f = []) (hborder : ∀ e ∈ pre, e.isBorder = false)
    (hpre : ∀ e ∈ pre, e.frames = []) :
    Always (FramedInOrder id) (h ++ (pre ++ [.sent f, .removed id])) := by
  obtain ⟨life, hlife, hf⟩ := hinv.live s rfl
  exact always_append.mpr ⟨halways,
    framedInOrder_last pre f hlife hf halways.last (horder hf) hdata hborder hpre⟩

theorem step_framedInOrder (hstep : StreamStep calm id v v') (hinv : Downstream id v)
    (halways : Always (FramedInOrder id) v.hist) : Always (FramedInOrder id) v'.hist := by
  have hlive' := framed_step hstep hinv
  cases hstep with
  | @reject sess r h f =>
    cases sess with
    | none =>
      exact always_append.mpr ⟨halways, framedInOrder_dead (hinv.dead rfl) (by simp [ended])⟩
    | some s =>
      exact hinv.ends halways [.recv f (some s) r, .close id] (.rst id)
        (fun hf => hf.frameOrder_rst) rfl (by simp) (by simp)
  | refuse =>
    exact always_append.mpr ⟨halways, framedInOrder_dead (hinv.dead rfl) (by simp)⟩
  | @drop sess =>
    refine always_append.mpr ⟨halways, after_of_keeps framedInOrder_keeps ?_ halways.last⟩
    cases sess <;> simp [ended]
  | @unresolved s r h _ hst =>
    have hnot : ¬ s.isOpen := by simp [Session.isOpen, hst]
    exact hinv.ends halways [.harvest ⟨id, none⟩, .close id] (.openErr id .resolveFailed)
      (fun hf => hf.frameOrder_openErr hnot _) rfl (by simp) (by simp)
  | @unreachable s r h addr _ hst =>
    have hnot : ¬ s.isOpen := by simp [Session.isOpen, hst]
    exact hinv.ends halways
      [.harvest ⟨id, some addr⟩, .startConnect id addr false, .close id]
      (.openErr id .unreachable) (fun hf => hf.frameOrder_openErr hnot _) rfl (by simp) (by simp)
  | @connectFailed s r h reason hst =>
    have hnot : ¬ s.isOpen := by simp [Session.isOpen, hst]
    exact hinv.ends halways [.pollConnect id s (.failed reason), .close id] (.openErr id reason)
      (fun hf => hf.frameOrder_openErr hnot _) rfl (by simp) (by simp)
  | writeFailed =>
    exact hinv.ends halways [.write id none, .close id] (.rst id) (fun hf => hf.frameOrder_rst) rfl
      (by simp) (by simp)
  | readFailed =>
    exact hinv.ends halways [.read id .err, .close id] (.rst id) (fun hf => hf.frameOrder_rst) rfl
      (by simp) (by simp)
  | @connected s r h hst =>
    -- the `OPEN_OK` stands between the answer of the poll and a shutdown that was put off
    obtain ⟨life, hlife, hf⟩ := hinv.live s rfl
    have hopenOk := hf.connected hst [.pollConnect id s .connected, .sent (.openOk id)] (by simp)
    have hin : FramedInOrder id (h ++ [.pollConnect id s .connected] ++ [.sent (.openOk id)]) := by
      refine hopenOk.inOrder ?_
      rw [List.append_assoc]
      exact incarnation_extend _ hlife (by simp)
    refine always_append.mpr ⟨halways, after_append.mpr ⟨⟨?_, hin, trivial⟩, ?_⟩⟩
    · exact framedInOrder_keeps _ _ rfl halways.last
    · refine after_of_keeps framedInOrder_keeps ?_ (by simpa using hin)
      cases hclosed : s.guestWriteClosed <;> simp
  | frame | hostClose =>
    obtain ⟨life, hlife, hf⟩ := hlive' _ rfl
    exact always_append.mpr ⟨halways, hf.inOrder hlife, trivial⟩
  | _ =>
    refine always_append.mpr ⟨halways, after_of_keeps framedInOrder_keeps ?_ halways.last⟩
    simp

theorem step_closeAfterData (hstep : StreamStep calm id v v') (hinv : Downstream id v)
    (heach : Each CloseAfterData v.hist) : Each CloseAfterData v'.hist := by
  have hlive := hinv.live
  cases hstep with
  | @hostClose s r h hopen hread hempty =>
    refine each_append.mpr ⟨heach, fun life hlife => ?_, trivial⟩
    obtain ⟨life', hlife', hf⟩ := hlive s rfl
    have heq : life' = life := Option.some.inj (hlife'.symm.trans hlife)
    have hdata := hf.data
    rwa [hempty, List.append_nil, heq] at hdata
  | @reject sess | @drop sess =>
    refine each_append.mpr ⟨heach, ?_⟩
    cases sess <;> simp [ended, CloseAfterData]
  | @connected s =>
    refine each_append.mpr ⟨heach, ?_⟩
    cases hclosed : s.guestWriteClosed <;> simp [CloseAfterData]
  | _ =>
    refine each_append.mpr ⟨heach, ?_⟩
    simp [CloseAfterData]

/-! ## Runs -/

theorem steps_downstream (hsteps : StreamSteps calm id .init v) :
    Downstream id v ∧ Always (FramedInOrder id) v.hist ∧ Each CloseAfterData v.hist := by
  refine run_invariant (I := fun v => Downstream id v ∧ Always (FramedInOrder id) v.hist ∧
    Each CloseAfterData v.hist) ?_ hsteps ⟨init_downstream id, ?_, each_nil⟩
  · rintro v v' hstep ⟨hinv, halways, heach⟩
    exact ⟨step_downstream hstep hinv, step_framedInOrder hstep hinv halways,
      step_closeAfterData hstep hinv heach⟩
  · refine always_iff_each.mpr ⟨?_, each_nil⟩
    rintro life ⟨⟩

/-- **Host→guest frame order.** In every run of the backend, at every moment of
every session, from its accepted `OPEN` until it is removed: the frames enqueued
for its id are in order, their data is a front part of the bytes read from its
socket, and when a `CLOSE` is enqueued it is all of them. -/
theorem frames_in_order {b : Backend} (hb : Reachable (fun _ => True) b) (id : StreamId) :
    (∀ h life, h <+: about id b.hist → incarnation h = some life →
      FrameOrder id (sents life) ∧ hostData (sents life) <+: bytesRead life) ∧
    (∀ pre life, pre ++ [.sent (.close id)] <+: about id b.hist → incarnation pre = some life →
      hostData (sents life) = bytesRead life) := by
  have hsteps : StreamSteps False id .init (b.view id) :=
    (hb.streams fun _ _ hf => hf.elim).1 id
  obtain ⟨-, halways, heach⟩ := steps_downstream hsteps
  exact ⟨fun h life hpre => halways h hpre life, fun pre life hpre => heach pre _ hpre life⟩

/-- A peer that sends two bytes and closes. -/
def greetRun : Backend :=
  let env := { Env.prompt 7 ⟨[127, 0, 0, 1], 80⟩ with
    read := fun h id _ => if bytesRead (about id h) = [] then .got [5, 6] else .got [] }
  let opened := ((pump env (frameBytes [.openTo 7 80 [104]])).run .init).2
  ((pump env []).run opened).2

theorem frames_in_order_greet :
    ∃ pre life, pre ++ [.sent (.close 7)] <+: about 7 greetRun.hist ∧
      incarnation pre = some life ∧ FrameOrder 7 (sents life) ∧
      hostData (sents life) = [5, 6] ∧ hostData (sents life) = bytesRead life := by
  have hb : Reachable (fun _ => True) greetRun := .pump _ (.pump _ .init trivial) trivial
  let pre := (about 7 greetRun.hist).take 12
  have hpre : pre ++ [.sent (.close 7)] <+: about 7 greetRun.hist := by decide +kernel
  have hlife : incarnation pre = some ((incarnation pre).getD []) := by decide +kernel
  have hall := frames_in_order hb 7
  refine ⟨pre, _, hpre, hlife, (hall.1 pre _ ?_ hlife).1, by decide +kernel,
    hall.2 pre _ hpre hlife⟩
  exact (List.prefix_append _ _).trans hpre

end Tdvmm.Egress
