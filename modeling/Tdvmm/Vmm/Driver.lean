import Mathlib.Data.List.TakeDrop
import Mathlib.Data.List.TakeWhile
import Tdvmm.Lib.Spool
import Tdvmm.Proto.Control
import Tdvmm.Vmm.Park

/-!
# Vmm.Driver — the host's reading of the agent's lines

`DriverRun` folds the lines of ttyS1 into the state of a driven run; the first `finish` is the
verdict and ends the run.

For lines the agent wrote, each within the buffer's cap, the verdict does not depend on how the
bytes arrive or on when the buffer is drained: once it has been drained the verdict is that of
the first `finish` line (`verdict_listen`).
-/

namespace Tdvmm.Vmm

open Lib Proto

def EXIT_INFRA : Int32 := 2

structure Verdict where
  code : Int64
  message : Option String
deriving DecidableEq, Repr

/-- The verdict of a `finish` event. One with no exit is graded as an infrastructure
failure. -/
def Verdict.ofEvent (ev : GuestEvent) : Verdict where
  code := ev.exit.getD EXIT_INFRA.toInt64
  message := if ev.name.isEmpty then none else some ev.name

structure DriverRun where
  agentReady : Bool := false
  verdict : Option Verdict := none
  commands : UInt64 := 0
  failedCommands : UInt64 := 0
deriving DecidableEq, Repr

namespace DriverRun

def onEvent (d : DriverRun) (ev : GuestEvent) : Bool × DriverRun :=
  if ev.kind = OP_FINISH then
    if d.verdict.isSome then (true, d)
    else (true, { d with verdict := some (.ofEvent ev) })
  else if ev.kind = "ctl" then
    (false, { d with
      commands := d.commands + 1
      failedCommands :=
        if ev.ok = some true then d.failedCommands else d.failedCommands + 1 })
  else (false, d)

/-- Fold one line; `true` if the run must stop. -/
def onAgentLine (J : Json) (line : Bytes) (d : DriverRun) : Bool × DriverRun :=
  match J.decodeReply line with
  | .error _ => (false, d)
  | .ok reply =>
    if reply.isHello then (false, { d with agentReady := true })
    else
      match reply.event with
      | some ev => d.onEvent ev
      | none => (false, d)

end DriverRun

/-- The run loop's surroundings with this driver. -/
def driverPlatform {U : Type} (hw : Uart U) (J : Json) : Platform U DriverRun where
  uart := hw
  onAgentLine line _ d := d.onAgentLine J line

@[simp] theorem driverPlatform_onAgentLine {U : Type} (hw : Uart U) (J : Json) (line : Bytes)
    (ns : UInt64) (d : DriverRun) :
    (driverPlatform hw J).onAgentLine line ns d = d.onAgentLine J line := rfl

/-! ## The host end of ttyS1 -/

/-- COM2 and the driver, and whether a line has ended the run. -/
structure Host (U : Type) where
  com2 : ControlChannel U
  driver : DriverRun := {}
  finished : Bool := false

/-- Bytes of the guest reach the capture buffer, or a boundary drains it. -/
inductive HostStep where
  | arrive (bytes : Bytes)
  | drain (lineNs : Nat → UInt64)

def HostStep.bytes : HostStep → Bytes
  | arrive bytes => bytes
  | drain _ => []

def ControlChannel.capture {U : Type} (c : ControlChannel U) (bytes : Bytes) : ControlChannel U :=
  { c with serial := { c.serial with tx := c.serial.tx ++ bytes } }

section Listen

variable {U : Type} (hw : Uart U) (J : Json)

/-- A run that has ended is drained no more. -/
def Host.step (h : Host U) : HostStep → Host U
  | .arrive bytes => { h with com2 := h.com2.capture bytes }
  | .drain lineNs =>
    if h.finished then h
    else
      let (finished, com2, driver) :=
        drainAgent (driverPlatform hw J) lineNs h.com2.serial.tx.length 0 h.com2 h.driver
      { com2 := com2, driver := driver, finished := finished }

def Host.listen (h : Host U) (steps : List HostStep) : Host U := steps.foldl (·.step hw J) h

variable {J}

/-! ## One line -/

section Line

variable {d : DriverRun} {r : Reply}

theorem onAgentLine_other (hJ : J.Documented) (hr : verdictOf r = none) (hopen : d.verdict = none) :
    (d.onAgentLine J (J.writeReply r)).1 = false ∧
      (d.onAgentLine J (J.writeReply r)).2.verdict = none := by
  unfold DriverRun.onAgentLine Json.decodeReply
  rw [hJ.trimFrame_writeReply]
  cases hread : J.readReply (J.writeReply r) with
  | error e => exact ⟨rfl, hopen⟩
  | ok r' =>
    dsimp only
    split
    · exact ⟨rfl, hopen⟩
    · cases hev : r'.event with
      | none => exact ⟨rfl, hopen⟩
      | some ev =>
        -- read back, the event is of the kind it was written with
        have hsans := congrArg Reply.event (hJ.read_write_details r r' hread)
        have hkind : ev.kind ≠ OP_FINISH := by
          intro hfinish
          simp only [Reply.sansDetails, hev, Option.map_some] at hsans
          cases hevr : r.event with
          | none => simp [hevr] at hsans
          | some ev₀ =>
            rw [hevr] at hsans
            have hsame : ev.kind = ev₀.kind := by
              have hinj := Option.some.inj hsans
              exact (GuestEvent.mk.inj hinj).1
            simp [verdictOf, hevr, Option.filter, ← hsame, hfinish] at hr
        unfold DriverRun.onEvent
        dsimp only
        rw [if_neg hkind]
        split
        · exact ⟨rfl, hopen⟩
        · exact ⟨rfl, hopen⟩

theorem onAgentLine_finish (hJ : J.Documented) {seq : UInt64} {ev : GuestEvent}
    (hkind : ev.kind = OP_FINISH) (hplain : ev.details = none) (hopen : d.verdict = none) :
    d.onAgentLine J (J.writeReply (.fromEvent seq ev)) =
      (true, { d with verdict := some (.ofEvent ev) }) := by
  have hsans : (Reply.fromEvent seq ev).sansDetails = .fromEvent seq ev := by
    rcases ev with ⟨kind, name, ok, exit, details⟩
    subst hplain
    rfl
  unfold DriverRun.onAgentLine Json.decodeReply
  rw [hJ.trimFrame_writeReply, hJ.read_write _ hsans]
  show d.onEvent ev = _
  unfold DriverRun.onEvent
  rw [if_pos hkind, hopen]
  rfl

end Line

/-! ## The buffer -/

def stream (J : Json) (rs : List Reply) : Bytes := rs.flatMap J.encodeLine

/-- Lines as the agent writes them: within the cap, and a `finish` is a bare event. -/
structure AgentLines (J : Json) (rs : List Reply) : Prop where
  short : ∀ r ∈ rs, (J.writeReply r).length ≤ TX_BUF_CAP
  bare : ∀ r ∈ rs, ∀ ev, verdictOf r = some ev → ev.details = none ∧ ∃ seq, r = .fromEvent seq ev

section Buffer

variable {c : ControlChannel U} {future more : Bytes} {r : Reply}

theorem pollLine_line (hJ : J.Documented)
    (htx : c.serial.tx ++ future = J.encodeLine r ++ more) (hline : 10 ∈ c.serial.tx) :
    ∃ rest, c.pollLine =
        (some (J.writeReply r), { c with serial := { c.serial with tx := rest } }) ∧
      rest ++ future = more ∧ rest.length < c.serial.tx.length := by
  rcases List.eq_append_cons_of_mem hline with ⟨line, rest, hbuf, hfree⟩
  -- both ways of cutting the whole stream at its first newline
  have hparts : (line, 10 :: (rest ++ future)) = (J.writeReply r, 10 :: more) := by
    rw [← span_sep hfree, ← span_sep (hJ.no_newline r)]
    rw [hbuf] at htx
    simpa [Json.encodeLine] using congrArg (List.span (· ≠ 10)) htx
  rw [Prod.mk.injEq, List.cons.injEq] at hparts
  have hlast : ¬ (J.writeReply r).getLast? = some 13 := by
    rw [hJ.getLast_writeReply]
    decide
  refine ⟨rest, ?_, hparts.2.2, ?_⟩
  · unfold ControlChannel.pollLine
    rw [hbuf, span_sep hfree, hparts.1]
    dsimp only
    rw [if_neg hlast]
  · rw [hbuf, List.length_append, List.length_cons]
    omega

theorem pollLine_none {rs : List Reply} (hshort : ∀ r ∈ rs, (J.writeReply r).length ≤ TX_BUF_CAP)
    (htx : c.serial.tx ++ future = stream J rs) (hline : 10 ∉ c.serial.tx) :
    c.pollLine = (none, c) := by
  have hcap : c.serial.tx.length ≤ TX_BUF_CAP := by
    cases rs with
    | nil =>
      have hnil : c.serial.tx = [] := (List.append_eq_nil_iff.mp htx).1
      rw [hnil]
      exact Nat.zero_le _
    | cons r rs =>
      rw [stream, List.flatMap_cons] at htx
      refine Nat.le_trans ?_ (hshort r List.mem_cons_self)
      -- past the line's own bytes the buffer would hold its newline
      by_contra hlong
      apply hline
      have hget := congrArg (fun l : Bytes => l[(J.writeReply r).length]?) htx
      simp only [Json.encodeLine, List.append_assoc] at hget
      rw [List.getElem?_append_left (by omega), List.getElem?_append_right (Nat.le_refl _)] at hget
      simp only [Nat.sub_self, List.cons_append, List.getElem?_cons_zero] at hget
      exact List.mem_of_getElem? hget
  unfold ControlChannel.pollLine
  rw [span_free hline]
  dsimp only
  rw [if_neg (by omega)]

end Buffer

/-! ## Draining -/

/-- What a drain of the lines `rs` leaves: the first verdict among them has ended the
run, or there was none in those consumed, and less than a line is left. -/
inductive Drained (J : Json) (future : Bytes) (rs : List Reply) :
    Bool × ControlChannel U × DriverRun → Prop where
  | finished {c : ControlChannel U} {d : DriverRun} {ev : GuestEvent}
      (hfirst : rs.findSome? verdictOf = some ev) (hverdict : d.verdict = some (.ofEvent ev)) :
      Drained J future rs (true, c, d)
  | waiting {c : ControlChannel U} {d : DriverRun} {pre post : List Reply}
      (hsplit : rs = pre ++ post)
      (hpre : ∀ r ∈ pre, verdictOf r = none) (hrest : c.serial.tx ++ future = stream J post)
      (hline : 10 ∉ c.serial.tx) (hopen : d.verdict = none) :
      Drained J future rs (false, c, d)

theorem Drained.cons {future : Bytes} {rs : List Reply} {out : Bool × ControlChannel U × DriverRun}
    {r : Reply} (hr : verdictOf r = none) (h : Drained J future rs out) :
    Drained J future (r :: rs) out := by
  cases h with
  | finished hfirst hverdict =>
    refine .finished ?_ hverdict
    rw [List.findSome?_cons, hr]
    exact hfirst
  | @waiting c d pre post hsplit hpre hrest hline hopen =>
    refine .waiting (show r :: rs = (r :: pre) ++ post by rw [hsplit, List.cons_append]) ?_ hrest
      hline hopen
    intro x hx
    rcases List.mem_cons.mp hx with hx | hx
    · rw [hx]
      exact hr
    · exact hpre x hx

theorem drained_drainAgent (hJ : J.Documented) (lineNs : Nat → UInt64) (fuel k : Nat)
    {c : ControlChannel U} {d : DriverRun} {future : Bytes} {rs : List Reply}
    (hrs : AgentLines J rs) (htx : c.serial.tx ++ future = stream J rs)
    (hfuel : c.serial.tx.length ≤ fuel) (hopen : d.verdict = none) :
    Drained J future rs (drainAgent (driverPlatform hw J) lineNs fuel k c d) := by
  induction fuel generalizing k c d rs with
  | zero =>
    have hnil : c.serial.tx = [] := List.eq_nil_of_length_eq_zero (by omega)
    refine .waiting (List.nil_append rs).symm (by simp) htx ?_ hopen
    rw [hnil]
    exact List.not_mem_nil
  | succ fuel ih =>
    unfold drainAgent
    by_cases hline : 10 ∈ c.serial.tx
    · -- a whole line is there, so it is the first of the lines
      cases rs with
      | nil =>
        have hnil : c.serial.tx = [] := (List.append_eq_nil_iff.mp htx).1
        rw [hnil] at hline
        exact absurd hline List.not_mem_nil
      | cons r rs =>
        rw [stream, List.flatMap_cons] at htx
        obtain ⟨rest, hpoll, hmore, hless⟩ := pollLine_line hJ htx hline
        rw [hpoll]
        dsimp only
        have hrest : AgentLines J rs :=
          ⟨fun x hx => hrs.short x (List.mem_cons_of_mem r hx),
            fun x hx => hrs.bare x (List.mem_cons_of_mem r hx)⟩
        cases hr : verdictOf r with
        | none =>
          obtain ⟨hgo, hopen'⟩ := onAgentLine_other hJ hr hopen
          rcases hout : d.onAgentLine J (J.writeReply r) with ⟨fin, d'⟩
          rw [hout] at hgo hopen'
          dsimp only at hgo hopen'
          subst hgo
          rw [driverPlatform_onAgentLine, hout]
          refine Drained.cons hr (ih (k + 1) hrest hmore ?_ hopen')
          show rest.length ≤ fuel
          omega
        | some ev =>
          obtain ⟨hplain, seq, hevent⟩ := hrs.bare r List.mem_cons_self ev hr
          have hkind : ev.kind = OP_FINISH := by
            simp only [verdictOf, Option.filter_eq_some_iff, decide_eq_true_eq] at hr
            exact hr.2
          rw [driverPlatform_onAgentLine, hevent, onAgentLine_finish hJ hkind hplain hopen,
            ← hevent]
          refine .finished ?_ rfl
          rw [List.findSome?_cons, hr]
    · rw [pollLine_none hrs.short htx hline]
      exact .waiting (List.nil_append rs).symm (by simp) htx hline hopen

/-! ## Listening -/

/-- The host has heard part of the lines `rs`, `future` being still to come. -/
inductive Listening (J : Json) (rs : List Reply) (future : Bytes) (h : Host U) : Prop where
  | decided {ev : GuestEvent} (hend : h.finished = true)
      (hfirst : rs.findSome? verdictOf = some ev) (hverdict : h.driver.verdict = some (.ofEvent ev))
  | hearing {pre post : List Reply} (hend : h.finished = false) (hsplit : rs = pre ++ post)
      (hpre : ∀ r ∈ pre, verdictOf r = none)
      (hrest : h.com2.serial.tx ++ future = stream J post) (hopen : h.driver.verdict = none)

variable {rs : List Reply} {future : Bytes} {h : Host U}

theorem AgentLines.suffix {pre post : List Reply} (hrs : AgentLines J (pre ++ post)) :
    AgentLines J post :=
  ⟨fun r hr => hrs.short r (List.mem_append_right pre hr),
    fun r hr => hrs.bare r (List.mem_append_right pre hr)⟩

theorem findSome?_append_none {pre post : List Reply} (hpre : ∀ r ∈ pre, verdictOf r = none) :
    (pre ++ post).findSome? verdictOf = post.findSome? verdictOf := by
  rw [List.findSome?_append, List.findSome?_eq_none_iff.mpr hpre, Option.none_or]

theorem Listening.drain (hJ : J.Documented) (hrs : AgentLines J rs) (hl : Listening J rs future h)
    (lineNs : Nat → UInt64) :
    Listening J rs future (h.step hw J (.drain lineNs)) ∧
      ((h.step hw J (.drain lineNs)).finished = true ∨
        10 ∉ (h.step hw J (.drain lineNs)).com2.serial.tx) := by
  unfold Host.step
  rcases hl with ⟨hend, hfirst, hverdict⟩ | ⟨hend, hsplit, hpre, hrest, hopen⟩
  · dsimp only
    rw [if_pos hend]
    exact ⟨.decided hend hfirst hverdict, .inl hend⟩
  · rename_i pre post
    subst hsplit
    have hdrained := drained_drainAgent hw hJ lineNs h.com2.serial.tx.length 0 hrs.suffix hrest
      (Nat.le_refl _) hopen
    dsimp only
    rw [if_neg (by rw [hend]; decide)]
    generalize drainAgent (driverPlatform hw J) lineNs h.com2.serial.tx.length 0 h.com2 h.driver =
      out at hdrained
    cases hdrained with
    | finished hfirst hverdict =>
      exact ⟨.decided rfl ((findSome?_append_none hpre).trans hfirst) hverdict, .inl rfl⟩
    | @waiting c d pre' post' hsplit' hpre' hrest' hline hopen' =>
      have hjoin : pre ++ post = (pre ++ pre') ++ post' := by rw [hsplit', List.append_assoc]
      refine ⟨.hearing rfl hjoin ?_ hrest' hopen', .inr hline⟩
      · intro r hr
        rcases List.mem_append.mp hr with hr | hr
        · exact hpre r hr
        · exact hpre' r hr

theorem Listening.step (hJ : J.Documented) (hrs : AgentLines J rs) (st : HostStep)
    (hl : Listening J rs (st.bytes ++ future) h) : Listening J rs future (h.step hw J st) := by
  cases st with
  | drain lineNs => exact (Listening.drain hw hJ hrs hl lineNs).1
  | arrive bytes =>
    rcases hl with ⟨hend, hfirst, hverdict⟩ | ⟨hend, hsplit, hpre, hrest, hopen⟩
    · exact .decided hend hfirst hverdict
    · refine .hearing hend hsplit hpre ?_ hopen
      show h.com2.serial.tx ++ bytes ++ future = _
      rw [List.append_assoc]
      exact hrest

theorem Listening.listen (hJ : J.Documented) (hrs : AgentLines J rs) (steps : List HostStep)
    (hl : Listening J rs (steps.flatMap HostStep.bytes ++ future) h) :
    Listening J rs future (h.listen hw J steps) := by
  induction steps generalizing h with
  | nil => exact hl
  | cons st steps ih =>
    refine ih (Listening.step hw hJ hrs st ?_)
    rw [List.flatMap_cons, List.append_assoc] at hl
    exact hl

/-- However the bytes of the lines arrive and whenever the buffer is drained, after a
last drain the verdict is that of the first `finish` among the lines. -/
theorem verdict_listen (hJ : J.Documented) (hrs : AgentLines J rs) {c : ControlChannel U}
    (hempty : c.serial.tx = []) {steps : List HostStep}
    (hbytes : steps.flatMap HostStep.bytes = stream J rs) (lineNs : Nat → UInt64) :
    (({ com2 := c : Host U }.listen hw J steps).step hw J (.drain lineNs)).driver.verdict =
      (rs.findSome? verdictOf).map Verdict.ofEvent := by
  have hstart : Listening J rs (steps.flatMap HostStep.bytes ++ []) { com2 := c : Host U } := by
    refine .hearing rfl (List.nil_append rs).symm (by simp) ?_ rfl
    rw [hempty, hbytes, List.nil_append, List.append_nil]
  obtain ⟨hl, hline⟩ :=
    Listening.drain hw hJ hrs (Listening.listen hw hJ hrs steps hstart) lineNs
  rcases hl with ⟨hend, hfirst, hverdict⟩ | ⟨hend, hsplit, hpre, hrest, hopen⟩
  · rw [hverdict, hfirst]
    rfl
  · rename_i pre post
    rw [hend] at hline
    have hnone := hline.resolve_left (by decide)
    have hpost : post = [] := by
      cases post with
      | nil => rfl
      | cons r post =>
        exfalso
        apply hnone
        rw [List.append_nil] at hrest
        rw [hrest, stream, List.flatMap_cons, Json.encodeLine]
        simp
    rw [hopen, hsplit, hpost, List.append_nil, List.findSome?_eq_none_iff.mpr hpre]
    rfl

end Listen

end Tdvmm.Vmm
