import Tdvmm.Forwarder.Link

/-!
# Forwarder.Freshness — an `OPEN` for an id the host still knows

The guest frees a stream id as soon as the threads of its connection are done; the
host may then still be draining bytes to the socket of that stream. Ids come from a
16-bit counter, so after 65536 connections a freed id comes round again and its
`OPEN` can meet the old session, which resets the stream (`reopen_refused`).

`opens_fresh`: it never does in a run in which every id is handed out only when the
host has forgotten it and no earlier `OPEN` for it is still queued.
-/

namespace Tdvmm.Forwarder

open Lib Proto Egress Relation

/-- An `OPEN` is handled when its id is neither in the session table nor in the
resolving set. -/
@[simp] def OpensFree : Ev → Prop
  | .recv (.openTo _ _ _) pre resolving => pre = none ∧ resolving = false
  | _ => True

instance : DecidablePred OpensFree := fun e => by
  unfold OpensFree
  split <;> infer_instance

/-- Every `OPEN` so far has reached the backend when its id was free. -/
def Sys.OpensFresh (s : Sys) : Prop := ∀ e ∈ s.host.hist, OpensFree e

/-- The host has forgotten the id and no `OPEN` for it is queued. -/
structure Link.Free (l : Link) : Prop where
  session : l.view.sess = none
  resolving : l.view.resolving = false
  queue : ∀ f ∈ l.up, isOpen f = false

/-! ## The backend's side -/

section Stream

variable {calm : Prop} {id : StreamId} {v v' : StreamView} {es : List Ev}

theorem free_step (hstep : StreamStep calm id v v') (hhist : v'.hist = v.hist ++ es)
    (hnone : ∀ f ∈ recvs es, isOpen f = false) (hsess : v.sess = none)
    (hres : v.resolving = false) : v'.sess = none ∧ v'.resolving = false := by
  -- a free id stays free as long as no `OPEN` for it is handled
  cases hstep with
  | accept =>
    obtain rfl := List.append_cancel_left hhist
    simp [recvs] at hnone
  | _ => simp_all

theorem opensFree_step (hstep : StreamStep calm id v v') (hhist : v'.hist = v.hist ++ es)
    (hfree : (∃ f ∈ recvs es, isOpen f = true) → v.sess = none ∧ v.resolving = false) :
    ∀ e ∈ es, OpensFree e := by
  cases hstep with
  | @reject sess r h f hid hrej =>
    obtain rfl := List.append_cancel_left hhist
    cases f <;> cases sess <;> simp_all [recvs, ended]
  | @drop sess =>
    obtain rfl := List.append_cancel_left hhist
    cases sess <;> simp [ended]
  | @connected s =>
    obtain rfl := List.append_cancel_left hhist
    cases hclosed : s.guestWriteClosed <;> simp
  | ignore hf =>
    obtain rfl := List.append_cancel_left hhist
    rcases hf with rfl | ⟨credit, rfl⟩ <;> simp
  | _ =>
    obtain rfl := List.append_cancel_left hhist
    simp

end Stream

/-! ## Both ends -/

/-- While an `OPEN` is about to be sent or is on its way, the host does not know its
id. -/
structure Awaited (l : Link) : Prop where
  fresh : ∀ e ∈ l.view.hist, OpensFree e
  queued : (∃ f ∈ l.up, isOpen f = true) → l.view.sess = none ∧ l.view.resolving = false
  opening : ∀ c ∈ l.conn, ∀ st, c.phase = .opening st → l.Free
  alone : l.up.countP isOpen ≤ 1

theorem init_awaited : Awaited .init := by
  constructor <;> simp [Link.init, StreamView.init]

section Link

variable {id : StreamId} {l l' : Link} {tty : Bool} {c c' : Conn} {fs : List OwnedFrame}

theorem step_opening (h : ConnStep tty c fs c') :
    (∀ st, c'.phase = .opening st → fs = [] ∧ c.phase = .opening st) ∧
      ((∀ f ∈ fs, isOpen f = false) ∨
        ∃ st, c.phase = .opening st ∧ c'.phase = .awaiting st ∧ fs = [st.openFrame]) := by
  -- a connection sends an `OPEN` once, from its opening phase, and no move leads into that phase
  cases h with
  | stay | clientSends bytes => exact ⟨fun st h => ⟨rfl, h⟩, .inl (by simp)⟩
  | @opened st hphase => exact ⟨by simp, .inr ⟨st, hphase, rfl, rfl⟩⟩
  | gaveUp hphase hinbox hfs =>
    refine ⟨by simp, .inl ?_⟩
    rcases hfs with rfl | rfl <;> simp
  | sentData hphase => exact ⟨by simp [hphase], .inl (by simp)⟩
  | upEnded hphase hup hfs =>
    refine ⟨by simp, .inl ?_⟩
    rcases hfs with rfl | rfl | rfl <;> simp
  | @granted st r bytes =>
    refine ⟨by simp [Conn.deliver, Conn.setRelay], .inl ?_⟩
    rcases toList_send tty (.window st.id (UInt32.ofNat (r.ungranted + bytes.length))) with h | h
    · rw [h]
      simp
    · rw [h]
      simp [toOwned]
  | downFailed hphase hdown hinbox hfs =>
    refine ⟨by simp [Conn.deliver, Conn.setRelay], .inl ?_⟩
    rcases hfs with rfl | rfl <;> simp
  | ignored hphase => exact ⟨by simp [hphase], .inl (by simp)⟩
  | _ => exact ⟨by simp [Conn.deliver, Conn.setRelay], .inl (by simp)⟩

theorem countP_isOpen_zero {up : List OwnedFrame} (h : ∀ f ∈ up, isOpen f = false) :
    up.countP isOpen = 0 := by
  rw [List.countP_eq_zero]
  intro f hf
  rw [h f hf]
  exact Bool.false_ne_true

theorem move_awaited {up : List OwnedFrame} {v : StreamView} {down : List EgressFrame}
    (hmove : ConnStep tty c fs c') (h : Awaited ⟨some c, up, v, down, tty⟩) :
    Awaited ⟨some c', up ++ fs, v, down, tty⟩ := by
  obtain ⟨hstays, hfs⟩ := step_opening hmove
  rcases hfs with hplain | ⟨st, hopening, hawaiting, rfl⟩
  · refine ⟨h.fresh, ?_, ?_, ?_⟩
    · rintro ⟨f, hf, hopen⟩
      rcases List.mem_append.mp hf with hf | hf
      · exact h.queued ⟨f, hf, hopen⟩
      · rw [hplain f hf] at hopen
        contradiction
    · rintro _ ⟨⟩ st hphase
      obtain ⟨rfl, hphase⟩ := hstays st hphase
      have hfree := h.opening c rfl st hphase
      exact ⟨hfree.session, hfree.resolving, by simpa using hfree.queue⟩
    · rw [List.countP_append, countP_isOpen_zero hplain]
      exact h.alone
  · -- the OPEN goes out: the id was free when it was registered, and has stayed so
    have hfree := h.opening c rfl st hopening
    refine ⟨h.fresh, fun _ => ⟨hfree.session, hfree.resolving⟩, ?_, ?_⟩
    · rintro _ ⟨⟩ st' hphase
      rw [hawaiting] at hphase
      contradiction
    · rw [List.countP_append, countP_isOpen_zero hfree.queue]
      exact Nat.le_refl 1

theorem host_awaited {conn : Option Conn} {up : List OwnedFrame} {v v' : StreamView} {es : List Ev}
    {down : List EgressFrame} (hstep : StreamStep False id v v') (hhist : v'.hist = v.hist ++ es)
    (h : Awaited ⟨conn, recvs es ++ up, v, down, tty⟩) :
    Awaited ⟨conn, up, v', down ++ sents es, tty⟩ := by
  have hes := opensFree_step hstep hhist fun ⟨f, hf, hopen⟩ =>
    h.queued ⟨f, List.mem_append_left _ hf, hopen⟩
  have halone := h.alone
  rw [List.countP_append] at halone
  -- if an OPEN is handled there is no other, and none about to be sent
  have hquiet : (∃ f ∈ recvs es, isOpen f = true) → ∀ f ∈ up, isOpen f = false := by
    rintro ⟨f, hf, hopen⟩
    have hpos : 0 < (recvs es).countP isOpen := List.countP_pos_iff.mpr ⟨f, hf, hopen⟩
    have hzero : up.countP isOpen = 0 := by omega
    intro g hg
    simpa using List.countP_eq_zero.mp hzero g hg
  have hstill : (∀ f ∈ recvs es, isOpen f = false) → v.sess = none ∧ v.resolving = false →
      v'.sess = none ∧ v'.resolving = false := fun hnone hv =>
    free_step hstep hhist hnone hv.1 hv.2
  refine ⟨?_, ?_, ?_, Nat.le_trans (Nat.le_add_left _ _) halone⟩
  · intro e he
    have hmem : e ∈ v.hist ++ es := hhist ▸ he
    rcases List.mem_append.mp hmem with he | he
    · exact h.fresh e he
    · exact hes e he
  · rintro ⟨f, hf, hopen⟩
    refine hstill ?_ (h.queued ⟨f, List.mem_append_right _ hf, hopen⟩)
    intro g hg
    by_contra hg'
    have hnot := hquiet ⟨g, hg, by simpa using hg'⟩ f hf
    rw [hopen] at hnot
    contradiction
  · intro c hc st hphase
    have hfree := h.opening c hc st hphase
    have hnone : ∀ f ∈ recvs es, isOpen f = false := fun f hf =>
      hfree.queue f (List.mem_append_left _ hf)
    obtain ⟨hsess, hres⟩ := hstill hnone ⟨hfree.session, hfree.resolving⟩
    exact ⟨hsess, hres, fun f hf => hfree.queue f (List.mem_append_right _ hf)⟩

theorem step_awaited (hstep : LinkStep Link.Free id l l') (h : Awaited l) : Awaited l' := by
  cases hstep with
  | move hmove => exact move_awaited hmove h
  | register hphase hsound hfree hok =>
    refine ⟨h.fresh, h.queued, ?_, h.alone⟩
    intro _ _ _ _
    exact ⟨hok.session, hok.resolving, hok.queue⟩
  | @leave c st up v down tty hleave =>
    refine ⟨h.fresh, h.queued, ?_, h.alone⟩
    rintro _ ⟨⟩ st' hphase
    contradiction
  | @route c f up v down tty hheld =>
    refine ⟨h.fresh, h.queued, ?_, h.alone⟩
    rintro _ ⟨⟩ st hphase
    have hfree := h.opening c rfl st hphase
    exact ⟨hfree.session, hfree.resolving, hfree.queue⟩
  | @drop conn f up v down tty hfree =>
    refine ⟨h.fresh, h.queued, ?_, h.alone⟩
    intro c hc st hphase
    have hfree := h.opening c hc st hphase
    exact ⟨hfree.session, hfree.resolving, hfree.queue⟩
  | host hstep hhist => exact host_awaited hstep hhist h
  | ttyFails =>
    refine ⟨h.fresh, h.queued, ?_, h.alone⟩
    intro c hc st hphase
    have hfree := h.opening c hc st hphase
    exact ⟨hfree.session, hfree.resolving, hfree.queue⟩

end Link

/-! ## Runs -/

/-- **Stream-id freshness.** In every run in which every id is handed out only when
the host has forgotten it and no `OPEN` for it is queued, every `OPEN` reaches the
backend when its id is neither in the session table nor in the resolving set. -/
theorem opens_fresh (acts : List Act) (hfree : HandsOut Link.Free .init acts) :
    (run acts).OpensFresh := by
  intro e he
  by_cases hopen : ∃ id port host pre r, e = .recv (.openTo id port host) pre r
  · obtain ⟨id, port, host, pre, r, rfl⟩ := hopen
    have hlink := run_invariant (I := Awaited) (fun l l' hstep h => step_awaited hstep h)
      (run_links hfree id) init_awaited
    refine hlink.fresh _ ?_
    show _ ∈ about id (run acts).host.hist
    simp [about, he, Ev.stream?, OwnedFrame.stream]
  · cases e with
    | recv f pre r =>
      cases f with
      | openTo id port host => exact absurd ⟨id, port, host, pre, r, rfl⟩ hopen
      | _ => trivial
    | _ => trivial

section Decide

variable {ok : Link → Prop} [DecidablePred ok]

instance HandsOut.decidable : ∀ (s : Sys) (acts : List Act), Decidable (HandsOut ok s acts)
  | _, [] => .isTrue trivial
  | s, a :: acts =>
    have := HandsOut.decidable (s.step a) acts
    -- One id at most, not all ids: the ids are a finite type.
    have : Decidable (∀ j, s.hands? a = some j → ok (s.link j)) :=
      match s.hands? a with
      | none => .isTrue nofun
      | some j => decidable_of_iff (ok (s.link j)) ⟨fun h _ hj => Option.some.inj hj ▸ h, (· j rfl)⟩
    inferInstanceAs (Decidable (_ ∧ _))

end Decide

instance : DecidablePred Link.Free := fun l =>
  decidable_of_iff
    (l.view.sess.isNone = true ∧ l.view.resolving = false ∧ ∀ f ∈ l.up, isOpen f = false)
    ⟨fun ⟨hsess, hres, hqueue⟩ => ⟨Option.isNone_iff_eq_none.mp hsess, hres, hqueue⟩,
      fun h => ⟨Option.isNone_iff_eq_none.mpr h.session, h.resolving, h.queue⟩⟩

theorem opens_fresh_exchange :
    .recv (.openTo 1 80 [104]) none false ∈ (run exchange).host.hist ∧
      (run exchange).OpensFresh :=
  ⟨by decide +kernel, opens_fresh exchange (by decide +kernel)⟩

/-! ## A stream that is reopened -/

/-- Resolves and connects stream 1 at once; its peer says nothing more and takes
nothing for now. -/
def Env.stalls : Env :=
  { Env.prompt 1 ⟨[127, 0, 0, 1], 80⟩ with
    write := fun _ _ _ => .wouldBlock
    read := fun _ _ _ => .got [] }

/-- Client 0 sends three bytes and closes; its peer has closed without taking them.
The guest frees id 1, the host keeps the session to drain it. -/
def firstLife : List Act :=
  clientArrives 0 [1, 2, 3] ++
    [.conn 0 .sendOpen, .pump 1 Env.stalls, .route, .conn 0 (.verdict true true),
      .conn 0 (.relayUp (.got 100)), .pump 1 Env.stalls, .route, .conn 0 (.relayDown .all),
      .conn 0 (.relayUp .eof), .leave 0, .pump 1 Env.stalls]

def crowd : Nat → List Act
  | 0 => []
  | n + 1 => crowd n ++ clientArrives (n + 1) []

/-- The counter has gone round: client 65536 is given id 1 again. -/
def reopenRun : List Act :=
  firstLife ++ crowd 65535 ++ (clientArrives 65536 [] ++
    [.conn 65536 .sendOpen, .pump 1 Env.stalls])

/-- A client whose handshake is done and who has sent nothing else. -/
def arrived : Conn :=
  (Conn.new.moved true (.clientSends (connectDomain [104] 80 ++ []))).moved true (.negotiate true)

/-- What a client past its handshake asks for. -/
def Phase.asks : Phase → Option (Bytes × UInt16)
  | .ready target => some (target.host, target.port)
  | _ => none

theorem arrived_ready : ∃ target, arrived.phase = .ready target ∧ target.host = [104] ∧
    target.port = 80 := by
  have hasks : arrived.phase.asks = some ([104], 80) := by decide +kernel
  cases hphase : arrived.phase with
  | ready target =>
    rw [hphase] at hasks
    obtain ⟨hhost, hport⟩ := Prod.mk.inj (Option.some.inj hasks)
    exact ⟨target, rfl, hhost, hport⟩
  | _ =>
    rw [hphase] at hasks
    cases hasks

section Arrival

variable {s : Sys}

theorem arrives_eq (hrun : s.halted = false) (hfree : s.wedged = false) (htty : s.tty = true)
    (hid : s.registry.contains s.counter.toUInt16 = false) :
    ∃ target, target.host = [104] ∧ target.port = 80 ∧
      (clientArrives s.conns.length []).foldl Sys.step s =
        { s with
          conns := s.conns ++ [arrived.register ⟨s.counter.toUInt16, target⟩]
          registry := s.registry.insert s.counter.toUInt16 s.conns.length
          counter := s.counter + 1
          issued := s.issued ++ [(s.counter.toUInt16, s.conns.length)] } := by
  obtain ⟨target, hready, hhost, hport⟩ := arrived_ready
  have hregister : register s.registry s.counter = some (s.counter.toUInt16, s.counter + 1) := by
    show findFree s.registry 65536 s.counter = _
    unfold findFree
    rw [hid]
    rfl
  have hmoved : s.conns ++ [arrived] = s.conns ++
      [(Conn.new.moved true (.clientSends (connectDomain [104] 80 ++ []))).moved true
        (.negotiate true)] := rfl
  refine ⟨target, hhost, hport, ?_⟩
  have hnegotiated : [Act.accept,
      .conn s.conns.length (.clientSends (connectDomain [104] 80 ++ [])),
      .conn s.conns.length (.negotiate true)].foldl Sys.step s =
        { s with conns := s.conns ++ [arrived] } := by
    rw [hmoved]
    simp [Sys.step, Sys.perform, Sys.moveConn, hrun, hfree, htty, Conn.move]
  show ([Act.accept, .conn s.conns.length (.clientSends (connectDomain [104] 80 ++ [])),
    .conn s.conns.length (.negotiate true)] ++
      [Act.register s.conns.length]).foldl Sys.step s = _
  rw [List.foldl_append, hnegotiated]
  simp [Sys.step, Sys.perform, Sys.registerConn, hrun, hfree, hready, hregister]

end Arrival

/-- `n` clients after the first have arrived and hold the ids from 2 on. -/
structure Crowded (host : Backend) (n : Nat) (s : Sys) : Prop where
  host : s.host = host
  queue : s.toHost = []
  runs : s.halted = false
  unlocked : s.wedged = false
  tty : s.tty = true
  conns : s.conns.length = n + 1
  counter : s.counter.toNat = n + 2
  ids : ∀ id, s.registry.contains id = true → ∃ k, 2 ≤ k ∧ k ≤ n + 1 ∧ id = UInt16.ofNat k

theorem Crowded.free {host : Backend} {n : Nat} {s : Sys} (h : Crowded host n s)
    (hn : n ≤ 65535) : s.registry.contains s.counter.toUInt16 = false := by
  -- the next candidate is free: the ids held are 2 to `n + 1`
  by_contra hheld
  obtain ⟨k, hlo, hhi, hk⟩ := h.ids _ (by simpa using hheld)
  have hnat := congrArg UInt16.toNat hk
  rw [UInt32.toNat_toUInt16, UInt16.toNat_ofNat', h.counter] at hnat
  omega

theorem firstLife_crowded : Crowded (run firstLife).host 0 (run firstLife) := by
  refine ⟨rfl, by decide +kernel, by decide +kernel, by decide +kernel, by decide +kernel,
    by decide +kernel, by decide +kernel, ?_⟩
  have hempty : (run firstLife).registry.isEmpty = true := by decide +kernel
  intro id hid
  rw [Std.ExtTreeMap.isEmpty_iff] at hempty
  simp [hempty] at hid

theorem crowd_crowded {host : Backend} {s : Sys} (h : Crowded host 0 s) (n : Nat)
    (hn : n ≤ 65535) : Crowded host n ((crowd n).foldl Sys.step s) := by
  induction n with
  | zero => exact h
  | succ n ih =>
    have hbefore := ih (by omega)
    obtain ⟨target, -, -, harrives⟩ := arrives_eq hbefore.runs hbefore.unlocked hbefore.tty
      (hbefore.free (by omega))
    rw [hbefore.conns] at harrives
    rw [crowd, List.foldl_append, harrives]
    refine ⟨hbefore.host, hbefore.queue, hbefore.runs, hbefore.unlocked, hbefore.tty, ?_, ?_, ?_⟩
    · simp [hbefore.conns]
    · have hone : (1 : UInt32).toNat = 1 := rfl
      rw [UInt32.toNat_add, hbefore.counter, hone]
      omega
    · intro id hid
      by_cases hnew : ((crowd n).foldl Sys.step s).counter.toUInt16 = id
      · refine ⟨n + 2, by omega, by omega, ?_⟩
        apply UInt16.toNat_inj.mp
        rw [← hnew, UInt32.toNat_toUInt16, UInt16.toNat_ofNat', hbefore.counter]
      · obtain ⟨k, hlo, hhi, hk⟩ := hbefore.ids id (by simpa [hnew] using hid)
        exact ⟨k, hlo, by omega, hk⟩

theorem reopen_hist {n : Nat} (hn : n = 65535) :
    (run (firstLife ++ crowd n ++ (clientArrives 65536 [] ++
      [.conn 65536 .sendOpen, .pump 1 Env.stalls]))).host.hist =
    ((pumpFrames Env.stalls [.openTo 1 80 [104]]).run (run firstLife).host).2.hist := by
  -- what the backend has done after the `OPEN` for id 1 that meets the old session
  have hcrowd := crowd_crowded firstLife_crowded n (by omega)
  rw [run, List.foldl_append, List.foldl_append, List.foldl_append]
  change Crowded _ n ((crowd n).foldl Sys.step (firstLife.foldl Sys.step .init)) at hcrowd
  generalize (crowd n).foldl Sys.step (firstLife.foldl Sys.step .init) = s at hcrowd ⊢
  subst hn
  obtain ⟨target, hhost, hport, harrives⟩ := arrives_eq hcrowd.runs hcrowd.unlocked hcrowd.tty
    (hcrowd.free (by omega))
  rw [hcrowd.conns] at harrives
  have hid : s.counter.toUInt16 = 1 := by
    apply UInt16.toNat_inj.mp
    rw [UInt32.toNat_toUInt16, hcrowd.counter]
    rfl
  rw [harrives, hid]
  have hsent : send true (.openTo 1 target.port target.host) = some (.openTo 1 80 [104]) := by
    rw [hhost, hport]
    rfl
  simp [Sys.step, Sys.perform, Sys.moveConn, Sys.pumpHost, hcrowd.runs, hcrowd.unlocked,
    hcrowd.tty, hcrowd.queue, hcrowd.conns, hcrowd.host, Conn.move, Conn.sendOpen, Conn.register,
    hsent]

/-- The session of id 1 is still draining when the forwarder sends the next `OPEN`
for it; the backend resets the stream. -/
theorem reopen_refused : Env.stalls.Calm ∧ ¬ (run reopenRun).OpensFresh ∧
    .sent (.rst 1) ∈ (run reopenRun).host.hist := by
  have hcalm := prompt_calm 1 ⟨[127, 0, 0, 1], 80⟩
  refine ⟨⟨hcalm.1, hcalm.2⟩, ?_, ?_⟩
  · unfold Sys.OpensFresh
    rw [reopenRun, reopen_hist rfl]
    decide +kernel
  · rw [reopenRun, reopen_hist rfl]
    decide +kernel

end Tdvmm.Forwarder
