import Tdvmm.Forwarder.Registry

/-!
# Forwarder.Link — one stream of the system, end to end

What a mux stream id sees of the whole system: the connection the id was handed out to last, the
frames in flight for it in either direction, and the backend's view of it. `LinkStep` lists once
what can happen to that; `run_links` shows that a run of the system moves every link along it.

`ok` is what is known of a link when its id is handed out.
-/

namespace Tdvmm.Forwarder

open Lib Proto Egress Relation

/-- What one stream id sees of the system. -/
structure Link where
  conn : Option Conn
  up : List OwnedFrame
  view : StreamView
  down : List EgressFrame
  tty : Bool

/-- The connection an id was handed out to last. -/
def Sys.conn? (s : Sys) (id : StreamId) : Option Conn :=
  (lastOwner id s.issued).bind fun i => s.conns[i]?

def Sys.link (s : Sys) (id : StreamId) : Link where
  conn := s.conn? id
  up := s.toHost.filter fun f => f.stream == id
  view := s.host.view id
  down := s.toGuest.filter fun f => f.stream == id
  tty := s.tty

def Unheld (conn : Option Conn) : Prop := ∀ c ∈ conn, c.phase.held? = none

inductive LinkStep (ok : Link → Prop) (id : StreamId) : Link → Link → Prop where
  | move {c c' : Conn} {fs up : List OwnedFrame} {v : StreamView} {down : List EgressFrame}
      {tty : Bool} (hstep : ConnStep tty c fs c') :
      LinkStep ok id ⟨some c, up, v, down, tty⟩ ⟨some c', up ++ fs, v, down, tty⟩
  | register {l : Link} {c : Conn} {target : Socks5Target} (hphase : c.phase = .ready target)
      (hsound : c.Sound) (hfree : Unheld l.conn) (hok : ok l) :
      LinkStep ok id l { l with conn := some (c.register ⟨id, target⟩) }
  | leave {c : Conn} {st : MuxStream} {up : List OwnedFrame} {v : StreamView}
      {down : List EgressFrame} {tty : Bool} (hleave : c.leaves? = some st) :
      LinkStep ok id ⟨some c, up, v, down, tty⟩
        ⟨some { c with phase := .gone st }, up, v, down, tty⟩
  | route {c : Conn} {f : EgressFrame} {up : List OwnedFrame} {v : StreamView}
      {down : List EgressFrame} {tty : Bool} (hheld : c.phase.held? ≠ none) :
      LinkStep ok id ⟨some c, up, v, f :: down, tty⟩ ⟨some (c.receive f), up, v, down, tty⟩
  | drop {conn : Option Conn} {f : EgressFrame} {up : List OwnedFrame} {v : StreamView}
      {down : List EgressFrame} {tty : Bool} (hfree : Unheld conn) :
      LinkStep ok id ⟨conn, up, v, f :: down, tty⟩ ⟨conn, up, v, down, tty⟩
  | host {conn : Option Conn} {up : List OwnedFrame} {v v' : StreamView} {es : List Ev}
      {down : List EgressFrame} {tty : Bool} (hstep : StreamStep False id v v')
      (hhist : v'.hist = v.hist ++ es) :
      LinkStep ok id ⟨conn, recvs es ++ up, v, down, tty⟩ ⟨conn, up, v', down ++ sents es, tty⟩
  | ttyFails {l : Link} : LinkStep ok id l { l with tty := false }

abbrev LinkSteps (ok : Link → Prop) (id : StreamId) : Link → Link → Prop :=
  ReflTransGen (LinkStep ok id)

def Link.init : Link := ⟨none, [], .init, [], true⟩

theorem link_init (id : StreamId) : Sys.init.link id = .init := by
  simp [Sys.link, Sys.init, Sys.conn?, lastOwner, Link.init, view_init]

/-! ## A pump, stream by stream -/

theorem streamStep_grows {calm : Prop} {id : StreamId} {v v' : StreamView}
    (h : StreamStep calm id v v') : ∃ es, v'.hist = v.hist ++ es := by
  cases h <;> exact ⟨_, rfl⟩

theorem streamSteps_links {ok : Link → Prop} {id : StreamId} {v v' : StreamView}
    (h : StreamSteps False id v v') : ∃ es, v'.hist = v.hist ++ es ∧
      ∀ conn up down tty, LinkSteps ok id ⟨conn, recvs es ++ up, v, down, tty⟩
        ⟨conn, up, v', down ++ sents es, tty⟩ := by
  induction h with
  | refl => exact ⟨[], by simp, fun conn up down tty => by simp [recvs, ReflTransGen.refl]⟩
  | tail _ hstep ih =>
    obtain ⟨es, hhist, hlinks⟩ := ih
    obtain ⟨es', hhist'⟩ := streamStep_grows hstep
    refine ⟨es ++ es', by rw [hhist', hhist, List.append_assoc], fun conn up down tty => ?_⟩
    have hlast : LinkStep ok id ⟨conn, recvs es' ++ up, _, down ++ sents es, tty⟩
        ⟨conn, up, _, down ++ sents es ++ sents es', tty⟩ := .host hstep hhist'
    rw [recvs_append, sents_append, List.append_assoc, ← List.append_assoc down]
    exact (hlinks conn (recvs es' ++ up) down tty).tail hlast

/-! ## The acts, stream by stream -/

section Acts

variable {ok : Link → Prop} {s : Sys} {i : Nat} {c c' : Conn}

theorem conn?_set (s' : Sys) (hc : s.conns[i]? = some c) (hconns : s'.conns = s.conns.set i c')
    (hissued : s'.issued = s.issued) (id : StreamId) :
    s'.conn? id = if lastOwner id s.issued = some i then some c' else s.conn? id := by
  unfold Sys.conn?
  rw [hissued, hconns]
  rcases hown : lastOwner id s.issued with _ | j
  · simp
  · by_cases hj : j = i
    · subst hj
      simpa using getElem?_set_self_of hc
    · have hne : some j ≠ some i := fun heq => hj (Option.some.inj heq)
      rw [if_neg hne]
      exact getElem?_set_other hj

theorem modify_eq_set (hc : s.conns[i]? = some c) (g : Conn → Conn) :
    s.conns.modify i g = s.conns.set i (g c) := by
  apply List.ext_getElem?
  intro j
  rw [List.getElem?_modify]
  by_cases hj : j = i
  · subst hj
    rw [getElem?_set_self_of hc, hc]
    simp
  · rw [getElem?_set_other hj]
    have hij : ¬ i = j := fun heq => hj heq.symm
    simp [hij]

theorem conn?_of_owner {id : StreamId} (hc : s.conns[i]? = some c)
    (hown : lastOwner id s.issued = some i) : s.conn? id = some c := by
  unfold Sys.conn?
  rw [hown]
  exact hc

theorem Sys.Tidy.unheld (h : s.Tidy) {id : StreamId} (hreg : s.registry[id]? = none) :
    Unheld (s.conn? id) := by
  -- an id is registered exactly when its last owner still holds it
  intro c hc
  unfold Sys.conn? at hc
  rcases hown : lastOwner id s.issued with _ | i
  · simp [hown] at hc
  · rw [hown] at hc
    have hconn : s.conns[i]? = some c := hc
    rcases hheld : c.phase.held? with _ | st
    · rfl
    · -- it would be registered under its own id, which is this one
      obtain ⟨d, st', hd, hst, hid⟩ := h.issued id i (mem_of_lastOwner hown)
      obtain rfl : c = d := Option.some.inj (hconn.symm.trans hd)
      rw [held_stream hheld] at hst
      have hin := (h.registry id i).mpr ⟨c, st, hconn, hheld, Option.some.inj hst ▸ hid⟩
      rw [hreg] at hin
      contradiction

theorem moveConn_link (h : s.Tidy) (mv : Move) (id : StreamId) :
    LinkSteps ok id (s.link id) ((s.moveConn i mv).link id) := by
  unfold Sys.moveConn
  rcases hc : s.conns[i]? with _ | c
  · exact .refl
  · have hstep : ConnStep s.tty c (c.move s.tty mv).2 (c.moved s.tty mv) := move_step mv
    have hsound := h.sound i c hc
    have hconn := conn?_set { s with
      conns := s.conns.set i (c.moved s.tty mv)
      toHost := s.toHost ++ (c.move s.tty mv).2 } hc rfl rfl id
    unfold Sys.link
    dsimp only
    rw [hconn, List.filter_append]
    by_cases hown : lastOwner id s.issued = some i
    · -- the connection of this id: all it sends is for it
      rw [if_pos hown, conn?_of_owner hc hown]
      have hall : (c.move s.tty mv).2.filter (fun f => f.stream == id) = (c.move s.tty mv).2 := by
        rw [List.filter_eq_self]
        intro f hf
        obtain ⟨st, hheld, hst⟩ := step_frames hstep hsound hf
        obtain ⟨d, st', hd, hst', hid⟩ := h.issued id i (mem_of_lastOwner hown)
        obtain rfl : c = d := Option.some.inj (hc.symm.trans hd)
        rw [held_stream hheld] at hst'
        simp [hst, Option.some.inj hst', hid]
      rw [hall]
      exact .single (.move hstep)
    · rw [if_neg hown]
      have hnone : (c.move s.tty mv).2.filter (fun f => f.stream == id) = [] := by
        rw [List.filter_eq_nil_iff]
        intro f hf
        obtain ⟨st, hheld, hst⟩ := step_frames hstep hsound hf
        have hholds := h.holder st.id i ((h.registry st.id i).mpr ⟨c, st, hc, hheld, rfl⟩)
        simp only [hst, beq_iff_eq]
        rintro rfl
        exact hown hholds
      rw [hnone, List.append_nil]

theorem registerConn_link (h : s.Tidy) (id : StreamId)
    (hok : ∀ j, s.hands? (.register i) = some j → ok (s.link j)) :
    LinkSteps ok id (s.link id) ((s.registerConn i).link id) := by
  unfold Sys.registerConn
  simp only [Sys.hands?] at hok
  rcases hc : s.conns[i]? with _ | c
  · exact .refl
  · rw [hc] at hok
    dsimp only at hok ⊢
    split
    · rename_i target hphase
      rw [hphase] at hok
      split
      · rename_i j counter hreg
        rw [hreg] at hok
        have hfree : s.registry[j]? = none := findFree_free hreg
        by_cases hj : j = id
        · subst hj
          have hstep : LinkStep ok j (s.link j)
              { s.link j with conn := some (c.register ⟨j, target⟩) } :=
            .register hphase (h.sound i c hc) (h.unheld hfree) (hok j rfl)
          have hlink : Sys.link { s with
              conns := s.conns.set i (c.register ⟨j, target⟩)
              registry := s.registry.insert j i
              counter := counter
              issued := s.issued ++ [(j, i)] } j =
                { s.link j with conn := some (c.register ⟨j, target⟩) } := by
            simp only [Sys.link, Sys.conn?, lastOwner_append, if_true, Option.bind_some,
              getElem?_set_self_of hc]
          rw [hlink]
          exact .single hstep
        · -- another id: its owner is not this connection, which had no stream
          have hconn : Sys.conn? { s with
              conns := s.conns.set i (c.register ⟨j, target⟩)
              registry := s.registry.insert j i
              counter := counter
              issued := s.issued ++ [(j, i)] } id = s.conn? id := by
            simp only [Sys.conn?, lastOwner_append, if_neg hj]
            rcases hown : lastOwner id s.issued with _ | k
            · rfl
            · have hne : k ≠ i := by
                rintro rfl
                obtain ⟨d, st, hd, hst, -⟩ := h.issued id k (mem_of_lastOwner hown)
                obtain rfl : c = d := Option.some.inj (hc.symm.trans hd)
                simp [hphase] at hst
              exact getElem?_set_other hne
          unfold Sys.link
          rw [hconn]
      · exact .refl
    · exact .refl

theorem leaveConn_link (id : StreamId) :
    LinkSteps ok id (s.link id) ((s.leaveConn i).link id) := by
  unfold Sys.leaveConn
  rcases hc : s.conns[i]? with _ | c
  · exact .refl
  · dsimp only
    split
    · rename_i st hleave
      have hconn := conn?_set { s with
        conns := s.conns.set i { c with phase := .gone st }
        registry := s.registry.erase st.id } hc rfl rfl id
      unfold Sys.link
      dsimp only
      rw [hconn]
      by_cases hown : lastOwner id s.issued = some i
      · rw [if_pos hown, conn?_of_owner hc hown]
        exact .single (.leave hleave)
      · rw [if_neg hown]
    · exact .refl

theorem routeFrame_link (h : s.Tidy) (id : StreamId) :
    LinkSteps ok id (s.link id) (s.routeFrame.link id) := by
  unfold Sys.routeFrame
  split
  · exact .refl
  · rename_i frame rest hguest
    by_cases hid : frame.stream = id
    · have hdown : s.toGuest.filter (fun f => f.stream == id) =
          frame :: rest.filter (fun f => f.stream == id) := by
        rw [hguest, List.filter_cons_of_pos (by simpa using hid)]
      rw [hid]
      split
      · -- the connection that has the id registered is its last owner
        rename_i i hreg
        obtain ⟨c, st, hc, hheld, -⟩ := (h.registry id i).mp hreg
        have hown := h.holder id i hreg
        have hconn := conn?_set { s with
          toGuest := rest
          conns := s.conns.set i (c.receive frame) } hc rfl rfl id
        rw [if_pos hown] at hconn
        rw [modify_eq_set hc]
        unfold Sys.link
        dsimp only
        rw [hconn, conn?_of_owner hc hown, hdown]
        refine .single (.route ?_)
        rw [hheld]
        simp
      · rename_i hreg
        unfold Sys.link
        dsimp only
        rw [hdown]
        exact .single (.drop (h.unheld hreg))
    · have hdown : s.toGuest.filter (fun f => f.stream == id) =
          rest.filter (fun f => f.stream == id) := by
        rw [hguest, List.filter_cons_of_neg (by simpa using hid)]
      split
      · rename_i i hreg
        obtain ⟨c, st, hc, hheld, hst⟩ := (h.registry frame.stream i).mp hreg
        have hconn := conn?_set { s with
          toGuest := rest
          conns := s.conns.set i (c.receive frame) } hc rfl rfl id
        have hown : lastOwner id s.issued ≠ some i := by
          -- a connection is handed out one id only
          intro hown
          obtain ⟨d, st', hd, hst', hid'⟩ := h.issued id i (mem_of_lastOwner hown)
          obtain rfl : c = d := Option.some.inj (hc.symm.trans hd)
          rw [held_stream hheld] at hst'
          exact hid (hst ▸ Option.some.inj hst' ▸ hid')
        rw [if_neg hown] at hconn
        rw [modify_eq_set hc]
        unfold Sys.link
        dsimp only
        rw [hconn, hdown]
      · unfold Sys.link
        dsimp only
        rw [hdown]
        exact .refl

theorem pumpHost_link (n : Nat) (env : Env) (id : StreamId) :
    LinkSteps ok id (s.link id) ((s.pumpHost n env).link id) := by
  obtain ⟨res, b', ts, hs, hrun, ⟨hstreams, es, hhist, -, hrecv, -⟩, -⟩ :=
    @pumpFrames_advance False s.host env (fun h => h.elim) (fun h => h.elim) (s.toHost.take n)
  obtain ⟨es', hview, hlinks⟩ := @streamSteps_links ok id _ _ (hstreams id)
  -- the events of this id, from the view and from the whole history
  have hes : about id es = es' := by
    have habout : (b'.view id).hist = (s.host.view id).hist ++ about id es := by
      simp [Backend.view, hhist]
    exact List.append_cancel_left (habout.symm.trans hview)
  have hup : s.toHost.filter (fun f => f.stream == id) =
      recvs es' ++ (s.toHost.drop n).filter (fun f => f.stream == id) := by
    rw [← hes, recvs_about, hrecv, ← List.filter_append, List.take_append_drop]
  have hdown : (s.toGuest ++ sents es).filter (fun f => f.stream == id) =
      s.toGuest.filter (fun f => f.stream == id) ++ sents es' := by
    rw [List.filter_append, ← hes, sents_about]
  have hdrop : b'.hist.drop s.host.hist.length = es := by
    rw [hhist, List.drop_left]
  have hlink : (s.pumpHost n env).link id = ⟨s.conn? id,
      (s.toHost.drop n).filter (fun f => f.stream == id), b'.view id,
      s.toGuest.filter (fun f => f.stream == id) ++ sents es', s.tty⟩ := by
    unfold Sys.pumpHost Sys.link
    rw [hrun]
    dsimp only
    rw [hdrop, hdown]
    rfl
  rw [hlink]
  unfold Sys.link
  rw [hup]
  exact hlinks _ _ _ _

theorem accept_link (h : s.Tidy) (id : StreamId) :
    Sys.link { s with conns := s.conns ++ [Conn.new] } id = s.link id := by
  have hconn : Sys.conn? { s with conns := s.conns ++ [Conn.new] } id = s.conn? id := by
    unfold Sys.conn?
    rcases hown : lastOwner id s.issued with _ | i
    · rfl
    · obtain ⟨c, st, hc, -⟩ := h.issued id i (mem_of_lastOwner hown)
      exact List.getElem?_append_left (List.getElem?_eq_some_iff.mp hc).1
  unfold Sys.link
  rw [hconn]

end Acts

/-! ## Runs -/

theorem perform_tidy {s : Sys} (h : s.Tidy) (a : Act) : (s.perform a).Tidy := by
  cases a with
  | accept =>
    obtain ⟨hstream, hissued, hregistry, hholder, honce, hsound⟩ := h
    -- the new connection has no stream
    have hold : ∀ (j : Nat) (d : Conn), (s.conns ++ [Conn.new])[j]? = some d →
        s.conns[j]? = some d ∨ d = Conn.new := by
      intro j d hd
      rcases Nat.lt_or_ge j s.conns.length with hlt | hge
      · exact .inl ((List.getElem?_append_left hlt).symm.trans hd)
      · rw [List.getElem?_append_right hge] at hd
        exact .inr (by simpa using List.mem_of_getElem? hd)
    have hnew : ∀ (j : Nat) (d : Conn), s.conns[j]? = some d →
        (s.conns ++ [Conn.new])[j]? = some d := by
      intro j d hd
      rw [List.getElem?_append_left (List.getElem?_eq_some_iff.mp hd).1]
      exact hd
    refine ⟨?_, ?_, ?_, hholder, honce, ?_⟩
    · intro j d st hd hst
      rcases hold j d hd with hd | rfl
      · exact hstream j d st hd hst
      · simp [Conn.new] at hst
    · intro id j hj
      obtain ⟨d, st, hd, hrest⟩ := hissued id j hj
      exact ⟨d, st, hnew j d hd, hrest⟩
    · intro id j
      refine (hregistry id j).trans ⟨?_, ?_⟩
      · rintro ⟨d, st, hd, hrest⟩
        exact ⟨d, st, hnew j d hd, hrest⟩
      · rintro ⟨d, st, hd, hst, hid⟩
        rcases hold j d hd with hd | rfl
        · exact ⟨d, st, hd, hst, hid⟩
        · simp [Conn.new] at hst
    · intro j d hd
      rcases hold j d hd with hd | rfl
      · exact hsound j d hd
      · exact new_sound
  | conn i mv =>
    simp only [Sys.perform, Sys.moveConn]
    rcases hc : s.conns[i]? with _ | c
    · exact h
    · have hstep : ConnStep s.tty c (c.move s.tty mv).2 (c.moved s.tty mv) := move_step mv
      exact h.set hc (step_stream hstep) (step_held hstep) (step_sound hstep (h.sound i c hc))
        rfl rfl rfl
  | register i =>
    simp only [Sys.perform, Sys.registerConn]
    split
    · rename_i c hc
      split
      · rename_i target hphase
        split
        · rename_i id counter hreg
          exact h.register hc hphase (findFree_free hreg) rfl rfl rfl
        · exact ⟨h.stream, h.issued, h.registry, h.holder, h.once, h.sound⟩
      · exact h
    · exact h
  | leave i =>
    simp only [Sys.perform, Sys.leaveConn]
    split
    · rename_i c hc
      split
      · rename_i st hleave
        exact h.leave hc hleave rfl rfl rfl
      · exact h
    · exact h
  | route =>
    simp only [Sys.perform, Sys.routeFrame]
    split
    · exact h
    · rename_i frame rest _
      split
      · rename_i i hreg
        obtain ⟨c, st, hc, hheld, -⟩ := (h.registry frame.stream i).mp hreg
        have hne : c.phase.held? ≠ none := by
          rw [hheld]
          exact Option.some_ne_none st
        have hsound := receive_sound (h.sound i c hc) hne frame
        have hstream : (c.receive frame).phase.stream? = c.phase.stream? := rfl
        exact h.set hc hstream rfl hsound (modify_eq_set hc _) rfl rfl
      · exact ⟨h.stream, h.issued, h.registry, h.holder, h.once, h.sound⟩
  | pump n env | ttyFails => exact ⟨h.stream, h.issued, h.registry, h.holder, h.once, h.sound⟩

theorem step_tidy {s : Sys} (h : s.Tidy) (a : Act) : (s.step a).Tidy := by
  unfold Sys.step
  split
  · exact h
  · exact perform_tidy h a

theorem step_link {ok : Link → Prop} {s : Sys} (h : s.Tidy) (a : Act)
    (hok : ∀ j, s.hands? a = some j → ok (s.link j)) (id : StreamId) :
    LinkSteps ok id (s.link id) ((s.step a).link id) := by
  unfold Sys.step
  split
  · exact .refl
  · cases a with
    | accept =>
      rw [Sys.perform, accept_link h id]
    | conn i mv => exact moveConn_link h mv id
    | register i => exact registerConn_link h id hok
    | leave i => exact leaveConn_link id
    | route => exact routeFrame_link h id
    | pump n env => exact pumpHost_link n env id
    | ttyFails => exact .single .ttyFails

/-- Every id that a run from `s` hands out is handed out in a state `ok`. -/
def HandsOut (ok : Link → Prop) : Sys → List Act → Prop
  | _, [] => True
  | s, a :: acts => (∀ j, s.hands? a = some j → ok (s.link j)) ∧ HandsOut ok (s.step a) acts

theorem links_of_handsOut {ok : Link → Prop} {acts : List Act} {s : Sys} (h : s.Tidy)
    (hok : HandsOut ok s acts) (id : StreamId) :
    LinkSteps ok id (s.link id) ((acts.foldl Sys.step s).link id) := by
  induction acts generalizing s with
  | nil => exact .refl
  | cons a acts ih =>
    obtain ⟨ha, hacts⟩ := hok
    exact (step_link h a ha id).trans (ih (step_tidy h a) hacts)

theorem run_tidy (acts : List Act) : (run acts).Tidy :=
  List.foldlRecOn acts Sys.step init_tidy fun _ h a _ => step_tidy h a

/-- A run moves the link of every id along its steps. -/
theorem run_links {ok : Link → Prop} {acts : List Act} (hok : HandsOut ok .init acts)
    (id : StreamId) : LinkSteps ok id .init ((run acts).link id) := by
  rw [← link_init id]
  exact links_of_handsOut init_tidy hok id

theorem handsOut_trivial (acts : List Act) (s : Sys) : HandsOut (fun _ => True) s acts := by
  induction acts generalizing s with
  | nil => trivial
  | cons a acts ih => exact ⟨fun _ _ => trivial, ih _⟩

end Tdvmm.Forwarder
