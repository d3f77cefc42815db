import Mathlib.Data.List.Nodup
import Mathlib.Data.List.Perm.Subperm
import Tdvmm.Egress.Upstream
import Tdvmm.Forwarder.Link

/-!
# Forwarder.Isolation — no byte of one connection reaches another

While no stream id is handed out twice, the link of an id joins one connection
with one session of the backend. What the client gets is then a front part of what
was read from the socket opened for its own `CONNECT`, and what is written to that
socket a front part of what the client sent.

1. `OneLife`: the backend's side, for a stream whose only `OPEN` comes first.
2. `Sole`: both ends of a link that has had one connection.
3. `Numbered`: the first 65536 connections get distinct ids.
-/

namespace Tdvmm.Forwarder

open Lib Proto Egress Relation

/-! ## The backend's side -/

/-- No `OPEN` but the first frame. -/
def OpensOnce (fs : List OwnedFrame) : Prop := ∀ f ∈ fs.tail, isOpen f = false

theorem OpensOnce.of_prefix {fs fs' : List OwnedFrame} (h : OpensOnce fs') (hpre : fs <+: fs') :
    OpensOnce fs := by
  intro f hf
  obtain ⟨rest, rfl⟩ := hpre
  cases fs with
  | nil => simp at hf
  | cons g fs => exact h f (List.mem_append_left _ hf)

theorem OpensWith.opensOnce {st : MuxStream} {fs : List OwnedFrame} (h : OpensWith st fs) :
    OpensOnce fs := by
  obtain ⟨rest, rfl, hrest⟩ := h
  exact hrest

theorem OpensOnce.nil_of_open {fs : List OwnedFrame} {f : OwnedFrame} (h : OpensOnce (fs ++ [f]))
    (hf : isOpen f = true) : fs = [] := by
  cases fs with
  | nil => rfl
  | cons g fs =>
    have hnot := h f (by simp)
    rw [hf] at hnot
    contradiction

def isBegin : Ev → Bool
  | .opened _ => true
  | _ => false

/-- A stream that has had one session at most, opened by its first frame: what was
written and what was sent toward the guest, over its whole history. -/
structure OneLife (id : StreamId) (v : StreamView) : Prop where
  idle : recvs v.hist = [] → v.sess = none ∧ bytesWritten v.hist = [] ∧ bytesRead v.hist = [] ∧
    sents v.hist = [] ∧ guestData v.hist = [] ∧ v.hist.countP isBegin = 0
  live : ∀ s, v.sess = some s → bytesWritten v.hist ++ s.toSocket = guestData v.hist ∧
    hostData (sents v.hist) ++ s.toGuest = bytesRead v.hist
  written : bytesWritten v.hist <+: guestData v.hist
  read : hostData (sents v.hist) <+: bytesRead v.hist
  begun : v.hist.countP isBegin ≤ 1
  target : ∀ host port, .startResolve id host port ∈ v.hist →
    ∃ raw, (recvs v.hist).head? = some (.openTo id port raw) ∧ host = utf8Lossy raw

theorem init_oneLife (id : StreamId) : OneLife id .init := by
  constructor <;> simp [StreamView.init, recvs]

section Stream

variable {calm : Prop} {id : StreamId} {v v' : StreamView}

theorem recvs_cons (e : Ev) (h : List Ev) : recvs (e :: h) = recvs [e] ++ recvs h := by
  rw [← recvs_append]
  rfl

theorem idle_step (hstep : StreamStep calm id v v') (h : OneLife id v) :
    recvs v'.hist = [] → v'.sess = none ∧ bytesWritten v'.hist = [] ∧ bytesRead v'.hist = [] ∧
      sents v'.hist = [] ∧ guestData v'.hist = [] ∧ v'.hist.countP isBegin = 0 := by
  intro hnone
  -- without a guest frame there is no session, so only a late answer can come in
  obtain ⟨es, hes⟩ := streamStep_grows hstep
  have hidle := h.idle (by
    rw [hes, recvs_append] at hnone
    exact (List.append_eq_nil_iff.mp hnone).1)
  clear hes
  cases hstep with
  | stale => simp_all [isBegin]
  | _ => simp_all [recvs]

theorem live_oneLife (hstep : StreamStep calm id v v') (h : OneLife id v)
    (honce : OpensOnce (recvs v'.hist)) :
    ∀ s, v'.sess = some s → bytesWritten v'.hist ++ s.toSocket = guestData v'.hist ∧
      hostData (sents v'.hist) ++ s.toGuest = bytesRead v'.hist := by
  have hlive := h.live
  cases hstep with
  | @accept hh port host =>
    have hfirst : recvs hh = [] := by
      refine OpensOnce.nil_of_open (f := .openTo id port host) ?_ rfl
      simpa [recvs] using honce
    obtain ⟨-, hw, hr, hs, hg, -⟩ := h.idle hfirst
    rintro s ⟨⟩
    simp [hw, hr, hs, hg, Session.newResolving]
  | @connected s =>
    have hs := hlive s rfl
    rintro s' ⟨⟩
    cases hclosed : s.guestWriteClosed <;> simpa [Session.connected] using hs
  | @stale sess =>
    intro s hs
    simpa using hlive s hs
  | @data s | @close s | @window s | @connect s | @connectStuck s | @pending s | @write s | @eof s
  | @read s | @readBlocked s | @frame s | @hostClose s | @epoll s | @epollStuck s =>
    obtain ⟨hup, hdown⟩ := hlive s rfl
    rintro s' ⟨⟩
    simp_all [Session.closeGuest, Session.closeHost, ← hup, ← hdown]
  | _ => simp

theorem flow_step (hstep : StreamStep calm id v v') (h : OneLife id v)
    (honce : OpensOnce (recvs v'.hist)) :
    bytesWritten v'.hist <+: guestData v'.hist ∧
      hostData (sents v'.hist) <+: bytesRead v'.hist := by
  rcases hsess : v'.sess with _ | s
  · -- the events of a step that leaves no session neither write nor carry data
    have hquiet : ∃ es, v'.hist = v.hist ++ es ∧ bytesWritten es = [] ∧
        hostData (sents es) = [] := by
      cases hstep with
      | @reject sess | @drop sess =>
        refine ⟨_, rfl, ?_⟩
        cases sess <;> simp [ended]
      | @connected s =>
        refine ⟨_, rfl, ?_⟩
        cases hclosed : s.guestWriteClosed <;> simp
      | @write | @frame => simp at hsess
      | _ => exact ⟨_, rfl, by simp⟩
    obtain ⟨es, hes, hw, hd⟩ := hquiet
    rw [hes, bytesWritten_append, guestData_append, sents_append, hostData_append,
      bytesRead_append, hw, hd, List.append_nil, List.append_nil]
    exact ⟨h.written.trans (List.prefix_append _ _), h.read.trans (List.prefix_append _ _)⟩
  · obtain ⟨hup, hdown⟩ := live_oneLife hstep h honce s hsess
    exact ⟨⟨_, hup⟩, ⟨_, hdown⟩⟩

theorem begin_step (hstep : StreamStep calm id v v') (h : OneLife id v)
    (honce : OpensOnce (recvs v'.hist)) :
    v'.hist.countP isBegin ≤ 1 ∧ ∀ host port, .startResolve id host port ∈ v'.hist →
      ∃ raw, (recvs v'.hist).head? = some (.openTo id port raw) ∧ host = utf8Lossy raw := by
  have hbegun := h.begun
  have htarget := h.target
  -- every step but an accepted OPEN begins nothing, and keeps the first frame
  have hkeep : ∀ es, v'.hist = v.hist ++ es → es.countP isBegin = 0 →
      (∀ host port, .startResolve id host port ∉ es) → v'.hist.countP isBegin ≤ 1 ∧
      ∀ host port, .startResolve id host port ∈ v'.hist →
        ∃ raw, (recvs v'.hist).head? = some (.openTo id port raw) ∧ host = utf8Lossy raw := by
    intro es hes hcount hnone
    rw [hes, List.countP_append, hcount]
    refine ⟨hbegun, ?_⟩
    intro host port hmem
    rcases List.mem_append.mp hmem with hmem | hmem
    · obtain ⟨raw, hhead, hraw⟩ := htarget host port hmem
      refine ⟨raw, ?_, hraw⟩
      rw [recvs_append, List.head?_append, hhead]
      rfl
    · exact absurd hmem (hnone host port)
  cases hstep with
  | @accept hh port host =>
    have hfirst : recvs hh = [] := by
      refine OpensOnce.nil_of_open (f := .openTo id port host) ?_ rfl
      simpa [recvs] using honce
    obtain ⟨-, -, -, -, -, hzero⟩ := h.idle hfirst
    constructor
    · rw [List.countP_append, hzero]
      exact Nat.le_refl 1
    · intro host' port' hmem
      have hold : .startResolve id host' port' ∉ hh := by
        intro hmem
        obtain ⟨raw, hhead, -⟩ := htarget host' port' hmem
        simp [hfirst] at hhead
      have hnew : host' = utf8Lossy host ∧ port' = port := by simpa [hold] using hmem
      refine ⟨host, ?_, hnew.1⟩
      rw [recvs_append, hfirst, hnew.2]
      rfl
  | @reject sess | @drop sess =>
    refine hkeep _ rfl ?_ ?_ <;> cases sess <;> simp [ended, isBegin]
  | @connected s =>
    refine hkeep _ rfl ?_ ?_ <;> cases hclosed : s.guestWriteClosed <;> simp [isBegin]
  | _ => exact hkeep _ rfl (by simp [isBegin]) (by simp)

theorem step_oneLife (hstep : StreamStep calm id v v') (h : OneLife id v)
    (honce : OpensOnce (recvs v'.hist)) : OneLife id v' := by
  obtain ⟨hwritten, hread⟩ := flow_step hstep h honce
  obtain ⟨hbegun, htarget⟩ := begin_step hstep h honce
  exact ⟨idle_step hstep h, live_oneLife hstep h honce, hwritten, hread, hbegun, htarget⟩

end Stream

/-! ## Both ends -/

/-- A link that has had one connection at most. -/
structure Sole (id : StreamId) (l : Link) : Prop where
  vacant : l.conn = none → recvs l.view.hist = [] ∧ l.up = [] ∧ l.down = []
  sent : ∀ c ∈ l.conn, recvs l.view.hist ++ l.up = c.out
  fed : ∀ c ∈ l.conn, ∃ lost, sents l.view.hist = c.fed ++ lost ++ l.down ∧
    (c.phase.held? ≠ none → lost = [])
  own : ∀ c ∈ l.conn, ∃ st, c.phase.stream? = some st ∧ st.id = id
  sound : ∀ c ∈ l.conn, c.Sound
  life : OneLife id l.view

theorem init_sole (id : StreamId) : Sole id .init := by
  refine ⟨?_, ?_, ?_, ?_, ?_, init_oneLife id⟩ <;> simp [Link.init, StreamView.init, recvs]

section Link

variable {id : StreamId} {l l' : Link}

theorem Conn.Sound.opensOnce {c : Conn} (h : c.Sound) : OpensOnce c.out := by
  rcases h.opens with hnil | ⟨st, hopens⟩
  · rw [hnil]
    simp [OpensOnce]
  · exact hopens.opensOnce

theorem Sole.ofConn {c : Conn} {st : MuxStream} {up : List OwnedFrame} {v : StreamView}
    {down : List EgressFrame} {tty : Bool} (lost : List EgressFrame)
    (hsent : recvs v.hist ++ up = c.out)
    (hfed : sents v.hist = c.fed ++ lost ++ down) (hlost : c.phase.held? ≠ none → lost = [])
    (hst : c.phase.stream? = some st) (hid : st.id = id) (hsound : c.Sound) (hlife : OneLife id v) :
    Sole id ⟨some c, up, v, down, tty⟩ := by
  refine ⟨by simp, ?_, ?_, ?_, ?_, hlife⟩ <;> rintro _ ⟨⟩
  · exact hsent
  · exact ⟨lost, hfed, hlost⟩
  · exact ⟨st, hst, hid⟩
  · exact hsound

theorem step_sole (hstep : LinkStep (fun l => l.conn = none) id l l') (h : Sole id l) :
    Sole id l' := by
  cases hstep with
  | @move c c' fs up v down tty hmove =>
    -- what the connection sends goes to the end of the link
    obtain ⟨lost, hfed, hheld⟩ := h.fed c rfl
    obtain ⟨st, hst, hid⟩ := h.own c rfl
    refine Sole.ofConn lost ?_ ?_ ?_ ((step_stream hmove).trans hst) hid
      (step_sound hmove (h.sound c rfl)) h.life
    · rw [step_out hmove, ← List.append_assoc]
      exact congrArg (· ++ fs) (h.sent c rfl)
    · rw [step_fed hmove]
      exact hfed
    · rw [step_held hmove]
      exact hheld
  | @register l c target hphase hsound hfree hok =>
    -- the link had no connection, so nothing was ever sent on it
    obtain ⟨hrecv, hup, hdown⟩ := h.vacant hok
    obtain ⟨-, -, -, hsents, -⟩ := h.life.idle hrecv
    have hout : c.out = [] := by simpa [hphase] using hsound.sends
    have hfed : c.fed = [] := (hsound.idle (by simp [hphase])).1
    exact Sole.ofConn [] (by simp [hrecv, hup, Conn.register, hout])
      (by simp [hsents, hdown, Conn.register, hfed]) (fun _ => rfl) rfl rfl
      (register_sound hsound hphase id) h.life
  | @leave c st up v down tty hleave =>
    -- the stream is the same, and from here on its frames may be lost
    obtain ⟨lost, hfed, hheld⟩ := h.fed c rfl
    obtain ⟨st', hst, hid⟩ := h.own c rfl
    have heq : st = st' := by
      rw [held_stream (leaves_held hleave)] at hst
      exact Option.some.inj hst
    exact Sole.ofConn lost (h.sent c rfl) hfed (by simp) rfl (heq ▸ hid)
      (leave_sound (h.sound c rfl) hleave) h.life
  | @route c f up v down tty hheld =>
    -- a connection that is still registered has lost nothing
    obtain ⟨lost, hfed, hlost⟩ := h.fed c rfl
    obtain ⟨st, hst, hid⟩ := h.own c rfl
    rw [hlost hheld] at hfed
    exact Sole.ofConn [] (h.sent c rfl) (by simpa [Conn.receive] using hfed)
      (fun _ => rfl) hst hid (receive_sound (h.sound c rfl) hheld f) h.life
  | @drop conn f up v down tty hfree =>
    -- the frame is lost, and the id is free
    refine ⟨?_, h.sent, ?_, h.own, h.sound, h.life⟩
    · intro hnone
      have hdown := (h.vacant hnone).2.2
      contradiction
    · intro c hc
      obtain ⟨lost, hfed, hlost⟩ := h.fed c hc
      refine ⟨lost ++ [f], by simpa using hfed, ?_⟩
      intro hheld
      exact absurd (hfree c hc) hheld
  | @host conn up v v' es down tty hstep hhist =>
    -- the host has received a part of what the connection sent, which has one OPEN
    have honce : OpensOnce (recvs v'.hist) := by
      rw [hhist, recvs_append]
      rcases hc : conn with _ | c
      · obtain ⟨hrecv, hup, -⟩ := h.vacant hc
        have hes := (List.append_eq_nil_iff.mp hup).1
        rw [hrecv, hes]
        simp [OpensOnce]
      · have hsent := h.sent c hc
        refine (h.sound c hc).opensOnce.of_prefix ⟨up, ?_⟩
        rw [List.append_assoc]
        exact hsent
    have hlife := step_oneLife hstep h.life honce
    refine ⟨?_, ?_, ?_, h.own, h.sound, hlife⟩
    · intro hnone
      obtain ⟨hrecv, hup, hdown⟩ := h.vacant hnone
      obtain ⟨hes, hup'⟩ := List.append_eq_nil_iff.mp hup
      have hrecv' : recvs v'.hist = [] := by rw [hhist, recvs_append, hrecv, hes]; rfl
      have hsents := (hlife.idle hrecv').2.2.2.1
      rw [hhist, sents_append] at hsents
      refine ⟨hrecv', hup', ?_⟩
      show down ++ sents es = []
      rw [(List.append_eq_nil_iff.mp hsents).2, List.append_nil]
      exact hdown
    · intro c hc
      have hsent := h.sent c hc
      show recvs v'.hist ++ up = c.out
      rw [hhist, recvs_append, List.append_assoc]
      exact hsent
    · intro c hc
      obtain ⟨lost, hfed, hlost⟩ := h.fed c hc
      refine ⟨lost, ?_, hlost⟩
      show sents v'.hist = c.fed ++ lost ++ (down ++ sents es)
      rw [hhist, sents_append, ← List.append_assoc]
      exact congrArg (· ++ sents es) hfed
  | ttyFails => exact ⟨h.vacant, h.sent, h.fed, h.own, h.sound, h.life⟩

end Link

/-! ## The first 65536 connections -/

/-- The ids handed out so far are 1, 2, 3 and so on, as `u16`. -/
structure Sys.Numbered (s : Sys) : Prop where
  counter : s.counter.toNat = s.issued.length + 1
  ids : s.issued.map Prod.fst = (List.range s.issued.length).map fun k => UInt16.ofNat (k + 1)

theorem init_numbered : Sys.init.Numbered := by
  constructor <;> simp [Sys.init]

section Few

variable {s : Sys} {i : Nat} {c : Conn}

theorem Sys.Tidy.issued_lt (h : s.Tidy) (hc : s.conns[i]? = some c)
    (hnone : c.phase.stream? = none) : s.issued.length < s.conns.length := by
  have hnew : i ∉ s.issued.map Prod.snd := by
    intro hi
    obtain ⟨⟨id, k⟩, hk, rfl⟩ := List.mem_map.mp hi
    obtain ⟨d, st, hd, hst, -⟩ := h.issued id k hk
    obtain rfl : c = d := Option.some.inj (hc.symm.trans hd)
    rw [hnone] at hst
    contradiction
  have hnodup : (i :: s.issued.map Prod.snd).Nodup := List.nodup_cons.mpr ⟨hnew, h.once⟩
  have hsub : i :: s.issued.map Prod.snd ⊆ List.range s.conns.length := by
    intro k hk
    rw [List.mem_range]
    rcases List.mem_cons.mp hk with rfl | hk
    · exact (List.getElem?_eq_some_iff.mp hc).1
    · obtain ⟨⟨id, k⟩, hmem, rfl⟩ := List.mem_map.mp hk
      obtain ⟨d, st, hd, -⟩ := h.issued id k hmem
      exact (List.getElem?_eq_some_iff.mp hd).1
  have hlen := (List.subperm_of_subset hnodup hsub).length_le
  simp only [List.length_cons, List.length_map, List.length_range] at hlen
  omega

theorem Sys.Tidy.issued_le (h : s.Tidy) : s.issued.length ≤ s.conns.length := by
  have hsub : s.issued.map Prod.snd ⊆ List.range s.conns.length := by
    intro k hk
    obtain ⟨⟨id, k⟩, hmem, rfl⟩ := List.mem_map.mp hk
    obtain ⟨d, st, hd, -⟩ := h.issued id k hmem
    exact List.mem_range.mpr (List.getElem?_eq_some_iff.mp hd).1
  have hlen := (List.subperm_of_subset h.once hsub).length_le
  simpa using hlen

theorem Sys.Numbered.fresh (h : s.Numbered) (hfew : s.issued.length < 65536) :
    s.counter.toUInt16 ∉ s.issued.map Prod.fst := by
  -- the next candidate has never been handed out
  rw [h.ids]
  intro hmem
  obtain ⟨k, hk, heq⟩ := List.mem_map.mp hmem
  rw [List.mem_range] at hk
  have hnat := congrArg UInt16.toNat heq
  rw [UInt16.toNat_ofNat', UInt32.toNat_toUInt16, h.counter] at hnat
  omega

theorem lastOwner_none {id : StreamId} {issued : List (StreamId × Nat)}
    (h : id ∉ issued.map Prod.fst) : lastOwner id issued = none := by
  rcases hown : lastOwner id issued with _ | k
  · rfl
  · exact absurd (List.mem_map.mpr ⟨_, mem_of_lastOwner hown, rfl⟩) h

theorem Sys.Numbered.register (h : s.Numbered) (ht : s.Tidy) (hfew : s.issued.length < 65536) :
    Forwarder.register s.registry s.counter = some (s.counter.toUInt16, s.counter + 1) := by
  have hfree : s.registry.contains s.counter.toUInt16 = false := by
    rcases hreg : s.registry[s.counter.toUInt16]? with _ | k
    · rw [Std.ExtTreeMap.contains_eq_isSome_getElem?, hreg]
      rfl
    · have hown := ht.holder _ k hreg
      rw [lastOwner_none (h.fresh hfew)] at hown
      contradiction
  show findFree s.registry 65536 s.counter = _
  unfold findFree
  rw [hfree]
  rfl

theorem Sys.Numbered.next (h : s.Numbered) (hfew : s.issued.length < 65536) {s' : Sys}
    (hcounter : s'.counter = s.counter + 1)
    (hissued : s'.issued = s.issued ++ [(s.counter.toUInt16, i)]) : s'.Numbered := by
  have hcand : s.counter.toUInt16 = UInt16.ofNat (s.issued.length + 1) := by
    apply UInt16.toNat_inj.mp
    rw [UInt16.toNat_ofNat', UInt32.toNat_toUInt16, h.counter]
  constructor
  · have hone : (1 : UInt32).toNat = 1 := rfl
    rw [hcounter, hissued, UInt32.toNat_add, h.counter, hone, List.length_append,
      List.length_singleton]
    omega
  · rw [hissued, List.map_append, h.ids, List.length_append, List.length_singleton,
      List.range_succ, List.map_append, hcand]
    rfl

theorem step_numbered (ht : s.Tidy) (h : s.Numbered) (a : Act) (hfew : s.conns.length ≤ 65536) :
    (s.step a).Numbered ∧ ∀ j, s.hands? a = some j → (s.link j).conn = none := by
  have hsame : ∀ s' : Sys, s'.counter = s.counter → s'.issued = s.issued → s'.Numbered := by
    intro s' hcounter hissued
    exact ⟨by rw [hcounter, hissued]; exact h.counter, by rw [hissued]; exact h.ids⟩
  have hstay : ∀ s' : Sys, s'.Numbered →
      (if (s.halted || (s.wedged && a.locks)) = true then s else s').Numbered := by
    intro s' hs'
    split
    · exact h
    · exact hs'
  cases a with
  | register i =>
    simp only [Sys.step, Sys.perform, Sys.registerConn, Sys.hands?]
    rcases hc : s.conns[i]? with _ | c
    · exact ⟨hstay s h, by simp⟩
    · dsimp only
      rcases hphase : c.phase with _ | _ | target | _ | _ | _ | _ | _
      case ready =>
        -- an id is handed out to a connection that has none, so there are fewer ids than
        -- connections
        have hlt := ht.issued_lt hc (by simp [hphase])
        have hsmall : s.issued.length < 65536 := by omega
        simp only [h.register ht hsmall]
        constructor
        · exact hstay _ (h.next hsmall rfl rfl)
        · intro j hj
          obtain rfl : s.counter.toUInt16 = j := Option.some.inj hj
          simp [Sys.link, Sys.conn?, lastOwner_none (h.fresh hsmall)]
      all_goals exact ⟨hstay s h, by simp⟩
  | leave i =>
    refine ⟨hstay _ ?_, by simp [Sys.hands?]⟩
    simp only [Sys.perform, Sys.leaveConn]
    split
    · split
      · exact hsame _ rfl rfl
      · exact h
    · exact h
  | conn i mv =>
    refine ⟨hstay _ ?_, by simp [Sys.hands?]⟩
    simp only [Sys.perform, Sys.moveConn]
    split
    · exact hsame _ rfl rfl
    · exact h
  | route =>
    refine ⟨hstay _ ?_, by simp [Sys.hands?]⟩
    simp only [Sys.perform, Sys.routeFrame]
    split
    · exact h
    · split <;> exact hsame _ rfl rfl
  | accept | pump n env | ttyFails => exact ⟨hstay _ (hsame _ rfl rfl), by simp [Sys.hands?]⟩

theorem step_conns_length (s : Sys) (a : Act) : s.conns.length ≤ (s.step a).conns.length := by
  unfold Sys.step
  split
  · exact Nat.le_refl _
  · cases a with
    | accept => simp [Sys.perform]
    | conn i mv =>
      simp only [Sys.perform, Sys.moveConn]
      split <;> simp
    | register i =>
      simp only [Sys.perform, Sys.registerConn]
      split
      · split
        · split <;> simp
        · simp
      · simp
    | leave i =>
      simp only [Sys.perform, Sys.leaveConn]
      split
      · split <;> simp
      · simp
    | route =>
      simp only [Sys.perform, Sys.routeFrame]
      split
      · simp
      · split <;> simp
    | pump n env | ttyFails => simp [Sys.perform, Sys.pumpHost]

theorem conns_length_mono (acts : List Act) (s : Sys) :
    s.conns.length ≤ (acts.foldl Sys.step s).conns.length :=
  List.foldlRecOn acts Sys.step (motive := fun s' => s.conns.length ≤ s'.conns.length)
    (Nat.le_refl _) fun s' h a _ => Nat.le_trans h (step_conns_length s' a)

theorem handsOut_of_few {acts : List Act} (ht : s.Tidy) (h : s.Numbered)
    (hfew : (acts.foldl Sys.step s).conns.length ≤ 65536) :
    HandsOut (fun l => l.conn = none) s acts ∧ (acts.foldl Sys.step s).Numbered := by
  -- with at most 65536 connections no id is handed out twice
  induction acts generalizing s with
  | nil => exact ⟨trivial, h⟩
  | cons a acts ih =>
    have hnow : s.conns.length ≤ 65536 := (conns_length_mono (a :: acts) s).trans hfew
    obtain ⟨hnumbered, hhands⟩ := step_numbered ht h a hnow
    obtain ⟨hrest, hlast⟩ := ih (step_tidy ht a) hnumbered hfew
    exact ⟨⟨hhands, hrest⟩, hlast⟩

theorem Sys.Numbered.nodup (h : s.Numbered) (hfew : s.issued.length ≤ 65536) :
    (s.issued.map Prod.fst).Nodup := by
  rw [h.ids]
  refine List.Nodup.map_on ?_ List.nodup_range
  intro a ha b hb heq
  rw [List.mem_range] at ha hb
  have hnat := congrArg UInt16.toNat heq
  rw [UInt16.toNat_ofNat', UInt16.toNat_ofNat'] at hnat
  omega

theorem lastOwner_of_mem {id : StreamId} {issued : List (StreamId × Nat)}
    (hnodup : (issued.map Prod.fst).Nodup) (hmem : (id, i) ∈ issued) :
    lastOwner id issued = some i := by
  induction issued using List.reverseRecOn with
  | nil => simp at hmem
  | append_singleton issued p ih =>
    obtain ⟨j, k⟩ := p
    rw [List.map_append, List.nodup_append] at hnodup
    obtain ⟨hnodup, -, hdisjoint⟩ := hnodup
    rw [lastOwner_append]
    rcases List.mem_append.mp hmem with hmem | hmem
    · have hne : j ≠ id := by
        rintro rfl
        exact hdisjoint j (List.mem_map.mpr ⟨_, hmem, rfl⟩) j (by simp) rfl
      rw [if_neg hne]
      exact ih hnodup hmem
    · obtain ⟨rfl, rfl⟩ : id = j ∧ i = k := by simpa using hmem
      exact if_pos rfl

end Few

/-! ## Isolation -/

/-- A stream belongs to one connection: its client gets a front part of what was
read from the sockets of its id, those sockets get a front part of what the client
sent, and the only session the id ever had was for the client's own `CONNECT`. -/
structure Isolated (host : List Ev) (c : Conn) (st : MuxStream) : Prop where
  down : c.delivered <+: bytesRead (about st.id host)
  up : bytesWritten (about st.id host) <+: c.payload
  session : (about st.id host).countP isBegin ≤ 1
  target : ∀ name port, .startResolve st.id name port ∈ host →
    name = st.target.host ∧ port = st.target.port

theorem guestData_eq (h : List Ev) : guestData h = clientData (recvs h) := by
  induction h with
  | nil => rfl
  | cons e h ih =>
    rw [guestData_cons, ih, recvs_cons, clientData_append]
    congr 1
    cases e with
    | recv f pre r => cases f <;> simp [recvs]
    | _ => rfl

theorem Sole.isolated {id : StreamId} {s : Sys} {c : Conn} {st : MuxStream}
    (h : Sole id (s.link id)) (hc : s.conn? id = some c) (hst : c.phase.stream? = some st)
    (hid : st.id = id) : Isolated s.host.hist c st := by
  subst hid
  have hsound := h.sound c hc
  have hsent := h.sent c hc
  obtain ⟨lost, hfed, -⟩ := h.fed c hc
  constructor
  · calc c.delivered
      _ <+: hostData c.fed := hsound.down
      _ <+: hostData (sents (about st.id s.host.hist)) := by
        have hsents : sents (about st.id s.host.hist) = c.fed ++ lost ++ (s.link st.id).down := hfed
        rw [hsents, hostData_append, hostData_append, List.append_assoc]
        exact List.prefix_append _ _
      _ <+: bytesRead (about st.id s.host.hist) := h.life.read
  · calc bytesWritten (about st.id s.host.hist)
      _ <+: guestData (about st.id s.host.hist) := h.life.written
      _ <+: clientData c.out := by
        rw [guestData_eq, ← hsent, clientData_append]
        exact List.prefix_append _ _
      _ <+: c.payload := hsound.up
  · exact h.life.begun
  · intro name port hmem
    have habout : .startResolve st.id name port ∈ about st.id s.host.hist := by
      simp [about, hmem, Ev.stream?]
    obtain ⟨raw, hhead, hname⟩ := h.life.target name port habout
    -- the first frame the host handled is the first the connection sent
    have hfirst : c.out.head? = some (.openTo st.id port raw) := by
      rw [← hsent]
      have hview : (recvs (s.link st.id).view.hist).head? = some (.openTo st.id port raw) := hhead
      rw [List.head?_append, hview]
      rfl
    have hopen : c.out.head? = some st.openFrame := by
      have hsends := hsound.sends
      cases hphase : c.phase with
      | relaying st' r =>
        rw [hphase] at hsends hst
        obtain ⟨rest, hout, -⟩ := hsends
        rw [hout, Option.some.inj hst]
        rfl
      | leaving st' | gone st' =>
        rw [hphase] at hsends hst
        rcases hsends with hnil | ⟨rest, hout, -⟩
        · simp [hnil] at hfirst
        · rw [hout, Option.some.inj hst]
          rfl
      | awaiting st' =>
        rw [hphase] at hsends hst
        rw [hsends, Option.some.inj hst]
        rfl
      | _ =>
        rw [hphase] at hsends hst
        simp_all
    have heq : OwnedFrame.openTo st.id port raw = st.openFrame :=
      Option.some.inj (hfirst.symm.trans hopen)
    obtain ⟨-, hport, hraw⟩ : st.id = st.id ∧ port = st.target.port ∧ raw = st.target.host := by
      simpa [MuxStream.openFrame] using heq
    exact ⟨by rw [hname, hraw, utf8Lossy_of_valid st.target.utf8], hport⟩

/-- **End-to-end isolation.** In every run with at most 65536 accepted clients: two
connections never share a stream id, every stream is isolated, a client without a
stream gets no relayed byte, and an id without a connection has no socket traffic. -/
theorem streams_isolated (acts : List Act) (hfew : (run acts).conns.length ≤ 65536) :
    (∀ (i j : Nat) (c d : Conn) (st st' : MuxStream), (run acts).conns[i]? = some c →
      (run acts).conns[j]? = some d → c.phase.stream? = some st → d.phase.stream? = some st' →
      st.id = st'.id → i = j) ∧
    (∀ (i : Nat) (c : Conn) (st : MuxStream), (run acts).conns[i]? = some c →
      c.phase.stream? = some st → Isolated (run acts).host.hist c st) ∧
    (∀ (i : Nat) (c : Conn), (run acts).conns[i]? = some c → c.phase.stream? = none →
      c.delivered = []) ∧
    ∀ id, (∀ (i : Nat) (c : Conn) (st : MuxStream), (run acts).conns[i]? = some c →
        c.phase.stream? = some st → st.id ≠ id) →
      bytesRead (about id (run acts).host.hist) = [] ∧
        bytesWritten (about id (run acts).host.hist) = [] := by
  obtain ⟨hok, hnumbered⟩ := handsOut_of_few init_tidy init_numbered hfew
  have ht := run_tidy acts
  have hsole : ∀ id, Sole id ((run acts).link id) := by
    intro id
    exact run_invariant (I := Sole id) (fun l l' hstep h => step_sole hstep h) (run_links hok id)
      (init_sole id)
  have hnodup : ((run acts).issued.map Prod.fst).Nodup :=
    hnumbered.nodup (ht.issued_le.trans hfew)
  -- with distinct ids every connection is the owner of its own
  have howner : ∀ (i : Nat) (c : Conn) (st : MuxStream), (run acts).conns[i]? = some c →
      c.phase.stream? = some st → lastOwner st.id (run acts).issued = some i := by
    intro i c st hc hst
    exact lastOwner_of_mem hnodup (ht.stream i c st hc hst)
  refine ⟨?_, ?_, ?_, ?_⟩
  · intro i j c d st st' hc hd hst hst' hid
    have hi := howner i c st hc hst
    rw [hid, howner j d st' hd hst'] at hi
    exact (Option.some.inj hi).symm
  · intro i c st hc hst
    exact (hsole st.id).isolated (conn?_of_owner hc (howner i c st hc hst)) hst rfl
  · intro i c hc hnone
    refine (ht.sound i c hc).quiet ?_
    cases hphase : c.phase <;> simp_all
  · intro id hnobody
    have hvacant : (run acts).conn? id = none := by
      rcases hconn : (run acts).conn? id with _ | c
      · rfl
      · unfold Sys.conn? at hconn
        rcases hown : lastOwner id (run acts).issued with _ | i
        · simp [hown] at hconn
        · obtain ⟨d, st, hd, hst, hid⟩ := ht.issued id i (mem_of_lastOwner hown)
          exact absurd hid (hnobody i d st hd hst)
    have hrecv := ((hsole id).vacant hvacant).1
    obtain ⟨-, hwritten, hread, -⟩ := (hsole id).life.idle hrecv
    exact ⟨hread, hwritten⟩

theorem streams_isolated_exchange :
    ∃ (c : Conn) (st : MuxStream), (run exchange).conns[0]? = some c ∧ c.phase.stream? = some st ∧
      c.delivered = [5, 6] ∧ bytesWritten (about st.id (run exchange).host.hist) = [1, 2, 3] ∧
      Isolated (run exchange).host.hist c st := by
  have hconn : ((run exchange).conns[0]?.map fun c => (c.phase.stream?.map (·.id), c.delivered)) =
      some (some 1, [5, 6]) := by decide +kernel
  obtain ⟨c, hc, hcd⟩ := Option.map_eq_some_iff.mp hconn
  obtain ⟨hid, hdelivered⟩ := Prod.mk.inj hcd
  obtain ⟨st, hst, hone⟩ := Option.map_eq_some_iff.mp hid
  refine ⟨c, st, hc, hst, hdelivered, ?_, (streams_isolated exchange ?_).2.1 0 c st hc hst⟩
  · rw [hone]
    decide +kernel
  · decide +kernel

end Tdvmm.Forwarder
