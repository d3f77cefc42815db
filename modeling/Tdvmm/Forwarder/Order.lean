import Tdvmm.Forwarder.Link

/-!
# Forwarder.Order — what a connection sends and what it is handed

In every state of a run: a connection has sent its `OPEN` first and once, and no data behind its
`CLOSE` (`upstream_ordered`), and the next host frame goes to the one connection that holds its
stream (`route_exact`).
-/

namespace Tdvmm.Forwarder

open Lib Proto Egress

def isClose : OwnedFrame → Bool
  | .close _ => true
  | _ => false

/-- A frame of `relay_up`: the client's bytes, or their end. -/
def isUp : OwnedFrame → Bool
  | .data _ _ => true
  | f => isClose f

/-- The client is not read any more. -/
def Phase.hung : Phase → Bool
  | .relaying _ r => !r.up
  | .leaving _ | .gone _ => true
  | _ => false

/-- Nothing of the client follows its end. -/
structure Conn.Ordered (c : Conn) : Prop where
  order : c.out.Pairwise fun f g => isClose f = true → isUp g = false
  unended : c.phase.hung = false → ∀ f ∈ c.out, isClose f = false

theorem step_ups {tty : Bool} {c c' : Conn} {fs : List OwnedFrame} (h : ConnStep tty c fs c') :
    (∀ f ∈ fs, isUp f = false) ∧ (c'.phase.hung = false → c.phase.hung = false) ∨
      c.phase.hung = false ∧ ((∀ f ∈ fs, isClose f = false) ∨
        c'.phase.hung = true ∧ ∃ id, fs = [.close id]) := by
  -- before the client is given up a step may send data or the `CLOSE` that gives it up
  cases h with
  | sentData hphase hup =>
    exact .inr ⟨by simp [hphase, hup, Phase.hung], .inl (by simp [isClose])⟩
  | upEnded hphase hup hfs =>
    refine .inr ⟨by simp [hphase, hup, Phase.hung], ?_⟩
    rcases hfs with rfl | rfl | rfl
    · exact .inl (by simp)
    · exact .inr ⟨rfl, _, rfl⟩
    · exact .inl (by simp [isClose])
  | gaveUp hphase _ hfs | downFailed hphase _ _ hfs =>
    refine .inl ⟨?_, by simp_all [Conn.setRelay, Phase.hung]⟩
    rcases hfs with rfl | rfl <;> simp [isUp, isClose]
  | granted hphase =>
    refine .inl ⟨fun f hf => ?_, by simp_all [Conn.setRelay, Phase.hung]⟩
    rw [(send_eq_some (Option.mem_toList.mp hf)).2]
    rfl
  | _ =>
    refine .inl ⟨by simp [MuxStream.openFrame, isUp, isClose], ?_⟩
    simp_all [Conn.setRelay, Conn.clientSends, Phase.hung]

theorem Conn.Ordered.step {tty : Bool} {c c' : Conn} {fs : List OwnedFrame} (h : c.Ordered)
    (hstep : ConnStep tty c fs c') : c'.Ordered := by
  have hup (f : OwnedFrame) (hf : isUp f = false) : isClose f = false := by cases f <;> trivial
  constructor
  · rw [step_out hstep, List.pairwise_append]
    rcases step_ups hstep with ⟨hfs, -⟩ | ⟨hopen, hfs⟩
    · exact ⟨h.order, List.pairwise_of_forall_mem_list fun _ _ g hg _ => hfs g hg,
        fun _ _ g hg _ => hfs g hg⟩
    · refine ⟨h.order, ?_, fun f hf _ _ hclose => by simp [h.unended hopen f hf] at hclose⟩
      rcases hfs with hfs | ⟨-, id, rfl⟩
      · exact List.pairwise_of_forall_mem_list fun f hf _ _ hclose => by simp [hfs f hf] at hclose
      · exact List.pairwise_singleton _ _
  · rw [step_out hstep]
    intro hopen' f hf
    rcases step_ups hstep with ⟨hfs, hhung⟩ | ⟨hopen, hfs | ⟨hhung, -⟩⟩
    · exact (List.mem_append.mp hf).elim (h.unended (hhung hopen') f) fun hf => hup f (hfs f hf)
    · exact (List.mem_append.mp hf).elim (h.unended hopen f) (hfs f)
    · simp [hhung] at hopen'

theorem step_ordered {s : Sys} (h : ∀ c ∈ s.conns, c.Ordered) (a : Act) :
    ∀ c ∈ (s.step a).conns, c.Ordered := by
  -- a step changes one connection at most
  have hset {i : Nat} {c c' : Conn} (hc : s.conns[i]? = some c) (hc' : c.Ordered → c'.Ordered) :
      ∀ d ∈ s.conns.set i c', d.Ordered := by
    intro d hd
    rcases List.mem_or_eq_of_mem_set hd with hd | rfl
    · exact h d hd
    · exact hc' (h c (List.mem_of_getElem? hc))
  unfold Sys.step
  split
  · exact h
  cases a with
  | accept =>
    intro c hc
    rcases List.mem_append.mp hc with hc | hc
    · exact h c hc
    · rw [List.mem_singleton.mp hc]
      exact ⟨List.Pairwise.nil, by simp [Conn.new]⟩
  | conn i mv =>
    simp only [Sys.perform, Sys.moveConn]
    split
    · exact hset ‹_› (·.step (move_step mv))
    · exact h
  | register i =>
    simp only [Sys.perform, Sys.registerConn]
    split
    · rename_i hc
      split
      · rename_i hphase
        split
        · exact hset hc fun ho => ⟨ho.order, fun _ => ho.unended (by simp [hphase, Phase.hung])⟩
        · exact h
      · exact h
    · exact h
  | leave i =>
    simp only [Sys.perform, Sys.leaveConn]
    split
    · rename_i hc
      split
      · exact hset hc fun ho => ⟨ho.order, by simp [Phase.hung]⟩
      · exact h
    · exact h
  | route =>
    simp only [Sys.perform, Sys.routeFrame]
    split
    · exact h
    · split
      · rename_i i _
        rcases hc : s.conns[i]? with _ | c
        · rwa [List.modify_eq_self (by simpa using hc)]
        · rw [modify_eq_set hc]
          exact hset hc fun ho => ⟨ho.order, ho.unended⟩
      · exact h
  | pump n env | ttyFails => exact h

/-- In every run a connection has sent its `OPEN` first and once, all of its frames for its own
stream, and no data and no other `CLOSE` behind a `CLOSE`. -/
theorem upstream_ordered (acts : List Act) : ∀ c ∈ (run acts).conns,
    (c.out = [] ∨ ∃ st, OpensWith st c.out) ∧
    (∀ st, c.phase.stream? = some st → ∀ f ∈ c.out, f.stream = st.id) ∧
    c.out.Pairwise fun f g => isClose f = true → isUp g = false := by
  intro c hc
  obtain ⟨i, hi⟩ := List.mem_iff_getElem?.mp hc
  have hsound := (run_tidy acts).sound i c hi
  have hordered : ∀ c ∈ (run acts).conns, c.Ordered :=
    List.foldlRecOn acts Sys.step (motive := fun s => ∀ c ∈ s.conns, c.Ordered)
      (by simp [Sys.init]) fun _ h a _ => step_ordered h a
  exact ⟨hsound.opens, hsound.own, (hordered c hc).order⟩

theorem upstream_ordered_exchange : ∃ c ∈ (run exchange).conns, c.out.length = 2 ∧
    c.out.Pairwise fun f g => isClose f = true → isUp g = false := by
  obtain ⟨c, hc, hout⟩ : ∃ c ∈ (run exchange).conns, c.out.length = 2 := by decide +kernel
  exact ⟨c, hc, hout, (upstream_ordered exchange c hc).2.2⟩

def Conn.holds (id : StreamId) (c : Conn) : Bool := c.phase.held?.any (·.id = id)

theorem Sys.Tidy.holds_iff {s : Sys} (h : s.Tidy) {i : Nat} {c : Conn} (hc : s.conns[i]? = some c)
    (id : StreamId) : c.holds id = true ↔ s.registry[id]? = some i := by
  rw [h.registry, Conn.holds, Option.any_eq_true]
  simp [hc]

/-- In every run no two connections hold one stream, and the demultiplexer hands the next host
frame to the connection that holds its stream, and nothing to any other. -/
theorem route_exact (acts : List Act) :
    (∀ (id : StreamId) (i j : Nat) (c d : Conn), (run acts).conns[i]? = some c →
      (run acts).conns[j]? = some d → c.holds id = true → d.holds id = true → i = j) ∧
    ∀ f rest, (run acts).toGuest = f :: rest → (run acts).routeFrame.conns =
      (run acts).conns.map fun c => if c.holds f.stream then c.receive f else c := by
  have htidy := run_tidy acts
  refine ⟨fun id i j c d hc hd hi hj => ?_, fun f rest hnext => ?_⟩
  · rw [htidy.holds_iff hc] at hi
    rw [htidy.holds_iff hd, hi] at hj
    exact Option.some.inj hj
  · refine List.ext_getElem? fun j => ?_
    simp only [Sys.routeFrame, hnext, List.getElem?_map]
    rcases hd : (run acts).conns[j]? with _ | d
    · split <;> simp [List.getElem?_modify, hd]
    · have hholds := htidy.holds_iff hd f.stream
      split
      · rename_i i hi
        rw [hi, Option.some.injEq] at hholds
        simp only [List.getElem?_modify, hd, Option.map_some, hholds]
        split_ifs <;> rfl
      · rename_i hi
        simp_all

end Tdvmm.Forwarder
