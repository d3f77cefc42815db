import Tdvmm.Guest.Pipeline

/-!
# Guest.Connections — the list of control connections

A round polls the connections it has, may accept one more, serves those that are ready and
removes by index those that are to be retired. The poll set, the connections and the indices
of the dead are three lists; `connections_kept` says that they fit together: a connection is
read by its own entry of the poll set, exactly the retired ones go (`fate`), the others and
the new one stay in their order, and there are never more than `MAX_CTL_CONNS`.
-/

namespace Tdvmm.Guest

open Lib Lib.Eff Proto

variable {W : Type}

section Fate

variable (a : Answer)

/-- Whether a reply to one of these frames, numbered from `k` on, does not reach the client. -/
def replyFails (sent : Nat → Bool) (k : Nat) (frames : List Bytes) : Bool :=
  (frames.zipIdx k).any fun p => !(trimFrame p.1).isEmpty && !sent p.2

/-- What a round leaves of a connection: it is retired at end of file, on a read error and
when a reply fails. -/
def fate (ready : Bool) (c : Conn) : Option Conn :=
  if ready then
    match a.conn c.fd with
    | .data bytes =>
      if replyFails (a.sent c.fd) 0 (c.rd.fill bytes).drain.1 then none
      else some { c with rd := (c.rd.fill bytes).drain.2 }
    | .closed => none
  else some c

/-- The polled connections that stay, the first of them numbered `n`. -/
def keptConns (ready : Nat → Bool) (base n : Nat) (cs : List Conn) : List Conn :=
  (cs.zipIdx n).filterMap fun p => fate a (ready (base + p.2)) p.1

def newConns (ready : Nat → Bool) (s : Loop W) : List Conn :=
  match a.accept with
  | some (fd, true) =>
    if s.iCtl.any ready ∧ s.conns.length < MAX_CTL_CONNS then [{ fd := fd }] else []
  | _ => []

end Fate

structure RoundSound (O : Outside W) (a : Answer) (s : Loop W) : Prop where
  /-- Each connection has the entry of the poll set at its own place. -/
  entry : ∀ n c, s.conns[n]? = some c → s.fds[s.connBase + n]? = some c.fd
  /-- What there is to read from other connections than the polled and ready ones, new ones
  among them, and whether a reply would reach them, makes no difference. -/
  readsReady : ∀ ready, a.poll s.fds = some ready → ∀ conn sent,
    (∀ n c, s.conns[n]? = some c → ready (s.connBase + n) = true →
      conn c.fd = a.conn c.fd ∧ sent c.fd = a.sent c.fd) →
    (round O { a with conn := conn, sent := sent }).run s = (round O a).run s
  /-- When the loop goes on, exactly the retired connections are gone. -/
  keeps : ∀ ready, a.poll s.fds = some ready → ((round O a).run s).1 = .ok () →
    ((round O a).run s).2.conns = keptConns a ready s.connBase 0 s.conns ++ newConns a ready s
  /-- However the round ends. -/
  bounded : s.conns.length ≤ MAX_CTL_CONNS → ((round O a).run s).2.conns.length ≤ MAX_CTL_CONNS

section Rounds

variable {O : Outside W} {a : Answer} {ready : Nat → Bool} {s s' : Loop W}

theorem stable_conns (cs : List Conn) : Stable O fun s => s.conns = cs where
  line fd sent line s hs := by
    rcases serveLine_cases (O := O) fd sent line s with
      ⟨-, -, hrun⟩ | ⟨-, -, hrun⟩ | ⟨req, -, -, ⟨-, hrun⟩ | ⟨-, hrun⟩⟩ <;>
      (rw [hrun]; exact hs)
  control line := by
    have hwrite (r : Reply) : Keeps (fun s : Loop W => s.conns = cs) (writeTty O r) := by
      refine keeps_read.bind fun s => ?_
      split
      · exact keeps_update fun _ hs => hs
      · exact keeps_fail _
    unfold handleControlLine
    split
    · exact keeps_pure _
    · split
      · exact hwrite _
      · exact Keeps.bind (fun _ hs => hs) hwrite
  event line s hs := by
    rw [forward_eq]
    split
    · exact hs
    · exact hs
  readers _ _ _ hs := hs

theorem replyFails_cons (sent : Nat → Bool) (k : Nat) (frame : Bytes) (frames : List Bytes) :
    replyFails sent k (frame :: frames) =
      (!((trimFrame frame).isEmpty || sent k) || replyFails sent (k + 1) frames) := by
  unfold replyFails
  rw [List.zipIdx_cons, List.any_cons, Bool.not_or]

theorem serveLine_result {fd : Fd} {sent alive : Bool} {frame : Bytes}
    (h : (serveLine O fd sent frame).run s = (.ok alive, s')) :
    alive = ((trimFrame frame).isEmpty || sent) := by
  rcases serveLine_cases (O := O) fd sent frame s with
    ⟨hblank, -, hrun⟩ | ⟨hfull, -, hrun⟩ | ⟨req, hfull, -, ⟨-, hrun⟩ | ⟨-, hrun⟩⟩
  · rw [hblank]
    exact (Except.ok.inj (congrArg Prod.fst (hrun.symm.trans h))).symm
  · rw [hfull]
    exact (Except.ok.inj (congrArg Prod.fst (hrun.symm.trans h))).symm
  · rw [hfull]
    exact (Except.ok.inj (congrArg Prod.fst (hrun.symm.trans h))).symm
  · cases congrArg Prod.fst (hrun.symm.trans h)

theorem serveLines_result {fd : Fd} {sent : Nat → Bool} {k : Nat} {frames : List Bytes} {b : Bool}
    (h : ((serveLines O fd sent k frames).run s).1 = .ok b) : b = replyFails sent k frames := by
  induction frames generalizing k s with
  | nil => exact (Except.ok.inj h).symm
  | cons frame frames ih =>
    rw [serveLines_cons] at h
    obtain ⟨alive, s', hrun, hrest⟩ := ok_bind h
    rw [hrest] at h
    rw [replyFails_cons, ← serveLine_result hrun]
    cases alive with
    | true => exact ih h
    | false => exact (Except.ok.inj h).symm

theorem serveReady_result {b : Bool} {c : Conn} {r : Conn × Bool}
    (h : ((serveReady O a b c).run s).1 = .ok r) :
    fate a b c = if r.2 then none else some r.1 := by
  unfold serveReady at h
  unfold fate
  cases b with
  | false =>
    rw [← Except.ok.inj h]
    rfl
  | true =>
    change ((serveConn O a c).run s).1 = .ok r at h
    unfold serveConn at h
    generalize a.conn c.fd = got at h
    rcases got with bytes | _
    · obtain ⟨broken, s', hrun, hrest⟩ := ok_bind h
      rw [hrest] at h
      rw [← Except.ok.inj h, serveLines_result (congrArg Prod.fst hrun)]
      rfl
    · rw [← Except.ok.inj h]

/-- Removing the dead from behind, by their places, leaves the connections that stay; `front` and
`rest` are those before and behind the served ones. -/
theorem serveConns_result {base : Nat} {cs : List Conn} {r : List Conn × List Nat}
    (front rest : List Conn)
    (h : ((serveConns O a ready base front.length cs).run s).1 = .ok r) :
    r.2.reverse.foldl List.eraseIdx (front ++ (r.1 ++ rest)) =
      front ++ (keptConns a ready base front.length cs ++ rest) := by
  induction cs generalizing front s r with
  | nil =>
    rw [← Except.ok.inj h]
    rfl
  | cons c cs ih =>
    rw [serveConns] at h
    obtain ⟨⟨c', dead⟩, s₁, hrun, hrest⟩ := ok_bind h
    rw [hrest] at h
    obtain ⟨⟨cs', deads⟩, s₂, hrun', hrest'⟩ := ok_bind h
    rw [hrest'] at h
    rw [← Except.ok.inj h]
    have hfate := serveReady_result (congrArg Prod.fst hrun)
    have hlength : (front ++ [c']).length = front.length + 1 := by simp
    have htail := ih (front ++ [c']) (hlength ▸ congrArg Prod.fst hrun')
    rw [hlength, List.append_assoc, List.append_assoc] at htail
    unfold keptConns at htail ⊢
    rw [List.zipIdx_cons, List.filterMap_cons, hfate]
    cases dead with
    | true =>
      have herase := congrArg (fun l : List Conn => l.eraseIdx front.length) htail
      dsimp only at herase
      rw [@List.eraseIdx_append_of_length_le _ front _ (Nat.le_refl _), Nat.sub_self] at herase
      simpa using herase
    | false => simpa using htail

/-! ## A round -/

theorem run_acceptConn (a : Answer) (ready : Nat → Bool) {s s' : Loop W}
    (h : s'.conns = s.conns) :
    ∃ s₁, (Eff.when (s.iCtl.any ready) (acceptConn a)).run s' = (.ok (), s₁) ∧
      s₁.conns = s.conns ++ newConns a ready s := by
  unfold newConns acceptConn Eff.when
  rcases a.accept with _ | ⟨fd, _ | _⟩
  · exact ⟨s', by split <;> rfl, by simp [h]⟩
  · exact ⟨s', by split <;> rfl, by simp [h]⟩
  · by_cases hroom : s.conns.length < MAX_CTL_CONNS
    · cases s.iCtl.any ready with
      | true => exact ⟨_, rfl, by simp [h, hroom]⟩
      | false => exact ⟨s', rfl, by simp [h]⟩
    · cases s.iCtl.any ready with
      | true => exact ⟨_, rfl, by simp [h, hroom]⟩
      | false => exact ⟨s', rfl, by simp [h]⟩

theorem round_conns (h : a.poll s.fds = some ready) :
    Meets (fun r s' => s'.conns = keptConns a ready s.connBase 0 s.conns ++ newConns a ready s ∨
      (∃ e, r = .error e) ∧ (s'.conns = s.conns ∨ s'.conns = s.conns ++ newConns a ready s))
      (round O a) s := by
  -- a round that goes on has removed the retired connections, and one that stops has not
  unfold round
  refine meets_read_bind ?_
  rw [h]
  dsimp only
  refine Meets.bind (R := fun _ (t : Loop W) => t.conns = s.conns)
    (((stable_conns s.conns).serveControl a).when _ s rfl) ?_ fun e s' hs' =>
      .inr ⟨⟨e, rfl⟩, .inl hs'⟩
  intro _ s₁ hs₁
  obtain ⟨s₂, haccept, hs₂⟩ := run_acceptConn a ready hs₁
  unfold Meets
  rw [run_bind_ok haccept, run_read_bind, hs₂, List.take_left]
  have hserve := (stable_conns (O := O) s₂.conns).serveConns a ready s.connBase 0 s.conns s₂ rfl
  rcases hrun : (serveConns O a ready s.connBase 0 s.conns).run s₂ with ⟨e | ⟨polled, dead⟩, s₃⟩
  · rw [run_bind_error hrun]
    rw [hrun] at hserve
    exact .inr ⟨⟨e, rfl⟩, .inr (hserve.trans hs₂)⟩
  · rw [run_bind_ok hrun, run_update_bind]
    rw [hrun] at hserve
    have hkept := serveConns_result [] (newConns a ready s) (congrArg Prod.fst hrun)
    refine .inl (((stable_conns _).serveEvents a).when _ _ ?_)
    dsimp only
    rw [show s₃.conns = s.conns ++ newConns a ready s from hserve.trans hs₂, List.drop_left]
    exact hkept

theorem length_newConns (a : Answer) (ready : Nat → Bool) (s : Loop W)
    (h : s.conns.length ≤ MAX_CTL_CONNS) :
    s.conns.length + (newConns a ready s).length ≤ MAX_CTL_CONNS := by
  unfold newConns
  split
  · split_ifs with hroom
    · exact hroom.2
    · exact h
  · exact h

theorem round_bounded (h : s.conns.length ≤ MAX_CTL_CONNS) :
    ((round O a).run s).2.conns.length ≤ MAX_CTL_CONNS := by
  rcases hpoll : a.poll s.fds with _ | ready
  · unfold round
    rw [run_read_bind, hpoll]
    exact h
  · have hnew := length_newConns a ready s h
    have hkept : (keptConns a ready s.connBase 0 s.conns).length ≤ s.conns.length := by
      refine (List.length_filterMap_le _ _).trans ?_
      rw [List.length_zipIdx]
    rcases round_conns (O := O) hpoll with hend | ⟨-, hend | hend⟩ <;> rw [hend]
    · rw [List.length_append]
      omega
    · exact h
    · rw [List.length_append]
      exact hnew

theorem serveConns_congr {conn : Fd → Read} {sent : Fd → Nat → Bool} {base n : Nat}
    {cs : List Conn}
    (h : ∀ i c, cs[i]? = some c → ready (base + (n + i)) = true →
      conn c.fd = a.conn c.fd ∧ sent c.fd = a.sent c.fd) :
    serveConns O { a with conn := conn, sent := sent } ready base n cs =
      serveConns O a ready base n cs := by
  induction cs generalizing n with
  | nil => rfl
  | cons c cs ih =>
    have hserve : serveReady O { a with conn := conn, sent := sent } (ready (base + n)) c =
        serveReady O a (ready (base + n)) c := by
      unfold serveReady
      split_ifs with hready
      · obtain ⟨hconn, hsent⟩ := h 0 c rfl hready
        unfold serveConn
        dsimp only
        rw [hconn, hsent]
      · rfl
    have hrest := ih (n := n + 1) fun i c hc hready => h (i + 1) c hc (by
      rwa [Nat.add_comm i 1, ← Nat.add_assoc n 1 i])
    rw [serveConns, serveConns, hserve, hrest]

theorem round_congr {conn : Fd → Read} {sent : Fd → Nat → Bool} (hpoll : a.poll s.fds = some ready)
    (h : ∀ n c, s.conns[n]? = some c → ready (s.connBase + n) = true →
      conn c.fd = a.conn c.fd ∧ sent c.fd = a.sent c.fd) :
    (round O { a with conn := conn, sent := sent }).run s = (round O a).run s := by
  unfold round
  rw [run_read_bind, run_read_bind]
  dsimp only
  rw [hpoll]
  dsimp only
  have hcontrol := ((stable_conns (O := O) s.conns).serveControl a).when (ready 0) s rfl
  rcases hrun : (Eff.when (ready 0) (serveControl O a)).run s with ⟨e | _, s₁⟩
  · exact (run_bind_error hrun).trans (run_bind_error hrun).symm
  · rw [hrun] at hcontrol
    obtain ⟨s₂, haccept, hs₂⟩ := run_acceptConn a ready hcontrol
    refine ((run_bind_ok hrun).trans (run_bind_ok haccept)).trans
      (Eq.trans ?_ ((run_bind_ok hrun).trans (run_bind_ok haccept)).symm)
    rw [run_read_bind, run_read_bind, hs₂, List.take_left,
      serveConns_congr fun i c hc hready => h i c hc (by rwa [Nat.zero_add] at hready)]
    rfl

theorem entry_fds (s : Loop W) (n : Nat) : s.fds[s.connBase + n]? = s.conns[n]?.map (·.fd) := by
  have hbase : s.connBase =
      (s.controlFd :: (s.events.map (·.1)).toList ++ s.ctl.toList).length := by
    have hevents : (s.events.map (·.1)).toList.length = s.events.toList.length := by
      cases s.events <;> rfl
    simp only [Loop.connBase, List.cons_append, List.length_cons, List.length_append, hevents]
    omega
  rw [Loop.fds, hbase, List.getElem?_append_right (Nat.le_add_right _ _), Nat.add_sub_cancel_left,
    List.getElem?_map]

end Rounds

/-- Every round, from whatever state, treats the connections so, and from boot on there are never
more than the cap. -/
theorem connections_kept (O : Outside W) :
    (∀ a s, RoundSound O a s) ∧
      ∀ controlFd events ctl build w answers,
        ((runLoop O answers).run (.boot controlFd events ctl build w)).2.conns.length ≤
          MAX_CTL_CONNS := by
  constructor
  · intro a s
    constructor
    · intro n c hc
      rw [entry_fds, hc]
      rfl
    · intro ready hpoll conn sent h
      exact round_congr hpoll h
    · intro ready hpoll hok
      rcases round_conns (O := O) hpoll with hend | ⟨⟨e, herror⟩, -⟩
      · exact hend
      · rw [hok] at herror
        cases herror
    · exact round_bounded
  · intro controlFd events ctl build w answers
    have hrun : Keeps (fun s : Loop W => s.conns.length ≤ MAX_CTL_CONNS) (runLoop O answers) := by
      induction answers with
      | nil => exact keeps_pure _
      | cons a answers ih => exact Keeps.bind (fun s hs => round_bounded hs) fun _ => ih
    exact hrun _ (Nat.zero_le _)

end Tdvmm.Guest
