import Tdvmm.Forwarder.Link

/-!
# Forwarder.Window — the flow-control window of a stream

The host may have `WINDOW_BYTES` of response data on its way to a client. It counts down as it
frames data and up as the guest grants, which the guest does in lumps, once
`WINDOW_GRANT_THRESHOLD` bytes have reached the client.

1. `Conn.Balanced`: the guest grants what it has delivered, less the rest below the threshold.
2. `Spent`: the host's credit is the window and the grants it has handled, less the data it has
   framed.
3. `window_conserved`: between `OPEN_OK` and the first `CLOSE` or `RST` of a stream the parts of
   the window add up.
-/

namespace Tdvmm.Forwarder

open Lib Proto Egress Relation

/-! ## The guest's side -/

/-- Bytes delivered that are not granted yet. -/
@[simp] def Phase.ungranted : Phase → Nat
  | .relaying _ r => r.ungranted
  | _ => 0

/-- What a connection has granted, against what it has delivered. -/
structure Conn.Balanced (tty : Bool) (c : Conn) : Prop where
  small : ∀ bytes, .data bytes ∈ c.inbox → bytes.length ≤ EGRESS_MAX_PAYLOAD
  few : c.phase.ungranted < WINDOW_GRANT_THRESHOLD
  atMost : credits c.out + c.phase.ungranted ≤ c.delivered.length
  exactly : tty = true → ∀ st r, c.phase = .relaying st r → r.down = true →
    credits c.out + r.ungranted = c.delivered.length

section Guest

variable {tty : Bool} {c c' : Conn} {fs : List OwnedFrame}

theorem Conn.Balanced.idle (h : c.Balanced tty) (hinbox : ∀ msg ∈ c'.inbox, msg ∈ c.inbox)
    (hungranted : c'.phase.ungranted = c.phase.ungranted ∨ c'.phase.ungranted = 0)
    (hcredits : credits c'.out = credits c.out) (hdelivered : c'.delivered = c.delivered)
    (hrelay : ∀ st r, c'.phase = .relaying st r → r.down = true →
      ∃ st' r', c.phase = .relaying st' r' ∧ r'.down = true ∧ r'.ungranted = r.ungranted) :
    c'.Balanced tty := by
  refine ⟨fun bytes hmem => h.small bytes (hinbox _ hmem), ?_, ?_, ?_⟩
  · rcases hungranted with heq | heq
    · rw [heq]
      exact h.few
    · rw [heq]
      decide
  · have hle := h.atMost
    rw [hcredits, hdelivered]
    omega
  · intro htty st r hphase hdown
    obtain ⟨st', r', hphase', hdown', hsame⟩ := hrelay st r hphase hdown
    rw [hcredits, hdelivered, ← hsame]
    exact h.exactly htty st' r' hphase' hdown'

/-- A grant is never more than what it stands for, and with a transport it is just
that. -/
theorem credits_grant (tty : Bool) (id : StreamId) (n : Nat) :
    credits (send tty (.window id (UInt32.ofNat n))).toList ≤ n ∧
      (tty = true → n < 2 ^ 32 → credits (send tty (.window id (UInt32.ofNat n))).toList = n) := by
  constructor
  · rcases toList_send tty (.window id (UInt32.ofNat n)) with hnil | hsent
    · rw [hnil]
      exact Nat.zero_le n
    · rw [hsent]
      simpa [toOwned] using Nat.mod_le n _
  · rintro rfl hn
    rw [send_small (by simp) (by simp)]
    simpa [toOwned] using Nat.mod_eq_of_lt hn

theorem step_balanced (hstep : ConnStep tty c fs c') (hsound : c.Sound) (h : c.Balanced tty) :
    c'.Balanced tty := by
  cases hstep with
  | stay => exact h
  | clientSends bytes => exact ⟨h.small, h.few, h.atMost, h.exactly⟩
  | negotiated hphase | refused hphase =>
    exact h.idle (fun _ hmsg => hmsg) (.inr rfl) rfl rfl (by simp)
  | @opened st hphase =>
    refine h.idle (fun _ hmsg => hmsg) (.inr rfl) ?_ rfl (by simp)
    simp [MuxStream.openFrame]
  | openFailed hphase => exact h.idle (fun _ hmsg => hmsg) (.inr rfl) rfl rfl (by simp)
  | @connected st rest client hphase hinbox hclient =>
    -- nothing has been delivered, and only the `OPEN` has been sent
    have hout := hsound.sends
    have hnone := hsound.quiet
    rw [hphase] at hout hnone
    have hzero : credits c.out = 0 := by
      rw [hout]
      rfl
    refine ⟨?_, show 0 < WINDOW_GRANT_THRESHOLD by decide, ?_, ?_⟩
    · intro bytes hmem
      exact h.small bytes (hinbox ▸ List.mem_cons_of_mem _ hmem)
    · simp [hzero]
    · rintro - _ _ ⟨⟩ -
      simp [hzero, hnone trivial]
  | @gaveUp st msg rest client fs hphase hinbox hfs =>
    refine h.idle ?_ (.inr rfl) ?_ rfl (by simp)
    · intro msg hmsg
      exact hinbox ▸ List.mem_cons_of_mem _ hmsg
    · rcases hfs with rfl | rfl <;> simp
  | @sentData st r pieces rest hphase hup hunread =>
    refine h.idle (fun _ hmsg => hmsg) (.inl rfl) ?_ rfl ?_
    · rw [credits_append, credits_pieces, Nat.add_zero]
    · intro st r hrelay hdown
      exact ⟨st, r, hrelay, hdown, rfl⟩
  | @upEnded st r client fs hphase hup hfs =>
    refine h.idle (fun _ hmsg => hmsg) (.inl (by rw [hphase]; rfl)) ?_ rfl ?_
    · rcases hfs with rfl | rfl | rfl <;> simp
    · rintro _ _ ⟨⟩ hdown
      exact ⟨st, r, hphase, hdown, rfl⟩
  | @delivered st r bytes rest hphase hdown hinbox hfew =>
    have hle := h.atMost
    rw [hphase] at hle
    refine ⟨?_, hfew, ?_, ?_⟩
    · intro bytes' hmem
      exact h.small bytes' (hinbox ▸ List.mem_cons_of_mem _ hmem)
    · simp only [Conn.deliver, Conn.setRelay, Phase.ungranted, List.length_append] at hle ⊢
      omega
    · rintro htty _ _ ⟨⟩ -
      have heq := h.exactly htty st r hphase hdown
      simp only [Conn.deliver, Conn.setRelay, List.length_append]
      omega
  | @granted st r bytes rest hphase hdown hinbox =>
    have hle := h.atMost
    have hfew := h.few
    have hsmall := h.small bytes (hinbox ▸ List.mem_cons_self)
    rw [hphase] at hle hfew
    have hcredits := credits_grant tty st.id (r.ungranted + bytes.length)
    generalize (send tty (.window st.id (UInt32.ofNat (r.ungranted + bytes.length)))).toList = fs
      at hcredits ⊢
    refine ⟨?_, show 0 < WINDOW_GRANT_THRESHOLD by decide, ?_, ?_⟩
    · intro bytes' hmem
      exact h.small bytes' (hinbox ▸ List.mem_cons_of_mem _ hmem)
    · simp only [Conn.deliver, Conn.setRelay, Phase.ungranted, List.length_append,
        credits_append] at hle ⊢
      omega
    · rintro htty _ _ ⟨⟩ -
      have heq := h.exactly htty st r hphase hdown
      have hgrant := hcredits.2 htty (by
        simp only [Phase.ungranted, WINDOW_GRANT_THRESHOLD, EGRESS_MAX_PAYLOAD] at hfew hsmall
        omega)
      simp only [Conn.deliver, Conn.setRelay, List.length_append, credits_append]
      omega
  | @downFailed st r bytes n rest fs hphase hdown hinbox hfs =>
    have hle := h.atMost
    have hfew := h.few
    rw [hphase] at hle hfew
    refine ⟨?_, hfew, ?_, by simp [Conn.deliver, Conn.setRelay]⟩
    · intro bytes' hmem
      exact h.small bytes' (hinbox ▸ List.mem_cons_of_mem _ hmem)
    · have hnone : credits fs = 0 := by rcases hfs with rfl | rfl <;> simp
      simp only [Conn.deliver, Conn.setRelay, Phase.ungranted, List.length_append,
        credits_append] at hle ⊢
      omega
  | @downEnded st r msg rest hphase hdown hinbox =>
    refine h.idle ?_ (.inl (by rw [hphase]; rfl)) rfl rfl (by simp [Conn.setRelay])
    intro msg hmsg
    exact hinbox ▸ List.mem_cons_of_mem _ hmsg
  | @ignored st r msg rest hphase hdown hinbox hmsg =>
    refine h.idle ?_ (.inl rfl) rfl rfl ?_
    · intro msg hmsg
      exact hinbox ▸ List.mem_cons_of_mem _ hmsg
    · intro st r hrelay hdown
      exact ⟨st, r, hrelay, hdown, rfl⟩

theorem receive_balanced (h : c.Balanced tty) {frame : EgressFrame}
    (hframe : (dataOf frame).length ≤ EGRESS_MAX_PAYLOAD) : (c.receive frame).Balanced tty := by
  refine ⟨?_, h.few, h.atMost, h.exactly⟩
  intro bytes hmem
  rcases List.mem_append.mp hmem with hmem | hmem
  · exact h.small bytes hmem
  · cases frame <;> simp_all [inbound]

theorem register_balanced {target : Socks5Target} (h : c.Sound) (hphase : c.phase = .ready target)
    (st : MuxStream) : (c.register st).Balanced tty := by
  have hout := h.sends
  rw [hphase] at hout
  have hzero : credits c.out = 0 := by
    rw [hout]
    rfl
  refine ⟨?_, show 0 < WINDOW_GRANT_THRESHOLD by decide, ?_, by simp [Conn.register]⟩
  · intro bytes hmem
    have hinbox : (c.register st).inbox = [] := (h.idle (by simp [hphase])).2
    rw [hinbox] at hmem
    contradiction
  · simp [Conn.register, hzero]

end Guest

/-! ## The host's side -/

section Host

variable {calm : Prop} {id : StreamId} {v v' : StreamView} {es : List Ev}

/-- The events of a step that begins a session. -/
structure Begins (v v' : StreamView) (es : List Ev) (s : Session) : Prop where
  credit : s.toGuestCredit = WINDOW_BYTES
  vacant : v.sess = none
  opens : ∃ o, isOpen o = true ∧ recvs es = [o]
  life : ∃ life, incarnation v'.hist = some life ∧ recvs life = [] ∧ sents life = []

/-- The events of a step in the life of a session. Its credit changes by what is
granted and framed, as long as the counter does not saturate. -/
structure Goes (v : StreamView) (es : List Ev) (s s' : Session) : Prop where
  before : v.sess = some s
  inside : ∀ e ∈ es, e.isBorder = false
  plain : ∀ f ∈ recvs es, isOpen f = false
  credit : s.toGuestCredit + credits (recvs es) ≤ USIZE_MAX →
    s'.toGuestCredit + (hostData (sents es)).length = s.toGuestCredit + credits (recvs es)

theorem session_step (hstep : StreamStep calm id v v') (hhist : v'.hist = v.hist ++ es)
    {s' : Session} (hs' : v'.sess = some s') : Begins v v' es s' ∨ ∃ s, Goes v es s s' := by
  cases hstep with
  | @accept h port host =>
    obtain rfl := List.append_cancel_left hhist
    obtain rfl := Option.some.inj hs'
    refine .inl ⟨rfl, rfl, ⟨.openTo id port host, rfl, by simp [recvs]⟩, ?_⟩
    exact ⟨[.startResolve id (utf8Lossy host) port], by simp [incarnation_append, track],
      by simp [recvs], by simp⟩
  | @connected s =>
    obtain rfl := List.append_cancel_left hhist
    obtain rfl := Option.some.inj hs'
    refine .inr ⟨s, rfl, ?_, ?_, ?_⟩ <;>
      cases hclosed : s.guestWriteClosed <;> simp [Session.connected, recvs]
  | @stale sess =>
    obtain rfl := List.append_cancel_left hhist
    exact .inr ⟨s', hs', by simp, by simp [recvs], by simp [recvs]⟩
  | @window s r h credit =>
    obtain rfl := List.append_cancel_left hhist
    obtain rfl := Option.some.inj hs'
    refine .inr ⟨s, rfl, by simp, by simp [recvs], ?_⟩
    intro hroom
    have hcredit : s.toGuestCredit + credit.toNat ≤ USIZE_MAX := by simpa [recvs] using hroom
    simpa [recvs] using Nat.min_eq_left hcredit
  | @frame s r h payload rest hopen hsplit hne hcredit hsize =>
    obtain rfl := List.append_cancel_left hhist
    obtain rfl := Option.some.inj hs'
    refine .inr ⟨s, rfl, by simp, by simp [recvs], ?_⟩
    intro _
    simpa [recvs] using Nat.sub_add_cancel hcredit
  | @data s | @close s | @connect s | @connectStuck s | @pending s | @write s | @eof s | @read s
  | @readBlocked s | @hostClose s | @epoll s | @epollStuck s =>
    obtain rfl := List.append_cancel_left hhist
    obtain rfl := Option.some.inj hs'
    exact .inr ⟨s, rfl, by simp, by simp [recvs],
      by simp [recvs, Session.closeGuest, Session.closeHost]⟩
  | _ => simp at hs'

theorem sents_small (hstep : StreamStep calm id v v') (hhist : v'.hist = v.hist ++ es) :
    ∀ f ∈ sents es, (dataOf f).length ≤ EGRESS_MAX_PAYLOAD := by
  cases hstep with
  | @connected s =>
    obtain rfl := List.append_cancel_left hhist
    cases hclosed : s.guestWriteClosed <;> simp
  | @reject sess | @drop sess =>
    obtain rfl := List.append_cancel_left hhist
    cases sess <;> simp [ended]
  | @frame s r h payload rest hopen hsplit hne hcredit hsize =>
    obtain rfl := List.append_cancel_left hhist
    simpa using hsize
  | _ =>
    obtain rfl := List.append_cancel_left hhist
    simp

/-- `fs` is what comes after the last `OPEN` of `all`. -/
def LastOpen (fs all : List OwnedFrame) : Prop :=
  ∃ o, isOpen o = true ∧ o :: fs <:+ all ∧ ∀ f ∈ fs, isOpen f = false

theorem lastOpen_step (hstep : StreamStep calm id v v') (hhist : v'.hist = v.hist ++ es)
    (hdead : v'.sess = none → incarnation v'.hist = none)
    (hlives : ∀ s, v.sess = some s → ∃ life, incarnation v.hist = some life)
    (h : ∀ life, incarnation v.hist = some life → LastOpen (recvs life) (recvs v.hist)) :
    ∀ life, incarnation v'.hist = some life → LastOpen (recvs life) (recvs v'.hist) := by
  intro life' hlife'
  rcases hsess : v'.sess with _ | s'
  · rw [hdead hsess] at hlife'
    contradiction
  rcases session_step hstep hhist hsess with hnew | ⟨s, hgo⟩
  · obtain ⟨o, ho, hrecvs⟩ := hnew.opens
    obtain ⟨life, hlife, hnone, -⟩ := hnew.life
    obtain rfl : life = life' := Option.some.inj (hlife.symm.trans hlife')
    refine ⟨o, ho, ?_, by simp [hnone]⟩
    rw [hnone, hhist, recvs_append, hrecvs]
    exact List.suffix_append _ _
  · obtain ⟨life, hlife⟩ := hlives s hgo.before
    have hnext := incarnation_extend es hlife hgo.inside
    rw [← hhist] at hnext
    obtain rfl : life ++ es = life' := Option.some.inj (hnext.symm.trans hlife')
    obtain ⟨o, ho, ⟨pre, hpre⟩, hplain⟩ := h life hlife
    rw [recvs_append, hhist, recvs_append]
    refine ⟨o, ho, ⟨pre, ?_⟩, ?_⟩
    · rw [← List.cons_append, ← List.append_assoc, hpre]
    · intro f hf
      rcases List.mem_append.mp hf with hf | hf
      · exact hplain f hf
      · exact hgo.plain f hf

end Host

/-! ## Both ends -/

/-- The connection holds the id, its `OPEN` is not on its way any more, and it has
been sent all that the session alive has sent. -/
structure Owns (l : Link) (c : Conn) (life : List Ev) : Prop where
  held : c.phase.held? ≠ none
  opened : c.out ≠ []
  handled : ∀ f ∈ l.up, isOpen f = false
  fed : c.fed ++ l.down = sents life

structure Metered (id : StreamId) (l : Link) : Prop where
  framed : Downstream id l.view
  last : ∀ life, incarnation l.view.hist = some life → LastOpen (recvs life) (recvs l.view.hist)
  small : ∀ f ∈ l.down, (dataOf f).length ≤ EGRESS_MAX_PAYLOAD
  down : l.down <:+ sents l.view.hist
  sound : ∀ c ∈ l.conn, c.Sound
  balanced : ∀ c ∈ l.conn, c.Balanced l.tty
  sent : ∀ c ∈ l.conn, c.out <:+ recvs l.view.hist ++ l.up
  routed : ∀ c ∈ l.conn, c.phase.held? ≠ none → c.fed ++ l.down <:+ sents l.view.hist
  credit : ∀ c ∈ l.conn, ∀ s life, l.view.sess = some s → incarnation l.view.hist = some life →
    Owns l c life →
      s.toGuestCredit + (hostData (sents life)).length = WINDOW_BYTES + credits (recvs life)

theorem init_metered (id : StreamId) : Metered id .init := by
  refine ⟨init_downstream id, ?_, ?_, ?_, ?_, ?_, ?_, ?_, ?_⟩ <;>
    simp [Link.init, StreamView.init, incarnation]

section Link

variable {ok : Link → Prop} {id : StreamId} {l l' : Link} {c : Conn} {life : List Ev}

/-- The frames handled in the life of its session, and those on their way, are what
the connection has sent after its `OPEN`. -/
theorem Metered.credits_sent (h : Metered id l) (hc : l.conn = some c)
    (hlife : incarnation l.view.hist = some life) (hown : Owns l c life) :
    credits (recvs life) + credits l.up = credits c.out := by
  rcases (h.sound c hc).opens with hnil | ⟨st, rest, hout, hrest⟩
  · exact absurd hnil hown.opened
  obtain ⟨o, ho, ⟨pre, hpre⟩, hplain⟩ := h.last life hlife
  have hsent := h.sent c hc
  rw [hout] at hsent
  have hlast : o :: (recvs life ++ l.up) <:+ recvs l.view.hist ++ l.up :=
    ⟨pre, by rw [← hpre]; simp⟩
  have heq := suffix_unique (p := isOpen) rfl ho hrest ?_ hsent hlast
  · have hzero : creditOf o = 0 := by cases o <;> simp_all
    rw [hout, heq, credits_cons, credits_append, hzero, Nat.zero_add]
  · intro f hf
    rcases List.mem_append.mp hf with hf | hf
    · exact hplain f hf
    · exact hown.handled f hf

theorem Metered.credits_le (h : Metered id l) (hc : l.conn = some c) (hown : Owns l c life) :
    credits c.out ≤ (hostData (sents life)).length := by
  -- no more is granted than was framed
  have hgranted := (h.balanced c hc).atMost
  have hdelivered := (h.sound c hc).down.length_le
  rw [← hown.fed, hostData_append, List.length_append]
  omega

theorem move_metered {c' : Conn} {fs up : List OwnedFrame} {v : StreamView}
    {down : List EgressFrame} {tty : Bool} (hmove : ConnStep tty c fs c')
    (h : Metered id ⟨some c, up, v, down, tty⟩) : Metered id ⟨some c', up ++ fs, v, down, tty⟩ := by
  have hsound := h.sound c rfl
  refine ⟨h.framed, h.last, h.small, h.down, ?_, ?_, ?_, ?_, ?_⟩
  · rintro _ ⟨⟩
    exact step_sound hmove hsound
  · rintro _ ⟨⟩
    exact step_balanced hmove hsound (h.balanced c rfl)
  · rintro _ ⟨⟩
    obtain ⟨pre, hpre⟩ := h.sent c rfl
    refine ⟨pre, ?_⟩
    rw [step_out hmove, ← List.append_assoc, hpre, List.append_assoc]
  · rintro _ ⟨⟩ hheld
    rw [step_fed hmove]
    exact h.routed c rfl (step_held hmove ▸ hheld)
  · rintro _ ⟨⟩ s life hs hlife hown
    have hopened : c.out ≠ [] := by
      intro hnil
      -- the first frame sent is the `OPEN`, which is then on its way
      rcases (step_sound hmove hsound).opens with hnone | ⟨st, rest, hout, -⟩
      · exact hown.opened hnone
      · rw [step_out hmove, hnil, List.nil_append] at hout
        have hflight := hown.handled st.openFrame
          (List.mem_append_right _ (hout ▸ List.mem_cons_self))
        contradiction
    exact h.credit c rfl s life hs hlife ⟨step_held hmove ▸ hown.held, hopened,
      fun f hf => hown.handled f (List.mem_append_left _ hf), step_fed hmove ▸ hown.fed⟩

theorem host_metered {conn : Option Conn} {up : List OwnedFrame} {v v' : StreamView}
    {es : List Ev} {down : List EgressFrame} {tty : Bool} (hstep : StreamStep False id v v')
    (hhist : v'.hist = v.hist ++ es) (h : Metered id ⟨conn, recvs es ++ up, v, down, tty⟩) :
    Metered id ⟨conn, up, v', down ++ sents es, tty⟩ := by
  have hframed := step_downstream hstep h.framed
  have hlives : ∀ s, v.sess = some s → ∃ life, incarnation v.hist = some life := by
    intro s hs
    obtain ⟨life, hlife, -⟩ := h.framed.live s hs
    exact ⟨life, hlife⟩
  have hgrows : ∀ fs, fs <:+ sents v.hist → fs ++ sents es <:+ sents v'.hist := by
    rintro fs ⟨pre, hpre⟩
    exact ⟨pre, by rw [hhist, sents_append, ← hpre, List.append_assoc]⟩
  refine ⟨hframed, lastOpen_step hstep hhist hframed.dead hlives h.last, ?_, hgrows _ h.down,
    h.sound, h.balanced, ?_, ?_, ?_⟩
  · intro f hf
    rcases List.mem_append.mp hf with hf | hf
    · exact h.small f hf
    · exact sents_small hstep hhist f hf
  · intro c hc
    have hsent := h.sent c hc
    show c.out <:+ recvs v'.hist ++ up
    rw [hhist, recvs_append, List.append_assoc]
    exact hsent
  · intro c hc hheld
    show c.fed ++ (down ++ sents es) <:+ sents v'.hist
    rw [← List.append_assoc]
    exact hgrows _ (h.routed c hc hheld)
  · intro c hc s' life' hs' hlife' hown
    rcases session_step hstep hhist hs' with hnew | ⟨s, hgo⟩
    · obtain ⟨life, hlife, hrecvs, hsents⟩ := hnew.life
      obtain rfl : life = life' := Option.some.inj (hlife.symm.trans hlife')
      rw [hrecvs, hsents, hnew.credit]
      rfl
    · obtain ⟨life, hlife⟩ := hlives s hgo.before
      have hnext := incarnation_extend es hlife hgo.inside
      rw [← hhist] at hnext
      obtain rfl : life ++ es = life' := Option.some.inj (hnext.symm.trans hlife')
      have hbefore : Owns ⟨conn, recvs es ++ up, v, down, tty⟩ c life := by
        refine ⟨hown.held, hown.opened, ?_, ?_⟩
        · intro f hf
          rcases List.mem_append.mp hf with hf | hf
          · exact hgo.plain f hf
          · exact hown.handled f hf
        · have hfed := hown.fed
          rw [sents_append] at hfed
          exact List.append_cancel_right (by simpa using hfed)
      -- the counter has room: what is granted has been framed before
      have hcredit := h.credit c hc s life hgo.before hlife hbefore
      have hsent := h.credits_sent hc hlife hbefore
      have hle := h.credits_le hc hbefore
      rw [credits_append] at hsent
      have hroom : WINDOW_BYTES ≤ USIZE_MAX := by decide
      have hmoved := hgo.credit (by omega)
      rw [sents_append, hostData_append, List.length_append, recvs_append, credits_append]
      omega

theorem step_metered (hstep : LinkStep ok id l l') (h : Metered id l) : Metered id l' := by
  cases hstep with
  | move hmove => exact move_metered hmove h
  | @register l c target hphase hsound hfree hok =>
    -- a connection that has sent nothing owns no session
    have hout : c.out = [] := by simpa [hphase] using hsound.sends
    have hfed : c.fed = [] := (hsound.idle (by simp [hphase])).1
    refine ⟨h.framed, h.last, h.small, h.down, ?_, ?_, ?_, ?_, ?_⟩
    · rintro _ ⟨⟩
      exact register_sound hsound hphase id
    · rintro _ ⟨⟩
      exact register_balanced hsound hphase ⟨id, target⟩
    · rintro _ ⟨⟩
      rw [show (c.register ⟨id, target⟩).out = [] from hout]
      exact List.nil_suffix
    · rintro _ ⟨⟩ -
      rw [show (c.register ⟨id, target⟩).fed = [] from hfed]
      exact h.down
    · rintro _ ⟨⟩ s life hs hlife hown
      exact absurd hout hown.opened
  | @leave c st up v down tty hleave =>
    -- nor does one that has left
    refine ⟨h.framed, h.last, h.small, h.down, ?_, ?_, ?_, ?_, ?_⟩
    · rintro _ ⟨⟩
      exact leave_sound (h.sound c rfl) hleave
    · rintro _ ⟨⟩
      exact (h.balanced c rfl).idle (fun _ hmsg => hmsg) (.inr rfl) rfl rfl (by simp)
    · rintro _ ⟨⟩
      exact h.sent c rfl
    · rintro _ ⟨⟩ hheld
      exact absurd rfl hheld
    · rintro _ ⟨⟩ s life hs hlife hown
      exact absurd rfl hown.held
  | @route c f up v down tty hheld =>
    -- the frame goes from the way down to what the connection was fed
    refine ⟨h.framed, h.last, fun g hg => h.small g (List.mem_cons_of_mem _ hg),
      (List.suffix_cons f down).trans h.down, ?_, ?_, ?_, ?_, ?_⟩
    · rintro _ ⟨⟩
      exact receive_sound (h.sound c rfl) hheld f
    · rintro _ ⟨⟩
      exact receive_balanced (h.balanced c rfl) (h.small f List.mem_cons_self)
    · rintro _ ⟨⟩
      exact h.sent c rfl
    · rintro _ ⟨⟩ _
      have hrouted := h.routed c rfl hheld
      simpa [Conn.receive] using hrouted
    · rintro _ ⟨⟩ s life hs hlife hown
      have hfed := hown.fed
      exact h.credit c rfl s life hs hlife ⟨hown.held, hown.opened, hown.handled,
        by simpa [Conn.receive] using hfed⟩
  | @drop conn f up v down tty hfree =>
    refine ⟨h.framed, h.last, fun g hg => h.small g (List.mem_cons_of_mem _ hg),
      (List.suffix_cons f down).trans h.down, h.sound, h.balanced, h.sent, ?_, ?_⟩
    · intro c hc hheld
      exact absurd (hfree c hc) hheld
    · intro c hc s life hs hlife hown
      exact absurd (hfree c hc) hown.held
  | host hstep hhist => exact host_metered hstep hhist h
  | ttyFails =>
    -- without a transport a grant may be lost, which the balance allows for
    refine ⟨h.framed, h.last, h.small, h.down, h.sound, ?_, h.sent, h.routed, ?_⟩
    · intro c hc
      have hbalanced := h.balanced c hc
      exact ⟨hbalanced.small, hbalanced.few, hbalanced.atMost, by simp⟩
    · intro c hc s life hs hlife hown
      exact h.credit c hc s life hs hlife ⟨hown.held, hown.opened, hown.handled, hown.fed⟩

end Link

/-! ## Runs -/

def Sys.flightDown (s : Sys) (id : StreamId) : List EgressFrame :=
  s.toGuest.filter fun f => f.stream == id

def Sys.flightUp (s : Sys) (id : StreamId) : List OwnedFrame :=
  s.toHost.filter fun f => f.stream == id

/-- Stream `st` of connection `i` is connected and has seen no `CLOSE` or `RST`: its
loop toward the client runs, the host has handled its `OPEN` and has a session open
for it, and what the host has sent it is an `OPEN_OK` and data. -/
structure Connected (s : Sys) (i : Nat) (c : Conn) (st : MuxStream) (r : Relay)
    (sess : Session) : Prop where
  conn : s.conns[i]? = some c
  relays : c.phase = .relaying st r
  runs : r.down = true
  session : s.host.sessions[st.id]? = some sess
  established : sess.isOpen
  handled : ∀ f ∈ s.flightUp st.id, isOpen f = false
  frames : ∃ payloads, c.fed ++ s.flightDown st.id = openFrames st.id payloads false

def isOpenOk : EgressFrame → Bool
  | .openOk _ => true
  | _ => false

theorem incarnation_suffix {h life : List Ev} (hlife : incarnation h = some life) : life <:+ h := by
  -- the life of a session is the end of its stream's history
  induction h using List.reverseRecOn generalizing life with
  | nil => simp [incarnation] at hlife
  | append_singleton h e ih =>
    have hgrow : ∀ rest, incarnation h = some rest → some (rest ++ [e]) = some life →
        life <:+ h ++ [e] := by
      intro rest hrest heq
      obtain ⟨pre, hpre⟩ := ih hrest
      rw [← Option.some.inj heq, ← hpre]
      exact ⟨pre, by simp⟩
    rw [incarnation_append] at hlife
    rcases hrest : incarnation h with _ | rest
    · cases e <;> simp_all [track]
    · cases e with
      | opened id =>
        obtain rfl : [] = life := by simpa [track] using hlife
        exact List.nil_suffix
      | removed id => simp [track] at hlife
      | _ => exact hgrow rest hrest (by simpa [hrest, track] using hlife)

theorem Connected.owns {s : Sys} {i : Nat} {c : Conn} {st : MuxStream} {r : Relay}
    {sess : Session} {life : List Ev} (h : Connected s i c st r sess)
    (hm : Metered st.id (s.link st.id)) (hc : s.conn? st.id = some c)
    (hlife : incarnation (s.link st.id).view.hist = some life)
    (hframed : Framed st.id sess life) : Owns (s.link st.id) c life := by
  have hheld : c.phase.held? ≠ none := by simp [h.relays]
  refine ⟨hheld, ?_, h.handled, ?_⟩
  · have hsends := (hm.sound c hc).sends
    rw [h.relays] at hsends
    obtain ⟨rest, hout, -⟩ := hsends
    simp [hout]
  · -- both lists run from the last `OPEN_OK` of the stream to its last frame
    obtain ⟨payloads, hfed⟩ := h.frames
    obtain ⟨payloads', hsents⟩ := hframed.opened h.established
    have hrouted := hm.routed c hc hheld
    obtain ⟨pre, hpre⟩ := incarnation_suffix hlife
    have hlast : sents life <:+ sents (s.link st.id).view.hist :=
      ⟨sents pre, by rw [← sents_append, hpre]⟩
    have hdown : c.fed ++ (s.link st.id).down = openFrames st.id payloads false := hfed
    rw [hdown] at hrouted ⊢
    rw [hsents] at hlast ⊢
    refine suffix_unique (p := isOpenOk) rfl rfl ?_ ?_ hrouted hlast
    · simp [isOpenOk]
    · intro f hf
      rcases List.mem_append.mp hf with hf | hf
      · obtain ⟨payload, -, rfl⟩ := List.mem_map.mp hf
        rfl
      · split at hf
        · rw [List.mem_singleton.mp hf]
          rfl
        · contradiction

/-- **Window conservation.** For a connected stream, the host's credit, the data in
flight or not yet written to the client, the forwarder's ungranted count and the
credit in flight add up to 32 KiB. So no more than that is outstanding, and with
nothing in flight the host has more than 16 KiB to spend. -/
theorem window_conserved (acts : List Act) (htty : (run acts).tty = true) {i : Nat} {c : Conn}
    {st : MuxStream} {r : Relay} {sess : Session} (h : Connected (run acts) i c st r sess) :
    let data := (hostData ((run acts).flightDown st.id)).length + (queued c.inbox).length
    let grants := credits ((run acts).flightUp st.id)
    sess.toGuestCredit + data + r.ungranted + grants = 32 * 1024 ∧
      data + r.ungranted + grants ≤ 32 * 1024 ∧
      (data = 0 → grants = 0 → 16 * 1024 < sess.toGuestCredit) := by
  intro data grants
  have ht := run_tidy acts
  have hheld : c.phase.held? = some st := by simp [h.relays]
  have hreg := (ht.registry st.id i).mpr ⟨c, st, h.conn, hheld, rfl⟩
  have hc : (run acts).conn? st.id = some c := conn?_of_owner h.conn (ht.holder st.id i hreg)
  have hm : Metered st.id ((run acts).link st.id) :=
    run_invariant (I := Metered st.id) (fun l l' hstep hl => step_metered hstep hl)
      (run_links (handsOut_trivial acts .init) st.id) (init_metered st.id)
  have hsess : ((run acts).link st.id).view.sess = some sess := h.session
  obtain ⟨life, hlife, hframed⟩ := hm.framed.live sess hsess
  have hown := h.owns hm hc hlife hframed
  have hcredit := hm.credit c hc sess life hsess hlife hown
  have hsent := hm.credits_sent hc hlife hown
  have hbalanced := (hm.balanced c hc).exactly htty st r h.relays h.runs
  have hfew := (hm.balanced c hc).few
  -- everything the host has framed is delivered, in the inbox or in flight
  have hall : (hostData (sents life)).length =
      c.delivered.length + (queued c.inbox).length +
        (hostData ((run acts).flightDown st.id)).length := by
    have hhears := (hm.sound c hc).hears (by rw [h.relays]; exact h.runs)
    rw [← hown.fed, hostData_append, ← hhears]
    simp only [List.length_append]
    rfl
  have hgrants : credits ((run acts).link st.id).up = grants := rfl
  rw [h.relays] at hfew
  simp only [Phase.ungranted, WINDOW_GRANT_THRESHOLD] at hfew
  simp only [WINDOW_BYTES] at hcredit
  have hdata : data = (hostData ((run acts).flightDown st.id)).length + (queued c.inbox).length :=
    rfl
  refine ⟨?_, ?_, ?_⟩
  · omega
  · omega
  · intro hnone hquiet
    omega

/-- The relay of a connection and the id of its stream. -/
def Conn.relay? (c : Conn) : Option (StreamId × Relay) :=
  match c.phase with
  | .relaying st r => some (st.id, r)
  | _ => none

theorem relay?_eq_some {c : Conn} {id : StreamId} {relay : Relay}
    (h : c.relay? = some (id, relay)) :
    ∃ st r, c.phase = .relaying st r ∧ st.id = id ∧ r = relay := by
  unfold Conn.relay? at h
  split at h
  · rename_i st r hphase
    obtain ⟨hid, hr⟩ := Prod.mk.inj (Option.some.inj h)
    exact ⟨st, r, hphase, hid, hr⟩
  · contradiction

theorem window_conserved_exchange :
    ∃ (c : Conn) (st : MuxStream) (r : Relay) (sess : Session),
      Connected (run exchange) 0 c st r sess ∧ r.ungranted = 2 ∧
        sess.toGuestCredit + ((hostData ((run exchange).flightDown st.id)).length +
          (queued c.inbox).length) + r.ungranted + credits ((run exchange).flightUp st.id) =
            32 * 1024 := by
  have hconn : ((run exchange).conns[0]?.map fun c => (c.fed, c.relay?)) =
      some ([.openOk 1, .data 1 [5, 6]], some (1, ⟨true, true, 2⟩)) := by decide +kernel
  have hhost : ((run exchange).host.sessions[(1 : StreamId)]?.map (·.state)) =
      some .established := by decide +kernel
  obtain ⟨c, hc, hcd⟩ := Option.map_eq_some_iff.mp hconn
  obtain ⟨hfed, hrelay⟩ := Prod.mk.inj hcd
  obtain ⟨sess, hsess, hstate⟩ := Option.map_eq_some_iff.mp hhost
  obtain ⟨st, r, hphase, hid, hr⟩ : ∃ st r, c.phase = .relaying st r ∧ st.id = 1 ∧
      r = ⟨true, true, 2⟩ := relay?_eq_some hrelay
  have hconnected : Connected (run exchange) 0 c st r sess := by
    refine ⟨hc, hphase, by rw [hr], by rw [hid]; exact hsess, .inl hstate, ?_, [[5, 6]], ?_⟩
    · rw [hid]
      decide +kernel
    · rw [hid, hfed]
      decide +kernel
  exact ⟨c, st, r, sess, hconnected, by rw [hr],
    (window_conserved exchange (by decide +kernel) hconnected).1⟩

end Tdvmm.Forwarder
