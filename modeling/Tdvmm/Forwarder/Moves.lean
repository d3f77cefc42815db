import Mathlib.Algebra.Ring.Nat
import Tdvmm.Egress.Downstream
import Tdvmm.Forwarder.Connection

/-!
# Forwarder.Moves — what a connection does, and what it keeps

1. `ConnStep` lists once what a move can do to a connection and which frames it
   sends; `move_step` shows that the code does nothing else.
2. `Conn.Sound` is the invariant of a connection by itself: the frames it has sent
   begin with its `OPEN` and carry a front part of what the client sent; the client
   has got a front part of the data routed to it.
-/

namespace Tdvmm.Forwarder

open Lib Proto Egress

/-! ## What frames carry -/

@[simp] def isOpen : OwnedFrame → Bool
  | .openTo _ _ _ => true
  | _ => false

@[simp] def payloadOf : OwnedFrame → Bytes
  | .data _ payload => payload
  | _ => []

@[simp] def creditOf : OwnedFrame → Nat
  | .window _ credit => credit.toNat
  | _ => 0

@[simp] def bytesOf : Inbound → Bytes
  | .data bytes => bytes
  | _ => []

def clientData (fs : List OwnedFrame) : Bytes := fs.flatMap payloadOf

def credits (fs : List OwnedFrame) : Nat := (fs.map creditOf).sum

def queued (inbox : List Inbound) : Bytes := inbox.flatMap bytesOf

section Lists

variable {fs fs' : List OwnedFrame} {f : OwnedFrame} {inbox inbox' : List Inbound} {msg : Inbound}

@[simp] theorem clientData_nil : clientData [] = [] := rfl

@[simp] theorem clientData_cons : clientData (f :: fs) = payloadOf f ++ clientData fs :=
  List.flatMap_cons

@[simp] theorem clientData_append : clientData (fs ++ fs') = clientData fs ++ clientData fs' :=
  List.flatMap_append

@[simp] theorem credits_nil : credits [] = 0 := rfl

@[simp] theorem credits_cons : credits (f :: fs) = creditOf f + credits fs := by simp [credits]

@[simp] theorem credits_append : credits (fs ++ fs') = credits fs + credits fs' := by
  simp [credits]

@[simp] theorem queued_nil : queued [] = [] := rfl

@[simp] theorem queued_cons : queued (msg :: inbox) = bytesOf msg ++ queued inbox :=
  List.flatMap_cons

@[simp] theorem queued_append : queued (inbox ++ inbox') = queued inbox ++ queued inbox' :=
  List.flatMap_append

theorem queued_inbound (frame : EgressFrame) : queued (inbound frame).toList = dataOf frame := by
  cases frame <;> simp [inbound, queued]

end Lists

/-! ## Sending -/

theorem send_eq_some {tty : Bool} {frame : EgressFrame} {f : OwnedFrame}
    (h : send tty frame = some f) : tty = true ∧ f = toOwned frame := by
  unfold send at h
  split at h
  · rename_i hsend
    rw [Bool.and_eq_true] at hsend
    exact ⟨hsend.1, (Option.some.inj h).symm⟩
  · contradiction

theorem send_small {frame : EgressFrame}
    (hopen : ∀ stream port host, frame ≠ .openTo stream port host)
    (hdata : ∀ stream payload, frame = .data stream payload → payload.length ≤ EGRESS_MAX_PAYLOAD) :
    send true frame = some (toOwned frame) := by
  unfold send
  rw [encode_ok_of_small [] hopen hdata]
  rfl

theorem chunks_flatten {n : Nat} (hn : 0 < n) {fuel : Nat} {bs : Bytes} (hfuel : bs.length ≤ fuel) :
    (chunks n fuel bs).flatten = bs := by
  induction fuel generalizing bs with
  | zero =>
    have hnil : bs = [] := List.length_eq_zero_iff.mp (by omega)
    rw [hnil]
    rfl
  | succ fuel ih =>
    unfold chunks
    split
    · rename_i hempty
      rw [List.isEmpty_iff.mp hempty]
      rfl
    · rename_i hne
      have hpos : 0 < bs.length := List.length_pos_iff.mpr (by simpa using hne)
      have hdrop : (bs.drop n).length ≤ fuel := by
        rw [List.length_drop]
        omega
      rw [List.flatten_cons, ih hdrop, List.take_append_drop]

theorem chunks_small {n fuel : Nat} {bs : Bytes} : ∀ p ∈ chunks n fuel bs, p.length ≤ n := by
  induction fuel generalizing bs with
  | zero => simp [chunks]
  | succ fuel ih =>
    intro p hp
    unfold chunks at hp
    split at hp
    · simp at hp
    · rcases List.mem_cons.mp hp with hp | hp
      · rw [hp]
        exact List.length_take_le _ _
      · exact ih p hp

theorem sendAll_true {frames : List EgressFrame}
    (h : ∀ frame ∈ frames, send true frame = some (toOwned frame)) :
    sendAll true frames = (true, frames.map toOwned) := by
  induction frames with
  | nil => rfl
  | cons frame rest ih =>
    unfold sendAll
    rw [h frame List.mem_cons_self, ih fun x hx => h x (List.mem_cons_of_mem _ hx)]
    rfl

theorem sendData_false (stream : StreamId) {payload : Bytes} (h : payload ≠ []) :
    sendData false stream payload = (false, []) := by
  cases payload with
  | nil => contradiction
  | cons b rest => rfl

theorem sendData_true (stream : StreamId) (payload : Bytes) :
    ∃ pieces : List Bytes, pieces.flatten = payload ∧
      sendData true stream payload = (true, pieces.map (.data stream)) := by
  have hpos : 0 < EGRESS_MAX_PAYLOAD := by decide
  refine ⟨_, chunks_flatten hpos (Nat.le_refl payload.length), ?_⟩
  unfold sendData
  rw [sendAll_true]
  · simp [toOwned]
  · intro frame hframe
    obtain ⟨piece, hpiece, rfl⟩ := List.mem_map.mp hframe
    refine send_small (by simp) ?_
    rintro _ _ ⟨⟩
    exact chunks_small piece hpiece

theorem clientData_pieces (stream : StreamId) (pieces : List Bytes) :
    clientData (pieces.map (.data stream)) = pieces.flatten := by
  induction pieces with
  | nil => rfl
  | cons p pieces ih => simp [ih]

theorem credits_pieces (stream : StreamId) (pieces : List Bytes) :
    credits (pieces.map (.data stream)) = 0 := by
  induction pieces with
  | nil => rfl
  | cons p pieces ih => simp [ih]

/-! ## The steps of a connection -/

def MuxStream.openFrame (st : MuxStream) : OwnedFrame := .openTo st.id st.target.port st.target.host

def Conn.moved (tty : Bool) (c : Conn) (mv : Move) : Conn :=
  { (c.move tty mv).1 with out := c.out ++ (c.move tty mv).2 }

/-- What a move can do to a connection, and the frames it sends. -/
inductive ConnStep (tty : Bool) (c : Conn) : List OwnedFrame → Conn → Prop where
  | stay : ConnStep tty c [] c
  | clientSends (bytes : Bytes) : ConnStep tty c [] (c.clientSends bytes)
  -- before the stream
  | negotiated {client : Client} {target : Socks5Target} (hphase : c.phase = .negotiating) :
      ConnStep tty c []
        { c with phase := .ready target, client := client, payload := client.unread }
  | refused {client : Client} (hphase : c.phase = .negotiating) :
      ConnStep tty c [] { c with phase := .refused, client := client }
  -- opening it
  | opened {st : MuxStream} (hphase : c.phase = .opening st) :
      ConnStep tty c [st.openFrame]
        { c with phase := .awaiting st, out := c.out ++ [st.openFrame] }
  | openFailed {st : MuxStream} (hphase : c.phase = .opening st) :
      ConnStep tty c [] { c with phase := .leaving st }
  | connected {st : MuxStream} {rest : List Inbound} {client : Client}
      (hphase : c.phase = .awaiting st) (hinbox : c.inbox = .connected :: rest)
      (hclient : client.unread = c.client.unread) :
      ConnStep tty c []
        { c with phase := .relaying st ⟨true, true, 0⟩, inbox := rest, client := client }
  | gaveUp {st : MuxStream} {msg : Inbound} {rest : List Inbound} {client : Client}
      {fs : List OwnedFrame} (hphase : c.phase = .awaiting st) (hinbox : c.inbox = msg :: rest)
      (hfs : fs = [] ∨ fs = [.rst st.id]) :
      ConnStep tty c fs
        { c with phase := .leaving st, inbox := rest, client := client, out := c.out ++ fs }
  -- from the client
  | sentData {st : MuxStream} {r : Relay} {pieces : List Bytes} {rest : Bytes}
      (hphase : c.phase = .relaying st r) (hup : r.up = true)
      (hunread : c.client.unread = pieces.flatten ++ rest) :
      ConnStep tty c (pieces.map (.data st.id))
        { c with
          client := { c.client with unread := rest }
          out := c.out ++ pieces.map (.data st.id) }
  | upEnded {st : MuxStream} {r : Relay} {client : Client} {fs : List OwnedFrame}
      (hphase : c.phase = .relaying st r) (hup : r.up = true)
      (hfs : fs = [] ∨ fs = [.close st.id] ∨ fs = [.rst st.id]) :
      ConnStep tty c fs
        { c with
          phase := .relaying st { r with up := false }
          client := client
          out := c.out ++ fs }
  -- to the client
  | delivered {st : MuxStream} {r : Relay} {bytes : Bytes} {rest : List Inbound}
      (hphase : c.phase = .relaying st r) (hdown : r.down = true)
      (hinbox : c.inbox = .data bytes :: rest)
      (hfew : r.ungranted + bytes.length < WINDOW_GRANT_THRESHOLD) :
      ConnStep tty c []
        ((Conn.deliver { c with inbox := rest } bytes).setRelay st
          { r with ungranted := r.ungranted + bytes.length })
  | granted {st : MuxStream} {r : Relay} {bytes : Bytes} {rest : List Inbound}
      (hphase : c.phase = .relaying st r) (hdown : r.down = true)
      (hinbox : c.inbox = .data bytes :: rest) :
      ConnStep tty c (send tty (.window st.id (UInt32.ofNat (r.ungranted + bytes.length)))).toList
        { (Conn.deliver { c with inbox := rest } bytes).setRelay st { r with ungranted := 0 } with
          out := c.out ++
            (send tty (.window st.id (UInt32.ofNat (r.ungranted + bytes.length)))).toList }
  | downFailed {st : MuxStream} {r : Relay} {bytes : Bytes} {n : Nat} {rest : List Inbound}
      {fs : List OwnedFrame} (hphase : c.phase = .relaying st r) (hdown : r.down = true)
      (hinbox : c.inbox = .data bytes :: rest) (hfs : fs = [] ∨ fs = [.rst st.id]) :
      ConnStep tty c fs
        { (Conn.deliver { c with inbox := rest } (bytes.take n)).setRelay st
            { r with down := false } with out := c.out ++ fs }
  | downEnded {st : MuxStream} {r : Relay} {msg : Inbound} {rest : List Inbound}
      (hphase : c.phase = .relaying st r) (hdown : r.down = true) (hinbox : c.inbox = msg :: rest) :
      ConnStep tty c [] (Conn.setRelay { c with inbox := rest } st { r with down := false })
  | ignored {st : MuxStream} {r : Relay} {msg : Inbound} {rest : List Inbound}
      (hphase : c.phase = .relaying st r) (hdown : r.down = true) (hinbox : c.inbox = msg :: rest)
      (hmsg : bytesOf msg = []) :
      ConnStep tty c [] { c with inbox := rest }

section Moves

variable {tty : Bool} {c : Conn}

theorem ConnStep.silent {c' : Conn} (h : ConnStep tty c [] c') (hout : c'.out = c.out) :
    ConnStep tty c [] { c' with out := c.out ++ [] } := by
  rw [List.append_nil, ← hout]
  exact h

theorem toList_send (tty : Bool) (frame : EgressFrame) :
    (send tty frame).toList = [] ∨ (send tty frame).toList = [toOwned frame] := by
  rcases hsend : send tty frame with _ | f
  · exact .inl rfl
  · rw [(send_eq_some hsend).2]
    exact .inr rfl

theorem negotiate_step (writable : Bool) : ConnStep tty c [] (c.negotiate writable) := by
  unfold Conn.negotiate
  split
  · rename_i hphase
    split
    · exact .negotiated hphase
    · exact .refused hphase
    · exact .refused hphase
  · exact .stay

theorem sendOpen_step : ConnStep tty c (c.sendOpen tty).2
    { (c.sendOpen tty).1 with out := c.out ++ (c.sendOpen tty).2 } := by
  unfold Conn.sendOpen
  split
  · rename_i st hphase
    split
    · rename_i f hsend
      rw [(send_eq_some hsend).2]
      exact .opened hphase
    · exact (ConnStep.openFailed hphase).silent rfl
  · exact ConnStep.stay.silent rfl

theorem verdict_step (replyOk cloneOk : Bool) : ConnStep tty c (c.verdict tty replyOk cloneOk).2
    { (c.verdict tty replyOk cloneOk).1 with
      out := c.out ++ (c.verdict tty replyOk cloneOk).2 } := by
  unfold Conn.verdict
  split
  · rename_i st rest hphase hinbox
    dsimp only
    split
    · refine (ConnStep.connected hphase hinbox ?_).silent rfl
      cases replyOk <;> rfl
    · exact .gaveUp hphase hinbox (toList_send tty (.rst st.id))
  · rename_i hphase hinbox
    exact .gaveUp hphase hinbox (.inl rfl)
  · rename_i hphase hinbox
    exact .gaveUp hphase hinbox (.inl rfl)
  · exact ConnStep.stay.silent rfl

theorem relayUp_step (res : ClientRead) : ConnStep tty c (c.relayUp tty res).2
    { (c.relayUp tty res).1 with out := c.out ++ (c.relayUp tty res).2 } := by
  unfold Conn.relayUp
  split
  · rename_i st r hphase
    by_cases hup : r.up = true
    · rw [if_pos hup]
      cases res with
      | eof => exact .upEnded hphase hup ((toList_send tty (.close st.id)).imp_right .inl)
      | err => exact .upEnded hphase hup ((toList_send tty (.rst st.id)).imp_right .inr)
      | interrupted => exact ConnStep.stay.silent rfl
      | got n =>
        dsimp only
        split
        · exact ConnStep.stay.silent rfl
        · rename_i hne
          cases tty with
          | true =>
            obtain ⟨pieces, hpieces, hsent⟩ :=
              sendData_true st.id (c.client.unread.take (min n READ_CHUNK))
            rw [hsent, if_pos rfl]
            refine .sentData hphase hup ?_
            rw [hpieces, List.take_append_drop]
          | false =>
            -- the bytes just read are lost with the transport
            rw [sendData_false st.id (by simpa using hne), if_neg (by simp)]
            exact .upEnded hphase hup (.inl rfl)
    · rw [if_neg hup]
      exact ConnStep.stay.silent rfl
  · exact ConnStep.stay.silent rfl

theorem relayDown_step (res : ClientWrite) : ConnStep tty c (c.relayDown tty res).2
    { (c.relayDown tty res).1 with out := c.out ++ (c.relayDown tty res).2 } := by
  unfold Conn.relayDown
  split
  · rename_i st r msg rest hphase hinbox
    by_cases hdown : r.down = true
    · rw [if_pos hdown]
      cases msg with
      | data bytes =>
        cases res with
        | failed n => exact .downFailed hphase hdown hinbox (toList_send tty (.rst st.id))
        | all =>
          dsimp only
          split
          · exact .granted hphase hdown hinbox
          · rename_i hfew
            exact (ConnStep.delivered hphase hdown hinbox (by omega)).silent rfl
      | close | rst => exact (ConnStep.downEnded hphase hdown hinbox).silent rfl
      | connected | failed => exact (ConnStep.ignored hphase hdown hinbox rfl).silent rfl
    · rw [if_neg hdown]
      exact ConnStep.stay.silent rfl
  · exact ConnStep.stay.silent rfl

theorem move_step (mv : Move) : ConnStep tty c (c.move tty mv).2 (c.moved tty mv) := by
  unfold Conn.moved
  cases mv with
  | clientSends bytes => exact (ConnStep.clientSends bytes).silent rfl
  | negotiate writable =>
    refine (negotiate_step writable).silent ?_
    unfold Conn.negotiate
    split
    · split <;> rfl
    · rfl
  | sendOpen => exact sendOpen_step
  | verdict replyOk cloneOk => exact verdict_step replyOk cloneOk
  | relayUp res => exact relayUp_step res
  | relayDown res => exact relayDown_step res

end Moves

/-! ## What a connection keeps -/

/-- Nothing has been relayed yet. -/
@[simp] def Phase.early : Phase → Prop
  | .relaying _ _ => False
  | .leaving _ => False
  | .gone _ => False
  | _ => True

/-- The client's bytes that are unread will be sent. -/
@[simp] def Phase.reads : Phase → Prop
  | .ready _ => True
  | .opening _ => True
  | .awaiting _ => True
  | .relaying _ r => r.up = true
  | _ => False

/-- The data that waits in the inbox will be delivered. -/
@[simp] def Phase.hears : Phase → Prop
  | .opening _ => True
  | .awaiting _ => True
  | .relaying _ r => r.down = true
  | _ => False

/-- The frames a connection has sent, by its phase: nothing before the `OPEN`, and
no other `OPEN` after it. -/
@[simp] def Phase.sends : Phase → List OwnedFrame → Prop
  | .negotiating, out => out = []
  | .refused, out => out = []
  | .ready _, out => out = []
  | .opening _, out => out = []
  | .awaiting st, out => out = [st.openFrame]
  | .relaying st _, out => ∃ rest, out = st.openFrame :: rest ∧ ∀ f ∈ rest, isOpen f = false
  | .leaving st, out | .gone st, out =>
    out = [] ∨ ∃ rest, out = st.openFrame :: rest ∧ ∀ f ∈ rest, isOpen f = false

structure Conn.Sound (c : Conn) : Prop where
  idle : c.phase.stream? = none → c.fed = [] ∧ c.inbox = []
  quiet : c.phase.early → c.delivered = []
  sends : c.phase.sends c.out
  own : ∀ st, c.phase.stream? = some st → ∀ f ∈ c.out, f.stream = st.id
  up : clientData c.out <+: c.payload
  reads : c.phase.reads → clientData c.out ++ c.client.unread = c.payload
  down : c.delivered <+: hostData c.fed
  hears : c.phase.hears → c.delivered ++ queued c.inbox = hostData c.fed

theorem new_sound : Conn.new.Sound := by
  constructor <;> simp [Conn.new]

section Keeps

variable {tty : Bool} {c c' : Conn} {fs : List OwnedFrame}

/-- The `OPEN` is at the front, and there is no other. -/
def OpensWith (st : MuxStream) (out : List OwnedFrame) : Prop :=
  ∃ rest, out = st.openFrame :: rest ∧ ∀ f ∈ rest, isOpen f = false

theorem OpensWith.append {st : MuxStream} {out : List OwnedFrame} (h : OpensWith st out)
    (hfs : ∀ f ∈ fs, isOpen f = false) : OpensWith st (out ++ fs) := by
  obtain ⟨rest, rfl, hrest⟩ := h
  refine ⟨rest ++ fs, rfl, ?_⟩
  intro f hf
  rcases List.mem_append.mp hf with hf | hf
  · exact hrest f hf
  · exact hfs f hf

theorem Conn.Sound.opens (h : c.Sound) : c.out = [] ∨ ∃ st, OpensWith st c.out := by
  have hsends := h.sends
  cases hphase : c.phase with
  | relaying st r =>
    rw [hphase] at hsends
    exact .inr ⟨st, hsends⟩
  | leaving st | gone st =>
    rw [hphase] at hsends
    exact hsends.imp_right fun hopens => ⟨st, hopens⟩
  | awaiting st =>
    rw [hphase] at hsends
    exact .inr ⟨st, [], hsends, by simp⟩
  | _ =>
    rw [hphase] at hsends
    exact .inl hsends

theorem Conn.Sound.relays {st : MuxStream} {r r' : Relay} (h : c.Sound)
    (hphase : c.phase = .relaying st r) (hphase' : c'.phase = .relaying st r')
    (hout : c'.out = c.out ++ fs) (hplain : ∀ f ∈ fs, isOpen f = false ∧ f.stream = st.id)
    (hup : clientData c'.out <+: c'.payload)
    (hreads : r'.up = true → clientData c'.out ++ c'.client.unread = c'.payload)
    (hdown : c'.delivered <+: hostData c'.fed)
    (hhears : r'.down = true → c'.delivered ++ queued c'.inbox = hostData c'.fed) : c'.Sound := by
  have hsends := h.sends
  have hown := h.own
  rw [hphase] at hsends hown
  refine ⟨by simp [hphase'], by simp [hphase'], ?_, ?_, hup, ?_, hdown, ?_⟩
  · rw [hphase', hout]
    exact OpensWith.append hsends fun f hf => (hplain f hf).1
  · rw [hphase', hout]
    intro st' hst f hf
    rcases List.mem_append.mp hf with hf | hf
    · exact hown st' hst f hf
    · rw [(hplain f hf).2, Option.some.inj hst]
  · rw [hphase']
    exact hreads
  · rw [hphase']
    exact hhears

/-- Frames of the stream of which none is an `OPEN` and none carries data. -/
def Plain (st : MuxStream) (fs : List OwnedFrame) : Prop :=
  (∀ f ∈ fs, isOpen f = false ∧ f.stream = st.id) ∧ clientData fs = []

theorem plain_nil (st : MuxStream) : Plain st [] := by simp [Plain]

theorem plain_window (tty : Bool) (st : MuxStream) (credit : UInt32) :
    Plain st (send tty (.window st.id credit)).toList := by
  rcases toList_send tty (.window st.id credit) with hsend | hsend <;> rw [hsend] <;>
    simp [Plain, OwnedFrame.stream, toOwned]

theorem Conn.Sound.relays_plain {st : MuxStream} {r r' : Relay} (h : c.Sound)
    (hphase : c.phase = .relaying st r) (hphase' : c'.phase = .relaying st r')
    (hout : c'.out = c.out ++ fs) (hplain : Plain st fs) (hpayload : c'.payload = c.payload)
    (hup : r'.up = true → r.up = true ∧ c'.client.unread = c.client.unread)
    (hdown : c'.delivered <+: hostData c'.fed)
    (hhears : r'.down = true → c'.delivered ++ queued c'.inbox = hostData c'.fed) : c'.Sound := by
  have hdata : clientData c'.out = clientData c.out := by
    rw [hout, clientData_append, hplain.2, List.append_nil]
  refine h.relays hphase hphase' hout hplain.1 ?_ ?_ hdown hhears
  · rw [hdata, hpayload]
    exact h.up
  · intro hr
    have hreads := h.reads
    simp only [hphase, Phase.reads] at hreads
    rw [hdata, hpayload, (hup hr).2]
    exact hreads (hup hr).1

theorem step_sound (hstep : ConnStep tty c fs c') (h : c.Sound) : c'.Sound := by
  have hsound := h
  obtain ⟨hidle, hquiet, hsends, hown, hup, hreads, hdown, hhears⟩ := h
  cases hstep with
  | stay => exact hsound
  | clientSends bytes =>
    -- what the client sends is payload once the handshake is over
    refine ⟨hidle, hquiet, hsends, hown, ?_, ?_, hdown, hhears⟩
    · unfold Conn.clientSends
      dsimp only
      split
      · exact hup
      · exact hup.trans (List.prefix_append _ _)
    · intro hr
      have hne : c.phase ≠ .negotiating := by
        rintro heq
        simp [Conn.clientSends, heq] at hr
      simp only [Conn.clientSends, if_neg hne, ← hreads hr, List.append_assoc]
  | @negotiated client target hphase =>
    -- the payload begins with what the client sent after its request
    simp only [hphase, Phase.sends, Phase.stream?, Phase.early, forall_const] at *
    refine ⟨fun _ => hidle, fun _ => hquiet, hsends, by simp, ?_, ?_, hdown, by simp⟩
    · rw [hsends]
      exact List.nil_prefix
    · intro _
      rw [hsends]
      rfl
  | @refused client hphase =>
    simp only [hphase, Phase.sends, Phase.stream?, Phase.early, forall_const] at *
    exact ⟨fun _ => hidle, fun _ => hquiet, hsends, by simp, hup, by simp, hdown, by simp⟩
  | @opened st hphase =>
    -- nothing was sent before the OPEN
    simp only [hphase, Phase.sends, Phase.stream?, Phase.early, Phase.reads, Phase.hears,
      forall_const] at *
    have hout : c.out ++ [st.openFrame] = [st.openFrame] := by rw [hsends, List.nil_append]
    rw [hsends] at hup hreads
    rw [hout]
    refine ⟨by simp, fun _ => hquiet, rfl, ?_, hup, fun _ => hreads, hdown, fun _ => hhears⟩
    rintro _ ⟨⟩ f hf
    rw [List.mem_singleton.mp hf]
    rfl
  | openFailed hphase =>
    simp only [hphase, Phase.sends, Phase.stream?] at *
    exact ⟨by simp, by simp, .inl hsends, hown, hup, by simp, hdown, by simp⟩
  | connected hphase hinbox hclient =>
    simp only [hphase, hinbox, Phase.sends, Phase.stream?, Phase.early, Phase.reads, Phase.hears,
      forall_const] at *
    refine ⟨by simp, by simp, ⟨[], hsends, by simp⟩, hown, hup, ?_, hdown, ?_⟩
    · intro _
      rw [hclient]
      exact hreads
    · intro _
      simpa using hhears
  | @gaveUp st msg rest client fs hphase hinbox hfs =>
    -- a reset may follow the OPEN, and nothing after it
    simp only [hphase, Phase.sends, Phase.stream?] at *
    have hplain : Plain st fs := by
      rcases hfs with rfl | rfl <;> simp [Plain, OwnedFrame.stream]
    have hopens : OpensWith st (c.out ++ fs) :=
      OpensWith.append ⟨[], hsends, by simp⟩ fun f hf => (hplain.1 f hf).1
    refine ⟨by simp, by simp, .inr hopens, ?_, ?_, by simp, hdown, by simp⟩
    · intro st' hst f hf
      rcases List.mem_append.mp hf with hf | hf
      · exact hown st' hst f hf
      · rw [(hplain.1 f hf).2, Option.some.inj hst]
    · rw [clientData_append, hplain.2, List.append_nil]
      exact hup
  | @sentData st r pieces rest hphase hrun hunread =>
    -- the one move whose frames carry data: what was unread is split into pieces and a rest
    simp only [hphase, Phase.reads, Phase.hears] at hreads hhears
    have hall : clientData (c.out ++ pieces.map (.data st.id)) ++ rest = c.payload := by
      rw [clientData_append, clientData_pieces, List.append_assoc, ← hunread]
      exact hreads hrun
    refine hsound.relays hphase hphase rfl ?_ ?_ (fun _ => hall) hdown hhears
    · intro f hf
      obtain ⟨piece, -, rfl⟩ := List.mem_map.mp hf
      exact ⟨rfl, rfl⟩
    · exact ⟨rest, hall⟩
  | @upEnded st r client fs hphase hrun hfs =>
    simp only [hphase, Phase.hears] at hhears
    have hplain : Plain st fs := by
      rcases hfs with rfl | rfl | rfl <;> simp [Plain, OwnedFrame.stream]
    exact hsound.relays_plain hphase rfl rfl hplain rfl (by simp) hdown hhears
  | @delivered st r bytes rest hphase hrun hinbox hfew =>
    -- the first message of the inbox goes to the client, with no window to grant yet
    simp only [hphase, hinbox, Phase.hears, queued_cons, bytesOf] at hhears
    have hall : c.delivered ++ bytes ++ queued rest = hostData c.fed := by
      rw [List.append_assoc]
      exact hhears hrun
    exact hsound.relays_plain hphase rfl (List.append_nil _).symm (plain_nil st) rfl
      (fun hr => ⟨hr, rfl⟩) ⟨_, hall⟩ fun _ => hall
  | @granted st r bytes rest hphase hrun hinbox =>
    -- as before, and a window frame that the terminal may refuse
    simp only [hphase, hinbox, Phase.hears, queued_cons, bytesOf] at hhears
    have hall : c.delivered ++ bytes ++ queued rest = hostData c.fed := by
      rw [List.append_assoc]
      exact hhears hrun
    exact hsound.relays_plain hphase rfl rfl (plain_window tty st _) rfl (fun hr => ⟨hr, rfl⟩)
      ⟨_, hall⟩ fun _ => hall
  | @downFailed st r bytes n rest fs hphase hrun hinbox hfs =>
    -- the client took only the first bytes of a message
    simp only [hphase, hinbox, Phase.hears, queued_cons, bytesOf] at hhears
    have hplain : Plain st fs := by
      rcases hfs with rfl | rfl <;> simp [Plain, OwnedFrame.stream]
    have hpart : c.delivered ++ bytes.take n <+: hostData c.fed := by
      rw [← hhears hrun]
      exact (List.prefix_append_right_inj _).mpr
        ((List.take_prefix n bytes).trans (List.prefix_append _ _))
    exact hsound.relays_plain hphase rfl rfl hplain rfl (fun hr => ⟨hr, rfl⟩) hpart (by simp)
  | downEnded hphase hrun hinbox =>
    exact hsound.relays_plain hphase rfl (List.append_nil _).symm (plain_nil _) rfl
      (fun hr => ⟨hr, rfl⟩) hdown (by simp)
  | ignored hphase hrun hinbox hmsg =>
    simp only [hphase, hinbox, Phase.hears, queued_cons, hmsg, List.nil_append] at hhears
    exact hsound.relays_plain hphase hphase (List.append_nil _).symm (plain_nil _) rfl
      (fun hr => ⟨hr, rfl⟩) hdown hhears

theorem register_sound {target : Socks5Target} (h : c.Sound) (hphase : c.phase = .ready target)
    (id : StreamId) : (c.register ⟨id, target⟩).Sound := by
  obtain ⟨hidle, hquiet, hsends, hown, hup, hreads, hdown, hhears⟩ := h
  simp only [hphase, Phase.sends, Phase.stream?, Phase.early, Phase.reads, forall_const] at *
  refine ⟨by simp [Conn.register], fun _ => hquiet, hsends, ?_, hup, fun _ => hreads, hdown, ?_⟩
  · intro st hst f hf
    simp [Conn.register, hsends] at hf
  · intro _
    simp [Conn.register, hquiet, hidle]

theorem receive_sound (h : c.Sound) (hheld : c.phase.held? ≠ none) (frame : EgressFrame) :
    (c.receive frame).Sound := by
  obtain ⟨hidle, hquiet, hsends, hown, hup, hreads, hdown, hhears⟩ := h
  refine ⟨?_, hquiet, hsends, hown, hup, hreads, ?_, ?_⟩
  · intro hnone
    have hstream : c.phase.stream? = none := hnone
    cases hphase : c.phase <;> simp [hphase] at hheld hstream
  · show c.delivered <+: hostData (c.fed ++ [frame])
    rw [hostData_append]
    exact hdown.trans (List.prefix_append _ _)
  · intro hear
    show c.delivered ++ queued (c.inbox ++ (inbound frame).toList) = hostData (c.fed ++ [frame])
    rw [queued_append, queued_inbound, hostData_append, ← List.append_assoc, hhears hear]
    simp

theorem leave_sound {st : MuxStream} (h : c.Sound) (hleave : c.leaves? = some st) :
    { c with phase := .gone st }.Sound := by
  obtain ⟨hidle, hquiet, hsends, hown, hup, hreads, hdown, hhears⟩ := h
  unfold Conn.leaves? at hleave
  split at hleave
  · rename_i st' hphase
    obtain rfl : st' = st := Option.some.inj hleave
    simp only [hphase, Phase.sends, Phase.stream?] at *
    exact ⟨by simp, by simp, hsends, hown, hup, by simp, hdown, by simp⟩
  · rename_i st' r hphase
    split at hleave
    · obtain rfl : st' = st := Option.some.inj hleave
      simp only [hphase, Phase.sends, Phase.stream?] at *
      exact ⟨by simp, by simp, .inr hsends, hown, hup, by simp, hdown, by simp⟩
    · contradiction
  · contradiction

end Keeps

end Tdvmm.Forwarder
