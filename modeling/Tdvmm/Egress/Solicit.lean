import Mathlib.Algebra.BigOperators.Group.Finset.Piecewise
import Mathlib.Algebra.Order.BigOperators.Group.Finset
import Mathlib.Data.FinEnum
import Tdvmm.Egress.Refine
import Tdvmm.Proto.Codec

/-!
# Egress.Solicit — what the frames of a guest can make the host send

Some guest frames can make the backend send: an `OPEN`, a `DATA` and a frame that only the host
may send are answered, or can be, and a `WINDOW` grant lets a live session send more.

What a session may still send is `Session.owed`: its credit, with a header for every byte in the
worst case, and the few frames that open and end it. So the bytes sent are bounded by the frames
counted (`wire_le`).
-/

namespace Tdvmm.Egress

open Lib Tdvmm.Proto

/-! ## Soliciting frames -/

/-- Whether a stream can have a session after one more of its frames, and whether the guest has
then half-closed it. -/
def standingAfter (st : Option Bool) : OwnedFrame → Option Bool
  | .openTo _ port host => if host ≠ [] ∧ port ≠ 0 then some false else none
  | .data _ _ => if st = some true then none else st
  | .close _ => st.map fun _ => true
  | .rst _ => none
  | .window _ _ => st
  | .unexpected _ => none

/-- Whether the host can come to send because of the frame. -/
def solicits (st : Option Bool) : OwnedFrame → Bool
  | .openTo _ _ _ => true
  | .data _ _ => true
  | .close _ => false
  | .rst _ => false
  | .window _ credit => st.isSome && credit != 0
  | .unexpected _ => true

structure Tally where
  standing : Option Bool
  count : Nat
deriving DecidableEq, Repr

def Tally.step (t : Tally) (f : OwnedFrame) : Tally :=
  ⟨standingAfter t.standing f, t.count + if solicits t.standing f then 1 else 0⟩

def tally (fs : List OwnedFrame) : Tally := fs.foldl Tally.step ⟨none, 0⟩

def solicitations (id : StreamId) (fs : List OwnedFrame) : Nat :=
  (tally (fs.filter fun f => f.stream == id)).count

section Tally

variable {fs fs' : List OwnedFrame} {id : StreamId}

@[simp] theorem tally_nil : tally [] = ⟨none, 0⟩ := rfl

@[simp] theorem tally_append : tally (fs ++ fs') = fs'.foldl Tally.step (tally fs) :=
  List.foldl_append

theorem count_foldl_le (t : Tally) : t.count ≤ (fs.foldl Tally.step t).count := by
  induction fs generalizing t with
  | nil => exact le_refl _
  | cons f fs ih => exact (Nat.le_add_right _ _).trans (ih (t.step f))

theorem solicitations_mono (h : fs <+: fs') : solicitations id fs ≤ solicitations id fs' := by
  obtain ⟨more, rfl⟩ := h
  unfold solicitations
  rw [List.filter_append, tally_append]
  exact count_foldl_le _

end Tally

/-! ## What a session owes -/

/-- The guest has no answer to its `OPEN` yet. -/
def Session.isEarly (s : Session) : Bool := s.state = .resolving ∨ s.state = .connecting

/-- What a session may send apart from `DATA`: `OPEN_OK`, `CLOSE`, and the frame that ends it. -/
def Session.signals (s : Session) : Nat :=
  (if s.isEarly then 6 else 0) + (if s.hostCloseSent then 0 else 6) + 7

/-- The most bytes that a session can come to send without another guest frame; a byte of credit
is at worst a frame of its own. -/
def Session.owed (s : Session) : Nat := 7 * s.toGuestCredit + s.signals

def StreamView.owed (v : StreamView) : Nat := v.sess.elim 0 Session.owed

/-- More than one frame can add to what is owed. -/
def FRAME_COST : Nat := 7 * 2 ^ 33

/-- What a stream has sent and still owes has been solicited. -/
structure Solicited (v : StreamView) : Prop where
  standing : ∀ s, v.sess = some s → (tally (recvs v.hist)).standing = some s.guestWriteClosed
  paid : (wire v.hist).length + v.owed ≤ FRAME_COST * (tally (recvs v.hist)).count

section Steps

variable {calm : Prop} {id : StreamId} {sess sess' : Option Session} {s : Session} {r r' : Bool}
  {h : List Ev}

theorem Solicited.pay (hinv : Solicited ⟨some s, r, h⟩) (es : List Ev) (hes : recvs es = [])
    (hsess : ∀ s', sess' = some s' → s'.guestWriteClosed = s.guestWriteClosed)
    (hpay : (wire es).length + sess'.elim 0 Session.owed ≤ s.owed) :
    Solicited ⟨sess', r', h ++ es⟩ := by
  -- a step without a guest frame pays from what is owed
  have hpaid := hinv.paid
  have hst := hinv.standing s rfl
  simp only [StreamView.owed, Option.elim_some] at hpaid hst
  constructor
  · intro s' hs'
    rw [recvs_append, hes, List.append_nil, hst, hsess s' hs']
  · simp only [StreamView.owed, recvs_append, hes, List.append_nil, wire_append,
      List.length_append]
    omega

theorem Solicited.take (hinv : Solicited ⟨sess, r, h⟩) (f : OwnedFrame) (es : List Ev)
    (hes : recvs es = [f])
    (hsess : ∀ s', sess' = some s' →
      standingAfter (tally (recvs h)).standing f = some s'.guestWriteClosed)
    (hpay : (wire es).length + sess'.elim 0 Session.owed ≤
      sess.elim 0 Session.owed + if solicits (tally (recvs h)).standing f then FRAME_COST else 0) :
    Solicited ⟨sess', r', h ++ es⟩ := by
  -- a guest frame adds to it only when it solicits
  have hpaid := hinv.paid
  simp only [StreamView.owed] at hpaid
  constructor
  · intro s' hs'
    rw [recvs_append, hes, tally_append]
    exact hsess s' hs'
  · simp only [StreamView.owed, recvs_append, hes, tally_append, List.foldl_cons, List.foldl_nil,
      Tally.step, wire_append, List.length_append, Nat.mul_add]
    split_ifs at hpay ⊢ <;> omega

@[simp] theorem length_encode_rst : (encode (.rst id) []).2.length = 6 := rfl

@[simp] theorem length_encode_openOk : (encode (.openOk id) []).2.length = 6 := rfl

@[simp] theorem length_encode_close : (encode (.close id) []).2.length = 6 := rfl

@[simp] theorem length_encode_openErr (reason : EgressReason) :
    (encode (.openErr id reason) []).2.length = 7 := rfl

theorem length_encode_data {payload : Bytes} (hsize : payload.length ≤ EGRESS_MAX_PAYLOAD) :
    (encode (.data id payload) []).2.length = 6 + payload.length := by
  have hencodable : (EgressFrame.data id payload).Encodable := hsize
  rw [encode_of_encodable hencodable, List.length_append, length_header]
  rfl

@[simp] theorem wire_ended (sess : Option Session) : wire (ended id sess) = [] := by
  unfold ended
  split <;> rfl

theorem rejects_solicits {f : OwnedFrame} {st : Option Bool} (hrej : rejects f sess r = true) :
    solicits st f = true := by
  cases f with
  | close | rst | window => cases hrej
  | _ => rfl

theorem credit_le_owed : 7 * s.toGuestCredit + 7 ≤ s.owed := by
  unfold Session.owed Session.signals
  omega

theorem owed_le {s' : Session} (hcredit : s'.toGuestCredit ≤ s.toGuestCredit)
    (hearly : s'.isEarly = true → s.isEarly = true)
    (hsent : s.hostCloseSent = true → s'.hostCloseSent = true) : s'.owed ≤ s.owed := by
  unfold Session.owed Session.signals
  split_ifs <;> simp_all <;> omega

theorem owed_newResolving : Session.newResolving.owed = 7 * (32 * 1024) + 19 := by
  simp [Session.owed, Session.signals, Session.newResolving, Session.isEarly, WINDOW_BYTES]

theorem not_early_of_open (h : s.isOpen) : s.isEarly = false := by
  rcases h with hst | hst <;> simp [Session.isEarly, hst]

theorem owed_window (s : Session) (credit : UInt32) :
    0 + Session.owed { s with
        toGuestCredit := min (s.toGuestCredit + credit.toNat) USIZE_MAX } ≤
      s.owed +
        if solicits (some s.guestWriteClosed) (.window id credit) then FRAME_COST else 0 := by
  have hcredit := credit.toNat_lt
  have hsignals (n : Nat) : Session.signals { s with toGuestCredit := n } = s.signals := rfl
  unfold Session.owed
  rw [hsignals]
  by_cases hzero : credit = 0
  · have hcapped : min (s.toGuestCredit + 0) USIZE_MAX ≤ s.toGuestCredit := Nat.min_le_left _ _
    simp only [hzero, UInt32.toNat_zero]
    omega
  · simp only [solicits, Option.isSome_some, Bool.true_and, bne_iff_ne, ne_eq, hzero,
      not_false_eq_true, if_true, FRAME_COST]
    omega

theorem solicited_frame {v v' : StreamView} (hstep : StreamStep calm id v v')
    (hframe : recvs v'.hist ≠ recvs v.hist) (hinv : Solicited v) : Solicited v' := by
  cases hstep with
  | accept hhost hport =>
    refine hinv.take (.openTo id _ _) _ rfl (fun s' hs' => ?_) ?_
    · rw [← Option.some.inj hs', standingAfter, if_pos ⟨hhost, hport⟩]
      rfl
    · simp [wire, sents, solicits, owed_newResolving, FRAME_COST]
  | refuse =>
    refine hinv.take (.openTo id _ _) _ rfl (fun s' hs' => by cases hs') ?_
    simp [wire, sents, solicits, FRAME_COST]
  | @reject sess r h f hid hrej =>
    -- the RST is paid for by the frame it answers
    refine hinv.take f _ ?_ (fun s' hs' => by cases hs') ?_
    · rw [recvs_append, (ended_quiet id sess).1]
      rfl
    · rw [if_pos (rejects_solicits hrej), wire_append, wire_ended]
      simp only [wire, sents, Ev.frames, List.flatMap_cons, List.flatMap_nil, List.nil_append,
        List.append_nil, length_encode_rst, Option.elim_none, FRAME_COST]
      omega
  | @data s r h payload hrej =>
    have hst := hinv.standing s rfl
    have hopen : s.guestWriteClosed = false := by
      simp only [rejects, Bool.or_eq_false_iff] at hrej
      exact hrej.1
    refine hinv.take (.data id payload) _ rfl (fun s' hs' => ?_) ?_
    · rw [← Option.some.inj hs', standingAfter, hst, hopen]
      rfl
    · rw [show wire [.recv (.data id payload) (some s) r] = [] from rfl]
      exact (le_of_eq (Nat.zero_add _)).trans (Nat.le_add_right _ _)
  | @close s r h =>
    -- a close makes nothing new owed: its own answer was already
    have hst := hinv.standing s rfl
    refine hinv.take (.close id) _ rfl (fun s' hs' => ?_) ?_
    · rw [← Option.some.inj hs', standingAfter, hst]
      rfl
    · have howed : s.closeGuest.owed ≤ s.owed := by
        refine owed_le (le_refl _) (fun hearly => ?_) (fun hsent => hsent)
        simp only [Session.closeGuest, Session.isEarly] at hearly ⊢
        split_ifs at hearly with hest
        · simp at hearly
        · exact hearly
      simpa [wire, sents, solicits] using howed
  | @window s r h credit =>
    have hst := hinv.standing s rfl
    refine hinv.take (.window id credit) _ rfl (fun s' hs' => ?_) ?_
    · rw [← Option.some.inj hs', standingAfter, hst]
    · rw [hst, show wire [.recv (.window id credit) (some s) r] = [] from rfl]
      exact owed_window s credit
  | @ignore r h f hf =>
    refine hinv.take f _ rfl (fun s' hs' => by cases hs') ?_
    exact Nat.zero_le _
  | @drop sess r h =>
    refine hinv.take (.rst id) _ ?_ (fun s' hs' => by cases hs') ?_
    · rw [recvs_append, (ended_quiet id sess).1]
      rfl
    · rw [wire_append, wire_ended]
      exact Nat.zero_le _
  -- the other steps receive no frame
  | _ => simp [recvs] at hframe

theorem solicited_step {v v' : StreamView} (hstep : StreamStep calm id v v') (hinv : Solicited v) :
    Solicited v' := by
  by_cases hframe : recvs v'.hist = recvs v.hist
  swap
  · exact solicited_frame hstep hframe hinv
  cases hstep with
  | @stale sess r h addr _ _ =>
    cases sess with
    | none => exact ⟨fun s' hs' => (by cases hs'), by
        simpa [wire, sents, recvs, StreamView.owed] using hinv.paid⟩
    | some s => exact hinv.pay _ rfl (by simp) (le_of_eq (Nat.zero_add _))
  | unresolved | unreachable | connectFailed | writeFailed | readFailed =>
    refine hinv.pay _ rfl (by simp) (le_trans ?_ credit_le_owed)
    simp [wire, sents]
  | @connect s r h addr _ hst =>
    refine hinv.pay _ rfl (by simp) ?_
    rw [show ∀ mask, wire [.harvest ⟨id, some addr⟩, .startConnect id addr true,
      .epollCtl id mask true] = [] from fun _ => rfl]
    refine (le_of_eq (Nat.zero_add _)).trans (owed_le (le_refl _) (fun _ => ?_) fun hsent => hsent)
    simp [Session.isEarly, hst]
  | @connected s r h hst =>
    -- `OPEN_OK` is owed up to here
    have hearly : s.isEarly = true := by simp [Session.isEarly, hst]
    have hopen : s.connected.isEarly = false := not_early_of_open (connected_isOpen s)
    refine hinv.pay _ ?_ (fun s' hs' => ?_) ?_
    · split_ifs <;> rfl
    · rw [← Option.some.inj hs']
      rfl
    · have hwire : (wire ([.pollConnect id s .connected, .sent (.openOk id)] ++
          if s.guestWriteClosed then [.shutdownWrite id] else [])).length = 6 := by
        split_ifs <;> simp [wire, sents]
      have hsignals : s.signals = s.connected.signals + 6 := by
        simp only [Session.signals, hearly, hopen, if_true, Bool.false_eq_true, if_false]
        rw [show s.connected.hostCloseSent = s.hostCloseSent from rfl]
        omega
      rw [hwire, Option.elim_some, Session.owed, Session.owed, hsignals]
      rw [show s.connected.toGuestCredit = s.toGuestCredit from rfl]
      omega
  | @eof s r h hopen hread =>
    refine hinv.pay _ rfl (by simp [Session.closeHost]) ?_
    rw [show wire [.read id (.got [])] = [] from rfl]
    refine (le_of_eq (Nat.zero_add _)).trans (owed_le (le_refl _) (fun hearly => ?_) fun hs => hs)
    rw [not_early_of_open (closeHost_isOpen hopen)] at hearly
    cases hearly
  | @frame s r h payload rest hopen hsplit hne hcredit hsize =>
    have hpos := List.length_pos_iff.mpr hne
    refine hinv.pay _ rfl (by simp) ?_
    have hwire : (wire [.sent (.data id payload)]).length = 6 + payload.length := by
      rw [← @length_encode_data id payload hsize]
      simp [wire, sents]
    have hsignals (n : Nat) : Session.signals { s with toGuest := rest, toGuestCredit := n } =
        s.signals := rfl
    rw [hwire, Option.elim_some, Session.owed, Session.owed, hsignals]
    dsimp only
    omega
  | @hostClose s r h hopen hread hempty hsent =>
    refine hinv.pay _ rfl (by simp) ?_
    have hwire : (wire [.sent (.close id)]).length = 6 := by simp [wire, sents]
    have hsignals : s.signals = Session.signals { s with hostCloseSent := true } + 6 := by
      simp only [Session.signals, hsent, if_true, Bool.false_eq_true, if_false]
      rw [show Session.isEarly { s with hostCloseSent := true } = s.isEarly from rfl]
    rw [hwire, Option.elim_some, Session.owed, Session.owed, hsignals]
    dsimp only
    omega
  | drained => exact hinv.pay _ rfl (by simp) (Nat.zero_le _)
  | connectStuck | pending | write | read | readBlocked | epoll | epollStuck =>
    exact hinv.pay _ rfl (by simp) (le_of_eq (Nat.zero_add _))
  | _ => simp [recvs] at hframe

end Steps

/-! ## All streams together -/

theorem solicited_steps {calm : Prop} {id : StreamId} {v : StreamView}
    (h : StreamSteps calm id .init v) : Solicited v := by
  induction h with
  | refl => exact ⟨fun s hs => (by cases hs), Nat.zero_le _⟩
  | tail _ hstep ih => exact solicited_step hstep ih

theorem length_wire_eq_sum (h : List Ev) :
    (wire h).length = ∑ id : StreamId, (wire (about id h)).length := by
  have hsent (h : List Ev) :
      (wire h).length = ((sents h).map fun f => (encode f []).2.length).sum := by
    rw [wire, List.length_flatMap]
  simp only [hsent, sents_about]
  induction sents h with
  | nil => simp
  | cons f fs ih =>
    have hsplit (id : StreamId) :
        (((f :: fs).filter fun f => f.stream == id).map fun f => (encode f []).2.length).sum =
          (if f.stream = id then (encode f []).2.length else 0) +
            ((fs.filter fun f => f.stream == id).map fun f => (encode f []).2.length).sum := by
      by_cases hf : f.stream = id <;> simp [hf]
    simp only [hsplit, Finset.sum_add_distrib, Finset.sum_ite_eq, Finset.mem_univ, if_true,
      List.map_cons, List.sum_cons, ih]

/-- However the connector answers, what has been enqueued is bounded by the soliciting frames. -/
theorem wire_le {calm : Prop} {b : Backend} {n : Nat}
    (hstreams : ∀ id, StreamSteps calm id .init (b.view id))
    (hn : ∀ id, solicitations id (recvs b.hist) ≤ n) :
    (wire b.hist).length ≤ Fintype.card StreamId * (FRAME_COST * n) := by
  have hone (id : StreamId) : (wire (about id b.hist)).length ≤ FRAME_COST * n := by
    have hpaid := (solicited_steps (hstreams id)).paid
    have hcount : (tally (recvs (about id b.hist))).count ≤ n := by
      rw [recvs_about]
      exact hn id
    calc (wire (about id b.hist)).length
        ≤ FRAME_COST * (tally (recvs (about id b.hist))).count := le_of_add_le_left hpaid
      _ ≤ FRAME_COST * n := Nat.mul_le_mul_left _ hcount
  rw [length_wire_eq_sum]
  exact Finset.sum_le_card_nsmul _ _ _ fun id _ => hone id

end Tdvmm.Egress
