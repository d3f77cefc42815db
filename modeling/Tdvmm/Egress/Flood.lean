import Mathlib.Tactic.Tauto
import Tdvmm.Egress.Flow

/-!
# Egress.Flood — how much a guest can make the host hold

* `flowing_run`: the grants since an `OPEN` can all be used, whatever else the guest has sent.
* `count_le`: the soliciting frames are demands and grants since some `OPEN`.
* `pending_bounded_iff`: with the bound of `Egress.Stall`, the pending bytes are bounded over a
  class of guest streams exactly when the soliciting frames are.
-/

namespace Tdvmm.Egress

open Lib Tdvmm.Proto

/-! ## Grants -/

def ofStream (id : StreamId) (fs : List EgressFrame) : List OwnedFrame :=
  (fs.map toOwned).filter fun f => f.stream == id

/-- The grants since the last `OPEN`, as long as the stream stands. -/
def grantsAfter (st : Option Bool) (n : Nat) : OwnedFrame → Nat
  | .openTo _ _ _ => 0
  | .window id credit => n + if solicits st (.window id credit) then 1 else 0
  | _ => n

def grants (fs : List OwnedFrame) : Nat :=
  (fs.foldl (fun t f => (t.1.step f, grantsAfter t.1.standing t.2 f)) (tally [], 0)).2

section Grants

variable {fs : List OwnedFrame} {f : OwnedFrame} {id : StreamId}

theorem grants_snoc : grants (fs ++ [f]) = grantsAfter (tally fs).standing (grants fs) f := by
  have htally : (fs.foldl (fun t f => (Tally.step t.1 f, grantsAfter t.1.standing t.2 f))
      (tally [], 0)).1 = tally fs := by
    induction fs using List.reverseRecOn with
    | nil => rfl
    | append_singleton fs f ih =>
      rw [List.foldl_append, tally_append, List.foldl_cons, List.foldl_nil, ih]
      rfl
  unfold grants
  rw [List.foldl_append, List.foldl_cons, List.foldl_nil, htally]

theorem ofStream_snoc (fs : List EgressFrame) (f : EgressFrame) :
    ofStream id (fs ++ [f]) =
      if (toOwned f).stream = id then ofStream id fs ++ [toOwned f] else ofStream id fs := by
  unfold ofStream
  rw [List.map_append, List.filter_append, List.map_singleton, List.filter_singleton]
  by_cases hf : (toOwned f).stream = id
  · rw [if_pos hf, hf, beq_self_eq_true]
    rfl
  · rw [if_neg hf, beq_false_of_ne hf]
    exact List.append_nil _

theorem standing_snoc : (tally (fs ++ [f])).standing = standingAfter (tally fs).standing f := by
  rw [tally_append]
  rfl

theorem grantsAfter_succ {st : Option Bool} {n : Nat} : grantsAfter st n f ≤ n + 1 := by
  cases f with
  | openTo => exact Nat.zero_le _
  | window id credit =>
    simp only [grantsAfter]
    split_ifs <;> omega
  | _ => exact Nat.le_succ n

theorem grantsAfter_le {st : Option Bool} {n : Nat}
    (hf : ∀ id credit, f = .window id credit → st = none ∨ credit = 0) :
    grantsAfter st n f ≤ n := by
  cases f with
  | openTo => exact Nat.zero_le _
  | window id credit =>
    rcases hf id credit rfl with rfl | rfl
    · exact le_refl _
    · simp [grantsAfter, solicits]
  | _ => exact le_refl _

theorem standingAfter_none (hf : ∀ id port host, f ≠ .openTo id port host) :
    standingAfter none f = none := by
  cases f with
  | openTo id port host => exact absurd rfl (hf id port host)
  | _ => rfl

/-- A run in which the grants since the last `OPEN` of `id` have been used. -/
structure Uses (capacity : Nat) (id : StreamId) (fs : List EgressFrame)
    (run : List (Env × Bytes)) : Prop where
  bytes : (run.map Prod.snd).flatten = frameBytes fs
  parsed : (stalled capacity run).backend.rxParse = []
  used : grants (ofStream id fs) ≤ (stalled capacity run).sent
  flows : ∀ closed, (tally (ofStream id fs)).standing = some closed →
    (stalled capacity run).backend.Flowing id closed

theorem frameBytes_snoc {run : List (Env × Bytes)} {fs : List EgressFrame} {f : EgressFrame}
    {env : Env} (h : (run.map Prod.snd).flatten = frameBytes fs) :
    ((run ++ [(env, (encode f []).2)]).map Prod.snd).flatten = frameBytes (fs ++ [f]) := by
  rw [List.map_append, List.flatten_append, h, frameBytes, frameBytes, List.flatMap_append]
  simp

theorem Uses.open {capacity : Nat} {fs : List EgressFrame} {port : UInt16} {host : Bytes}
    (hfs : WellFormed (fs ++ [.openTo id port host])) :
    ∃ run, Uses capacity id (fs ++ [.openTo id port host]) run := by
  -- an `OPEN` starts over: one that is valid finds an idle backend and is connected
  have hf := hfs (.openTo id port host) (by simp)
  have hfront : WellFormed fs := fun g hg => hfs g (List.mem_append_left _ hg)
  obtain ⟨hidle, hrx, -⟩ := @refused_run capacity fs hfront
  have hstream : ofStream id (fs ++ [.openTo id port host]) =
      ofStream id fs ++ [.openTo id port host] := by
    rw [ofStream_snoc]
    exact if_pos rfl
  refine ⟨refusals fs ++ [(.flowing id, (encode (.openTo id port host) []).2)],
    frameBytes_snoc (refusals_bytes fs), ?_, ?_, fun closed hst => ?_⟩
  · rw [stalled_snoc]
    exact (turn_consumes hf hrx).1
  · rw [hstream, grants_snoc]
    exact Nat.zero_le _
  · rw [hstream, standing_snoc, standingAfter] at hst
    split_ifs at hst with hvalid
    obtain ⟨b', hrun, s, hs, hflow⟩ := @flowing_open id _ port host hidle (by tauto)
    obtain ⟨rest, hbackend, -⟩ := @turn_frame _ _ _ capacity _ hf hrx hrun
    rw [stalled_snoc, hbackend, ← Option.some.inj hst]
    exact ⟨s, hs, hflow⟩

section Snoc

variable {capacity : Nat} {fs : List EgressFrame} {f : EgressFrame} {run : List (Env × Bytes)}

theorem Uses.other (h : Uses capacity id fs run) (hf : f.Encodable ∧ f.Canonical)
    (hid : (toOwned f).stream ≠ id) :
    Uses capacity id (fs ++ [f]) (run ++ [(.flowing id, (encode f []).2)]) := by
  obtain ⟨hrx, hle⟩ := @turn_consumes (.flowing id) f capacity _ hf h.parsed
  have hstream : ofStream id (fs ++ [f]) = ofStream id fs := by rw [ofStream_snoc, if_neg hid]
  refine ⟨frameBytes_snoc h.bytes, ?_, ?_, fun closed hst => ?_⟩
  · rw [stalled_snoc]
    exact hrx
  · rw [hstream, stalled_snoc]
    exact h.used.trans hle
  · rw [hstream] at hst
    obtain ⟨s, hs, hready, hisopen, -⟩ := h.flows closed hst
    obtain ⟨b₁, hframe, hsame, hle₁⟩ := @flowing_handleOther id
      (stalled capacity run).backend (toOwned f) hid
    obtain ⟨b', hrun, ⟨s', hs', hflow⟩, -⟩ :=
      flowing_rest hframe (hsame.trans hs) hready hisopen hle₁
    obtain ⟨rest, hbackend, -⟩ := @turn_frame _ _ _ capacity _ hf h.parsed hrun
    rw [stalled_snoc, hbackend]
    exact ⟨s', hs', hflow⟩

theorem Uses.own (h : Uses capacity id fs run) (hf : f.Encodable ∧ f.Canonical)
    (hid : (toOwned f).stream = id) (hopen : ∀ i port host, toOwned f ≠ .openTo i port host) :
    Uses capacity id (fs ++ [f]) (run ++ [(.flowing id, (encode f []).2)]) := by
  obtain ⟨hrx, hle⟩ := @turn_consumes (.flowing id) f capacity _ hf h.parsed
  have hsmall : ∀ payload, toOwned f = .data id payload → payload.length ≤ TO_SOCKET_CAP := by
    intro payload heq
    cases f with
    | data stream bytes =>
      cases heq
      have hbytes : payload.length ≤ EGRESS_MAX_PAYLOAD := hf.1
      unfold EGRESS_MAX_PAYLOAD at hbytes
      unfold TO_SOCKET_CAP
      omega
    | _ => cases heq
  have hstream : ofStream id (fs ++ [f]) = ofStream id fs ++ [toOwned f] := by
    rw [ofStream_snoc, if_pos hid]
  -- the frame is no grant, or the stream does not stand before or after it
  have hquiet (hused : grantsAfter (tally (ofStream id fs)).standing (grants (ofStream id fs))
        (toOwned f) ≤ grants (ofStream id fs))
      (hgone : standingAfter (tally (ofStream id fs)).standing (toOwned f) = none) :
      Uses capacity id (fs ++ [f]) (run ++ [(.flowing id, (encode f []).2)]) := by
    refine ⟨frameBytes_snoc h.bytes, by rw [stalled_snoc]; exact hrx, ?_, fun closed hst => ?_⟩
    · rw [hstream, grants_snoc, stalled_snoc]
      exact hused.trans (h.used.trans hle)
    · rw [hstream, standing_snoc, hgone] at hst
      cases hst
  cases hbefore : (tally (ofStream id fs)).standing with
  | none =>
    rw [hbefore] at hquiet
    exact hquiet (grantsAfter_le fun _ _ _ => .inl rfl) (standingAfter_none hopen)
  | some closed =>
    rw [hbefore] at hquiet
    cases hafter : standingAfter (some closed) (toOwned f) with
    | none =>
      refine hquiet (grantsAfter_le fun i credit heq => ?_) hafter
      rw [heq] at hafter
      cases hafter
    | some closed' =>
      obtain ⟨b₁, s', hframe, hs', hready, hisopen, htx, hcredit⟩ :=
        flowing_handle hid (hopen id) hsmall hafter (h.flows closed hbefore)
      obtain ⟨b', hrun, ⟨s'', hs'', hflow⟩, hle', hgain⟩ :=
        flowing_rest hframe hs' hready hisopen (by rw [htx])
      obtain ⟨rest, hbackend, hsent⟩ := @turn_frame _ _ _ capacity _ hf h.parsed hrun
      refine ⟨frameBytes_snoc h.bytes, by rw [stalled_snoc]; exact hrx, ?_,
        fun closed'' hst => ?_⟩
      · rw [hstream, grants_snoc, stalled_snoc, hsent, hbefore]
        have hused := h.used
        rw [Stalled.sent] at hused
        by_cases hgrant : ∃ credit, toOwned f = .window id credit ∧ credit ≠ 0
        · obtain ⟨credit, heq, hne⟩ := hgrant
          have hmore := hgain (hcredit credit heq hne)
          refine grantsAfter_succ.trans ?_
          omega
        · refine (grantsAfter_le fun i credit heq => .inr ?_).trans (by omega)
          by_contra hne
          refine hgrant ⟨credit, ?_, hne⟩
          rw [heq] at hid ⊢
          cases hid
          rfl
      · rw [hstream, standing_snoc, hbefore, hafter] at hst
        rw [stalled_snoc, hbackend, ← Option.some.inj hst]
        exact ⟨s'', hs'', hflow⟩

end Snoc

theorem flowing_run {capacity : Nat} {fs : List EgressFrame} (hfs : WellFormed fs)
    (id : StreamId) : ∃ run, Uses capacity id fs run := by
  induction fs using List.reverseRecOn with
  | nil =>
    refine ⟨[], rfl, rfl, Nat.zero_le _, fun closed hst => ?_⟩
    cases hst
  | append_singleton fs f ih =>
    have hf := hfs f (by simp)
    obtain ⟨run, hrun⟩ := ih fun g hg => hfs g (List.mem_append_left _ hg)
    by_cases hid : (toOwned f).stream = id
    · cases f with
      | openTo stream port host =>
        obtain rfl : stream = id := hid
        exact Uses.open hfs
      | _ => exact ⟨_, hrun.own hf hid (fun _ _ _ heq => by cases heq)⟩
    · exact ⟨_, hrun.other hf hid⟩

theorem count_le {fs : List EgressFrame} {m : Nat}
    (hgrants : ∀ p, p <+: fs → grants (ofStream id p) ≤ m) :
    (tally (ofStream id fs)).count ≤
      (m + 1) * (ofStream id fs).countP OwnedFrame.isDemand + grants (ofStream id fs) := by
  induction fs using List.reverseRecOn with
  | nil => exact Nat.zero_le _
  | append_singleton fs f ih =>
    have hfront := ih fun p hp => hgrants p (hp.trans (List.prefix_append _ _))
    have hlast := hgrants fs (List.prefix_append _ _)
    rw [ofStream_snoc]
    split_ifs with hid
    swap
    · exact hfront
    rw [grants_snoc, tally_append, List.countP_append, List.countP_singleton, List.foldl_cons,
      List.foldl_nil]
    cases toOwned f with
    | openTo =>
      -- the grants before it are charged to the `OPEN`
      simp only [Tally.step, solicits, OwnedFrame.isDemand, grantsAfter, if_true, Nat.mul_add]
      omega
    | data | unexpected =>
      simp only [Tally.step, solicits, OwnedFrame.isDemand, grantsAfter, if_true, Nat.mul_add]
      omega
    | window =>
      simp only [Tally.step, OwnedFrame.isDemand, grantsAfter, Bool.false_eq_true, if_false,
        Nat.add_zero]
      omega
    | close | rst =>
      simp only [Tally.step, solicits, OwnedFrame.isDemand, grantsAfter, Bool.false_eq_true,
        if_false]
      omega

end Grants

/-! ## The pending bytes -/

theorem frameBytes_prefix {fs fs' : List EgressFrame} (h : fs <+: fs') :
    frameBytes fs <+: frameBytes fs' := by
  obtain ⟨more, rfl⟩ := h
  rw [frameBytes, frameBytes, List.flatMap_append]
  exact List.prefix_append _ _

/-- While the guest takes nothing from a FIFO of this capacity, the pending bytes are bounded over
a class of guest streams, for every connector and however the streams are cut into chunks, exactly
when the soliciting frames for a stream id are. -/
theorem pending_bounded_iff (capacity : Nat) (S : Set (List EgressFrame))
    (hS : ∀ fs ∈ S, WellFormed fs) :
    (∃ B, ∀ fs ∈ S, ∀ run : List (Env × Bytes), (run.map Prod.snd).flatten <+: frameBytes fs →
      (stalled capacity run).backend.txPending.length ≤ B) ↔
    ∃ n, ∀ fs ∈ S, ∀ id, solicitations id (fs.map toOwned) ≤ n := by
  constructor
  · rintro ⟨B, hB⟩
    -- what a run has sent is pending or in the FIFO
    have hsent {fs : List EgressFrame} (hfs : fs ∈ S) (run : List (Env × Bytes))
        (hrun : (run.map Prod.snd).flatten <+: frameBytes fs) :
        (stalled capacity run).sent ≤ capacity + B :=
      Nat.add_le_add stalled_sound.room (hB fs hfs run hrun)
    refine ⟨(capacity + B + 1) * (capacity + B) + (capacity + B), fun fs hfs id => ?_⟩
    have hgrants : ∀ p, p <+: fs → grants (ofStream id p) ≤ capacity + B := by
      intro p hp
      obtain ⟨run, hrun⟩ := @flowing_run capacity p
        (fun f hf => hS fs hfs f (hp.subset hf)) id
      refine hrun.used.trans (hsent hfs run ?_)
      rw [hrun.bytes]
      exact frameBytes_prefix hp
    have hdemands : (ofStream id fs).countP OwnedFrame.isDemand ≤ capacity + B := by
      have hall := (@refused_run capacity fs (hS fs hfs)).2.2
      have hle := hsent hfs (refusals fs) (by rw [refusals_bytes])
      exact (List.filter_sublist.countP_le.trans hall).trans hle
    calc solicitations id (fs.map toOwned)
        ≤ (capacity + B + 1) * (ofStream id fs).countP OwnedFrame.isDemand +
            grants (ofStream id fs) := count_le hgrants
      _ ≤ (capacity + B + 1) * (capacity + B) + (capacity + B) :=
          Nat.add_le_add (Nat.mul_le_mul_left _ hdemands) (hgrants fs List.prefix_rfl)
  · rintro ⟨n, hn⟩
    exact ⟨_, fun fs hfs run hrun => stalled_pending_le (hS fs hfs) hrun (hn fs hfs)⟩

theorem pending_bounded_iff_granted :
    ∃ B, ∀ run : List (Env × Bytes),
      (run.map Prod.snd).flatten <+: frameBytes [.openTo 7 80 [104], .window 7 1000] →
      (stalled 64 run).backend.txPending.length ≤ B := by
  -- one stream with an `OPEN` and a grant
  have hfs : ∀ fs ∈ ({[.openTo 7 80 [104], .window 7 1000]} : Set (List EgressFrame)),
      WellFormed fs := by
    rintro fs rfl
    simp [WellFormed, EgressFrame.Encodable, EgressFrame.Canonical, EGRESS_MAX_HOST_LEN]
  have hcount : ∀ fs ∈ ({[.openTo 7 80 [104], .window 7 1000]} : Set (List EgressFrame)),
      ∀ id, solicitations id (fs.map toOwned) ≤ 2 := by
    rintro fs rfl id
    by_cases hid : id = 7
    · subst hid
      decide
    · simp [solicitations, toOwned, OwnedFrame.stream, Ne.symm hid]
  obtain ⟨B, hB⟩ := (pending_bounded_iff 64 _ hfs).mpr ⟨2, hcount⟩
  exact ⟨B, hB _ rfl⟩

/-- Over all guest streams there is no bound: each `DATA` for a stream that does not exist is
answered with a `RST`. -/
theorem pending_unbounded :
    ¬ ∃ B, ∀ fs, WellFormed fs → ∀ run : List (Env × Bytes),
      (run.map Prod.snd).flatten <+: frameBytes fs →
      (stalled 64 run).backend.txPending.length ≤ B := by
  rintro ⟨B, hB⟩
  have hfs : WellFormed (List.replicate (B + 65) (.data 7 [])) := by
    intro f hf
    rw [List.eq_of_mem_replicate hf]
    exact ⟨Nat.zero_le _, trivial⟩
  have hall := (@refused_run 64 _ hfs).2.2
  have hpending := hB _ hfs (refusals (List.replicate (B + 65) (.data 7 [])))
    (by rw [refusals_bytes])
  have hroom := (@stalled_sound 64 (refusals (List.replicate (B + 65) (.data 7 [])))).room
  have hcount : ((List.replicate (B + 65) (EgressFrame.data 7 [])).map toOwned).countP
      OwnedFrame.isDemand = B + 65 := by
    rw [List.map_replicate, List.countP_replicate]
    rfl
  rw [hcount, Stalled.sent] at hall
  omega

end Tdvmm.Egress
