import Mathlib.Data.List.Nodup
import Mathlib.Data.List.Perm.Subperm
import Tdvmm.Forwarder.System

/-!
# Forwarder.Registry — who holds which stream id

The registry maps the ids in use to connections, and a connection knows the id it
registered. `Sys.Tidy` says that the two agree, in every state of a run: this is
what makes the demultiplexer's routing and the allocation of ids speak of the same
streams.
-/

namespace Tdvmm.Forwarder

open Lib Proto Egress

/-! ## What the moves leave alone -/

section Moves

variable {tty : Bool} {c c' : Conn} {fs : List OwnedFrame}

theorem step_stream (h : ConnStep tty c fs c') : c'.phase.stream? = c.phase.stream? := by
  cases h <;> simp [*, Conn.clientSends, Conn.deliver, Conn.setRelay]

theorem step_held (h : ConnStep tty c fs c') : c'.phase.held? = c.phase.held? := by
  cases h <;> simp [*, Conn.clientSends, Conn.deliver, Conn.setRelay]

theorem step_out (h : ConnStep tty c fs c') : c'.out = c.out ++ fs := by
  cases h <;> simp [Conn.clientSends, Conn.deliver, Conn.setRelay]

theorem step_fed (h : ConnStep tty c fs c') : c'.fed = c.fed := by
  cases h <;> rfl

theorem step_frames (h : ConnStep tty c fs c') (hsound : c.Sound) {f : OwnedFrame} (hf : f ∈ fs) :
    ∃ st, c.phase.held? = some st ∧ f.stream = st.id := by
  have hown := (step_sound h hsound).own
  rw [step_stream h, step_out h] at hown
  have hheld : ∃ st, c.phase.held? = some st := by
    cases h <;> simp_all
  obtain ⟨st, hst⟩ := hheld
  have hstream : c.phase.stream? = some st := by
    cases hphase : c.phase <;> simp_all
  exact ⟨st, hst, hown st hstream f (List.mem_append_right _ hf)⟩

theorem leaves_held {st : MuxStream} (h : c.leaves? = some st) : c.phase.held? = some st := by
  unfold Conn.leaves? at h
  split at h
  · rename_i hphase
    simpa [hphase] using h
  · rename_i hphase
    split at h
    · simpa [hphase] using h
    · contradiction
  · contradiction

theorem held_stream {phase : Phase} {st : MuxStream} (h : phase.held? = some st) :
    phase.stream? = some st := by
  cases phase <;> simp_all

end Moves

/-! ## The registry -/

theorem mem_of_lastOwner {id : StreamId} {i : Nat} {issued : List (StreamId × Nat)}
    (h : lastOwner id issued = some i) : (id, i) ∈ issued := by
  induction issued using List.reverseRecOn with
  | nil => simp [lastOwner] at h
  | append_singleton issued p ih =>
    obtain ⟨j, k⟩ := p
    rw [lastOwner_append] at h
    split at h
    · rename_i hj
      rw [hj, Option.some.inj h]
      simp
    · exact List.mem_append_left _ (ih h)

/-- The registry holds exactly the streams that connections have registered, each
under the connection its id was handed out to last. -/
structure Sys.Tidy (s : Sys) : Prop where
  stream : ∀ i (c : Conn) (st : MuxStream), s.conns[i]? = some c → c.phase.stream? = some st →
    (st.id, i) ∈ s.issued
  issued : ∀ id i, (id, i) ∈ s.issued →
    ∃ (c : Conn) (st : MuxStream), s.conns[i]? = some c ∧ c.phase.stream? = some st ∧ st.id = id
  registry : ∀ id i, s.registry[id]? = some i ↔
    ∃ (c : Conn) (st : MuxStream), s.conns[i]? = some c ∧ c.phase.held? = some st ∧ st.id = id
  holder : ∀ id i, s.registry[id]? = some i → lastOwner id s.issued = some i
  once : (s.issued.map Prod.snd).Nodup
  sound : ∀ (i : Nat) (c : Conn), s.conns[i]? = some c → c.Sound

theorem init_tidy : Sys.init.Tidy := by
  constructor <;> simp [Sys.init]

theorem getElem?_set_cases {α : Type} {l : List α} {i j : Nat} {a b : α}
    (h : (l.set i a)[j]? = some b) :
    (j = i ∧ b = a) ∨ (j ≠ i ∧ l[j]? = some b) := by
  rw [List.getElem?_set] at h
  split at h
  · rename_i hij
    split at h
    · exact .inl ⟨hij.symm, (Option.some.inj h).symm⟩
    · contradiction
  · rename_i hij
    exact .inr ⟨fun hji => hij hji.symm, h⟩

theorem getElem?_set_self_of {α : Type} {l : List α} {i : Nat} {a b : α} (h : l[i]? = some b) :
    (l.set i a)[i]? = some a := by
  rw [List.getElem?_set, if_pos rfl, if_pos (List.getElem?_eq_some_iff.mp h).1]

theorem getElem?_set_other {α : Type} {l : List α} {i j : Nat} {a : α} (h : j ≠ i) :
    (l.set i a)[j]? = l[j]? := by
  rw [List.getElem?_set, if_neg fun hij => h hij.symm]

section Tidy

variable {s : Sys} {i : Nat} {c c' : Conn}

theorem Sys.Tidy.set (h : s.Tidy) (hc : s.conns[i]? = some c)
    (hstream : c'.phase.stream? = c.phase.stream?) (hheld : c'.phase.held? = c.phase.held?)
    (hsound : c'.Sound) {s' : Sys} (hconns : s'.conns = s.conns.set i c')
    (hregistry : s'.registry = s.registry) (hissued : s'.issued = s.issued) : s'.Tidy := by
  -- every connection of the new list has the registration of one of the old list
  have hold : ∀ (j : Nat) (d : Conn), (s.conns.set i c')[j]? = some d →
      ∃ d' : Conn, s.conns[j]? = some d' ∧
      d.phase.stream? = d'.phase.stream? ∧ d.phase.held? = d'.phase.held? := by
    intro j d hd
    rcases getElem?_set_cases hd with ⟨rfl, rfl⟩ | ⟨-, hd⟩
    · exact ⟨c, hc, hstream, hheld⟩
    · exact ⟨d, hd, rfl, rfl⟩
  have hnew : ∀ (j : Nat) (d' : Conn), s.conns[j]? = some d' →
      ∃ d : Conn, (s.conns.set i c')[j]? = some d ∧
      d.phase.stream? = d'.phase.stream? ∧ d.phase.held? = d'.phase.held? := by
    intro j d' hd
    by_cases hj : j = i
    · subst hj
      obtain rfl : c = d' := Option.some.inj (hc.symm.trans hd)
      exact ⟨c', getElem?_set_self_of hd, hstream, hheld⟩
    · exact ⟨d', (getElem?_set_other hj).trans hd, rfl, rfl⟩
  constructor
  · intro j d st hd hst
    rw [hconns] at hd
    obtain ⟨d', hd', heq, -⟩ := hold j d hd
    rw [hissued]
    exact h.stream j d' st hd' (heq ▸ hst)
  · intro id j hj
    rw [hissued] at hj
    obtain ⟨d', st, hd', hst, hid⟩ := h.issued id j hj
    obtain ⟨d, hd, heq, -⟩ := hnew j d' hd'
    exact ⟨d, st, hconns ▸ hd, heq.trans hst, hid⟩
  · intro id j
    rw [hregistry, h.registry, hconns]
    constructor
    · rintro ⟨d', st, hd', hst, hid⟩
      obtain ⟨d, hd, -, heq⟩ := hnew j d' hd'
      exact ⟨d, st, hd, heq.trans hst, hid⟩
    · rintro ⟨d, st, hd, hst, hid⟩
      obtain ⟨d', hd', -, heq⟩ := hold j d hd
      exact ⟨d', st, hd', heq ▸ hst, hid⟩
  · rw [hregistry, hissued]
    exact h.holder
  · rw [hissued]
    exact h.once
  · intro j d hd
    rw [hconns] at hd
    rcases getElem?_set_cases hd with ⟨rfl, rfl⟩ | ⟨-, hd⟩
    · exact hsound
    · exact h.sound j d hd

/-! ## Handing out ids -/

def candidate (counter : UInt32) (k : Nat) : StreamId := (counter + UInt32.ofNat k).toUInt16

theorem toNat_candidate (counter : UInt32) (k : Nat) :
    (candidate counter k).toNat = (counter.toNat + k) % 65536 := by
  rw [candidate, UInt32.toNat_toUInt16, UInt32.toNat_add, UInt32.toNat_ofNat']
  omega

theorem candidate_zero (counter : UInt32) : candidate counter 0 = counter.toUInt16 := by
  rw [← UInt16.toNat_inj, toNat_candidate, UInt32.toNat_toUInt16, Nat.add_zero]

theorem candidate_succ (counter : UInt32) (k : Nat) :
    candidate (counter + 1) k = candidate counter (k + 1) := by
  rw [← UInt16.toNat_inj, toNat_candidate, toNat_candidate, UInt32.toNat_add]
  simp only [UInt32.reduceToNat]
  omega

theorem findFree_cases (reg : Std.ExtTreeMap StreamId Nat) (n : Nat) (counter : UInt32) :
    (∃ k < n, findFree reg n counter = some (candidate counter k, counter + UInt32.ofNat (k + 1)) ∧
        candidate counter k ∉ reg ∧ ∀ j < k, candidate counter j ∈ reg) ∨
      findFree reg n counter = none ∧ ∀ j < n, candidate counter j ∈ reg := by
  induction n generalizing counter with
  | zero => exact .inr ⟨rfl, fun j hj => absurd hj (Nat.not_lt_zero j)⟩
  | succ n ih =>
    rw [findFree]
    by_cases htaken : reg.contains counter.toUInt16 = true
    · -- The first candidate is taken, and the others are those of the next counter.
      have hfirst : candidate counter 0 ∈ reg := by
        rw [candidate_zero]
        exact Std.ExtTreeMap.contains_iff_mem.mp htaken
      have hbelow : ∀ {m}, (∀ j < m, candidate (counter + 1) j ∈ reg) →
          ∀ j < m + 1, candidate counter j ∈ reg := by
        intro m hm j hj
        cases j with
        | zero => exact hfirst
        | succ j =>
          rw [← candidate_succ]
          exact hm j (Nat.lt_of_succ_lt_succ hj)
      rw [if_pos htaken]
      rcases ih (counter + 1) with ⟨k, hk, hfind, hfree, hold⟩ | ⟨hnone, hall⟩
      · refine .inl ⟨k + 1, Nat.succ_lt_succ hk, ?_, ?_, hbelow hold⟩
        · have hcounter : counter + 1 + UInt32.ofNat (k + 1) =
              counter + UInt32.ofNat (k + 1 + 1) := by
            rw [UInt32.add_assoc, UInt32.add_comm 1, ← UInt32.ofNat_one, ← UInt32.ofNat_add]
          rw [hfind, candidate_succ, hcounter]
        · rwa [← candidate_succ]
      · exact .inr ⟨hnone, hbelow hall⟩
    · rw [if_neg htaken, ← candidate_zero]
      refine .inl ⟨0, Nat.succ_pos n, rfl, ?_, fun j hj => absurd hj (Nat.not_lt_zero j)⟩
      rw [candidate_zero]
      exact fun hmem => htaken (Std.ExtTreeMap.contains_iff_mem.mpr hmem)

theorem findFree_free {reg : Std.ExtTreeMap StreamId Nat} {n : Nat} {counter counter' : UInt32}
    {id : StreamId} (h : findFree reg n counter = some (id, counter')) : reg[id]? = none := by
  rcases findFree_cases reg n counter with ⟨k, -, hfind, hfree, -⟩ | ⟨hnone, -⟩
  · obtain rfl : candidate counter k = id :=
      congrArg Prod.fst (Option.some.inj (hfind.symm.trans h))
    exact Std.ExtTreeMap.getElem?_eq_none hfree
  · rw [hnone] at h
    cases h

theorem Sys.Tidy.register (h : s.Tidy) {target : Socks5Target} (hc : s.conns[i]? = some c)
    (hphase : c.phase = .ready target) {id : StreamId} (hfree : s.registry[id]? = none) {s' : Sys}
    (hconns : s'.conns = s.conns.set i (c.register ⟨id, target⟩))
    (hregistry : s'.registry = s.registry.insert id i)
    (hissued : s'.issued = s.issued ++ [(id, i)]) : s'.Tidy := by
  have hlookup : ∀ j, s'.registry[j]? = if j = id then some i else s.registry[j]? := by
    intro j
    rw [hregistry, Std.ExtTreeMap.getElem?_insert]
    by_cases hj : j = id
    · simp [hj]
    · rw [if_neg hj, if_neg]
      simpa using fun heq => hj heq.symm
  -- the connection had no stream, so nothing recorded is about it
  have hnew : ∀ j, (j, i) ∉ s.issued := by
    intro j hj
    obtain ⟨d, st, hd, hst, -⟩ := h.issued j i hj
    obtain rfl : c = d := Option.some.inj (hc.symm.trans hd)
    simp [hphase] at hst
  have hself : s'.conns[i]? = some (c.register ⟨id, target⟩) := hconns ▸ getElem?_set_self_of hc
  constructor
  · intro j d st hd hst
    rw [hconns] at hd
    rw [hissued]
    rcases getElem?_set_cases hd with ⟨rfl, rfl⟩ | ⟨-, hd⟩
    · obtain rfl : ⟨id, target⟩ = st := Option.some.inj hst
      simp
    · exact List.mem_append_left _ (h.stream j d st hd hst)
  · intro id' j hj
    rw [hissued] at hj
    rcases List.mem_append.mp hj with hj | hj
    · obtain ⟨d, st, hd, hst, hid⟩ := h.issued id' j hj
      have hne : j ≠ i := fun heq => hnew id' (heq ▸ hj)
      exact ⟨d, st, hconns ▸ (getElem?_set_other hne).trans hd, hst, hid⟩
    · obtain ⟨rfl, rfl⟩ : id' = id ∧ j = i := by simpa using hj
      exact ⟨_, ⟨id', target⟩, hself, rfl, rfl⟩
  · intro id' j
    rw [hlookup]
    constructor
    · intro hreg
      split at hreg
      · rename_i heq
        obtain rfl : i = j := Option.some.inj hreg
        exact ⟨_, ⟨id, target⟩, hself, rfl, heq.symm⟩
      · obtain ⟨d, st, hd, hst, hid⟩ := (h.registry id' j).mp hreg
        have hne : j ≠ i := by
          rintro rfl
          obtain rfl : c = d := Option.some.inj (hc.symm.trans hd)
          simp [hphase] at hst
        exact ⟨d, st, hconns ▸ (getElem?_set_other hne).trans hd, hst, hid⟩
    · rintro ⟨d, st, hd, hst, hid⟩
      rw [hconns] at hd
      rcases getElem?_set_cases hd with ⟨rfl, rfl⟩ | ⟨-, hd⟩
      · obtain rfl : ⟨id, target⟩ = st := Option.some.inj hst
        rw [if_pos hid.symm]
      · have hreg := (h.registry id' j).mpr ⟨d, st, hd, hst, hid⟩
        rw [if_neg, hreg]
        rintro rfl
        rw [hfree] at hreg
        contradiction
  · intro id' j hreg
    rw [hlookup] at hreg
    rw [hissued, lastOwner_append]
    split at hreg
    · rename_i heq
      rw [if_pos heq.symm]
      exact hreg
    · rename_i hne
      rw [if_neg fun heq => hne heq.symm]
      exact h.holder id' j hreg
  · rw [hissued, List.map_append, List.nodup_append]
    refine ⟨h.once, by simp, ?_⟩
    intro a ha b hb
    obtain rfl : b = i := by simpa using hb
    obtain ⟨⟨j, k⟩, hjk, rfl⟩ := List.mem_map.mp ha
    rintro rfl
    exact hnew j hjk
  · intro j d hd
    rw [hconns] at hd
    rcases getElem?_set_cases hd with ⟨rfl, rfl⟩ | ⟨-, hd⟩
    · exact register_sound (h.sound j c hc) hphase id
    · exact h.sound j d hd

theorem Sys.Tidy.leave (h : s.Tidy) {st : MuxStream} (hc : s.conns[i]? = some c)
    (hleave : c.leaves? = some st) {s' : Sys}
    (hconns : s'.conns = s.conns.set i { c with phase := .gone st })
    (hregistry : s'.registry = s.registry.erase st.id) (hissued : s'.issued = s.issued) :
    s'.Tidy := by
  have hheld := leaves_held hleave
  have hreg : s.registry[st.id]? = some i := (h.registry st.id i).mpr ⟨c, st, hc, hheld, rfl⟩
  -- the registry forgets the id and nothing else
  have hlookup : ∀ j, s'.registry[j]? = if j = st.id then none else s.registry[j]? := by
    intro j
    rw [hregistry, Std.ExtTreeMap.getElem?_erase]
    by_cases hj : j = st.id
    · simp [hj]
    · rw [if_neg hj, if_neg]
      simpa using fun heq => hj heq.symm
  have hself : s'.conns[i]? = some { c with phase := .gone st } := hconns ▸ getElem?_set_self_of hc
  constructor
  · intro j d st' hd hst
    rw [hconns] at hd
    rw [hissued]
    rcases getElem?_set_cases hd with ⟨rfl, rfl⟩ | ⟨-, hd⟩
    · obtain rfl : st = st' := Option.some.inj hst
      exact h.stream j c st hc (held_stream hheld)
    · exact h.stream j d st' hd hst
  · intro id j hj
    rw [hissued] at hj
    obtain ⟨d, st', hd, hst, hid⟩ := h.issued id j hj
    by_cases hji : j = i
    · subst hji
      obtain rfl : c = d := Option.some.inj (hc.symm.trans hd)
      rw [held_stream hheld] at hst
      exact ⟨_, st, hself, rfl, Option.some.inj hst ▸ hid⟩
    · exact ⟨d, st', hconns ▸ (getElem?_set_other hji).trans hd, hst, hid⟩
  · intro id j
    rw [hlookup]
    constructor
    · intro hid
      split at hid
      · contradiction
      · rename_i hne
        obtain ⟨d, st', hd, hst, rfl⟩ := (h.registry id j).mp hid
        -- the connection that leaves held no other id
        have hji : j ≠ i := by
          rintro rfl
          obtain rfl : c = d := Option.some.inj (hc.symm.trans hd)
          rw [hheld] at hst
          exact hne (Option.some.inj hst ▸ rfl)
        exact ⟨d, st', hconns ▸ (getElem?_set_other hji).trans hd, hst, rfl⟩
    · rintro ⟨d, st', hd, hst, rfl⟩
      rw [hconns] at hd
      rcases getElem?_set_cases hd with ⟨rfl, rfl⟩ | ⟨hji, hd⟩
      · simp at hst
      · have hj := (h.registry st'.id j).mpr ⟨d, st', hd, hst, rfl⟩
        rw [if_neg, hj]
        intro heq
        rw [heq, hreg] at hj
        exact hji (Option.some.inj hj).symm
  · intro id j hid
    rw [hlookup] at hid
    rw [hissued]
    split at hid
    · contradiction
    · exact h.holder id j hid
  · rw [hissued]
    exact h.once
  · intro j d hd
    rw [hconns] at hd
    rcases getElem?_set_cases hd with ⟨rfl, rfl⟩ | ⟨-, hd⟩
    · exact leave_sound (h.sound j c hc) hleave
    · exact h.sound j d hd

end Tidy

theorem exists_candidate (counter : UInt32) (id : StreamId) :
    ∃ k < 65536, candidate counter k = id := by
  -- the candidates of a whole round are all ids
  have hid := id.toNat_lt
  refine ⟨(id.toNat + 65536 - counter.toNat % 65536) % 65536, Nat.mod_lt _ (by decide), ?_⟩
  rw [← UInt16.toNat_inj, toNat_candidate]
  omega

theorem exists_not_mem {reg : Std.ExtTreeMap StreamId Nat} (h : reg.size < 65536) :
    ∃ id, id ∉ reg := by
  by_contra hall
  simp only [not_exists, not_not] at hall
  have hnodup : ((List.range 65536).map UInt16.ofNat).Nodup := by
    refine List.Nodup.map_on ?_ List.nodup_range
    intro a ha b hb hab
    have hnat := congrArg UInt16.toNat hab
    rw [List.mem_range] at ha hb
    rwa [UInt16.toNat_ofNat_of_lt' ha, UInt16.toNat_ofNat_of_lt' hb] at hnat
  have hsub : (List.range 65536).map UInt16.ofNat ⊆ reg.keys :=
    fun id _ => Std.ExtTreeMap.mem_keys.mpr (hall id)
  have hlen := (List.subperm_of_subset hnodup hsub).length_le
  rw [List.length_map, List.length_range, Std.ExtTreeMap.length_keys] at hlen
  omega

/-- With an id to spare, wherever the counter is, `register` ends within the 65536
candidates with the first that is free, and the registry has that id more and is
otherwise as before. -/
theorem register_fresh {reg : Std.ExtTreeMap StreamId Nat} (h : reg.size < 65536)
    (counter : UInt32) :
    ∃ k < 65536,
      register reg counter = some (candidate counter k, counter + UInt32.ofNat (k + 1)) ∧
      candidate counter k ∉ reg ∧ (∀ j < k, candidate counter j ∈ reg) ∧
      ∀ (s : Sys) (i : Nat) (c : Conn) (target : Socks5Target), s.registry = reg →
        s.counter = counter → s.conns[i]? = some c → c.phase = .ready target →
        (s.registerConn i).wedged = s.wedged ∧
        (∀ id, id ∈ (s.registerConn i).registry ↔ id = candidate counter k ∨ id ∈ reg) ∧
        ∀ id ∈ reg, (s.registerConn i).registry[id]? = reg[id]? := by
  rcases findFree_cases reg 65536 counter with ⟨k, hk, hfind, hfree, hold⟩ | ⟨-, hall⟩
  · refine ⟨k, hk, hfind, hfree, hold, ?_⟩
    rintro s i c target rfl rfl hc hphase
    have hstep : (s.registerConn i).registry = s.registry.insert (candidate s.counter k) i ∧
        (s.registerConn i).wedged = s.wedged := by
      simp only [Sys.registerConn, hc, hphase, register, hfind, and_self]
    rw [hstep.1]
    refine ⟨hstep.2, ?_, ?_⟩
    · intro id
      rw [Std.ExtTreeMap.mem_insert, Std.compare_eq_iff_eq]
      exact or_congr_left eq_comm
    · intro id hid
      rw [Std.ExtTreeMap.getElem?_insert, if_neg]
      rw [Std.compare_eq_iff_eq]
      rintro rfl
      exact hfree hid
  · obtain ⟨id, hid⟩ := exists_not_mem h
    obtain ⟨k, hk, rfl⟩ := exists_candidate counter id
    exact absurd (hall k hk) hid

theorem register_fresh_wrapping :
    register (((∅ : Std.ExtTreeMap StreamId Nat).insert 65535 3).insert 0 4) 0xffffffff =
      some (1, 2) := by
  -- the counter is about to wrap, and the candidates before and behind are taken
  obtain ⟨k, -, hreg, hfree, hold, -⟩ := register_fresh
    (show (((∅ : Std.ExtTreeMap StreamId Nat).insert 65535 3).insert 0 4).size < 65536 by
      decide +kernel) 0xffffffff
  have hk : k = 2 := by
    rcases k with _ | _ | _ | k
    · exact absurd hfree (by decide +kernel)
    · exact absurd hfree (by decide +kernel)
    · rfl
    · exact absurd (hold 2 (by omega)) (by decide +kernel)
  rw [hreg, hk]
  decide

end Tdvmm.Forwarder
