import Tdvmm.Vmm.Entry

/-!
# Vmm.Priority — two copies of the task priority

The guest sets its task priority by a write to the TPR of the LAPIC or by a `mov` to CR8. The
loop keeps the two in step: before the injection the LAPIC takes CR8 as KVM reported it, before
`KVM_RUN` it pushes its own class to CR8.

`Tracked` adds to a run the CR8 cell of `kvm_run` and the class the guest wrote last, and notes
what is seen each time the LAPIC is asked for a vector and each time the guest is entered. The
copies agree at all these moments as long as a TPR write repeats the class that CR8 holds and a
guest that parks has not moved CR8 in the same `KVM_RUN` (`priority_coherent`).
-/

namespace Tdvmm.Vmm

open Lib Proto Egress

variable {U D : Type}

/-! ## The tracked run -/

/-- The priority class of a TPR value, as CR8 has it. -/
def classOf (tpr : UInt32) : UInt64 := (tpr >>> 4 &&& 0xf).toUInt64

def Lapic.cr8 (l : Lapic) : UInt64 := (l.tpr >>> 4).toUInt64

def Exit.tprWrite : Exit → Option UInt32
  | .mmioWrite addr data _ =>
    if inLapic addr ∧ (addr - XAPIC_BASE).toUInt32 = REG_TPR then some (readU32Le data) else none
  | _ => none

/-- A moment at which the priority matters. -/
structure Sight where
  /-- The class the guest wrote last. -/
  wrote : UInt64
  /-- The class the LAPIC holds. -/
  held : UInt64
  /-- At an entry, the CR8 pushed to KVM. -/
  pushed : Option UInt64
deriving DecidableEq, Repr

/-- All copies are the class the guest wrote last. -/
def Sight.Coherent (s : Sight) : Prop := s.held = s.wrote ∧ ∀ c ∈ s.pushed, c = s.wrote

instance (s : Sight) : Decidable s.Coherent :=
  -- The one class pushed is looked at, not all that a word can hold.
  have : Decidable (∀ c ∈ s.pushed, c = s.wrote) := Option.decidableForallMem s.pushed
  inferInstanceAs (Decidable (s.held = s.wrote ∧ ∀ c ∈ s.pushed, c = s.wrote))

/-- A run with the CR8 cell of `kvm_run`, the class the guest wrote last, and the
sights so far. -/
structure Tracked (U D : Type) where
  state : RunState U D
  cr8 : UInt64
  wrote : UInt64
  sights : List Sight

/-- An input of a tracked run. In one `KVM_RUN` the guest may move a class to CR8,
before it exits. -/
inductive TrackedInput where
  | loop (i : LoopInput) (mov : Option (Fin 16))
  | park (i : ParkInput)

/-- CR8 after the `mov`s of one `KVM_RUN`. -/
def movCr8 (mov : Option (Fin 16)) (cr8 : UInt64) : UInt64 :=
  match mov with
  | some c => UInt64.ofNat c.val
  | none => cr8

namespace Tracked

variable (P : Platform U D)

def sight (t : Tracked U D) (m : Machine U D) (pushed : Option UInt64) : Sight :=
  ⟨t.wrote, classOf m.lapic.tpr, pushed⟩

/-- The guest has run: KVM reports CR8 as it was pushed or as the guest moved it, and
a write to the TPR comes after the `mov`. -/
def ran (t : Tracked U D) (exit : Exit) (mov : Option (Fin 16)) (pushed : UInt64) : Tracked U D :=
  { t with
    cr8 := movCr8 mov pushed
    wrote := (exit.tprWrite.map classOf).getD (movCr8 mov t.wrote) }

def looped (t : Tracked U D) (i : LoopInput) (mov : Option (Fin 16)) : Tracked U D :=
  let t' := { t with state := t.state.looped P i }
  match (toInjection P i).run t.state.machine with
  | (.ok none, m₁) =>
    let t₁ := { t' with sights := t'.sights ++ [t.sight m₁ none] }
    match (injectVector i m₁.lapic.deliverableVector).run m₁ with
    | (.ok (), m₂) =>
      { t₁ with sights := t₁.sights ++ [t.sight m₂ (some m₂.lapic.cr8)] }.ran i.exit mov
        m₂.lapic.cr8
    | (.error _, _) => t₁
  | _ => t'

def turned (t : Tracked U D) (i : ParkInput) : Tracked U D :=
  let t' := { t with state := t.state.turned P i }
  match (toConsult P t.state.machine.ff i).run t.state.machine with
  | (.ok none, m₁) => { t' with sights := t'.sights ++ [t.sight m₁ none] }
  | _ => t'

/-- One step. The loop reads CR8 from its cell. -/
def step (t : Tracked U D) : TrackedInput → Tracked U D
  | .loop i mov => if t.state.mode = .running then t.looped P { i with cr8 := t.cr8 } mov else t
  | .park i => if t.state.mode = .parked then t.turned P i else t

end Tracked

/-- The start: the guest has written nothing, both copies are at reset. -/
def Config.tracked (c : Config U D) : Tracked U D := ⟨c.init, 0, 0, []⟩

def trackedRun (P : Platform U D) (c : Config U D) (is : List TrackedInput) : Tracked U D :=
  is.foldl (Tracked.step P) c.tracked

def TrackedInput.plain (cr8 : UInt64) : TrackedInput → Input
  | .loop i _ => .loop { i with cr8 := cr8 }
  | .park i => .park i

theorem looped_state (P : Platform U D) (t : Tracked U D) (i : LoopInput) (mov : Option (Fin 16)) :
    (t.looped P i mov).state = t.state.looped P i := by
  unfold Tracked.looped
  dsimp only
  split
  · split <;> rfl
  · rfl

theorem turned_state (P : Platform U D) (t : Tracked U D) (i : ParkInput) :
    (t.turned P i).state = t.state.turned P i := by
  unfold Tracked.turned
  dsimp only
  split <;> rfl

theorem tracked_step_state (P : Platform U D) (t : Tracked U D) (i : TrackedInput) :
    (t.step P i).state = t.state.step P (i.plain t.cr8) := by
  cases i with
  | loop i mov =>
    simp only [Tracked.step, TrackedInput.plain, RunState.step]
    split_ifs
    · exact looped_state P t _ mov
    · rfl
  | park i =>
    simp only [Tracked.step, TrackedInput.plain, RunState.step]
    split_ifs
    · exact turned_state P t i
    · rfl

/-! ## Keeping the copies together -/

/-- The condition on a step, in the state before it: a TPR write repeats the class
that CR8 has by then, and a guest that parks has left CR8 as it was. -/
def Tracked.Repeats (t : Tracked U D) : TrackedInput → Prop
  | .loop i mov => t.state.mode = .running →
      (∀ v ∈ i.exit.tprWrite, classOf v = movCr8 mov t.cr8) ∧
        (i.exit = .hlt true → movCr8 mov t.cr8 = t.cr8)
  | .park _ => True

instance (t : Tracked U D) : ∀ i, Decidable (t.Repeats i)
  | .loop i mov =>
    have : Decidable (∀ v ∈ i.exit.tprWrite, classOf v = movCr8 mov t.cr8) :=
      Option.decidableForallMem i.exit.tprWrite
    inferInstanceAs (Decidable (t.state.mode = .running →
      (∀ v ∈ i.exit.tprWrite, classOf v = movCr8 mov t.cr8) ∧
        (i.exit = .hlt true → movCr8 mov t.cr8 = t.cr8)))
  | .park _ => .isTrue trivial

/-- All steps of the run from `t` meet the condition. -/
def RepeatsRun (P : Platform U D) : Tracked U D → List TrackedInput → Prop
  | _, [] => True
  | t, i :: is => t.Repeats i ∧ RepeatsRun P (t.step P i) is

instance RepeatsRun.decidable (P : Platform U D) :
    ∀ (t : Tracked U D) (is : List TrackedInput), Decidable (RepeatsRun P t is)
  | _, [] => .isTrue trivial
  | t, i :: is =>
    have := RepeatsRun.decidable P (t.step P i) is
    inferInstanceAs (Decidable (t.Repeats i ∧ RepeatsRun P (t.step P i) is))

/-- The invariant: the CR8 cell is a class, the one the guest wrote last, and in a
park the LAPIC holds it too. -/
structure Tracked.InStep (t : Tracked U D) : Prop where
  isClass : ∃ c : Fin 16, t.cr8 = UInt64.ofNat c.val
  cell : t.cr8 = t.wrote
  parked : t.state.mode = .parked → classOf t.state.machine.lapic.tpr = t.wrote
  sights : ∀ s ∈ t.sights, s.Coherent

theorem sync_class (c : Fin 16) :
    classOf ((UInt64.ofNat c.val &&& 0xf).toUInt32 <<< 4) = UInt64.ofNat c.val := by
  revert c
  decide

theorem sync_cr8 (c : Fin 16) :
    (((UInt64.ofNat c.val &&& 0xf).toUInt32 <<< 4) >>> 4).toUInt64 = UInt64.ofNat c.val := by
  revert c
  decide

theorem movCr8_isClass {mov : Option (Fin 16)} {cr8 : UInt64}
    (h : ∃ c : Fin 16, cr8 = UInt64.ofNat c.val) :
    ∃ c : Fin 16, movCr8 mov cr8 = UInt64.ofNat c.val := by
  cases mov with
  | none => exact h
  | some c => exact ⟨c, rfl⟩

section Steps

variable {P : Platform U D} {t : Tracked U D}

theorem looped_not_parked {i : LoopInput} {s : RunState U D}
    (h : ∀ m, (toEntry P i).run s.machine ≠ (.ok none, m)) : (s.looped P i).mode ≠ .parked := by
  intro hmode
  have hpark : ((loopTurn P i).run s.machine).1 = .ok .park := afterLoop_eq_parked.mp hmode
  rw [loopTurn_eq] at hpark
  rcases hrun : (toEntry P i).run s.machine with ⟨r, m⟩
  rcases r with e | stop
  · rw [Eff.run_bind_error hrun] at hpark
    contradiction
  · rw [Eff.run_bind_ok hrun] at hpark
    cases stop with
    | none => exact h m hrun
    | some r => simp at hpark

theorem looped_parked {i : LoopInput} {s : RunState U D} {m : Machine U D}
    (h : (toEntry P i).run s.machine = (.ok none, m)) (hmode : (s.looped P i).mode = .parked) :
    i.exit = .hlt true ∧ (s.looped P i).machine = m := by
  -- an iteration that gets to the guest and parks leaves the machine as it was at the entry
  have hrun : (loopTurn P i).run s.machine = (handleExit P i.exit).run m := by
    rw [loopTurn_eq, Eff.run_bind_ok h]
  have hpark : ((handleExit P i.exit).run m).1 = .ok .park := by
    rw [← hrun]
    exact afterLoop_eq_parked.mp hmode
  have hmachine : (s.looped P i).machine = ((handleExit P i.exit).run m).2 := by
    rw [← hrun]
    rfl
  rcases hexit : (handleExit P i.exit).run m with ⟨r, m'⟩
  rw [hexit] at hpark hmachine
  obtain ⟨hhlt, hsame⟩ := handleExit_park (hexit.trans (Prod.ext hpark rfl))
  exact ⟨hhlt, hmachine.trans hsame⟩

/-- What an iteration adds: it ends before it asks for a vector, or in the injection,
or it gets to the guest. -/
inductive Seen (P : Platform U D) (t : Tracked U D) (i : LoopInput) (mov : Option (Fin 16)) :
    Tracked U D → Prop where
  | before (hmode : (t.state.looped P i).mode ≠ .parked) :
      Seen P t i mov { t with state := t.state.looped P i }
  | refused {m₁ : Machine U D} (hinj : (toInjection P i).run t.state.machine = (.ok none, m₁))
      (hmode : (t.state.looped P i).mode ≠ .parked) :
      Seen P t i mov
        { t with state := t.state.looped P i, sights := t.sights ++ [t.sight m₁ none] }
  | entered {m₁ m₂ : Machine U D} {sights : List Sight}
      (hinj : (toInjection P i).run t.state.machine = (.ok none, m₁))
      (hvec : (injectVector i m₁.lapic.deliverableVector).run m₁ = (.ok (), m₂))
      (hentry : (toEntry P i).run t.state.machine = (.ok none, m₂))
      (hsights : sights = t.sights ++ [t.sight m₁ none] ++ [t.sight m₂ (some m₂.lapic.cr8)]) :
      Seen P t i mov
        (Tracked.ran { t with state := t.state.looped P i, sights := sights } i.exit mov
          m₂.lapic.cr8)

theorem looped_seen (P : Platform U D) (t : Tracked U D) (i : LoopInput) (mov : Option (Fin 16)) :
    Seen P t i mov (t.looped P i mov) := by
  unfold Tracked.looped
  dsimp only
  rcases hinj : (toInjection P i).run t.state.machine with ⟨r₁, m₁⟩
  rcases r₁ with e | _ | r
  · refine .before (looped_not_parked fun m hentry => ?_)
    rw [toEntry, Eff.run_bind_error hinj] at hentry
    simp at hentry
  · rcases hvec : (injectVector i m₁.lapic.deliverableVector).run m₁ with ⟨r₂, m₂⟩
    have hto : (toEntry P i).run t.state.machine =
        (injectVector i m₁.lapic.deliverableVector >>= fun _ => pure none).run m₁ := by
      rw [toEntry, Eff.run_bind_ok hinj]
      rfl
    cases r₂ with
    | error e =>
      dsimp only
      rw [hvec]
      refine .refused hinj (looped_not_parked fun m hentry => ?_)
      rw [hto, Eff.run_bind_error hvec] at hentry
      simp at hentry
    | ok u =>
      dsimp only
      rw [hvec]
      refine .entered hinj hvec ?_ rfl
      rw [hto, Eff.run_bind_ok hvec]
      rfl
  · refine .before (looped_not_parked fun m hentry => ?_)
    rw [toEntry, Eff.run_bind_ok hinj] at hentry
    simp at hentry

/-! ## Steps keep the copies together -/

theorem synced {i : LoopInput} {now : UInt64} {m m' : Machine U D}
    (h : ∃ c : Fin 16, i.cr8 = UInt64.ofNat c.val) (hready : Readied now i.cr8 m m') :
    classOf m'.lapic.tpr = i.cr8 ∧ m'.lapic.cr8 = i.cr8 := by
  -- after the sync the LAPIC holds the class of the CR8 cell, and would push it
  obtain ⟨c, hc⟩ := h
  rw [Lapic.cr8, hready.priority, hc]
  exact ⟨sync_class c, sync_cr8 c⟩

theorem looped_inStep (h : t.InStep) {i : LoopInput} {mov : Option (Fin 16)}
    (hcell : i.cr8 = t.cr8) (hwrites : ∀ v ∈ i.exit.tprWrite, classOf v = movCr8 mov t.cr8)
    (hhalts : i.exit = .hlt true → movCr8 mov t.cr8 = t.cr8) : (t.looped P i mov).InStep := by
  have hclass : ∃ c : Fin 16, i.cr8 = UInt64.ofNat c.val := hcell ▸ h.isClass
  have hseen := looped_seen P t i mov
  generalize t.looped P i mov = t' at hseen
  have hconsult : ∀ {m : Machine U D}, classOf m.lapic.tpr = t.cr8 → (t.sight m none).Coherent := by
    intro m hheld
    exact ⟨hheld.trans h.cell, by simp [Tracked.sight]⟩
  cases hseen with
  | before hmode => exact ⟨h.isClass, h.cell, fun hpark => absurd hpark hmode, h.sights⟩
  | refused hinj hmode =>
    -- the LAPIC was asked for a vector, and the guest was not entered
    have hheld := (synced hclass (toInjection_readied hinj)).1.trans hcell
    refine ⟨h.isClass, h.cell, fun hpark => absurd hpark hmode, ?_⟩
    intro s hs
    rcases List.mem_append.mp hs with hs | hs
    · exact h.sights s hs
    · rw [List.mem_singleton.mp hs]
      exact hconsult hheld
  | @entered m₁ m₂ sights hinj hvec hentry hsights =>
    have hready := toInjection_readied hinj
    have hheld := (synced hclass hready).1.trans hcell
    obtain ⟨hheld', hpush⟩ := synced hclass (injectVector_readied hready hvec)
    rw [hcell] at hheld' hpush
    refine ⟨?_, ?_, ?_, ?_⟩
    · show ∃ c : Fin 16, movCr8 mov m₂.lapic.cr8 = UInt64.ofNat c.val
      rw [hpush]
      exact movCr8_isClass h.isClass
    · -- A TPR write is the last thing the guest does, and it repeats CR8.
      show movCr8 mov m₂.lapic.cr8 = (i.exit.tprWrite.map classOf).getD (movCr8 mov t.wrote)
      rw [hpush]
      rcases hwrite : i.exit.tprWrite with _ | v
      · rw [h.cell]
        rfl
      · exact (hwrites v (by rw [hwrite]; rfl)).symm
    · -- a guest that parks has not moved CR8 in this `KVM_RUN`
      intro hpark
      obtain ⟨hhlt, hmachine⟩ := looped_parked hentry hpark
      show classOf (t.state.looped P i).machine.lapic.tpr =
        (i.exit.tprWrite.map classOf).getD (movCr8 mov t.wrote)
      have hsame := hhalts hhlt
      rw [hmachine, hheld', hhlt, ← h.cell]
      exact hsame.symm
    · intro s hs
      change s ∈ sights at hs
      rw [hsights] at hs
      rcases List.mem_append.mp hs with hs | hs
      · rcases List.mem_append.mp hs with hs | hs
        · exact h.sights s hs
        · rw [List.mem_singleton.mp hs]
          exact hconsult hheld
      · rw [List.mem_singleton.mp hs]
        refine ⟨hheld'.trans h.cell, ?_⟩
        intro c hc
        rw [← Option.some.inj hc, hpush]
        exact h.cell

theorem turned_inStep (h : t.InStep) {i : ParkInput} (hpark : t.state.mode = .parked) :
    (t.turned P i).InStep := by
  have hheld := h.parked hpark
  have hparked : (t.state.turned P i).mode = .parked →
      classOf (t.state.turned P i).machine.lapic.tpr = t.wrote := by
    intro hmode
    rcases hturn : (parkTurn P i).run t.state.machine with ⟨r, m'⟩
    have hturned : t.state.turned P i =
        ⟨m', Mode.afterTurn r, t.state.turns ++ [⟨t.state.machine, i, r, m'⟩]⟩ := by
      rw [RunState.turned, hturn]
    rw [hturned] at hmode ⊢
    cases r with
    | error e => contradiction
    | ok turn =>
      show classOf m'.lapic.tpr = t.wrote
      rw [parkTurn_priority hturn hmode]
      exact hheld
  unfold Tracked.turned
  dsimp only
  split
  · rename_i m₁ hconsult
    refine ⟨h.isClass, h.cell, hparked, ?_⟩
    intro s hs
    rcases List.mem_append.mp hs with hs | hs
    · exact h.sights s hs
    · rw [List.mem_singleton.mp hs]
      refine ⟨?_, by simp [Tracked.sight]⟩
      show classOf m₁.lapic.tpr = t.wrote
      rw [toConsult_priority hconsult]
      exact hheld
  · exact ⟨h.isClass, h.cell, hparked, h.sights⟩

theorem step_inStep (h : t.InStep) {i : TrackedInput} (hrep : t.Repeats i) :
    (t.step P i).InStep := by
  cases i with
  | loop i mov =>
    unfold Tracked.step
    dsimp only
    split_ifs with hrun
    · obtain ⟨hwrites, hhalts⟩ := hrep hrun
      exact looped_inStep h rfl hwrites hhalts
    · exact h
  | park i =>
    unfold Tracked.step
    dsimp only
    split_ifs with hpark
    · exact turned_inStep h hpark
    · exact h

end Steps

theorem init_inStep (c : Config U D) : c.tracked.InStep := by
  refine ⟨⟨0, rfl⟩, rfl, ?_, ?_⟩
  · intro hmode
    contradiction
  · intro s hs
    contradiction

/-- In every run whose steps repeat the priority, the LAPIC holds the class the guest
wrote last each time it is asked for a vector, in the loop and in a park, and CR8 as
it is pushed is that class at every entry. -/
theorem priority_coherent (P : Platform U D) (c : Config U D) (is : List TrackedInput)
    (h : RepeatsRun P c.tracked is) : ∀ s ∈ (trackedRun P c is).sights, s.Coherent := by
  have hkeep : ∀ (t : Tracked U D), t.InStep → RepeatsRun P t is →
      (is.foldl (Tracked.step P) t).InStep := by
    clear h
    induction is with
    | nil => exact fun t ht _ => ht
    | cons i is ih => exact fun t ht hrun => ih _ (step_inStep ht hrun.1) hrun.2
  exact (hkeep c.tracked (init_inStep c) h).sights

/-- The guest runs, moves to CR8 if it does, and exits. -/
def TrackedInput.bare (hostTsc : UInt64) (mov : Option (Fin 16)) (exit : Exit) : TrackedInput :=
  .loop (.bare hostTsc exit) mov

def tprExit (val : UInt32) : Exit :=
  .mmioWrite (XAPIC_BASE + REG_TPR.toUInt64) (u32ToLeBytes val) 0

/-- A guest that writes class 8 by both routes, then parks. -/
theorem priority_coherent_both :
    (trackedRun Platform.bare (Config.bare 100 false none none)
        [.bare 110 (some 8) (tprExit 0x80), .bare 120 none (.hlt true),
          .park (.bare 130 130)]).sights.length = 5 ∧
      ∀ s ∈ (trackedRun Platform.bare (Config.bare 100 false none none)
        [.bare 110 (some 8) (tprExit 0x80), .bare 120 none (.hlt true),
          .park (.bare 130 130)]).sights, s.Coherent :=
  ⟨by decide +kernel, priority_coherent _ _ _ (by decide +kernel)⟩

/-- Class 8 written to the TPR is gone at the next sync: the LAPIC is asked with class
0 and the guest entered with it. Class 8 moved to CR8 before a halt is not seen by the
park. -/
theorem priority_lost :
    (trackedRun Platform.bare (Config.bare 100 false none none)
        [.bare 110 none (tprExit 0x80), .bare 120 none .other]).sights =
        [⟨0, 0, none⟩, ⟨0, 0, some 0⟩, ⟨8, 0, none⟩, ⟨8, 0, some 0⟩] ∧
      (trackedRun Platform.bare (Config.bare 100 false none none)
        [.bare 110 (some 8) (.hlt true), .park (.bare 120 120)]).sights =
        [⟨0, 0, none⟩, ⟨0, 0, some 0⟩, ⟨8, 0, none⟩] ∧
      ¬ (⟨8, 0, none⟩ : Sight).Coherent ∧ ¬ (⟨8, 0, some 0⟩ : Sight).Coherent := by
  decide +kernel

end Tdvmm.Vmm
