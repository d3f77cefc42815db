import Mathlib.Algebra.Ring.Nat
import Mathlib.Data.List.Count
import Mathlib.Data.List.TakeDrop
import Mathlib.Data.List.TakeWhile

/-!
# Lib.Spool — a line buffer with a cap

Bytes are written to the end of the buffer and finished lines are taken from its front. A buffer
that holds no finished line when one is asked for is emptied once it is past the cap, so a line
that is taken later may have lost its first part. `Spool` keeps that part beside the buffer,
which makes the stream whole again: what was taken, what is gone and what is held are all that
was written (`At`).

`Gauge` counts what it takes to know what a line has lost: the finished lines, the length of the
unfinished one, and how much of the oldest line is gone.
-/

namespace Lib

variable {α : Type}

/-- A line buffer: `buf` is what it holds and `gone` what was removed of the line
that `buf` begins in. -/
structure Spool (α : Type) where
  gone : List α := []
  buf : List α := []
deriving DecidableEq, Repr

/-- The answer to a call for a line: the rest of a finished line with the part that
was removed before, a buffer that was past the cap, or nothing. -/
inductive Spool.Out (α : Type) where
  | line (cut rest : List α)
  | dropped (piece : List α)
  | none
deriving DecidableEq, Repr

section Span

variable [DecidableEq α] {sep : α}

theorem span_free {l : List α} (h : sep ∉ l) : l.span (· ≠ sep) = (l, []) := by
  have hall : ∀ a ∈ l, decide (a ≠ sep) = true := by
    intro a ha
    exact decide_eq_true fun heq => h (heq ▸ ha)
  rw [List.span_eq_takeWhile_dropWhile, List.takeWhile_eq_self_iff.mpr hall,
    List.dropWhile_eq_nil_iff.mpr hall]

theorem span_sep {front : List α} (h : sep ∉ front) (later : List α) :
    (front ++ sep :: later).span (· ≠ sep) = (front, sep :: later) := by
  have hall : ∀ a ∈ front, decide (a ≠ sep) = true := by
    intro a ha
    exact decide_eq_true fun heq => h (heq ▸ ha)
  rw [List.span_eq_takeWhile_dropWhile, List.takeWhile_append_of_pos hall,
    List.dropWhile_append_of_pos hall]
  simp

theorem span_cases (sep : α) (l : List α) :
    (∃ front later, l = front ++ sep :: later ∧ sep ∉ front ∧
      l.span (· ≠ sep) = (front, sep :: later)) ∨ sep ∉ l ∧ l.span (· ≠ sep) = (l, []) := by
  by_cases hmem : sep ∈ l
  · rcases List.eq_append_cons_of_mem hmem with ⟨front, later, rfl, hfront⟩
    exact .inl ⟨front, later, rfl, hfront, span_sep hfront later⟩
  · exact .inr ⟨hmem, span_free hmem⟩

end Span

namespace Spool

def write (s : Spool α) (bs : List α) : Spool α := { s with buf := s.buf ++ bs }

/-! ## The place in the stream -/

variable {nl : α}

/-- The stream `w` read up to the lines in `done`: what follows is gone or held. -/
structure At (nl : α) (w done : List α) (s : Spool α) : Prop where
  whole : w = done ++ s.gone ++ s.buf
  start : done = [] ∨ done.getLast? = some nl
  within : nl ∉ s.gone

theorem At.write {w done : List α} {s : Spool α} (h : At nl w done s) (bs : List α) :
    At nl (w ++ bs) done (s.write bs) where
  whole := by rw [h.whole, List.append_assoc]; rfl
  start := h.start
  within := h.within

theorem At.take_line {w done gone rest later : List α}
    (h : At nl w done ⟨gone, rest ++ nl :: later⟩) :
    At nl w (done ++ gone ++ rest ++ [nl]) ⟨[], later⟩ where
  whole := by simpa using h.whole
  start := .inr (by simp)
  within := by simp

theorem At.take_dropped {w done gone buf : List α} (h : At nl w done ⟨gone, buf⟩)
    (hbuf : nl ∉ buf) :
    At nl w done ⟨gone ++ buf, []⟩ where
  whole := by simpa using h.whole
  start := h.start
  within := by
    intro hmem
    rcases List.mem_append.mp hmem with hmem | hmem
    · exact h.within hmem
    · exact hbuf hmem

theorem At.start_iff {w done : List α} {s : Spool α} (h : At nl w done s) :
    (done ++ s.gone = [] ∨ (done ++ s.gone).getLast? = some nl) ↔ s.gone = [] := by
  -- the front of the buffer is the start of a line exactly when nothing is gone
  constructor
  · intro hstart
    by_contra hne
    rcases hstart with hnil | hlast
    · exact hne (List.append_eq_nil_iff.mp hnil).2
    · rw [List.getLast?_append, List.getLast?_eq_some_getLast hne, Option.some_or] at hlast
      exact h.within (Option.some.inj hlast ▸ List.getLast_mem hne)
  · intro hnil
    rw [hnil, List.append_nil]
    exact h.start

/-! ## Taking a line -/

variable [DecidableEq α] (nl : α) (cap : Nat)

/-- Take the first finished line, or empty a buffer past the cap. -/
def take (s : Spool α) : Out α × Spool α :=
  match s.buf.span (· ≠ nl) with
  | (rest, _ :: later) => (.line s.gone rest, ⟨[], later⟩)
  | (_, []) => if s.buf.length > cap then (.dropped s.buf, ⟨s.gone ++ s.buf, []⟩) else (.none, s)

inductive Taken : Spool α → Out α → Spool α → Prop where
  | line {gone rest later : List α} (hrest : nl ∉ rest) :
      Taken ⟨gone, rest ++ nl :: later⟩ (.line gone rest) ⟨[], later⟩
  | dropped {gone buf : List α} (hbuf : nl ∉ buf) (hlong : cap < buf.length) :
      Taken ⟨gone, buf⟩ (.dropped buf) ⟨gone ++ buf, []⟩
  | none {gone buf : List α} (hbuf : nl ∉ buf) (hshort : buf.length ≤ cap) :
      Taken ⟨gone, buf⟩ .none ⟨gone, buf⟩

theorem take_taken (s : Spool α) : Taken nl cap s (s.take nl cap).1 (s.take nl cap).2 := by
  rcases s with ⟨gone, buf⟩
  unfold take
  rcases span_cases nl buf with ⟨rest, later, rfl, hrest, hspan⟩ | ⟨hbuf, hspan⟩
  · rw [hspan]
    exact .line hrest
  · rw [hspan]
    dsimp only
    split_ifs with hlong
    · exact .dropped hbuf hlong
    · exact .none hbuf (Nat.le_of_not_lt hlong)

variable {nl cap}

/-! ## Counting -/

/-- The length of the unfinished line when `l` comes after `n` bytes of one. -/
def unfinished (nl : α) (n : Nat) (l : List α) : Nat :=
  l.foldl (fun n a => if a = nl then 0 else n + 1) n

theorem unfinished_append (n : Nat) (l l' : List α) :
    unfinished nl n (l ++ l') = unfinished nl (unfinished nl n l) l' := List.foldl_append

theorem unfinished_of_notMem {l : List α} (h : nl ∉ l) (n : Nat) :
    unfinished nl n l = n + l.length := by
  induction l generalizing n with
  | nil => rfl
  | cons a l ih =>
    have hne : a ≠ nl := fun heq => h (heq ▸ List.mem_cons_self)
    have hstep : unfinished nl n (a :: l) = unfinished nl (n + 1) l := by
      simp [unfinished, hne]
    rw [hstep, ih (fun hmem => h (List.mem_cons_of_mem _ hmem)), List.length_cons]
    omega

theorem unfinished_after_newline (n : Nat) (l later : List α) :
    unfinished nl n (l ++ nl :: later) = unfinished nl 0 later := by
  rw [unfinished_append]
  simp [unfinished]

end Spool

/-- The finished lines that wait, the length of the unfinished one, and how much the
oldest of them all has lost. -/
structure Gauge where
  finished : Nat := 0
  unfinished : Nat := 0
  lost : Nat := 0
deriving DecidableEq, Repr

namespace Gauge

variable [DecidableEq α] (nl : α) (cap : Nat)

def write (g : Gauge) (bs : List α) : Gauge :=
  { g with finished := g.finished + bs.count nl, unfinished := Spool.unfinished nl g.unfinished bs }

/-- A call takes the oldest finished line. With none it finds the unfinished one, which
is lost so far when what is left of it is past the cap. -/
def take (g : Gauge) : Gauge :=
  if 0 < g.finished then { g with finished := g.finished - 1, lost := 0 }
  else if cap < g.unfinished - g.lost then { g with lost := g.unfinished }
  else g

structure Measures (nl : α) (g : Gauge) (s : Spool α) : Prop where
  finished : g.finished = s.buf.count nl
  unfinished : g.unfinished = Spool.unfinished nl 0 (s.gone ++ s.buf)
  lost : g.lost = s.gone.length

variable {nl} {g : Gauge} {s : Spool α}

theorem measures_empty : Measures nl {} ({} : Spool α) := ⟨rfl, rfl, rfl⟩

theorem Measures.write (h : Measures nl g s) (bs : List α) :
    Measures nl (g.write nl bs) (s.write bs) where
  finished := by
    simp only [Gauge.write, Spool.write, List.count_append, h.finished]
  unfinished := by
    simp only [Gauge.write, Spool.write, h.unfinished]
    rw [← Spool.unfinished_append, List.append_assoc]
  lost := h.lost

theorem Measures.unfinished_eq {gone buf : List α} (h : Measures nl g ⟨gone, buf⟩)
    (hgone : nl ∉ gone) (hbuf : nl ∉ buf) : g.unfinished = gone.length + buf.length := by
  -- without a finished line, the unfinished one is what is gone and what is held
  rw [h.unfinished, Spool.unfinished_append, Spool.unfinished_of_notMem hbuf,
    Spool.unfinished_of_notMem hgone]
  omega

theorem Measures.take (h : Measures nl g s) (hgone : nl ∉ s.gone) {out : Spool.Out α}
    {s' : Spool α} (ht : Spool.Taken nl cap s out s') : Measures nl (g.take cap) s' := by
  unfold Gauge.take
  cases ht with
  | @line gone rest later hrest =>
    have hcount : g.finished = later.count nl + 1 := by
      rw [h.finished, List.count_append, List.count_eq_zero.mpr hrest]
      simp
    have hunfinished := h.unfinished
    simp only [← List.append_assoc, Spool.unfinished_after_newline] at hunfinished
    rw [if_pos (by omega)]
    exact ⟨by simp [hcount], hunfinished, rfl⟩
  | @dropped gone buf hbuf hlong =>
    have hcount : g.finished = 0 := by rw [h.finished, List.count_eq_zero.mpr hbuf]
    have hlen := h.unfinished_eq hgone hbuf
    have hlost : g.lost = gone.length := h.lost
    rw [if_neg (by omega), if_pos (by omega)]
    refine ⟨by simpa using hcount, by simpa using h.unfinished, ?_⟩
    rw [List.length_append]
    exact hlen
  | @none gone buf hbuf hshort =>
    have hcount : g.finished = 0 := by rw [h.finished, List.count_eq_zero.mpr hbuf]
    have hlen := h.unfinished_eq hgone hbuf
    have hlost : g.lost = gone.length := h.lost
    rw [if_neg (by omega), if_neg (by omega)]
    exact h

end Gauge

/-! ## Lines -/

section Lines

variable [DecidableEq α] {nl : α}

/-- The finished lines, without their newlines, and the unfinished one. -/
def splitLines (nl : α) : List α → List (List α) × List α
  | [] => ([], [])
  | a :: l =>
    if a = nl then ([] :: (splitLines nl l).1, (splitLines nl l).2)
    else
      match splitLines nl l with
      | ([], last) => ([], a :: last)
      | (line :: lines, last) => ((a :: line) :: lines, last)

theorem splitLines_of_notMem {l : List α} (h : nl ∉ l) : splitLines nl l = ([], l) := by
  induction l with
  | nil => rfl
  | cons a l ih =>
    have hne : a ≠ nl := fun heq => h (heq ▸ List.mem_cons_self)
    rw [splitLines, if_neg hne, ih fun hmem => h (List.mem_cons_of_mem _ hmem)]

theorem splitLines_line {line : List α} (h : nl ∉ line) (later : List α) :
    splitLines nl (line ++ nl :: later) =
      (line :: (splitLines nl later).1, (splitLines nl later).2) := by
  induction line with
  | nil => simp [splitLines]
  | cons a line ih =>
    have hne : a ≠ nl := fun heq => h (heq ▸ List.mem_cons_self)
    rw [List.cons_append, splitLines, if_neg hne, ih fun hmem => h (List.mem_cons_of_mem _ hmem)]

def joinLines (nl : α) (lines : List (List α)) : List α := lines.flatMap (· ++ [nl])

theorem splitLines_join {lines : List (List α)} (h : ∀ line ∈ lines, nl ∉ line) (l : List α) :
    splitLines nl (joinLines nl lines ++ l) =
      (lines ++ (splitLines nl l).1, (splitLines nl l).2) := by
  induction lines with
  | nil => rfl
  | cons line lines ih =>
    have hcons : joinLines nl (line :: lines) ++ l = line ++ nl :: (joinLines nl lines ++ l) := by
      simp [joinLines]
    rw [hcons, splitLines_line (h line List.mem_cons_self),
      ih fun x hx => h x (List.mem_cons_of_mem _ hx)]
    rfl

theorem join_splitLines (nl : α) (l : List α) :
    joinLines nl (splitLines nl l).1 ++ (splitLines nl l).2 = l ∧
      (∀ line ∈ (splitLines nl l).1, nl ∉ line) ∧ nl ∉ (splitLines nl l).2 := by
  induction l with
  | nil => simp [splitLines, joinLines]
  | cons a l ih =>
    rcases ih with ⟨hjoin, hlines, hlast⟩
    rw [splitLines]
    split_ifs with heq
    · refine ⟨?_, ?_, hlast⟩
      · simpa [joinLines, heq] using hjoin
      · simpa using hlines
    · rcases hsplit : splitLines nl l with ⟨_ | ⟨line, lines⟩, last⟩
      · rw [hsplit] at hjoin hlast
        refine ⟨?_, by simp, ?_⟩
        · simpa [joinLines] using hjoin
        · simpa [Ne.symm heq] using hlast
      · rw [hsplit] at hjoin hlines hlast
        refine ⟨?_, ?_, hlast⟩
        · simpa [joinLines] using hjoin
        · simp only [List.forall_mem_cons] at hlines ⊢
          exact ⟨by simpa [Ne.symm heq] using hlines.1, hlines.2⟩

theorem splitLines_append (a b : List α) :
    splitLines nl (a ++ b) = ((splitLines nl a).1 ++ (splitLines nl ((splitLines nl a).2 ++ b)).1,
      (splitLines nl ((splitLines nl a).2 ++ b)).2) := by
  rcases join_splitLines nl a with ⟨hjoin, hlines, -⟩
  nth_rewrite 1 [← hjoin]
  rw [List.append_assoc, splitLines_join hlines]

end Lines

/-- An unfinished line and how much of it is gone. -/
structure Unfinished (α : Type) where
  line : List α := []
  lost : Nat := 0
deriving DecidableEq, Repr

namespace Unfinished

/-- The line after a call that finds it unfinished. -/
def settle (cap : Nat) (line : List α) (lost : Nat) : Unfinished α :=
  ⟨line, if cap < line.length - lost then line.length else lost⟩

/-- The lines that these bytes finish, with what each has lost, and the line after
them, once all finished lines are taken. -/
def absorb [DecidableEq α] (nl : α) (cap : Nat) (u : Unfinished α) (bytes : List α) :
    List (List α × Nat) × Unfinished α :=
  match splitLines nl (u.line ++ bytes) with
  | ([], last) => ([], settle cap last u.lost)
  | (line :: lines, last) => ((line, u.lost) :: lines.map (·, 0), settle cap last 0)

/-- The lines that these writes finish, where all finished lines are taken after each. -/
def finished [DecidableEq α] (nl : α) (cap : Nat) (u : Unfinished α) :
    List (List α) → List (List α × Nat)
  | [] => []
  | bytes :: writes => (u.absorb nl cap bytes).1 ++ finished nl cap (u.absorb nl cap bytes).2 writes

/-- The line after these writes. -/
def after [DecidableEq α] (nl : α) (cap : Nat) (u : Unfinished α) :
    List (List α) → Unfinished α
  | [] => u
  | bytes :: writes => after nl cap (u.absorb nl cap bytes).2 writes

/-- What is left of the line is within the cap. -/
def Settled (cap : Nat) (u : Unfinished α) : Prop := u.line.length - u.lost ≤ cap

theorem settled_settle {cap : Nat} (line : List α) (lost : Nat) :
    Settled cap (settle cap line lost) := by
  unfold Settled settle
  dsimp only
  split_ifs with hlong
  · omega
  · omega

section Writes

variable [DecidableEq α] {nl : α} {cap : Nat}

theorem after_concat (u : Unfinished α) (writes : List (List α)) (bytes : List α) :
    u.after nl cap (writes ++ [bytes]) = ((u.after nl cap writes).absorb nl cap bytes).2 := by
  induction writes generalizing u with
  | nil => rfl
  | cons first writes ih => exact ih _

theorem finished_concat (u : Unfinished α) (writes : List (List α)) (bytes : List α) :
    u.finished nl cap (writes ++ [bytes]) =
      u.finished nl cap writes ++ ((u.after nl cap writes).absorb nl cap bytes).1 := by
  induction writes generalizing u with
  | nil => simp [finished, after]
  | cons first writes ih =>
    rw [List.cons_append, finished, ih, finished, after, List.append_assoc]

theorem absorb_split (u : Unfinished α) (bytes : List α) :
    (u.absorb nl cap bytes).1.map Prod.fst = (splitLines nl (u.line ++ bytes)).1 ∧
      (u.absorb nl cap bytes).2.line = (splitLines nl (u.line ++ bytes)).2 := by
  -- the lines are those of what was there and what was written
  unfold absorb
  rcases splitLines nl (u.line ++ bytes) with ⟨_ | ⟨line, lines⟩, last⟩
  · exact ⟨rfl, rfl⟩
  · simp [settle, Function.comp_def]

theorem join_absorb (u : Unfinished α) (bytes : List α) :
    joinLines nl ((u.absorb nl cap bytes).1.map Prod.fst) ++ (u.absorb nl cap bytes).2.line =
      u.line ++ bytes := by
  rw [(absorb_split u bytes).1, (absorb_split u bytes).2]
  exact (join_splitLines nl (u.line ++ bytes)).1

theorem join_finished (u : Unfinished α) (writes : List (List α)) :
    joinLines nl ((u.finished nl cap writes).map Prod.fst) ++ (u.after nl cap writes).line =
      u.line ++ writes.flatten := by
  induction writes generalizing u with
  | nil => simp [finished, after, joinLines]
  | cons bytes writes ih =>
    have hstep := @join_absorb _ _ nl cap u bytes
    have hrest := ih (u.absorb nl cap bytes).2
    unfold joinLines at hstep hrest ⊢
    rw [finished, after, List.map_append, List.flatMap_append, List.append_assoc, hrest,
      ← List.append_assoc, hstep, List.flatten_cons, List.append_assoc]

theorem notMem_absorb (u : Unfinished α) (bytes : List α) :
    ∀ p ∈ (u.absorb nl cap bytes).1, nl ∉ p.1 := by
  intro p hp
  refine (join_splitLines nl (u.line ++ bytes)).2.1 p.1 ?_
  rw [← (@absorb_split _ _ nl cap u bytes).1]
  exact List.mem_map_of_mem hp

theorem splitLines_absorb (u : Unfinished α) (bytes later : List α) :
    (splitLines nl (u.line ++ (bytes ++ later))).1 =
      (u.absorb nl cap bytes).1.map Prod.fst ++
        (splitLines nl ((u.absorb nl cap bytes).2.line ++ later)).1 := by
  rw [(absorb_split u bytes).1, (absorb_split u bytes).2, ← List.append_assoc, splitLines_append]

theorem notMem_finished (u : Unfinished α) (writes : List (List α)) :
    ∀ p ∈ u.finished nl cap writes, nl ∉ p.1 := by
  induction writes generalizing u with
  | nil => simp [finished]
  | cons bytes writes ih =>
    intro p hp
    rcases List.mem_append.mp hp with hp | hp
    · exact notMem_absorb u bytes p hp
    · exact ih _ p hp

theorem settled_absorb (u : Unfinished α) (bytes : List α) :
    Settled cap (u.absorb nl cap bytes).2 := by
  unfold absorb
  rcases splitLines nl (u.line ++ bytes) with ⟨_ | ⟨line, lines⟩, last⟩
  · exact settled_settle _ _
  · exact settled_settle _ _

end Writes

def spool (u : Unfinished α) : Spool α := ⟨u.line.take u.lost, u.line.drop u.lost⟩

/-- Of an unfinished line at most all of it is gone. -/
structure Sound (nl : α) (u : Unfinished α) : Prop where
  open_ : nl ∉ u.line
  le : u.lost ≤ u.line.length

theorem sound_settle {nl : α} {line : List α} (h : nl ∉ line) (cap : Nat) {lost : Nat}
    (hle : lost ≤ line.length) : Sound nl (settle cap line lost) := by
  refine ⟨h, ?_⟩
  unfold settle
  split_ifs
  · exact Nat.le_refl _
  · exact hle

theorem Sound.absorb [DecidableEq α] {nl : α} {u : Unfinished α} (h : Sound nl u) (cap : Nat)
    (bytes : List α) : Sound nl (u.absorb nl cap bytes).2 := by
  have hsplit := join_splitLines nl (u.line ++ bytes)
  unfold Unfinished.absorb
  rcases hcase : splitLines nl (u.line ++ bytes) with ⟨_ | ⟨line, lines⟩, last⟩
  · rw [hcase] at hsplit
    refine sound_settle hsplit.2.2 cap ?_
    have hlast : last = u.line ++ bytes := by simpa [joinLines] using hsplit.1
    have hle := h.le
    rw [hlast, List.length_append]
    omega
  · rw [hcase] at hsplit
    exact sound_settle hsplit.2.2 cap (Nat.zero_le _)

end Unfinished

/-! ## Going through the lines -/

namespace Spool

variable {β : Type} [DecidableEq α] (nl : α) (cap : Nat) (f : List α → Option β)

/-- Take lines until `f` answers to one, or there is none left. -/
def search : Nat → Spool α → Option β × Spool α
  | 0, s => (none, s)
  | fuel + 1, s =>
    match s.take nl cap with
    | (.line _ rest, s) =>
      match f rest with
      | some b => (some b, s)
      | none => search fuel s
    | (_, s) => (none, s)

/-- The lines in the buffer, and what is left when they are all taken. -/
def contents (s : Spool α) : List (List α × Nat) × Unfinished α :=
  (⟨s.gone, s.gone.length⟩ : Unfinished α).absorb nl cap s.buf

variable {nl cap}

theorem contents_spool {u : Unfinished α} (h : u.Sound nl) (bytes : List α) :
    (u.spool.write bytes).contents nl cap = u.absorb nl cap bytes := by
  have hline : u.line.take u.lost ++ (u.line.drop u.lost ++ bytes) = u.line ++ bytes := by
    rw [← List.append_assoc, List.take_append_drop]
  have hlost : (u.line.take u.lost).length = u.lost := List.length_take_of_le h.le
  simp only [contents, Unfinished.absorb, Unfinished.spool, write, hline, hlost]

theorem contents_line {gone rest : List α} (hgone : nl ∉ gone) (hrest : nl ∉ rest)
    (later : List α) :
    contents nl cap ⟨gone, rest ++ nl :: later⟩ =
      ((gone ++ rest, gone.length) :: (contents nl cap ⟨[], later⟩).1,
        (contents nl cap ⟨[], later⟩).2) := by
  have hwhole : nl ∉ gone ++ rest := List.not_mem_append hgone hrest
  simp only [contents, Unfinished.absorb]
  rw [← List.append_assoc, splitLines_line hwhole, List.nil_append]
  rcases splitLines nl later with ⟨_ | ⟨line, lines⟩, last⟩
  · rfl
  · rfl

theorem contents_open {gone buf : List α} (hgone : nl ∉ gone) (hbuf : nl ∉ buf) :
    contents nl cap ⟨gone, buf⟩ = ([], .settle cap (gone ++ buf) gone.length) := by
  have hwhole : nl ∉ gone ++ buf := List.not_mem_append hgone hbuf
  simp only [contents, Unfinished.absorb]
  rw [splitLines_of_notMem hwhole]

/-- What a search comes to: the first line that is answered to ends it with the lines
after it still in the buffer, or all lines are gone through. -/
inductive Searched (nl : α) (f : List α → Option β) (lines : List (List α × Nat))
    (last : Unfinished α) : Option β × Spool α → Prop where
  | found {before after : List (List α × Nat)} {line : List α} {lost : Nat} {b : β}
      (hlines : lines = before ++ (line, lost) :: after)
      (hbefore : ∀ p ∈ before, f (p.1.drop p.2) = none) (hline : f (line.drop lost) = some b) :
      Searched nl f lines last (some b, ⟨[], joinLines nl (after.map Prod.fst) ++ last.line⟩)
  | through (hnone : ∀ p ∈ lines, f (p.1.drop p.2) = none) :
      Searched nl f lines last (none, last.spool)

theorem search_searched {s : Spool α} (hgone : nl ∉ s.gone) {fuel : Nat}
    (hfuel : s.buf.length ≤ fuel) :
    Searched nl f (s.contents nl cap).1 (s.contents nl cap).2 (search nl cap f fuel s) := by
  induction fuel generalizing s with
  | zero =>
    -- the fuel bounds the buffer, so there is nothing left in it
    rcases s with ⟨gone, buf⟩
    obtain rfl : buf = [] := List.length_eq_zero_iff.mp (Nat.le_zero.mp hfuel)
    rw [contents_open hgone (by simp)]
    have hend : (⟨gone, []⟩ : Spool α) =
        (Unfinished.settle cap (gone ++ []) gone.length).spool := by
      simp [Unfinished.settle, Unfinished.spool]
    have hthrough : Searched nl f [] (.settle cap (gone ++ []) gone.length) _ := .through (by simp)
    rw [← hend] at hthrough
    exact hthrough
  | succ fuel ih =>
    have htaken := take_taken nl cap s
    rw [search]
    generalize hout : s.take nl cap = out at htaken
    rcases out with ⟨out, s'⟩
    dsimp only at htaken
    cases htaken with
    | @line gone rest later hrest =>
      rw [contents_line hgone hrest]
      dsimp only
      rcases hf : f rest with _ | b
      · -- The line is not answered to, and the search goes on behind it.
        have hlen : later.length ≤ fuel := by
          simp only [List.length_append, List.length_cons] at hfuel
          omega
        have hskip : f ((gone ++ rest).drop gone.length) = none := by
          rw [List.drop_left]
          exact hf
        have hrec := @ih ⟨[], later⟩ (by simp) hlen
        generalize search nl cap f fuel ⟨[], later⟩ = res at hrec
        cases hrec with
        | @found before after line lost b hlines hbefore hline =>
          have hsplit : (gone ++ rest, gone.length) :: (contents nl cap ⟨[], later⟩).1 =
              ((gone ++ rest, gone.length) :: before) ++ (line, lost) :: after := by
            rw [hlines]
            rfl
          refine .found hsplit ?_ hline
          intro p hp
          rcases List.mem_cons.mp hp with rfl | hp
          · exact hskip
          · exact hbefore p hp
        | through hnone =>
          refine .through ?_
          intro p hp
          rcases List.mem_cons.mp hp with rfl | hp
          · exact hskip
          · exact hnone p hp
      · -- The line is answered to, and the later ones stay in the buffer.
        have hjoin : joinLines nl ((contents nl cap ⟨[], later⟩).1.map Prod.fst) ++
            (contents nl cap ⟨[], later⟩).2.line = later := Unfinished.join_absorb _ _
        have hline : f ((gone ++ rest).drop gone.length) = some b := by
          rw [List.drop_left]
          exact hf
        have hfound : Searched nl f
            ([] ++ (gone ++ rest, gone.length) :: (contents nl cap ⟨[], later⟩).1)
            (contents nl cap ⟨[], later⟩).2 _ := .found rfl (by simp) hline
        rw [hjoin] at hfound
        exact hfound
    | @dropped gone buf hbuf hlong =>
      -- past the cap: what was held of the open line is gone as well
      rw [contents_open hgone hbuf]
      have hcap : cap < (gone ++ buf).length - gone.length := by
        rw [List.length_append]
        omega
      have hend : (⟨gone ++ buf, []⟩ : Spool α) =
          (Unfinished.settle cap (gone ++ buf) gone.length).spool := by
        simp [Unfinished.settle, Unfinished.spool, hlong]
      dsimp only
      rw [hend]
      refine .through ?_
      simp
    | @none gone buf hbuf hshort =>
      rw [contents_open hgone hbuf]
      have hend : (⟨gone, buf⟩ : Spool α) =
          (Unfinished.settle cap (gone ++ buf) gone.length).spool := by
        simp [Unfinished.settle, Unfinished.spool, Nat.not_lt.mpr hshort]
      dsimp only
      rw [hend]
      refine .through ?_
      simp

/-! ## All answers -/

/-- The part of the unfinished line that a call finds past the cap. -/
def overflow (cap : Nat) (line : List α) (lost : Nat) : List (List α) :=
  if cap < line.length - lost then [line.drop lost] else []

variable (nl cap)

/-- The part of the unfinished line that is found past the cap when all lines are taken. -/
def excess (s : Spool α) : List (List α) :=
  match splitLines nl (s.gone ++ s.buf) with
  | ([], last) => overflow cap last s.gone.length
  | (_ :: _, last) => overflow cap last 0

def drain : Nat → Spool α → List (Out α) × Spool α
  | 0, s => ([], s)
  | fuel + 1, s =>
    match s.take nl cap with
    | (.none, s) => ([], s)
    | (out, s) => (out :: (drain fuel s).1, (drain fuel s).2)

variable {nl cap}

theorem drain_nil (fuel : Nat) (gone : List α) :
    drain nl cap fuel ⟨gone, []⟩ = ([], ⟨gone, []⟩) := by
  cases fuel with
  | zero => rfl
  | succ fuel => simp [drain, take]

theorem notMem_excess (s : Spool α) : ∀ piece ∈ s.excess nl cap, nl ∉ piece := by
  have hover : ∀ {line : List α}, nl ∉ line → ∀ lost, ∀ piece ∈ overflow cap line lost,
      nl ∉ piece := by
    intro line hline lost piece hpiece
    unfold overflow at hpiece
    split_ifs at hpiece
    · rw [List.mem_singleton.mp hpiece]
      exact fun hmem => hline (List.mem_of_mem_drop hmem)
    · exact absurd hpiece List.not_mem_nil
  have hlast := (join_splitLines nl (s.gone ++ s.buf)).2.2
  unfold excess
  rcases hcase : splitLines nl (s.gone ++ s.buf) with ⟨_ | ⟨line, lines⟩, last⟩
  · rw [hcase] at hlast
    exact hover hlast _
  · rw [hcase] at hlast
    exact hover hlast _

theorem drain_eq {s : Spool α} (hgone : nl ∉ s.gone) {fuel : Nat} (hfuel : s.buf.length ≤ fuel) :
    drain nl cap fuel s =
      ((s.contents nl cap).1.map (fun p => .line (p.1.take p.2) (p.1.drop p.2)) ++
          (s.excess nl cap).map .dropped,
        (s.contents nl cap).2.spool) := by
  -- the finished lines come out one by one, and then what is past the cap
  induction fuel generalizing s with
  | zero =>
    rcases s with ⟨gone, buf⟩
    obtain rfl : buf = [] := List.length_eq_zero_iff.mp (Nat.le_zero.mp hfuel)
    rw [contents_open hgone (by simp), drain_nil]
    simp [excess, splitLines_of_notMem hgone, overflow, Unfinished.settle, Unfinished.spool]
  | succ fuel ih =>
    have htaken := take_taken nl cap s
    rw [drain]
    generalize hout : s.take nl cap = out at htaken
    rcases out with ⟨out, s'⟩
    dsimp only at htaken
    cases htaken with
    | @line gone rest later hrest =>
      have hlen : later.length ≤ fuel := by
        simp only [List.length_append, List.length_cons] at hfuel
        omega
      have hwhole : nl ∉ gone ++ rest := List.not_mem_append hgone hrest
      -- The lines behind the first one have lost nothing.
      have hexcess : excess nl cap ⟨gone, rest ++ nl :: later⟩ = excess nl cap ⟨[], later⟩ := by
        simp only [excess]
        rw [← List.append_assoc, splitLines_line hwhole, List.nil_append]
        rcases splitLines nl later with ⟨_ | ⟨line, lines⟩, last⟩
        · rfl
        · rfl
      rw [contents_line hgone hrest, hexcess]
      simp only
      rw [@ih ⟨[], later⟩ (by simp) hlen]
      simp
    | @dropped gone buf hbuf hlong =>
      have hwhole : nl ∉ gone ++ buf := List.not_mem_append hgone hbuf
      rw [contents_open hgone hbuf]
      simp only [drain_nil]
      simp [excess, splitLines_of_notMem hwhole, overflow, hlong, Unfinished.settle,
        Unfinished.spool]
    | @none gone buf hbuf hshort =>
      have hwhole : nl ∉ gone ++ buf := List.not_mem_append hgone hbuf
      rw [contents_open hgone hbuf]
      simp [excess, splitLines_of_notMem hwhole, overflow, Nat.not_lt.mpr hshort,
        Unfinished.settle, Unfinished.spool]

end Spool

/-! ## Pieces of lines -/

/-- Pieces of a stream gathered by line: a line is over with the piece that ends in a
newline. -/
def byLine [DecidableEq α] (nl : α) : List (List α) → List (List (List α))
  | [] => []
  | piece :: pieces =>
    if piece.getLast? = some nl then [piece] :: byLine nl pieces
    else
      match byLine nl pieces with
      | [] => [[piece]]
      | group :: groups => (piece :: group) :: groups

/-- The groups of finished lines whose last pieces are given; `early` are pieces of the
first one. -/
def lineGroups (early : List (List α)) : List (List α) → List (List (List α))
  | [] => []
  | piece :: pieces => (early ++ [piece]) :: pieces.map ([·])

theorem length_lineGroups (early ends : List (List α)) :
    (lineGroups early ends).length = ends.length := by
  cases ends with
  | nil => rfl
  | cons piece pieces => simp [lineGroups]

theorem lineGroups_take (early ends : List (List α)) (n : Nat) :
    lineGroups early (ends.take (n + 1)) = (lineGroups early ends).take (n + 1) := by
  cases ends with
  | nil => rfl
  | cons piece pieces => simp [lineGroups, List.map_take]

theorem getElem?_lineGroups (early ends : List (List α)) (k : Nat) :
    (lineGroups early ends)[k]? =
      ends[k]?.map fun piece => (if k = 0 then early else []) ++ [piece] := by
  rcases ends with _ | ⟨piece, pieces⟩
  · rfl
  · cases k with
    | zero => rfl
    | succ k => simp [lineGroups]

section ByLine

variable [DecidableEq α] {nl : α}

theorem byLine_cons {early : List (List α)} (h : ∀ piece ∈ early, piece.getLast? ≠ some nl)
    {piece : List α} (hend : piece.getLast? = some nl) (pieces : List (List α)) :
    byLine nl (early ++ piece :: pieces) = (early ++ [piece]) :: byLine nl pieces := by
  induction early with
  | nil => rw [List.nil_append, byLine, if_pos hend, List.nil_append]
  | cons first early ih =>
    rw [List.cons_append, byLine, if_neg (h first List.mem_cons_self),
      ih fun x hx => h x (List.mem_cons_of_mem _ hx)]
    rfl

theorem byLine_append {early ends : List (List α)}
    (h : ∀ piece ∈ early, piece.getLast? ≠ some nl)
    (hends : ∀ piece ∈ ends, piece.getLast? = some nl)
    (rest : List (List α)) :
    byLine nl (early ++ (ends ++ rest)) =
      lineGroups early ends ++ byLine nl ((if ends = [] then early else []) ++ rest) := by
  -- the pieces that end lines make groups, and the rest is gathered behind them
  rcases ends with _ | ⟨piece, pieces⟩
  · rfl
  · rw [List.cons_append, byLine_cons h (hends piece List.mem_cons_self), lineGroups,
      if_neg (List.cons_ne_nil _ _), List.nil_append, List.cons_append]
    refine congrArg _ ?_
    -- Each further piece is a line of its own.
    have hsingle : ∀ pieces : List (List α), (∀ piece ∈ pieces, piece.getLast? = some nl) →
        byLine nl (pieces ++ rest) = pieces.map ([·]) ++ byLine nl rest := by
      intro pieces hpieces
      induction pieces with
      | nil => rfl
      | cons next pieces ih =>
        rw [List.cons_append, byLine, if_pos (hpieces next List.mem_cons_self),
          ih fun x hx => hpieces x (List.mem_cons_of_mem _ hx)]
        rfl
    exact hsingle pieces fun x hx => hends x (List.mem_cons_of_mem _ hx)

end ByLine

end Lib
