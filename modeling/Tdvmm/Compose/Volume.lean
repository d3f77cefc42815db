import Mathlib.Data.List.Infix
import Tdvmm.Compose.Lock

/-!
# Compose.Volume — volume entries and the paths in them

What an entry of `volumes` binds, where its destination is, and where a path leads, said
without the functions of the gate and the emitter.

* `IsBind`: the source, the target and the mode of an entry that is a bind.
* `Recorded`: the destination that the lock has for a service and a target.
* `walk`, `Inside`: following a path from a place, and paths that never leave it upwards.
-/

namespace Tdvmm.Compose

open Lib.Text

/-! ## Binds -/

/-- A source that is a path, and not the name of a volume. -/
def IsPath (src : String) : Prop :=
  startsWith '.' src = true ∨ startsWith '/' src = true ∨ startsWith '~' src = true ∨
    contains '/' src = true

def textOf (m : Fields) (key : String) : String := ((m.get? key).bind Yaml.asStr).getD ""

/-- What an entry binds where, and whether only for reading. In the short form the source,
the target and the options stand between colons. -/
inductive IsBind : Yaml → String → String → Bool → Prop
  | short {s src target : String} {options : List String}
      (hparts : split ':' s = src :: target :: options) (hpath : IsPath src) :
      IsBind (.str s) src target (options.head?.any fun o => (split ',' o).contains "ro")
  | long {m : Fields} (htype : m.get? "type" = some (.str "bind")) :
      IsBind (.map m) (textOf m "source") (textOf m "target")
        (((m.get? "read_only").bind Yaml.asBool).getD false)

def modeText (ro : Bool) : String := if ro then "ro" else "rw"

theorem isBind_of_splitBind {entry : Yaml} {src target mode : String}
    (h : splitBind entry = some (src, target, mode)) :
    ∃ ro, IsBind entry src target ro ∧ normMode mode = modeText ro := by
  cases entry with
  | str s =>
    simp only [splitBind] at h
    split at h
    · rename_i src' target' options hparts
      split at h
      · rename_i hpath
        obtain ⟨rfl, rfl, rfl⟩ : src' = src ∧ target' = target ∧
            options.head?.getD "rw" = mode := by simpa using h
        refine ⟨_, .short hparts (by simpa [IsPath, or_assoc] using hpath), ?_⟩
        -- without options the mode is `rw`
        cases options with
        | nil => decide
        | cons o rest => rfl
      · cases h
    · cases h
  | map m =>
    simp only [splitBind] at h
    split at h
    · rename_i htype
      obtain ⟨rfl, rfl, rfl⟩ := by simpa using h
      refine ⟨_, .long ?_, ?_⟩
      · cases hget : Fields.get? m "type" with
        | none => simp [hget] at htype
        | some y => cases y <;> simp_all [Yaml.asStr]
      · cases ((Fields.get? m "read_only").bind Yaml.asBool).getD false <;> decide
    · cases h
  | _ => cases h

theorem splitBind_of_isBind {entry : Yaml} {src target : String} {ro : Bool}
    (h : IsBind entry src target ro) : ∃ mode, splitBind entry = some (src, target, mode) := by
  cases h with
  | short hparts hpath =>
    have hpath : (startsWith '.' src || startsWith '/' src || startsWith '~' src ||
        contains '/' src) = true := by simpa [IsPath, or_assoc] using hpath
    simp [splitBind, hparts, hpath]
  | long htype => simp [splitBind, htype, Yaml.asStr, textOf]

/-- The harness binds, as they stand in every service of a lock. -/
def harnessEntries : List String :=
  ["/run/tdvmm/events:/run/tdvmm/events:rw", "/run/tdvmm/ctl:/run/tdvmm/ctl:rw"]

theorem harnessBinds_eq : harnessBinds = harnessEntries.map .str := by rfl

/-! ## Destinations -/

def docBinds (doc : Yaml) (composePath : String) : List Bind :=
  (servicesOf doc).flatMap (serviceBinds composePath)

/-- The volume entries of a document with their services, in order. -/
def entriesOf (doc : Yaml) : List (String × Yaml) :=
  (servicesOf doc).flatMap fun s =>
    match s.1.asStr, s.2 with
    | some sname, .map scfg => (volumesOf scfg).map (sname, ·)
    | _, _ => []

/-- The last name of a path; empty when the path ends in dots. -/
def lastName (p : String) : String := (fileName p).getD ""

/-- The destination for a service and a target: the last bind of that service on that target
is copied below the bind base, under the service and the last name of its source. -/
def Recorded (req : EmitLockRequest) (sname target dest : String) : Prop :=
  ∃ before entry after src ro, entriesOf req.doc = before ++ (sname, entry) :: after ∧
    IsBind entry src target ro ∧
    (∀ e ∈ after, e.1 = sname → ∀ src ro, ¬ IsBind e.2 src target ro) ∧
    dest = req.bindsBase ++ "/" ++ sname ++ "/" ++ lastName src

theorem docBinds_eq_filterMap (doc : Yaml) (composePath : String) :
    docBinds doc composePath = (entriesOf doc).filterMap fun e => bindOf composePath e.1 e.2 := by
  unfold docBinds entriesOf
  rw [List.filterMap_flatMap]
  congr 1
  funext s
  obtain ⟨skey, cfg⟩ := s
  simp only [serviceBinds]
  cases skey.asStr with
  | none => rfl
  | some sname =>
    cases cfg with
    | map scfg => exact Eq.symm List.filterMap_map
    | _ => rfl

theorem docBinds_eq {env : Env} {req : EmitLockRequest} {v : Validated}
    (h : validate env req.doc req.composePath = .ok v) :
    v.binds = docBinds req.doc req.composePath := (validate_ok h).2.1

def nameOf : Component → Option String
  | .normal name => some name
  | _ => none

theorem fileName_eq (p : String) : fileName p = (tailComponents p).getLast?.bind nameOf := by
  have hlast : fileName p = (components p).getLast?.bind nameOf := by
    unfold fileName
    rcases (components p).getLast? with _ | _ | _ | _ | name <;> rfl
  rw [hlast]
  unfold components
  split
  · rw [List.getLast?_cons]
    cases (tailComponents p).getLast? <;> rfl
  · split
    · rw [List.getLast?_cons]
      cases (tailComponents p).getLast? <;> rfl
    · rfl

theorem tailComponents_trimEnd (p : String) :
    tailComponents (trimEndMatches '/' p) = tailComponents p := by
  have hrev : ∀ l : List Char, tailComponents (String.ofList (l.dropWhile (· == '/')).reverse) =
      tailComponents (String.ofList l.reverse) := by
    intro l
    induction l with
    | nil => rfl
    | cons c l ih =>
      by_cases hc : c = '/'
      · have htext : String.ofList (c :: l).reverse = String.ofList l.reverse ++ "/" ++ "" := by
          rw [hc, List.reverse_cons, String.ofList_append]
          simp
        rw [List.dropWhile_cons_of_pos (by simpa using hc), ih, htext, tailComponents_append]
        exact (List.append_nil _).symm
      · rw [List.dropWhile_cons_of_neg (by simpa using hc)]
  have h := hrev p.toList.reverse
  rwa [List.reverse_reverse, String.ofList_toList] at h

theorem bindBasename_eq (src : String) : bindBasename src = lastName src := by
  unfold bindBasename lastName
  rw [fileName_eq, fileName_eq, tailComponents_trimEnd]

theorem recorded_of_lookup {env : Env} {req : EmitLockRequest} {v : Validated}
    (hv : validate env req.doc req.composePath = .ok v) {sname target dest : String}
    (h : (bindDests v.binds req.bindsBase).2.lookup (sname, target) = some dest) :
    Recorded req sname target dest := by
  obtain ⟨pre, b, post, hbinds, hkey, hdest, hlast⟩ := lookup_bindDests h
  obtain ⟨hservice, htarget⟩ : b.service = sname ∧ b.target = target := by simpa using hkey
  -- the binds are those of the entries, so the bind stands for an entry and so do the later ones
  rw [docBinds_eq hv, docBinds_eq_filterMap] at hbinds
  obtain ⟨l₁, l₂, hentries, -, hpost⟩ := List.filterMap_eq_append_iff.mp hbinds
  obtain ⟨l₃, e, after, rfl, -, hb, hafter⟩ := List.filterMap_eq_cons_iff.mp hpost
  obtain ⟨⟨src, target', mode⟩, hsplit, hb⟩ := Option.map_eq_some_iff.mp hb
  obtain ⟨ro, hbind, -⟩ := isBind_of_splitBind hsplit
  subst hb
  refine ⟨l₁ ++ l₃, e.2, after, src, ro, ?_, htarget ▸ hbind, ?_, ?_⟩
  · rw [hentries, ← hservice, List.append_assoc]
  · intro e' he' hname src' ro' hbind'
    obtain ⟨mode', hsplit'⟩ := splitBind_of_isBind hbind'
    obtain ⟨c, hc, hkey'⟩ : ∃ c, bindOf req.composePath e'.1 e'.2 = some c ∧
        (c.service, c.target) = (e'.1, target) := by simp [bindOf, hsplit']
    have hmem : c ∈ post := hafter ▸ List.mem_filterMap.mpr ⟨e', he', hc⟩
    exact hlast c hmem (hkey'.trans (by rw [hname]))
  · rw [← hdest, ← hservice, ← bindBasename_eq]
    simp [Bind.dest, toString, String.append_assoc]

/-! ## Sources in the guest -/

theorem rewriteEntry_of_bind {env : Env} {req : EmitLockRequest} {v : Validated}
    (hv : validate env req.doc req.composePath = .ok v) {sname : String} {scfg : Fields}
    (hs : (.str sname, .map scfg) ∈ servicesOf req.doc) {entry : Yaml}
    (he : entry ∈ volumesOf scfg) {src target mode : String}
    (hsplit : splitBind entry = some (src, target, mode)) :
    ∃ b ∈ docBinds req.doc req.composePath, b.service = sname ∧ b.target = target ∧
      (bindDests v.binds req.bindsBase).2.lookup (sname, target) =
        some (b.dest req.bindsBase) ∧
      rewriteEntry sname (bindDests v.binds req.bindsBase).2 entry =
        .str (volumeEntry (b.dest req.bindsBase) target (normMode mode)) := by
  have hmem := (validate_binds hv _).mpr ⟨sname, scfg, hs, entry, he, by rw [bindOf, hsplit]; rfl⟩
  obtain ⟨dest, hdest⟩ : ∃ dest, (bindDests v.binds req.bindsBase).2.lookup (sname, target) =
      some dest := lookup_bindDests_isSome hmem
  obtain ⟨-, -, hadm⟩ := validate_ok hv
  obtain ⟨n, c, heq, hadm⟩ := hadm _ hs
  obtain ⟨rfl, rfl⟩ : sname = n ∧ scfg = c := by simpa using heq
  have hrel := hadm.volumes entry he _ hsplit
  obtain ⟨pre, b, post, hbinds, hkey, rfl, -⟩ := lookup_bindDests hdest
  obtain ⟨hservice, htarget⟩ : b.service = sname ∧ b.target = target := by simpa using hkey
  refine ⟨b, docBinds_eq hv ▸ by simp [hbinds], hservice, htarget, hdest, ?_⟩
  simp only [rewriteEntry, hsplit, hrel, Bool.false_eq_true, if_false]
  rw [hdest]

/-- The source that the guest reads in a volume entry: what stands before the first
colon. -/
def entrySource (entry : Yaml) : Option String := entry.asStr.bind fun s => (split ':' s).head?

def beforeColon (s : String) : String := String.ofList (s.toList.takeWhile (· != ':'))

theorem beforeColon_of_not_contains {s : String} (h : contains ':' s = false) :
    beforeColon s = s := by
  unfold beforeColon
  rw [List.takeWhile_eq_self_iff.mpr, String.ofList_toList]
  intro c hc
  simp only [contains, List.contains_eq_mem, decide_eq_false_iff_not] at h
  simp only [bne_iff_ne]
  exact fun heq => h (heq ▸ hc)

theorem entrySource_volumeEntry (dest target mode : String) :
    entrySource (.str (volumeEntry dest target mode)) = some (beforeColon dest) := by
  have htext : volumeEntry dest target mode = dest ++ ":" ++ (target ++ ":" ++ mode) := by
    simp [volumeEntry, toString, String.append_assoc]
  simp only [entrySource, Yaml.asStr, Option.bind_some]
  rw [htext, split_append (by rfl)]
  unfold split beforeColon
  rw [List.head?_append, List.head?_map, head?_splitOn]
  rfl

theorem contains_append (c : Char) (s s' : String) :
    contains c (s ++ s') = (contains c s || contains c s') := by
  simp [contains, Bool.decide_or]

/-- No service name and no source's last name has a colon, at which the guest would end the
source of an entry. -/
structure Colonless (req : EmitLockRequest) : Prop where
  services : ∀ b ∈ docBinds req.doc req.composePath, contains ':' b.service = false
  sources : ∀ b ∈ docBinds req.doc req.composePath, contains ':' b.basename = false

theorem Colonless.dest {req : EmitLockRequest} (h : Colonless req)
    (hbase : req.bindsBase = BINDS_BASE) {b : Bind}
    (hb : b ∈ docBinds req.doc req.composePath) :
    contains ':' (b.dest req.bindsBase) = false := by
  have hbase' : contains ':' BINDS_BASE = false := by decide
  have hslash : contains ':' "/" = false := by decide
  simp [Bind.dest, toString, contains_append, h.services b hb, h.sources b hb, hbase, hbase',
    hslash]

theorem docBinds_basename {doc : Yaml} {composePath : String} {b : Bind}
    (h : b ∈ docBinds doc composePath) : b.basename = "" ∨ IsName b.basename := by
  rw [docBinds_eq_filterMap] at h
  obtain ⟨e, -, hb⟩ := List.mem_filterMap.mp h
  obtain ⟨parts, -, rfl⟩ := Option.map_eq_some_iff.mp hb
  dsimp only [bindBasename]
  cases h : fileName (trimEndMatches '/' parts.1) with
  | none => exact .inl rfl
  | some name => exact .inr (isName_fileName h)

/-! ## Places -/

/-- Follow one component from a place, kept with its last name first. -/
def follow (place : List String) : Component → List String
  | .rootDir => []
  | .curDir => place
  | .parentDir => place.tail
  | .normal name => name :: place

def walk (start : List String) (p : String) : List String := (tailComponents p).foldl follow start

def place (p : String) : List String := (walk [] p).reverse

/-- A path that never climbs above where it starts: in each first part of it, at most half of
the components are `..`. -/
def Inside (p : String) : Prop :=
  ∀ cs ∈ (tailComponents p).inits, 2 * cs.count .parentDir ≤ cs.length

instance (p : String) : Decidable (Inside p) := inferInstanceAs (Decidable (∀ _ ∈ _, _))

section Places

variable {p q : String} {start : List String}

theorem walk_append : walk start (p ++ "/" ++ q) = walk (walk start p) q := by
  simp [walk]

theorem walk_of_isName (h : IsName p) : walk start p = p :: start := by
  simp [walk, tailComponents_of_isName h, follow]

theorem inside_append (hq : q = "" ∨ IsName q) : Inside (p ++ "/" ++ q) ↔ Inside p := by
  unfold Inside
  rw [tailComponents_append]
  rcases hq with rfl | hq
  · rw [show tailComponents "" = [] by rfl, List.append_nil]
  · rw [tailComponents_of_isName hq]
    simp only [List.mem_inits, List.prefix_concat_iff]
    constructor
    · exact fun h cs hcs => h cs (.inr hcs)
    · rintro h cs (rfl | hcs)
      · have hall := h _ List.prefix_rfl
        simp only [List.count_append, List.length_append, List.length_singleton]
        simp
        omega
      · exact h cs hcs

/-- Such a path leads to a place at or below its start: the names that its `..` have not taken
back. -/
theorem walk_inside (h : Inside p) : ∃ names, walk start p = names ++ start := by
  unfold walk Inside at *
  have hparts : ∀ c ∈ tailComponents p, c = .parentDir ∨ ∃ name, c = .normal name := by
    intro c hc
    obtain ⟨part, -, hpart⟩ := List.mem_filterMap.mp hc
    unfold Component.ofPart at hpart
    split at hpart
    · cases hpart
    · split at hpart
      · exact .inl (Option.some.inj hpart).symm
      · exact .inr ⟨part, (Option.some.inj hpart).symm⟩
  generalize tailComponents p = cs at h hparts
  suffices hnames : ∃ names, cs.foldl follow start = names ++ start ∧
      names.length + 2 * cs.count .parentDir = cs.length by
    exact hnames.imp fun _ hn => hn.1
  induction cs using List.reverseRecOn with
  | nil => exact ⟨[], rfl, rfl⟩
  | append_singleton cs c ih =>
    have hall := h (cs ++ [c]) (by simp)
    obtain ⟨names, hfold, hlen⟩ := ih
      (fun cs' hcs' => h cs' ((List.mem_inits _ _).mpr
        (((List.mem_inits _ _).mp hcs').trans (List.prefix_append _ _))))
      fun c hc => hparts c (by simp [hc])
    rw [List.foldl_append, hfold]
    simp only [List.count_append, List.length_append, List.length_singleton] at hall ⊢
    rcases hparts c (by simp) with rfl | ⟨name, rfl⟩
    · simp only [List.count_singleton_self] at hall ⊢
      cases names with
      | nil =>
        simp only [List.length_nil] at hlen
        omega
      | cons name names =>
        refine ⟨names, rfl, ?_⟩
        simp only [List.length_cons] at hlen
        omega
    · refine ⟨name :: names, rfl, ?_⟩
      simp
      omega

end Places

end Tdvmm.Compose
