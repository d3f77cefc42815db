import Tdvmm.Build.TreeHash
import Tdvmm.Compose.Validate

/-!
# Build.Cache — what the bake-cache key tells about the inputs of a bake

The key of an invocation is the hash of a text with the hash of the compose directory, the stack
name and the sizing knobs, and hashes of the binary and its embedded parts. A bake reads more:
which compose file of the directory was chosen, and the trees of the binds and build contexts
with their modes, links and empty directories, wherever they are.

Two invocations with one key have the same inputs exactly when they also agree on everything but
the contents of hashed files (`sameInputs_iff`).
-/

namespace Tdvmm.Build

open Lib Lib.Fs Lib.Text Compose

def CACHE_VERSION : Nat := 6

def text (lines : List (List UInt8)) : List UInt8 := lines.flatMap (· ++ [10])

/-- A byte of a safe path component: `[A-Za-z0-9._-]`. -/
def isSafeByte (b : UInt8) : Bool :=
  (65 ≤ b && b ≤ 90) || (97 ≤ b && b ≤ 122) || (48 ≤ b && b ≤ 57) || b == 46 || b == 95 || b == 45

/-- The files the bake writes next to the compose file of a corpus stack. -/
def keyExcludes : List Name := [utf8 "compose.lock.yml", utf8 "stack.lock"]

/-- One run of `build`: the host's files and where a path of the document leads, the
chosen compose file in its directory, and the arguments. The stack name was checked when
the command line was read. -/
structure Invocation where
  host : List Name → Option Node
  locate : String → Option (List Name)
  floatText : UInt64 → String
  numberText : UInt64 → String
  composePath : String
  composeDir : List Name
  composeFile : Name
  dir : Dir
  dir_eq : ∀ r, dir.node r = host (composeDir ++ r)
  selfExe : List UInt8
  kernel : List UInt8
  builders : List (List UInt8)
  engineLock : List UInt8
  agentPin : List UInt8
  overlay : List UInt8
  stackName : List UInt8
  safeName : ∀ b ∈ stackName, isSafeByte b = true
  memMib : Nat
  workingSetMib : Nat
  squashThresholdMib : Nat

namespace Invocation

variable (sha : Sha256) (i : Invocation)

/-- The lines of the manifest before the one of the compose directory. -/
def headLines : List (List UInt8) :=
  [utf8 "tdvmm-bake-cache v" ++ decimal CACHE_VERSION,
    utf8 "self:      " ++ sha.hex i.selfExe,
    utf8 "builders:  " ++ [44].intercalate i.builders,
    utf8 "engine:    " ++ sha.hex i.engineLock,
    utf8 "kernel:    " ++ sha.hex i.kernel,
    utf8 "agent:     " ++ i.agentPin,
    utf8 "overlay:   " ++ sha.hex i.overlay]

def manifest : List UInt8 :=
  text (i.headLines sha ++
    [utf8 "stackdir:  " ++ treeHash sha keyExcludes i.dir] ++
    [utf8 "name:      " ++ i.stackName] ++
    [utf8 "mem:       " ++ decimal i.memMib] ++
    [utf8 "ws:        " ++ decimal i.workingSetMib] ++
    [utf8 "squash:    " ++ decimal i.squashThresholdMib])

def cacheKey : List UInt8 := sha.hex (i.manifest sha)

def document : Option Node := i.host (i.composeDir ++ [i.composeFile])

def stat (p : String) : Option Node := (i.locate p).bind i.host

def env : Env where
  present := fun p => (i.stat p).isSome
  isDir := fun p => (i.stat p).any Node.isDir
  isFile := fun p =>
    match i.stat p with
    | some (.file _ _) => true
    | _ => false
  readToString := fun p =>
    let bytes := contentOf (i.stat p)
    if utf8Valid bytes then .ok (fromUtf8Lossy bytes)
    else .error "stream did not contain valid UTF-8"
  floatText := i.floatText
  numberText := i.numberText

end Invocation

inductive Root where
  | bind (service target basename : String)
  | context (service imageTag : String) (bases : List String)
  | dockerfile (service : String)
deriving DecidableEq, Repr

/-- The paths whose trees shape the artifact, each with what it is for. -/
def rootsOf (v : Validated) : List (Root × String) :=
  (v.binds.map fun b => (.bind b.service b.target b.basename, b.src)) ++
  v.builds.flatMap fun c =>
    [(.context c.service c.imageTag c.bases, c.context), (.dockerfile c.service, c.dockerfile)]

namespace Invocation

variable (parse : List UInt8 → Option Yaml) (i : Invocation)

/-- The roots of the chosen document and where they are; a document that is not accepted
has none. -/
def roots : List (Root × Option (List Name)) :=
  match parse (contentOf i.document) with
  | none => []
  | some doc =>
    match validate i.env doc i.composePath with
    | .error _ => []
    | .ok v => (rootsOf v).map fun r => (r.1, i.locate r.2)

def treeAt (l : List Name) : List Name → Option Node := fun r => i.host (l ++ r)

def inputTrees : List (Root × Option (List Name → Option Node)) :=
  (i.roots parse).map fun r => (r.1, r.2.map i.treeAt)

end Invocation

/-- The inputs that shape the artifact are the same: the chosen document, and every tree
with its files, modes, links and directories. -/
def SameInputs (parse : List UInt8 → Option Yaml) (i j : Invocation) : Prop :=
  contentOf i.document = contentOf j.document ∧ i.inputTrees parse = j.inputTrees parse

/-- The same regular file of the two compose directories, hashed, with the same mode. -/
def Hashed (i j : Invocation) (l l' r : List Name) : Prop :=
  ∃ q b b' m, Covered keyExcludes q ∧ l ++ r = i.composeDir ++ q ∧ l' ++ r = j.composeDir ++ q ∧
    i.host (l ++ r) = some (.file b m) ∧ j.host (l' ++ r) = some (.file b' m)

/-- Two roots for the same thing whose trees agree, up to the contents of hashed files. -/
def AgreeRoot (i j : Invocation) (x y : Root × Option (List Name)) : Prop :=
  x.1 = y.1 ∧
    match x.2, y.2 with
    | none, none => True
    | some l, some l' => ∀ r, i.host (l ++ r) = j.host (l' ++ r) ∨ Hashed i j l l' r
    | _, _ => False

/-- The invocations agree on what the key does not cover: the same document, or the same
hashed file for it, and trees that differ in the contents of hashed files at most. -/
structure AgreeUnhashed (parse : List UInt8 → Option Yaml) (i j : Invocation) : Prop where
  document : contentOf i.document = contentOf j.document ∨
    Hashed i j i.composeDir j.composeDir [i.composeFile] ∧ i.composeFile = j.composeFile
  roots : List.Forall₂ (AgreeRoot i j) (i.roots parse) (j.roots parse)

/-! ## What an equal key tells -/

theorem text_concat (ls : List (List UInt8)) (l : List UInt8) :
    text (ls ++ [l]) = text ls ++ (l ++ [10]) := by
  simp [text]

theorem text_concat_inj {ls ls' : List (List UInt8)} {l l' : List UInt8} (hls : ls ≠ [])
    (hls' : ls' ≠ []) (hl : (10 : UInt8) ∉ l) (hl' : (10 : UInt8) ∉ l')
    (h : text (ls ++ [l]) = text (ls' ++ [l'])) : text ls = text ls' ∧ l = l' := by
  have hends : ∀ {ls : List (List UInt8)}, ls ≠ [] → ∃ t, text ls = t ++ [10] := by
    intro ls hne
    refine ⟨text ls.dropLast ++ ls.getLast hne, ?_⟩
    conv_lhs => rw [← List.dropLast_concat_getLast hne]
    rw [text_concat, List.append_assoc]
  obtain ⟨t, ht⟩ := hends hls
  obtain ⟨t', ht'⟩ := hends hls'
  have hrev := congrArg List.reverse h
  simp only [text_concat, ht, ht', List.reverse_append, List.reverse_singleton,
    List.cons_append, List.cons.injEq, true_and] at hrev
  obtain ⟨hline, hrest⟩ := append_sep_inj (by simpa using hl) (by simpa using hl') hrev
  exact ⟨by rw [ht, ht', List.reverse_inj.mp hrest], List.reverse_inj.mp hline⟩

theorem newline_not_mem_decimal (n : Nat) : (10 : UInt8) ∉ decimal n := by
  intro hmem
  obtain ⟨c, hc, hten⟩ := List.mem_map.mp hmem
  have hdigit := Nat.isDigit_of_mem_toDigits (by decide) (by decide) hc
  simp only [Char.isDigit, Bool.and_eq_true, decide_eq_true_eq] at hdigit
  have hlow : 48 ≤ c.toNat := hdigit.1
  have hhigh : c.toNat ≤ 57 := hdigit.2
  have hval := congrArg UInt8.toNat hten
  rw [UInt8.toNat_ofNat_of_lt' (show c.toNat < 256 by omega)] at hval
  simp at hval
  omega

theorem newline_not_mem_append {a b : List UInt8} (ha : (10 : UInt8) ∉ a) (hb : (10 : UInt8) ∉ b) :
    (10 : UInt8) ∉ a ++ b := by
  simp [ha, hb]

section Key

variable {sha : Sha256} {i j : Invocation}

theorem treeHash_of_cacheKey (h : i.cacheKey sha = j.cacheKey sha) :
    treeHash sha keyExcludes i.dir = treeHash sha keyExcludes j.dir := by
  have htext := sha.injective h
  have hname : ∀ k : Invocation, (10 : UInt8) ∉ k.stackName := by
    intro k hmem
    exact absurd (k.safeName 10 hmem) (by decide)
  have hhash : ∀ k : Invocation, (10 : UInt8) ∉ treeHash sha keyExcludes k.dir := by
    intro k hmem
    exact (sha.digits _ _ hmem).2 rfl
  have hnumber : ∀ {label : List UInt8}, 10 ∉ label → ∀ n, 10 ∉ label ++ decimal n :=
    fun h n => newline_not_mem_append h (newline_not_mem_decimal n)
  -- line by line from the end
  obtain ⟨htext, -⟩ := text_concat_inj (by simp) (by simp) (hnumber (by decide) _)
    (hnumber (by decide) _) htext
  obtain ⟨htext, -⟩ := text_concat_inj (by simp) (by simp) (hnumber (by decide) _)
    (hnumber (by decide) _) htext
  obtain ⟨htext, -⟩ := text_concat_inj (by simp) (by simp) (hnumber (by decide) _)
    (hnumber (by decide) _) htext
  obtain ⟨htext, -⟩ := text_concat_inj (by simp) (by simp)
    (newline_not_mem_append (by decide) (hname i))
    (newline_not_mem_append (by decide) (hname j)) htext
  obtain ⟨-, hline⟩ := text_concat_inj (by simp [Invocation.headLines])
    (by simp [Invocation.headLines]) (newline_not_mem_append (by decide) (hhash i))
    (newline_not_mem_append (by decide) (hhash j)) htext
  exact List.append_cancel_left hline

theorem host_of_hashed (h : i.cacheKey sha = j.cacheKey sha) {l l' r : List Name}
    (hhashed : Hashed i j l l' r) : i.host (l ++ r) = j.host (l' ++ r) := by
  obtain ⟨q, b, b', m, hcov, hl, hl', hb, hb'⟩ := hhashed
  have hdir : i.dir.node q = some (.file b m) := by rw [i.dir_eq, ← hl, hb]
  have hdir' : j.dir.node q = some (.file b' m) := by rw [j.dir_eq, ← hl', hb']
  rw [hb, hb', covered_content (treeHash_of_cacheKey h) hcov hdir hdir']

theorem agreeRoot_iff (h : i.cacheKey sha = j.cacheKey sha) (x y : Root × Option (List Name)) :
    AgreeRoot i j x y ↔ (x.1, x.2.map i.treeAt) = (y.1, y.2.map j.treeAt) := by
  obtain ⟨root, at1⟩ := x
  obtain ⟨root', at2⟩ := y
  unfold AgreeRoot
  rw [Prod.mk.injEq]
  apply and_congr_right
  intro _
  cases at1 with
  | none => cases at2 <;> simp
  | some l =>
    cases at2 with
    | none => simp
    | some l' =>
      simp only [Option.map_some, Option.some.injEq]
      constructor
      · intro hagree
        funext r
        rcases hagree r with hsame | hhashed
        · exact hsame
        · exact host_of_hashed h hhashed
      · intro htree r
        exact .inl (congrFun htree r)

/-- Of two invocations with one key: the inputs are the same exactly when they agree on
what the key does not cover. -/
theorem sameInputs_iff (parse : List UInt8 → Option Yaml) (h : i.cacheKey sha = j.cacheKey sha) :
    SameInputs parse i j ↔ AgreeUnhashed parse i j := by
  have hroots : List.Forall₂ (AgreeRoot i j) (i.roots parse) (j.roots parse) ↔
      i.inputTrees parse = j.inputTrees parse := by
    unfold Invocation.inputTrees
    rw [← List.forall₂_eq_eq_eq, List.forall₂_map_left_iff, List.forall₂_map_right_iff]
    constructor
    · exact List.Forall₂.imp fun x y => (agreeRoot_iff h x y).mp
    · exact List.Forall₂.imp fun x y => (agreeRoot_iff h x y).mpr
  constructor
  · rintro ⟨hdoc, htrees⟩
    exact ⟨.inl hdoc, hroots.mpr htrees⟩
  · rintro ⟨hdoc, htrees⟩
    refine ⟨?_, hroots.mp htrees⟩
    rcases hdoc with hdoc | ⟨hhashed, hfile⟩
    · exact hdoc
    · have hnode := host_of_hashed h hhashed
      unfold Invocation.document
      rw [hnode, hfile]

end Key

/-! ## Two compose files in one directory -/

def nibbles (b : UInt8) : List UInt8 := [97 + b / 16, 97 + b % 16]

theorem nibbles_letters (b : UInt8) : ∀ c ∈ nibbles b, 97 ≤ c.toNat := by
  have hb := b.toNat_lt
  intro c hc
  simp only [nibbles, List.mem_cons, List.not_mem_nil, or_false] at hc
  rcases hc with rfl | rfl
  · simp only [UInt8.toNat_add, UInt8.toNat_div, UInt8.reduceToNat]
    omega
  · simp only [UInt8.toNat_add, UInt8.toNat_mod, UInt8.reduceToNat]
    omega

theorem nibbles_inj {b b' : UInt8} (h : nibbles b = nibbles b') : b = b' := by
  have hb := b.toNat_lt
  have hb' := b'.toNat_lt
  simp only [nibbles, List.cons.injEq, and_true, ← UInt8.toNat_inj, UInt8.toNat_add,
    UInt8.toNat_div, UInt8.toNat_mod, UInt8.reduceToNat] at h
  apply UInt8.toNat_inj.mp
  omega

/-- An injective stand-in for the hash: the bytes themselves, in letters. -/
def lettersSha : Sha256 where
  hex := fun bs => bs.flatMap nibbles
  injective := by
    intro bs bs' h
    induction bs generalizing bs' with
    | nil =>
      cases bs' with
      | nil => rfl
      | cons b' bs' => simp [nibbles] at h
    | cons b bs ih =>
      cases bs' with
      | nil => simp [nibbles] at h
      | cons b' bs' =>
        simp only [List.flatMap_cons] at h
        obtain ⟨hhead, htail⟩ := List.append_inj h rfl
        rw [nibbles_inj hhead, ih htail]
  digits := by
    intro bs c hc
    obtain ⟨b, -, hb⟩ := List.mem_flatMap.mp hc
    have hletter := nibbles_letters b c hb
    constructor
    · rintro rfl
      simp at hletter
    · rintro rfl
      simp at hletter

def documentText (image : String) : List UInt8 :=
  utf8 s!"services:\n  app:\n    image: {image}\n    volumes:\n      - ./conf:/x\n"

/-- What is read from the text with the image `busybox` and the one with `alpine`. -/
def parseDocument (bytes : List UInt8) : Option Yaml :=
  (["busybox", "alpine"].find? fun image => bytes = documentText image).map fun image =>
    .map [(.str "services", .map [(.str "app", .map
      [(.str "image", .str image), (.str "volumes", .seq [.str "./conf:/x"])])])]

/-- The directory `/s` with the documents `a.yml` and `b.yml` and the file they bind, and
perhaps a link. -/
def stackHost (linked : Bool) : List Name → Option Node := fun l =>
  if l = [utf8 "s", utf8 "a.yml"] then some (.file (documentText "busybox") 0o644)
  else if l = [utf8 "s", utf8 "b.yml"] then some (.file (documentText "alpine") 0o644)
  else if l = [utf8 "s", utf8 "conf"] then some (.file (utf8 "x = 1") 0o644)
  else if l = [utf8 "s", utf8 "link"] ∧ linked then some (.link "a.yml")
  else none

def stackDir (linked : Bool) : Dir where
  node := fun r => stackHost linked ([utf8 "s"] ++ r)
  files := [[utf8 "a.yml"], [utf8 "b.yml"], [utf8 "conf"]]
  mem_files := by
    intro r
    simp only [stackHost, List.cons_append, List.nil_append, List.cons.injEq, true_and,
      List.mem_cons, List.not_mem_nil, or_false]
    constructor
    · rintro (rfl | rfl | rfl)
      · exact ⟨_, 0o644, rfl⟩
      · exact ⟨_, 0o644, rfl⟩
      · exact ⟨_, 0o644, rfl⟩
    · rintro ⟨bytes, mode, h⟩
      split at h
      · rename_i hr
        exact .inl hr
      · split at h
        · rename_i hr
          exact .inr (.inl hr)
        · split at h
          · rename_i hr
            exact .inr (.inr hr)
          · split at h <;> cases h
  names := by decide +kernel

def buildOf (file : String) (linked : Bool) : Invocation where
  host := stackHost linked
  locate := fun p => if p = "/s/conf" then some [utf8 "s", utf8 "conf"] else none
  floatText := fun _ => ""
  numberText := fun _ => ""
  composePath := "/s/" ++ file
  composeDir := [utf8 "s"]
  composeFile := utf8 file
  dir := stackDir linked
  dir_eq := fun _ => rfl
  selfExe := []
  kernel := []
  builders := []
  engineLock := []
  agentPin := []
  overlay := []
  stackName := utf8 "demo"
  safeName := by decide +kernel
  memMib := 2048
  workingSetMib := 256
  squashThresholdMib := 64

theorem roots_buildOf : ∀ file ∈ ["a.yml", "b.yml"], ∀ linked,
    (buildOf file linked).roots parseDocument =
      [(.bind "app" "/x" "conf", some [utf8 "s", utf8 "conf"])] := by
  decide +kernel

theorem sameInputs_iff_linked :
    (buildOf "a.yml" false).cacheKey lettersSha = (buildOf "a.yml" true).cacheKey lettersSha ∧
      SameInputs parseDocument (buildOf "a.yml" false) (buildOf "a.yml" true) ∧
      (buildOf "a.yml" true).roots parseDocument =
        [(.bind "app" "/x" "conf", some [utf8 "s", utf8 "conf"])] := by
  -- building the same file, with and without a link in the directory that nothing reads
  have hkey : (buildOf "a.yml" false).cacheKey lettersSha =
      (buildOf "a.yml" true).cacheKey lettersSha := by decide +kernel
  refine ⟨hkey, (sameInputs_iff parseDocument hkey).mpr ⟨.inr ⟨?_, rfl⟩, ?_⟩,
    roots_buildOf _ (by simp) _⟩
  · exact ⟨[utf8 "a.yml"], documentText "busybox", documentText "busybox", 0o644,
      by unfold Covered; decide +kernel, rfl, rfl, by decide +kernel, by decide +kernel⟩
  · rw [roots_buildOf _ (by simp), roots_buildOf _ (by simp)]
    refine .cons ⟨rfl, fun r => .inl ?_⟩ .nil
    -- the link is not at or below the file
    have hne : utf8 "conf" ≠ utf8 "link" := by decide +kernel
    simp [buildOf, stackHost, hne]

/-- Two builds in one directory that choose different documents have one key. -/
theorem chosen_document_not_hashed :
    (buildOf "a.yml" false).cacheKey lettersSha = (buildOf "b.yml" false).cacheKey lettersSha ∧
      contentOf (buildOf "a.yml" false).document ≠ contentOf (buildOf "b.yml" false).document ∧
      ∀ file ∈ ["a.yml", "b.yml"], (buildOf file false).roots parseDocument =
        [(.bind "app" "/x" "conf", some [utf8 "s", utf8 "conf"])] := by
  refine ⟨by decide +kernel, by decide +kernel, ?_⟩
  exact fun file hfile => roots_buildOf file hfile false

end Tdvmm.Build
