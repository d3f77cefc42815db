import Mathlib.Data.List.TakeWhile
import Tdvmm.Guest.Dispatch
import Tdvmm.Lib.Trace

/-!
# Guest.Partition — the partition map and the drop rules in force

A `partition` reads the addresses of the two services (`locate`), puts the pair into the map and
has nft replace the rules by those of the map; a `heal` takes entries out and does the same.

The map is changed before the transaction. When that fails, a `partition` takes its key out
again, also where the key was there before, and a `heal` restores nothing. `bookkept_iff` says
at which requests the map and the rules stay together.
-/

namespace Tdvmm.Guest

open Lib Lib.Text Proto

/-! ## The drop rules -/

abbrev Rules := List (String × String)

namespace Partitions

/-- The rules that the ruleset of a map installs. -/
def rules (p : Partitions) : Rules := p.flatMap fun (_, a, b) => [(a, b), (b, a)]

def keys (p : Partitions) : List String := p.map (·.1)

def Words (p : Partitions) : Prop :=
  ∀ e ∈ p, (∀ c ∈ e.2.1.toList, isWhitespace c = false) ∧
    ∀ c ∈ e.2.2.toList, isWhitespace c = false

variable {p : Partitions} {key : String} {ips : String × String}

theorem mem_insert {e : String × String × String} (h : e ∈ p.insert key ips) :
    e = (key, ips) ∨ e ∈ p := by
  induction p with
  | nil => exact .inl (List.mem_singleton.mp h)
  | cons kv rest ih =>
    unfold insert at h
    split at h
    · exact (List.mem_cons.mp h).imp_right (List.mem_cons_of_mem _)
    · split at h
      · exact List.mem_cons.mp h
      · rcases List.mem_cons.mp h with rfl | hin
        · exact .inr List.mem_cons_self
        · exact (ih hin).imp_right (List.mem_cons_of_mem _)

theorem remove_insert : (p.insert key ips).remove key = p.remove key := by
  -- taking out a key that was just put in takes out what was there before, too
  induction p with
  | nil => simp [insert, remove]
  | cons kv rest ih =>
    unfold insert
    split
    next heq => simp [remove, ← heq]
    next hne =>
      split
      · simp [remove]
      · unfold remove at ih ⊢
        rw [List.filter_cons, List.filter_cons, ih]

theorem remove_eq_self : p.remove key = p ↔ key ∉ p.keys := by
  simp only [remove, keys, List.filter_eq_self, decide_eq_true_eq, List.mem_map, not_exists,
    not_and]

theorem length_insert (h : key ∉ p.keys) : (p.insert key ips).length = p.length + 1 := by
  induction p with
  | nil => rfl
  | cons kv rest ih =>
    simp only [keys, List.map_cons, List.mem_cons, not_or] at h
    unfold insert
    rw [if_neg h.1]
    split
    · rfl
    · rw [List.length_cons, ih h.2, List.length_cons]

theorem length_rules (p : Partitions) : p.rules.length = 2 * p.length := by
  induction p with
  | nil => rfl
  | cons e rest ih =>
    rw [rules, List.flatMap_cons, List.length_append, ← rules, ih]
    simp only [List.length_cons, List.length_nil]
    omega

theorem rules_insert_ne (h : key ∉ p.keys) : (p.insert key ips).rules ≠ p.rules := by
  intro heq
  have hlen := congrArg List.length heq
  rw [length_rules, length_rules, length_insert h] at hlen
  omega

theorem Words.nil : Words [] := fun _ he => absurd he List.not_mem_nil

theorem Words.insert (hp : p.Words) (ha : ∀ c ∈ ips.1.toList, isWhitespace c = false)
    (hb : ∀ c ∈ ips.2.toList, isWhitespace c = false) : (p.insert key ips).Words := by
  intro e he
  rcases mem_insert he with rfl | hin
  · exact ⟨ha, hb⟩
  · exact hp e hin

theorem Words.remove (hp : p.Words) : (p.remove key).Words :=
  fun e he => hp e (List.mem_of_mem_filter he)

end Partitions

/-! ## What nft reads -/

/-- What a command of nft, word by word, makes of the drop rules of our table. -/
def nftCommand (rules : Rules) : List String → Option Rules
  | [""] => some rules
  | ["add", "table", "inet", "tdvmm_faults"] => some rules
  | ["delete", "table", "inet", "tdvmm_faults"] => some []
  | ["add", "chain", "inet", "tdvmm_faults", "partition", "\x7b", "type", "filter", "hook",
      "forward", "priority", "-300", ";", "policy", "accept", ";", "\x7d"] => some rules
  | ["add", "rule", "inet", "tdvmm_faults", "partition", "ip", "saddr", a, "ip", "daddr", b,
      "drop"] => some (rules ++ [(a, b)])
  | _ => none

def nftLine (rules : Rules) (line : String) : Option Rules :=
  nftCommand rules ((line.toList.splitOnP isWhitespace).map String.ofList)

/-- The drop rules after the commands of a text, `none` if there is a command of another kind. -/
def readRuleset (text : String) (rules : Rules) : Option Rules :=
  (split '\n' text).foldlM nftLine rules

section Ruleset

variable {p : Partitions}

def ruleLine (a b : String) : String :=
  "add rule inet tdvmm_faults partition ip saddr " ++ a ++ " ip daddr " ++ b ++ " drop"

/-- The lines in front of the rules: they leave our table empty, with its chain. -/
def chainLines : List String :=
  ["add table inet tdvmm_faults", "delete table inet tdvmm_faults", "add table inet tdvmm_faults",
    "add chain inet tdvmm_faults partition \x7b type filter hook forward priority -300 ; " ++
      "policy accept ; \x7d"]

def ruleLines (p : Partitions) : List String :=
  p.flatMap fun e => [ruleLine e.2.1 e.2.2, ruleLine e.2.2 e.2.1]

theorem ruleLine_newline (a b : String) : ruleLine a b ++ "\n" =
    "add rule inet tdvmm_faults partition ip saddr " ++ a ++ " ip daddr " ++ b ++ " drop\n" := by
  have hdrop : " drop" ++ "\n" = " drop\n" := by decide
  unfold ruleLine
  rw [String.append_assoc, hdrop]

theorem ruleset_eq :
    ruleset p = String.join ((chainLines ++ ruleLines p).map (· ++ "\n")) := by
  have hrules : String.join ((ruleLines p).map (· ++ "\n")) =
      String.join (p.map fun (_, a, b) =>
        "add rule inet tdvmm_faults partition ip saddr " ++ a ++ " ip daddr " ++ b ++ " drop\n" ++
        "add rule inet tdvmm_faults partition ip saddr " ++ b ++ " ip daddr " ++ a ++
        " drop\n") := by
    induction p with
    | nil => rfl
    | cons e rest ih =>
      rw [List.map_cons, String.join_cons, ← ih]
      simp only [ruleLines, List.flatMap_cons, List.cons_append, List.nil_append, List.map_cons,
        String.join_cons, ruleLine_newline, String.append_assoc]
  unfold ruleset
  rw [List.map_append, ← hrules]
  simp only [chainLines, List.map_cons, List.map_nil, List.cons_append, List.nil_append,
    String.join_cons, String.append_assoc]
  rfl

theorem readRuleset_join {lines : List String}
    (h : ∀ line ∈ lines, Text.contains '\n' line = false) (rules : Rules) :
    readRuleset (String.join (lines.map (· ++ "\n"))) rules = lines.foldlM nftLine rules := by
  have hsplit : split '\n' (String.join (lines.map (· ++ "\n"))) = lines ++ [""] := by
    induction lines with
    | nil => rfl
    | cons line lines ih =>
      rw [List.map_cons, String.join_cons, split_append rfl, ih fun l hl => h l (.tail _ hl),
        split_of_not_contains (h line (.head _))]
      rfl
  have hblank (r : Rules) : nftLine r "" = some r := rfl
  rw [readRuleset, hsplit, List.foldlM_append]
  simp [hblank]

theorem nftLine_ruleLine {a b : String} (ha : ∀ c ∈ a.toList, isWhitespace c = false)
    (hb : ∀ c ∈ b.toList, isWhitespace c = false) (rules : Rules) :
    nftLine rules (ruleLine a b) = some (rules ++ [(a, b)]) := by
  -- the literal parts, cut at the blanks next to the addresses
  have hadd : ("add rule inet tdvmm_faults partition ip saddr ").toList =
      "add rule inet tdvmm_faults partition ip saddr".toList ++ [' '] := by
    rw [String.toList_ofList, String.toList_ofList]
    rfl
  have hip : (" ip daddr ").toList = ' ' :: ("ip daddr".toList ++ [' ']) := by
    rw [String.toList_ofList, String.toList_ofList]
    rfl
  have hdrop : (" drop").toList = ' ' :: "drop".toList := by
    rw [String.toList_ofList, String.toList_ofList]
  have hwords : ("add rule inet tdvmm_faults partition ip saddr").toList.splitOnP isWhitespace =
      ["add", "rule", "inet", "tdvmm_faults", "partition", "ip", "saddr"].map String.toList := by
    rw [String.toList_ofList]
    decide
  have hdaddr : "ip daddr".toList.splitOnP isWhitespace = ["ip", "daddr"].map String.toList := by
    decide
  have hend : "drop".toList.splitOnP isWhitespace = ["drop"].map String.toList := by decide
  have hline : (ruleLine a b).toList.splitOnP isWhitespace =
      ["add", "rule", "inet", "tdvmm_faults", "partition", "ip", "saddr", a, "ip", "daddr", b,
        "drop"].map String.toList := by
    unfold ruleLine
    simp only [String.toList_append, List.append_assoc, hadd, hip, hdrop, List.cons_append,
      List.nil_append]
    rw [List.splitOnP_append_cons _ _ (by decide), hwords,
      List.splitOnP_append_cons_of_forall_mem ha _ (by decide),
      List.splitOnP_append_cons _ _ (by decide), hdaddr,
      List.splitOnP_append_cons_of_forall_mem hb _ (by decide), hend]
    rfl
  rw [nftLine, hline, List.map_map]
  simp only [List.map_cons, List.map_nil, Function.comp_apply, String.ofList_toList]
  rfl

theorem contains_ruleLine {a b : String} (ha : ∀ c ∈ a.toList, isWhitespace c = false)
    (hb : ∀ c ∈ b.toList, isWhitespace c = false) :
    Text.contains '\n' (ruleLine a b) = false := by
  have hword {s : String} (hs : ∀ c ∈ s.toList, isWhitespace c = false) : '\n' ∉ s.toList :=
    fun hin => absurd (hs '\n' hin) (by decide)
  have hadd : '\n' ∉ "add rule inet tdvmm_faults partition ip saddr ".toList := by
    rw [String.toList_ofList]
    decide
  have hip : '\n' ∉ " ip daddr ".toList := by decide
  have hdrop : '\n' ∉ " drop".toList := by decide
  unfold Text.contains ruleLine
  simp only [String.toList_append, List.contains_eq_mem, List.mem_append, hadd, hip, hdrop,
    hword ha, hword hb, or_self, decide_false]

theorem foldlM_ruleLines (hp : p.Words) (rules : Rules) :
    (ruleLines p).foldlM nftLine rules = some (rules ++ p.rules) := by
  induction p generalizing rules with
  | nil => simp [ruleLines, Partitions.rules]
  | cons e rest ih =>
    obtain ⟨ha, hb⟩ := hp e List.mem_cons_self
    have hrest := ih fun x hx => hp x (List.mem_cons_of_mem _ hx)
    unfold ruleLines at hrest
    simp [ruleLines, Partitions.rules, nftLine_ruleLine ha hb, nftLine_ruleLine hb ha, hrest]

theorem readRuleset_ruleset (hp : p.Words) (rules : Rules) :
    readRuleset (ruleset p) rules = some p.rules := by
  have hchain : chainLines.foldlM nftLine rules = some [] := rfl
  have hnone : ∀ line ∈ chainLines, Text.contains '\n' line = false := by decide +kernel
  have hlines : ∀ line ∈ chainLines ++ ruleLines p, Text.contains '\n' line = false := by
    intro line hline
    rcases List.mem_append.mp hline with hchain | hrule
    · exact hnone line hchain
    · obtain ⟨e, he, hline⟩ := List.mem_flatMap.mp hrule
      obtain ⟨ha, hb⟩ := hp e he
      rcases List.mem_pair.mp hline with rfl | rfl
      · exact contains_ruleLine ha hb
      · exact contains_ruleLine hb ha
  rw [ruleset_eq, readRuleset_join hlines, List.foldlM_append, hchain]
  exact foldlM_ruleLines hp []

end Ruleset

/-! ## What the calls do -/

section Calls

variable {W : Type} (sh : Shell W)

/-- What is in force in a state of the guest, and how the agent's calls change it. nft
either carries out the commands of the text it is given or leaves the rules in force, and it
carries them out exactly when it exits with success. -/
structure Firewall where
  inForce : W → Rules
  /-- Whether nft, run on a ruleset, exits with success. -/
  exits : String → W → Bool
  nft_inForce : ∀ text w rules, readRuleset text (inForce w) = some rules →
    inForce (sh.nft text w).2 = if exits text w then rules else inForce w
  /-- The agent sees how nft exited, where waiting for it does not fail. -/
  nft_status : ∀ text w written out,
    (sh.nft text w).1 = .ok (written, .ok out) → out.success = exits text w
  /-- An nft that was not started does not exit with success. -/
  nft_spawn : ∀ text w e, (sh.nft text w).1 = .error e → exits text w = false
  podman_inForce : ∀ args w, args.head? = some "ps" ∨ args.head? = some "inspect" →
    inForce (sh.podman args w).2 = inForce w
  enableBridgeNetfilter_inForce : ∀ w, inForce (sh.enableBridgeNetfilter w).2 = inForce w

variable {sh} in
theorem Firewall.nft_ruleset (fw : Firewall sh) (p : Partitions) (w : W) (hp : p.Words) :
    fw.inForce (sh.nft (ruleset p) w).2 =
      if fw.exits (ruleset p) w then p.rules else fw.inForce w :=
  fw.nft_inForce _ w _ (readRuleset_ruleset hp _)

/-- nft took the whole ruleset of the map and exited with success. -/
def Accepted (p : Partitions) (w : W) : Prop :=
  ∃ out, (sh.nft (ruleset p) w).1 = .ok (.ok (), .ok out) ∧ out.success = true

/-- The first part of `doPartition`: the addresses to drop between, with the bridge traffic
made visible to nft, or the reply of a request that stops before. -/
def locate (req : Request) : StateM W (Except Reply (String × String)) := do
  let a := req.container.getD ""
  let b := req.peer.getD ""
  if a.isEmpty ∨ b.isEmpty then
    return .error
      (err req.id "partition" "partition requires two services (`container` and `peer`)")
  match ← resolveByService sh a .running with
  | .error e => return .error (err req.id "partition" (ErrorKind.podmanPs.msg e.toString))
  | .ok aid =>
  match ← resolveByService sh b .running with
  | .error e => return .error (err req.id "partition" (ErrorKind.podmanPs.msg e.toString))
  | .ok bid =>
  match aid, bid with
  | some (aid, _), some (bid, _) =>
    match ← containerIp sh aid with
    | .error e => return .error (err req.id "partition" ("ip(" ++ a ++ "): " ++ e.toString))
    | .ok aip =>
    match ← containerIp sh bid with
    | .error e => return .error (err req.id "partition" ("ip(" ++ b ++ "): " ++ e.toString))
    | .ok bip =>
    sh.enableBridgeNetfilter
    return .ok (aip, bip)
  | aopt, bopt =>
    return .error (err req.id "partition" (ErrorKind.noContainer.msg
      ("need both running (" ++ a ++ " running=" ++ toString aopt.isSome ++ ", " ++ b ++
        " running=" ++ toString bopt.isSome ++ ")")))

end Calls

def pairOf (req : Request) : String := pairKey (req.container.getD "") (req.peer.getD "")

/-- The map a `heal` leaves, where it names two services or none. -/
def healed (p : Partitions) (req : Request) : Option Partitions :=
  let a := req.container.getD ""
  let b := req.peer.getD ""
  if a.isEmpty ∧ b.isEmpty then some []
  else if ¬ a.isEmpty ∧ ¬ b.isEmpty then some (p.remove (pairOf req))
  else none

section Steps

variable {W : Type} {sh : Shell W} {p : Partitions} {req : Request} {w w' : W}

theorem applyPartitions_state : (applyPartitions sh p w).2 = (sh.nft (ruleset p) w).2 := by
  show ((sh.nft (ruleset p) >>= _ : StateM W _) w).2 = _
  rcases hnft : sh.nft (ruleset p) w with ⟨⟨⟩ | ⟨written, ⟨⟩ | out⟩, w'⟩
  · simp only [bind, StateT.bind, hnft]
    rfl
  · simp only [bind, StateT.bind, hnft]
    rfl
  · simp only [bind, StateT.bind, hnft]
    split
    · cases written <;> rfl
    · rfl

theorem applyPartitions_ok : (applyPartitions sh p w).1 = .ok () ↔ Accepted sh p w := by
  unfold Accepted applyPartitions
  rcases hnft : sh.nft (ruleset p) w with ⟨⟨⟩ | ⟨written, ⟨⟩ | out⟩, w'⟩
  · simp only [bind, StateT.bind, hnft]
    constructor
    · intro h
      cases h
    · rintro ⟨out, hout, -⟩
      cases hout
  · simp only [bind, StateT.bind, hnft]
    constructor
    · intro h
      cases h
    · rintro ⟨out, hout, -⟩
      cases hout
  · simp only [bind, StateT.bind, hnft]
    by_cases hsuccess : out.success = true
    · rw [if_pos hsuccess]
      cases written with
      | ok => exact ⟨fun _ => ⟨out, rfl, hsuccess⟩, fun _ => rfl⟩
      | error e =>
        constructor
        · intro h
          cases h
        · rintro ⟨out, hout, -⟩
          cases hout
    · rw [if_neg hsuccess]
      constructor
      · intro h
        cases h
      · rintro ⟨out, hout, hsuccess'⟩
        cases hout
        exact absurd hsuccess' hsuccess

theorem doPartition_eq : doPartition sh p req = (do
    match ← locate sh req with
    | .error reply => return (reply, p)
    | .ok (aip, bip) =>
      match ← applyPartitions sh (p.insert (pairOf req) (aip, bip)) with
      | .error e =>
        return (err req.id "partition" (ErrorKind.nft.msg e.toString),
          (p.insert (pairOf req) (aip, bip)).remove (pairOf req))
      | .ok () =>
        return (okStdout req.id "partition"
          ("partition " ++ req.container.getD "" ++ "(" ++ aip ++ ") <-x-> " ++
            req.peer.getD "" ++ "(" ++ bip ++ ")"), p.insert (pairOf req) (aip, bip))) := by
  have run {α β : Type} (m : StateM W α) (f : α → StateM W β) (w : W) :
      (m >>= f) w = f (m w).1 (m w).2 := rfl
  funext w
  unfold doPartition locate
  dsimp only [pairOf]
  split
  · rfl
  · simp only [run]
    rcases resolveByService sh (req.container.getD "") .running w with ⟨_ | aid, w₁⟩
    · rfl
    simp only [run]
    rcases resolveByService sh (req.peer.getD "") .running w₁ with ⟨_ | bid, w₂⟩
    · rfl
    rcases aid with _ | ⟨aid, _⟩
    · rfl
    rcases bid with _ | ⟨bid, _⟩
    · rfl
    simp only [run]
    rcases containerIp sh aid w₂ with ⟨_ | aip, w₃⟩
    · rfl
    simp only [run]
    rcases containerIp sh bid w₃ with ⟨_ | bip, w₄⟩ <;> rfl

/-! What a request does, by what `locate` found and whether nft accepted. -/

section Outcomes

variable {ips : String × String} {reply : Reply} {q : Partitions}

theorem doPartition_stops (h : locate sh req w = (.error reply, w')) :
    doPartition sh p req w = ((reply, p), w') := by
  rw [doPartition_eq]
  simp only [bind, StateT.bind, h]
  rfl

theorem doPartition_accepted (h : locate sh req w = (.ok ips, w'))
    (hnft : Accepted sh (p.insert (pairOf req) ips) w') :
    ∃ reply : Reply, reply.ok = some true ∧ doPartition sh p req w =
      ((reply, p.insert (pairOf req) ips),
        (sh.nft (ruleset (p.insert (pairOf req) ips)) w').2) := by
  have hok := applyPartitions_ok.mpr hnft
  rw [doPartition_eq, ← applyPartitions_state]
  rcases happly : applyPartitions sh (p.insert (pairOf req) ips) w' with ⟨r, w''⟩
  obtain rfl : r = .ok () := by rw [← hok, happly]
  simp only [bind, StateT.bind, h, happly]
  exact ⟨_, rfl, rfl⟩

theorem doPartition_refused (h : locate sh req w = (.ok ips, w'))
    (hnft : ¬ Accepted sh (p.insert (pairOf req) ips) w') :
    ∃ reply : Reply, reply.ok = some false ∧ doPartition sh p req w =
      ((reply, p.remove (pairOf req)), (sh.nft (ruleset (p.insert (pairOf req) ips)) w').2) := by
  rw [← applyPartitions_ok] at hnft
  rw [doPartition_eq, ← applyPartitions_state, ← @Partitions.remove_insert p _ ips]
  rcases happly : applyPartitions sh (p.insert (pairOf req) ips) w' with ⟨⟨e⟩ | ⟨⟩, w''⟩
  · simp only [bind, StateT.bind, h, happly]
    exact ⟨_, rfl, rfl⟩
  · rw [happly] at hnft
    contradiction

theorem doHeal_stops (h : healed p req = none) :
    ∃ reply : Reply, reply.ok = some false ∧ doHeal sh p req w = ((reply, p), w) := by
  unfold healed pairOf at h
  unfold doHeal
  dsimp only at h ⊢
  rw [h]
  exact ⟨_, rfl, rfl⟩

theorem doHeal_tries (h : healed p req = some q) :
    ∃ reply : Reply, (reply.ok = some true ∧ Accepted sh q w ∨
        reply.ok = some false ∧ ¬ Accepted sh q w) ∧
      doHeal sh p req w = ((reply, q), (sh.nft (ruleset q) w).2) := by
  unfold healed pairOf at h
  unfold doHeal
  dsimp only at h ⊢
  rw [h, ← applyPartitions_ok, ← applyPartitions_state]
  rcases happly : applyPartitions sh q w with ⟨⟨e⟩ | ⟨⟩, w''⟩
  · simp only [bind, StateT.bind, happly]
    exact ⟨_, .inr ⟨rfl, by simp⟩, rfl⟩
  · simp only [bind, StateT.bind, happly]
    exact ⟨_, .inl ⟨rfl, trivial⟩, rfl⟩

end Outcomes

/-! ## The reads -/

theorem firstWord_word {s word : String} (h : firstWord s = some word) :
    ∀ c ∈ word.toList, isWhitespace c = false := by
  unfold firstWord at h
  split at h
  · contradiction
  · intro c hc
    rw [← Option.some_inj.mp h, String.toList_ofList] at hc
    simpa using List.mem_takeWhile_imp hc

theorem state_of_answer {α β : Type} {m : StateM W α} {f : α → StateM W β}
    (hf : ∀ x w, (f x w).2 = w) : ((m >>= f) w).2 = (m w).2 := hf _ _

theorem podmanJson_state (args : List String) :
    (podmanJson sh args w).2 = (sh.podman args w).2 := by
  refine state_of_answer fun answer w => ?_
  rcases answer with e | out
  · rfl
  · dsimp only
    split
    · rcases sh.parsePs out.stdout with e | list <;> rfl
    · rfl

theorem resolveByService_state (service : String) (want : Want) :
    (resolveByService sh service want w).2 =
      (sh.podman ["ps", "-a", "--format", "json"] w).2 := by
  rw [← podmanJson_state]
  refine state_of_answer fun answer w => ?_
  rcases answer with e | list <;> rfl

def addressQuery (id : String) : List String :=
  ["inspect", "-f",
    "\x7b\x7brange .NetworkSettings.Networks\x7d\x7d\x7b\x7b.IPAddress\x7d\x7d \x7b\x7bend\x7d\x7d",
    id]

theorem containerIp_state (id : String) :
    (containerIp sh id w).2 = (sh.podman (addressQuery id) w).2 := by
  refine state_of_answer fun answer w => ?_
  rcases answer with e | out
  · rfl
  · dsimp only
    split
    · rcases firstWord (fromUtf8Lossy out.stdout) with _ | ip <;> rfl
    · rfl

theorem containerIp_ok {id ip : String} (h : (containerIp sh id w).1 = .ok ip) :
    ∃ out, (sh.podman (addressQuery id) w).1 = .ok out ∧ out.success = true ∧
      firstWord (fromUtf8Lossy out.stdout) = some ip := by
  change ((sh.podman (addressQuery id) >>= _ : StateM W _) w).1 = _ at h
  rcases hpodman : sh.podman (addressQuery id) w with ⟨⟨e⟩ | out, w'⟩
  · simp only [bind, StateT.bind, hpodman] at h
    contradiction
  · simp only [bind, StateT.bind, hpodman] at h
    split at h
    next hsuccess =>
      rcases hword : firstWord (fromUtf8Lossy out.stdout) with _ | word
      · rw [hword] at h
        contradiction
      · rw [hword] at h
        rw [← Except.ok.inj h]
        exact ⟨out, rfl, hsuccess, hword⟩
    · contradiction

/-- The state changed by queries only. -/
inductive Reads (sh : Shell W) (w : W) : W → Prop
  | refl : Reads sh w w
  | podman {w' : W} (args : List String)
      (hargs : args.head? = some "ps" ∨ args.head? = some "inspect") :
      Reads sh w w' → Reads sh w (sh.podman args w').2
  | bridge {w' : W} : Reads sh w w' → Reads sh w (sh.enableBridgeNetfilter w').2

theorem Firewall.inForce_reads (fw : Firewall sh) (h : Reads sh w w') :
    fw.inForce w' = fw.inForce w := by
  induction h with
  | refl => rfl
  | podman args hargs _ ih => rw [fw.podman_inForce args _ hargs, ih]
  | bridge _ ih => rw [fw.enableBridgeNetfilter_inForce, ih]

theorem Reads.resolveByService (h : Reads sh w w') (service : String) (want : Want) :
    Reads sh w (resolveByService sh service want w').2 := by
  rw [resolveByService_state]
  exact .podman _ (.inl rfl) h

theorem Reads.containerIp (h : Reads sh w w') (id : String) :
    Reads sh w (containerIp sh id w').2 := by
  rw [containerIp_state]
  exact .podman _ (.inr rfl) h

/-- The address of a service: the one podman gave for the container it resolved to. -/
def Gave (sh : Shell W) (w : W) (service ip : String) : Prop :=
  ∃ id name w₁ w₂, Reads sh w w₁ ∧ Reads sh w w₂ ∧
    (resolveByService sh service .running w₁).1 = .ok (some (id, name)) ∧
    (containerIp sh id w₂).1 = .ok ip

theorem Gave.word {service ip : String} (h : Gave sh w service ip) :
    ∀ c ∈ ip.toList, isWhitespace c = false := by
  obtain ⟨id, _, _, w₂, _, _, _, hip⟩ := h
  obtain ⟨out, _, _, hword⟩ := containerIp_ok hip
  exact firstWord_word hword

def Located (sh : Shell W) (w : W) (req : Request) : Except Reply (String × String) × W → Prop
  | (.error reply, w') => Reads sh w w' ∧ reply.ok = some false
  | (.ok ips, w') => Reads sh w w' ∧
      Gave sh w (req.container.getD "") ips.1 ∧ Gave sh w (req.peer.getD "") ips.2

theorem locate_spec : Located sh w req (locate sh req w) := by
  have run {α β : Type} (m : StateM W α) (f : α → StateM W β) (w : W) :
      (m >>= f) w = f (m w).1 (m w).2 := rfl
  unfold locate
  split
  · exact ⟨.refl, rfl⟩
  · -- one query after the other; each may end the request
    have hread₁ : Reads sh w (resolveByService sh (req.container.getD "") .running w).2 :=
      Reads.refl.resolveByService _ _
    simp only [run]
    rcases ha : resolveByService sh (req.container.getD "") .running w with ⟨_ | aid, w₁⟩
    · rw [ha] at hread₁
      exact ⟨hread₁, rfl⟩
    rw [ha] at hread₁
    have hread₂ := hread₁.resolveByService (req.peer.getD "") .running
    simp only [run]
    rcases hb : resolveByService sh (req.peer.getD "") .running w₁ with ⟨_ | bid, w₂⟩
    · rw [hb] at hread₂
      exact ⟨hread₂, rfl⟩
    rw [hb] at hread₂
    rcases aid with _ | ⟨aid, aname⟩
    · exact ⟨hread₂, rfl⟩
    rcases bid with _ | ⟨bid, bname⟩
    · exact ⟨hread₂, rfl⟩
    have hread₃ := hread₂.containerIp aid
    simp only [run]
    rcases haip : containerIp sh aid w₂ with ⟨_ | aip, w₃⟩
    · rw [haip] at hread₃
      exact ⟨hread₃, rfl⟩
    rw [haip] at hread₃
    have hread₄ := hread₃.containerIp bid
    simp only [run]
    rcases hbip : containerIp sh bid w₃ with ⟨_ | bip, w₄⟩
    · rw [hbip] at hread₄
      exact ⟨hread₄, rfl⟩
    rw [hbip] at hread₄
    refine ⟨.bridge hread₄, ?_, ?_⟩
    · exact ⟨aid, aname, w, w₂, .refl, hread₂, by rw [ha], by rw [haip]⟩
    · exact ⟨bid, bname, w₁, w₃, hread₁, hread₃, by rw [hb], by rw [hbip]⟩

end Steps

/-! ## Requests in sequence -/

section Sequence

variable {W : Type} (sh : Shell W)

def turn (s : Agent × W) (req : Request) : Agent × W :=
  ((s.1.handle sh req s.2).1.2, (s.1.handle sh req s.2).2)

variable {sh} (fw : Firewall sh) {s : Agent × W} {req : Request} {p : Partitions} {w w' : W}

/-- What a request owes, by its outcome: the map describes the rules in force, and an
error changes neither. -/
def Consistent (p : Partitions) (w : W) : (Reply × Partitions) × W → Prop
  | ((reply, p'), w') => fw.inForce w' = p'.rules ∧
      (reply.ok = some false → p' = p ∧ fw.inForce w' = fw.inForce w)

/-- The request keeps the books. -/
def Bookkept (s : Agent × W) (req : Request) : Prop :=
  Consistent fw s.1.partitions s.2
    (((s.1.handle sh req s.2).1.1, (turn sh s req).1.partitions), (turn sh s req).2)

/-- A request that can keep them: it stops before nft is run, or nft takes the ruleset, or
its failure costs nothing. That of a `partition` does so when nothing was installed and
the pair is not in the map, that of a `heal` when there is nothing to take out. -/
def Recovers (s : Agent × W) (req : Request) : Prop :=
  if req.op = "partition" then
    ∀ ips w, locate sh req s.2 = (.ok ips, w) →
      Accepted sh (s.1.partitions.insert (pairOf req) ips) w ∨
        fw.exits (ruleset (s.1.partitions.insert (pairOf req) ips)) w = false ∧
          pairOf req ∉ s.1.partitions.keys
  else
    ∀ q, healed s.1.partitions req = some q → Accepted sh q s.2 ∨ q = s.1.partitions

/-- The map describes the rules in force, by addresses nft can read. -/
structure Synced (s : Agent × W) : Prop where
  inForce : fw.inForce s.2 = s.1.partitions.rules
  words : s.1.partitions.Words

theorem handle_partition (a : Agent) (hop : req.op = "partition") (w : W) :
    a.handle sh req w = (((doPartition sh a.partitions req w).1.1,
      { a with partitions := (doPartition sh a.partitions req w).1.2 }),
      (doPartition sh a.partitions req w).2) := by
  unfold Agent.handle
  iterate 7 rw [if_neg (by rw [hop]; decide)]
  rw [if_pos hop]
  rfl

theorem handle_heal (a : Agent) (hop : req.op = "heal") (w : W) :
    a.handle sh req w = (((doHeal sh a.partitions req w).1.1,
      { a with partitions := (doHeal sh a.partitions req w).1.2 }),
      (doHeal sh a.partitions req w).2) := by
  unfold Agent.handle
  iterate 8 rw [if_neg (by rw [hop]; decide)]
  rw [if_pos hop]
  rfl

variable {fw}

theorem Accepted.exits (h : Accepted sh p w) : fw.exits (ruleset p) w = true := by
  obtain ⟨out, hnft, hsuccess⟩ := h
  rw [← fw.nft_status _ _ _ _ hnft, hsuccess]

theorem Accepted.inForce (h : Accepted sh p w) (hp : p.Words) :
    fw.inForce (sh.nft (ruleset p) w).2 = p.rules := by
  rw [fw.nft_ruleset p w hp, if_pos h.exits]

theorem partition_consistent (hsync : fw.inForce w = p.rules) (hp : p.Words) :
    Consistent fw p w (doPartition sh p req w) ↔ ∀ ips w', locate sh req w = (.ok ips, w') →
      Accepted sh (p.insert (pairOf req) ips) w' ∨
        fw.exits (ruleset (p.insert (pairOf req) ips)) w' = false ∧ pairOf req ∉ p.keys := by
  have hspec := @locate_spec W sh req w
  rcases hloc : locate sh req w with ⟨reply | ips, w'⟩
  · -- the request stopped at a query
    rw [hloc] at hspec
    have hsame := fw.inForce_reads hspec.1
    rw [doPartition_stops hloc]
    refine iff_of_true ⟨hsame.trans hsync, fun _ => ⟨rfl, hsame⟩⟩ ?_
    intro ips w'' heq
    cases heq
  · rw [hloc] at hspec
    obtain ⟨hreads, ha, hb⟩ := hspec
    have hsame := fw.inForce_reads hreads
    have hins : (p.insert (pairOf req) ips).Words := hp.insert ha.word hb.word
    have hdone := fw.nft_ruleset (p.insert (pairOf req) ips) w' hins
    constructor
    · intro hcons ips' w'' heq
      cases heq
      by_contra hnone
      rw [not_or] at hnone
      obtain ⟨reply, hfalse, hrun⟩ := doPartition_refused hloc hnone.1
      rw [hrun] at hcons
      obtain ⟨hmap, hrules⟩ := hcons.2 hfalse
      have hkey := Partitions.remove_eq_self.mp hmap
      -- the pair is new, so nft did install its rules
      have hexits : fw.exits (ruleset (p.insert (pairOf req) ips)) w' = true := by
        rw [← Bool.not_eq_false]
        exact fun hexits => hnone.2 ⟨hexits, hkey⟩
      rw [hdone, if_pos hexits, hsync] at hrules
      exact Partitions.rules_insert_ne hkey hrules
    · intro hrec
      rcases hrec ips w' rfl with hacc | ⟨hexits, hkey⟩
      · obtain ⟨reply, htrue, hrun⟩ := doPartition_accepted hloc hacc
        rw [hrun]
        refine ⟨hacc.inForce hins, fun hfalse => ?_⟩
        rw [htrue] at hfalse
        cases hfalse
      · have hnacc : ¬ Accepted sh (p.insert (pairOf req) ips) w' := by
          intro hacc
          have hboth : fw.exits (ruleset (p.insert (pairOf req) ips)) w' = true := hacc.exits
          rw [hexits] at hboth
          contradiction
        obtain ⟨reply, hfalse, hrun⟩ := doPartition_refused hloc hnacc
        rw [if_neg (by rw [hexits]; exact Bool.false_ne_true)] at hdone
        rw [hrun, Partitions.remove_eq_self.mpr hkey]
        exact ⟨hdone.trans (hsame.trans hsync), fun _ => ⟨rfl, hdone.trans hsame⟩⟩

theorem healed_cases {q : Partitions} (h : healed p req = some q) :
    q = [] ∨ q = p.remove (pairOf req) := by
  unfold healed at h
  dsimp only at h
  split at h
  · exact .inl (Option.some_inj.mp h).symm
  · split at h
    · exact .inr (Option.some_inj.mp h).symm
    · contradiction

theorem healed_words {q : Partitions} (hp : p.Words) (h : healed p req = some q) : q.Words := by
  rcases healed_cases h with rfl | rfl
  · exact .nil
  · exact hp.remove

theorem heal_consistent (hsync : fw.inForce w = p.rules) (hp : p.Words) :
    Consistent fw p w (doHeal sh p req w) ↔
      ∀ q, healed p req = some q → Accepted sh q w ∨ q = p := by
  rcases hheal : healed p req with _ | q
  · obtain ⟨reply, _, hrun⟩ := @doHeal_stops W sh p req w hheal
    rw [hrun]
    refine iff_of_true ⟨hsync, fun _ => ⟨rfl, rfl⟩⟩ ?_
    intro q heq
    contradiction
  · have hdone := fw.nft_ruleset q w (healed_words hp hheal)
    obtain ⟨reply, hreply, hrun⟩ := @doHeal_tries W sh p req w q hheal
    rw [hrun]
    constructor
    · rintro ⟨_, hunchanged⟩ q' heq
      cases heq
      rcases hreply with ⟨_, hacc⟩ | ⟨hfalse, _⟩
      · exact .inl hacc
      · exact .inr (hunchanged hfalse).1
    · intro hrec
      rcases hrec q rfl with hacc | rfl
      · rcases hreply with ⟨htrue, _⟩ | ⟨_, hnacc⟩
        · refine ⟨hacc.inForce (healed_words hp hheal), fun hfalse => ?_⟩
          rw [htrue] at hfalse
          cases hfalse
        · exact absurd hacc hnacc
      · -- nothing was taken out: the same rules, installed again or not
        have hsame : fw.inForce (sh.nft (ruleset q) w).2 = q.rules := by
          rw [hdone, hsync, ite_self]
        exact ⟨hsame, fun _ => ⟨rfl, hsame.trans hsync.symm⟩⟩

/-- A request keeps the books exactly when it can recover. -/
theorem bookkept_turn (hop : req.op = "partition" ∨ req.op = "heal") (hs : Synced fw s) :
    Bookkept fw s req ↔ Recovers fw s req := by
  unfold Bookkept Recovers turn
  rcases hop with hop | hop
  · rw [if_pos hop, handle_partition s.1 hop]
    exact partition_consistent hs.inForce hs.words
  · rw [if_neg (by rw [hop]; decide), handle_heal s.1 hop]
    exact heal_consistent hs.inForce hs.words

theorem handle_partitions (a : Agent) (hpart : req.op ≠ "partition") (hheal : req.op ≠ "heal")
    (w : W) : (a.handle sh req w).1.2.partitions = a.partitions := by
  let P (m : StateM W (Reply × Agent)) : Prop := (m w).1.2.partitions = a.partitions
  have cases {c : Prop} [Decidable c] {m m' : StateM W (Reply × Agent)} (hm : P m) (hm' : P m') :
      P (if c then m else m') := by
    split
    · exact hm
    · exact hm'
  have hfinish : P (pure (doFinish a req)) := by
    show (doFinish a req).2.partitions = a.partitions
    unfold doFinish
    cases a.finished <;> rfl
  show P (a.handle sh req)
  unfold Agent.handle
  refine cases hfinish ?_
  iterate 6 refine cases rfl ?_
  rw [if_neg hpart, if_neg hheal]
  exact cases rfl rfl

theorem turn_map (s : Agent × W) (req : Request) :
    (turn sh s req).1.partitions = s.1.partitions ∨
    (∃ ips : String × String, ((∀ c ∈ ips.1.toList, isWhitespace c = false) ∧
        ∀ c ∈ ips.2.toList, isWhitespace c = false) ∧
      (turn sh s req).1.partitions = s.1.partitions.insert (pairOf req) ips) ∨
    (turn sh s req).1.partitions = s.1.partitions.remove (pairOf req) ∨
    (turn sh s req).1.partitions = [] := by
  unfold turn
  by_cases hpart : req.op = "partition"
  · rw [handle_partition s.1 hpart]
    have hspec := @locate_spec W sh req s.2
    rcases hloc : locate sh req s.2 with ⟨reply | ips, w'⟩
    · rw [doPartition_stops hloc]
      exact .inl rfl
    · rw [hloc] at hspec
      by_cases hacc : Accepted sh (s.1.partitions.insert (pairOf req) ips) w'
      · obtain ⟨reply, _, hrun⟩ := doPartition_accepted hloc hacc
        rw [hrun]
        exact .inr (.inl ⟨ips, ⟨hspec.2.1.word, hspec.2.2.word⟩, rfl⟩)
      · obtain ⟨reply, _, hrun⟩ := doPartition_refused hloc hacc
        rw [hrun]
        exact .inr (.inr (.inl rfl))
  · by_cases hop : req.op = "heal"
    · rw [handle_heal s.1 hop]
      rcases hheal : healed s.1.partitions req with _ | q
      · obtain ⟨reply, _, hrun⟩ := @doHeal_stops W sh s.1.partitions req s.2 hheal
        rw [hrun]
        exact .inl rfl
      · obtain ⟨reply, _, hrun⟩ := @doHeal_tries W sh s.1.partitions req s.2 q hheal
        rw [hrun]
        exact .inr (.inr (healed_cases hheal).symm)
    · exact .inl (handle_partitions s.1 hpart hop s.2)

theorem turn_words (hp : s.1.partitions.Words) : (turn sh s req).1.partitions.Words := by
  rcases @turn_map W sh s req with heq | ⟨ips, ⟨ha, hb⟩, heq⟩ | heq | heq
  · rwa [heq]
  · rw [heq]
    exact hp.insert ha hb
  · rw [heq]
    exact hp.remove
  · rw [heq]
    exact .nil

theorem Synced.turn (hs : Synced fw s) (hb : Bookkept fw s req) : Synced fw (turn sh s req) :=
  ⟨hb.1, turn_words hs.words⟩

/-- Over the requests of a fresh agent: the books are kept at every request exactly when
every one of them recovers. -/
theorem bookkept_iff (w : W) (hfresh : fw.inForce w = []) (reqs : List Request)
    (hops : ∀ req ∈ reqs, req.op = "partition" ∨ req.op = "heal") :
    Each (fun before req => Bookkept fw (before.foldl (turn sh) ({}, w)) req) reqs ↔
      Each (fun before req => Recovers fw (before.foldl (turn sh) ({}, w)) req) reqs := by
  have hstart : Synced fw (({} : Agent), w) := ⟨hfresh, .nil⟩
  refine each_congr (I := fun before => Synced fw (before.foldl (turn sh) ({}, w))) hstart
    (fun before req hop hs => bookkept_turn hop hs) (fun before req hop hs hb => ?_) hops
  rw [List.foldl_concat]
  exact hs.turn hb

end Sequence

/-! ## A small guest

Containers with their addresses, an nft that carries out what it reads, and the exits it
makes: the first of `failing` says whether its next run fails. -/

structure Box where
  rules : Rules := []
  failing : List Bool := []

namespace Box

def nft (text : String) : StateM Box (Except String (Except String Unit × Except String Output)) :=
  fun w =>
    if w.failing.headD false then
      (.ok (.ok (), .ok { success := false, code := some 1 }),
        { w with failing := w.failing.tail })
    else
      (.ok (.ok (), .ok { success := true, code := some 0 }),
        { rules := (readRuleset text w.rules).getD w.rules, failing := w.failing.tail })

/-- The guest with these containers, each with what `addressQuery` prints for it. -/
def shell (containers : List (PodmanPs × String)) : Shell Box where
  podman args := do
    let printed := (containers.find? fun c => args.getLast? = some c.1.id).elim "" (·.2)
    return .ok { success := true, code := some 0,
                 stdout := printed.toList.map fun c => .ofNat c.toNat }
  podmanWithin _ _ := return .ok (some (true, some 0), [])
  nft := nft
  enableBridgeNetfilter := return ()
  openLog _ _ := return .notFound
  elapsedMs := return 0
  parsePs _ := .ok (containers.map (·.1))
  toLowercase := id
  build := ""

def firewall (containers : List (PodmanPs × String)) : Firewall (shell containers) where
  inForce w := w.rules
  exits _ w := !w.failing.headD false
  nft_inForce text w rules h := by
    show (nft text w).2.rules = _
    unfold nft
    cases w.failing.headD false with
    | true => rfl
    | false =>
      rw [if_neg Bool.false_ne_true, if_pos Bool.not_false, h]
      rfl
  nft_status text w written out h := by
    change (nft text w).1 = _ at h
    unfold nft at h
    cases hfail : w.failing.headD false with
    | true | false =>
      rw [hfail] at h
      cases h
      rfl
  nft_spawn text w e h := by
    change (nft text w).1 = _ at h
    unfold nft at h
    split at h <;> contradiction
  podman_inForce _ _ _ := rfl
  enableBridgeNetfilter_inForce _ := rfl

def two : List (PodmanPs × String) :=
  [({ id := "c1", names := ["db"], state := "running" }, "10.89.0.2 "),
   ({ id := "c2", names := ["web"], state := "running" }, "10.89.0.3 ")]

def ask (op : String) : Request :=
  { id := 1, op := op, container := some "db", peer := some "web" }

theorem accepted {containers : List (PodmanPs × String)} {w : Box}
    (h : w.failing.headD false = false) (p : Partitions) : Accepted (shell containers) p w := by
  refine ⟨{ success := true, code := some 0 }, ?_, rfl⟩
  show (nft (ruleset p) w).1 = _
  unfold nft
  rw [h]
  rfl

theorem reads_eq {containers : List (PodmanPs × String)} {w w' : Box}
    (h : Reads (shell containers) w w') : w' = w := by
  induction h with
  | refl => rfl
  | podman _ _ _ ih => exact ih
  | bridge _ ih => exact ih

theorem recovers {containers : List (PodmanPs × String)} {s : Agent × Box}
    (h : s.2.failing.headD false = false) (req : Request) :
    Recovers (firewall containers) s req := by
  unfold Recovers
  split
  · intro ips w hloc
    have hspec := @locate_spec Box (shell containers) req s.2
    rw [hloc] at hspec
    rw [reads_eq hspec.1]
    exact .inl (accepted h _)
  · intro q _
    exact .inl (accepted h q)

theorem turn_failing {containers : List (PodmanPs × String)} {s : Agent × Box} {req : Request}
    (hop : req.op = "partition" ∨ req.op = "heal") (h : s.2.failing = []) :
    (turn (shell containers) s req).2.failing = [] := by
  have hnft (p : Partitions) : ((shell containers).nft (ruleset p) s.2).2.failing = [] := by
    show (nft (ruleset p) s.2).2.failing = []
    unfold nft
    rw [h]
    rfl
  have hok : s.2.failing.headD false = false := by rw [h]; rfl
  unfold turn
  rcases hop with hop | hop
  · rw [handle_partition s.1 hop]
    have hspec := @locate_spec Box (shell containers) req s.2
    rcases hloc : locate (shell containers) req s.2 with ⟨reply | ips, w⟩
    · rw [hloc] at hspec
      rw [doPartition_stops hloc, reads_eq hspec.1]
      exact h
    · rw [hloc] at hspec
      obtain rfl := reads_eq hspec.1
      obtain ⟨reply, _, hrun⟩ := doPartition_accepted hloc (accepted hok _)
      rw [hrun]
      exact hnft _
  · rw [handle_heal s.1 hop]
    rcases hheal : healed s.1.partitions req with _ | q
    · obtain ⟨reply, _, hrun⟩ := @doHeal_stops Box (shell containers) _ req s.2 hheal
      rw [hrun]
      exact h
    · obtain ⟨reply, _, hrun⟩ := @doHeal_tries Box (shell containers) _ req s.2 q hheal
      rw [hrun]
      exact hnft q

end Box

/-- A pair that is out of the map and still cut off. -/
theorem bookkept_fails :
    let fw := Box.firewall Box.two
    let turns := fun reqs : List Request =>
      Each (fun before req =>
        Bookkept fw (before.foldl (turn (Box.shell Box.two))
          ({}, { failing := [false, true] })) req) reqs
    ¬ turns [Box.ask "partition", Box.ask "partition"] ∧
      ¬ turns [Box.ask "partition", Box.ask "heal"] := by
  dsimp only
  constructor
  · -- partitioned twice, the second time in vain
    intro hall
    have hlast := (hall [Box.ask "partition"] (Box.ask "partition") List.prefix_rfl).2
    have hmap := (hlast (by decide +kernel)).1
    revert hmap
    decide +kernel
  · -- healed in vain
    intro hall
    have hlast := (hall [Box.ask "partition"] (Box.ask "heal") List.prefix_rfl).2
    have hmap := (hlast (by decide +kernel)).1
    revert hmap
    decide +kernel

theorem bookkept_iff_box :
    Each (fun before req => Bookkept (Box.firewall Box.two)
      (before.foldl (turn (Box.shell Box.two)) ({}, {})) req)
      [Box.ask "partition", Box.ask "heal"] := by
  -- while nft does not fail, a `partition` and the `heal` of the pair keep the books
  refine (@bookkept_iff Box _ (Box.firewall Box.two) {} rfl _ ?_).mpr ?_
  · decide
  · rw [each_iff_after]
    refine ⟨Box.recovers rfl _, Box.recovers ?_ _, trivial⟩
    have hcalm := @Box.turn_failing Box.two ({}, {}) (Box.ask "partition") (.inl rfl) rfl
    simp only [List.nil_append, List.foldl_cons, List.foldl_nil, hcalm, List.headD_nil]

end Tdvmm.Guest
