import Mathlib.Data.String.Basic
import Mathlib.Data.Sym.Sym2
import Tdvmm.Guest.Partition

/-!
# Guest.Coverage — which traffic a partition drops

A service may have several running containers, and a container several networks with several
addresses; `Podman` says what the queries tell of them. A `partition` picks one address a
service: the first that podman prints for the first running container it lists
(`Gave.firstAddress`). The rules it installs drop the traffic between those two and nothing else
of the two services.

`isolated_iff` says when all the traffic is dropped, and for how long: the pairs of addresses
left over have to be in other entries of the map, and no later request may take out an entry
that is needed.
-/

namespace Tdvmm.Guest

open Lib Lib.Text Proto

/-! ## The entries of the map -/

namespace Partitions

variable {p : Partitions} {key : String} {ips : String × String}
  {e : String × String × String} {x y : String}

def Ordered (p : Partitions) : Prop := p.Pairwise fun d e => d.1 < e.1

theorem Ordered.remove (hp : p.Ordered) : (p.remove key).Ordered := hp.filter _

theorem mem_remove : e ∈ p.remove key ↔ e ∈ p ∧ e.1 ≠ key := by
  simp only [Partitions.remove, List.mem_filter, decide_eq_true_eq]

theorem mem_insert_iff (hp : p.Ordered) :
    e ∈ p.insert key ips ↔ e = (key, ips) ∨ e ∈ p ∧ e.1 ≠ key := by
  induction p with
  | nil => simp [insert]
  | cons kv rest ih =>
    obtain ⟨hhead, hrest⟩ := List.pairwise_cons.mp hp
    unfold insert
    split
    next heq =>
      rw [List.mem_cons, List.mem_cons]
      refine or_congr_right ⟨fun hin => ⟨.inr hin, ?_⟩, fun hin => ?_⟩
      · rw [heq]
        exact (hhead e hin).ne'
      · rcases hin.1 with rfl | hin'
        · exact absurd heq.symm hin.2
        · exact hin'
    next hne =>
      split
      next hlt =>
        rw [List.mem_cons]
        refine or_congr_right ⟨fun hin => ⟨hin, ?_⟩, fun hin => hin.1⟩
        rcases List.mem_cons.mp hin with rfl | hin'
        · exact hlt.ne'
        · exact (hlt.trans (hhead e hin')).ne'
      next hge =>
        rw [List.mem_cons, ih hrest, List.mem_cons]
        constructor
        · rintro (rfl | rfl | ⟨hin, hkey⟩)
          · exact .inr ⟨.inl rfl, Ne.symm hne⟩
          · exact .inl rfl
          · exact .inr ⟨.inr hin, hkey⟩
        · rintro (rfl | ⟨rfl | hin, hkey⟩)
          · exact .inr (.inl rfl)
          · exact .inl rfl
          · exact .inr (.inr ⟨hin, hkey⟩)

theorem Ordered.insert (hp : p.Ordered) : (p.insert key ips).Ordered := by
  induction p with
  | nil => exact List.pairwise_singleton _ _
  | cons kv rest ih =>
    obtain ⟨hhead, hrest⟩ := List.pairwise_cons.mp hp
    unfold Partitions.insert
    split
    next heq =>
      refine List.pairwise_cons.mpr ⟨fun e he => ?_, hrest⟩
      exact heq ▸ hhead e he
    next hne =>
      split
      next hlt =>
        refine List.pairwise_cons.mpr ⟨fun e he => ?_, hp⟩
        rcases List.mem_cons.mp he with rfl | hin
        · exact hlt
        · exact hlt.trans (hhead e hin)
      next hge =>
        refine List.pairwise_cons.mpr ⟨fun e he => ?_, ih hrest⟩
        rcases (mem_insert_iff hrest).mp he with rfl | ⟨hin, _⟩
        · exact lt_of_le_of_ne (not_lt.mp hge) (Ne.symm hne)
        · exact hhead e hin

theorem mem_rules : (x, y) ∈ p.rules ↔ ∃ e ∈ p, s(e.2.1, e.2.2) = s(x, y) := by
  simp only [rules, List.mem_flatMap, List.mem_cons, List.not_mem_nil, or_false, Prod.mk.injEq,
    Sym2.eq_iff]
  refine exists_congr fun e => and_congr_right fun _ => ?_
  exact or_congr (and_congr eq_comm eq_comm)
    ⟨fun h => ⟨h.2.symm, h.1.symm⟩, fun h => ⟨h.2.symm, h.1.symm⟩⟩

end Partitions

/-! ## What podman tells -/

/-- A network of a container: the address that `addressQuery` prints, empty where the
network has none, and the other addresses there (IPv6, secondary ones). -/
structure Network where
  ipAddress : String := ""
  others : List String := []

def Network.addresses (n : Network) : List String :=
  (if n.ipAddress = "" then [] else [n.ipAddress]) ++ n.others

section Podman

variable {W : Type} (sh : Shell W)

/-- The containers of the guest and their networks, as the queries of the agent show them
where they succeed. A query changes nothing. -/
structure Podman where
  containers : W → List PodmanPs
  networks : W → String → List Network
  ps : ∀ w out list, (sh.podman ["ps", "-a", "--format", "json"] w).1 = .ok out →
    out.success = true → sh.parsePs out.stdout = .ok list → list = containers w
  inspect : ∀ w id out, (sh.podman (addressQuery id) w).1 = .ok out → out.success = true →
    fromUtf8Lossy out.stdout = String.join ((networks w id).map (·.ipAddress ++ " "))
  word : ∀ w id, ∀ n ∈ networks w id, ∀ c ∈ n.ipAddress.toList, isWhitespace c = false
  reads : ∀ w w', Reads sh w w' → containers w' = containers w ∧ networks w' = networks w

/-- The containers that count as ones of a service, by label or by name. -/
def PodmanPs.serves (c : PodmanPs) (service : String) : Bool :=
  c.labelled service || c.names.any (· == service)

variable {sh} (pod : Podman sh) {w w' : W} {service id name ip : String}

namespace Podman

/-- The addresses of the running containers of the service. -/
def addresses (w : W) (service : String) : List String :=
  ((pod.containers w).filter fun c => c.serves service && c.state == "running").flatMap fun c =>
    (pod.networks w c.id).flatMap Network.addresses

/-- The first address printed for the first running container. -/
def firstAddress (w : W) (service : String) : Option String :=
  ((pod.containers w).find? fun c => c.serves service && c.state == "running").bind fun c =>
    ((pod.networks w c.id).map (·.ipAddress)).find? (· ≠ "")

end Podman

theorem findSome?_guard {α β : Type} (f : α → β) (q : α → Bool) (l : List α) :
    (l.findSome? fun c => if q c then some (f c) else none) = (l.find? q).map f := by
  induction l with
  | nil => rfl
  | cons a l ih =>
    cases hq : q a with
    | true => simp [hq]
    | false => simp [hq, ih]

theorem resolveByService_ok
    (h : (resolveByService sh service .running w).1 = .ok (some (id, name))) :
    ∃ out list c, (sh.podman ["ps", "-a", "--format", "json"] w).1 = .ok out ∧
      out.success = true ∧ sh.parsePs out.stdout = .ok list ∧
      list.find? (fun c => c.serves service && c.state == "running") = some c ∧ c.id = id := by
  unfold resolveByService podmanJson at h
  simp only [bind, StateT.bind] at h
  rcases hpodman : sh.podman ["ps", "-a", "--format", "json"] w with ⟨⟨e⟩ | out, w'⟩
  · rw [hpodman] at h
    contradiction
  · rw [hpodman] at h
    dsimp only at h
    by_cases hsuccess : out.success = true
    · rw [if_pos hsuccess] at h
      rcases hparse : sh.parsePs out.stdout with e | list
      · rw [hparse] at h
        contradiction
      · rw [hparse] at h
        have hfound := Except.ok.inj h
        rw [findSome?_guard (fun c : PodmanPs => (c.id, c.names.headD ""))] at hfound
        obtain ⟨c, hc, hid⟩ := Option.map_eq_some_iff.mp hfound
        exact ⟨out, list, c, rfl, hsuccess, hparse, hc, congrArg Prod.fst hid⟩
    · rw [if_neg hsuccess] at h
      contradiction

theorem firstWord_of_blank {s t : String} (h : s.toList = ' ' :: t.toList) :
    firstWord s = firstWord t := by
  have hblank : isWhitespace ' ' = true := by decide
  unfold firstWord
  rw [h, List.dropWhile_cons_of_pos hblank]

theorem firstWord_of_word {s word : String} {rest : List Char}
    (h : s.toList = word.toList ++ ' ' :: rest) (hne : word ≠ "")
    (hword : ∀ c ∈ word.toList, isWhitespace c = false) : firstWord s = some word := by
  rcases hchars : word.toList with _ | ⟨c, cs⟩
  · exact absurd (String.toList_eq_nil_iff.mp hchars) hne
  · rw [hchars] at h hword
    have hfirst : ¬ isWhitespace c = true := by
      rw [hword c List.mem_cons_self]
      exact Bool.false_ne_true
    have htake : ((c :: cs) ++ ' ' :: rest).takeWhile (fun c => !isWhitespace c) = c :: cs := by
      rw [List.takeWhile_append_of_pos, List.takeWhile_cons_of_neg (by decide),
        List.append_nil]
      intro d hd
      rw [hword d hd]
      rfl
    unfold firstWord
    rw [h, List.cons_append, List.dropWhile_cons_of_neg hfirst, ← List.cons_append, htake]
    dsimp only
    rw [← hchars, String.ofList_toList]

theorem firstWord_join {nets : List Network}
    (hword : ∀ n ∈ nets, ∀ c ∈ n.ipAddress.toList, isWhitespace c = false) :
    firstWord (String.join (nets.map (·.ipAddress ++ " "))) =
      (nets.map (·.ipAddress)).find? (· ≠ "") := by
  -- the first word printed is the first address there is
  induction nets with
  | nil => decide
  | cons n nets ih =>
    have hrest := ih fun m hm => hword m (List.mem_cons_of_mem _ hm)
    have htext : (String.join ((n :: nets).map (·.ipAddress ++ " "))).toList =
        n.ipAddress.toList ++ ' ' :: (String.join (nets.map (·.ipAddress ++ " "))).toList := by
      simp only [List.map_cons, String.join_cons, String.toList_append, List.append_assoc]
      rfl
    by_cases hempty : n.ipAddress = ""
    · rw [hempty] at htext
      rw [firstWord_of_blank htext, hrest]
      simp [hempty]
    · rw [firstWord_of_word htext hempty (hword n List.mem_cons_self)]
      simp [hempty]

theorem Gave.firstAddress (h : Gave sh w service ip) : pod.firstAddress w service = some ip := by
  obtain ⟨id, name, w₁, w₂, hread₁, hread₂, hid, hip⟩ := h
  obtain ⟨out, list, c, hps, hsuccess, hparse, hfind, rfl⟩ := resolveByService_ok hid
  obtain ⟨out', hinspect, hsuccess', hfirst⟩ := containerIp_ok hip
  have hlist := pod.ps w₁ out list hps hsuccess hparse
  have hprinted := pod.inspect w₂ c.id out' hinspect hsuccess'
  rw [(pod.reads w w₁ hread₁).1] at hlist
  rw [hprinted, firstWord_join (pod.word w₂ c.id), (pod.reads w w₂ hread₂).2] at hfirst
  unfold Podman.firstAddress
  rw [← hlist, hfind]
  exact hfirst

end Podman

/-! ## The other ops -/

section Quiet

variable {W : Type} {sh : Shell W} (fw : Firewall sh) {a : Agent} {req : Request}

/-- The calls of the other ops leave the rules alone. -/
structure Firewall.Quiet : Prop where
  podman : ∀ args w, fw.inForce (sh.podman args w).2 = fw.inForce w
  podmanWithin : ∀ timeout args w, fw.inForce (sh.podmanWithin timeout args w).2 = fw.inForce w
  openLog : ∀ path cursor w, fw.inForce (sh.openLog path cursor w).2 = fw.inForce w
  elapsedMs : ∀ w, fw.inForce (sh.elapsedMs w).2 = fw.inForce w

/-- A computation that leaves the rules alone. -/
def Still {α : Type} (m : StateM W α) : Prop := ∀ w, fw.inForce (m w).2 = fw.inForce w

variable {fw} {α β : Type} {m : StateM W α} {f : α → StateM W β}

theorem still_pure (x : α) : Still fw (pure x : StateM W α) := fun _ => rfl

theorem Still.bind (hm : Still fw m) (hf : ∀ x, Still fw (f x)) : Still fw (m >>= f) :=
  fun w => (hf _ _).trans (hm w)

theorem Still.ite {c : Prop} [Decidable c] {m' : StateM W α} (hm : Still fw m)
    (hm' : Still fw m') : Still fw (if c then m else m') := by
  split
  · exact hm
  · exact hm'

variable (quiet : fw.Quiet)
include quiet

theorem still_podmanJson (args : List String) : Still fw (podmanJson sh args) := by
  intro w
  rw [podmanJson_state]
  exact quiet.podman args w

theorem still_resolveByService (service : String) (want : Want) :
    Still fw (resolveByService sh service want) := by
  intro w
  rw [resolveByService_state]
  exact quiet.podman _ w

theorem still_runPodman (timeout : UInt64) (args : List String) :
    Still fw (runPodman sh timeout args) := by
  refine Still.bind (quiet.podmanWithin _ args) fun answer => ?_
  rcases answer with e | ⟨_ | ⟨_ | _, code⟩, stderr⟩ <;> exact still_pure _

theorem still_doContainers : Still fw (doContainers sh req) := by
  refine Still.bind (Still.bind (still_podmanJson quiet _) fun raw => ?_) fun list => ?_
  · rcases raw with e | raw <;> exact still_pure _
  · rcases list with e | list <;> exact still_pure _

theorem still_doExec : Still fw (doExec sh req) := by
  refine Still.ite (still_pure _) ?_
  refine Still.bind (Still.bind (still_podmanJson quiet _) fun raw => ?_) fun found => ?_
  · rcases raw with e | raw <;> exact still_pure _
  rcases found with e | _ | ⟨id, name⟩
  · exact still_pure _
  · exact still_pure _
  · refine Still.bind (quiet.podman _) fun out => Still.bind quiet.elapsedMs fun dur => ?_
    rcases out with e | out <;> exact still_pure _

theorem still_doLifecycle (op : String) : Still fw (doLifecycle sh req op) := by
  refine Still.ite (still_pure _) (Still.bind (still_resolveByService quiet _ _) fun found => ?_)
  rcases found with e | _ | ⟨id, name⟩
  · exact still_pure _
  · exact still_pure _
  · refine Still.bind (still_runPodman quiet _ _) fun ended => ?_
    rcases ended with e | _
    · exact still_pure _
    · exact Still.bind (still_runPodman quiet _ _) fun _ => still_pure _

theorem still_doStart : Still fw (doStart sh req) := by
  refine Still.ite (still_pure _) (Still.bind (still_resolveByService quiet _ _) fun found => ?_)
  rcases found with e | _ | ⟨id, name⟩
  · exact still_pure _
  · refine Still.bind (still_resolveByService quiet _ _) fun running => ?_
    rcases running with e | _ | found <;> exact still_pure _
  · refine Still.bind (still_runPodman quiet _ _) fun ended => ?_
    rcases ended with e | _ <;> exact still_pure _

theorem still_doLogs : Still fw (doLogs sh req) := by
  refine Still.ite (still_pure _) (Still.bind ?_ fun found => ?_)
  · refine Still.bind (still_resolveByService quiet _ _) fun found => ?_
    rcases found with e | _ | found
    · exact still_pure _
    · exact still_resolveByService quiet _ _
    · exact still_pure _
  rcases found with e | _ | ⟨id, name⟩
  · exact still_pure _
  · exact still_pure _
  refine Still.bind (Still.bind (quiet.podman _) fun out => ?_) fun path => ?_
  · rcases out with e | out
    · exact still_pure _
    · exact Still.ite (Still.ite (still_pure _) (still_pure _)) (still_pure _)
  rcases path with e | path
  · exact still_pure _
  refine Still.bind (Still.bind (quiet.openLog _ _) fun opened => ?_) fun chunk => ?_
  · rcases opened with _ | e | ⟨_ | _, read⟩
    · exact still_pure _
    · exact still_pure _
    · exact still_pure _
    · dsimp only
      split <;> exact still_pure _
  · rcases chunk with e | ⟨data, n, eof⟩ <;> exact still_pure _

theorem still_handle (hpart : req.op ≠ "partition") (hheal : req.op ≠ "heal") :
    Still fw (a.handle sh req) := by
  have keep {m : StateM W Reply} (hm : Still fw m) :
      Still fw (do return (← m, a) : StateM W (Reply × Agent)) :=
    Still.bind hm fun _ => still_pure _
  unfold Agent.handle
  refine Still.ite (still_pure _) ?_
  refine Still.ite (keep (still_pure _)) ?_
  refine Still.ite (keep (still_doContainers quiet)) ?_
  refine Still.ite (keep (still_doExec quiet)) ?_
  refine Still.ite (keep (still_doLifecycle quiet _)) ?_
  refine Still.ite (keep (still_doLifecycle quiet _)) ?_
  refine Still.ite (keep (still_doStart quiet)) ?_
  rw [if_neg hpart, if_neg hheal]
  exact Still.ite (keep (still_doLogs quiet)) (keep (still_pure _))

end Quiet

/-! ## All traffic between two services -/

section Isolation

variable {W : Type} {sh : Shell W} (fw : Firewall sh) (A B : List String)
  {s : Agent × W} {req : Request} {p : Partitions} {R : Rules}

/-- The rules drop every packet between an address of `A` and one of `B`. -/
def Isolated (R : Rules) : Prop := ∀ x y, x ∈ A → y ∈ B → (x, y) ∈ R ∧ (y, x) ∈ R

/-- A request that leaves every pair of addresses to an entry of the map it has installed:
a `partition` to the one it puts in or to one of another key, a `heal` to one of another
key. -/
def Survives (s : Agent × W) (req : Request) : Prop :=
  (req.op = "partition" → ∀ ips w, locate sh req s.2 = (.ok ips, w) →
    fw.exits (ruleset (s.1.partitions.insert (pairOf req) ips)) w = true →
    ∀ x y, x ∈ A → y ∈ B → s(ips.1, ips.2) = s(x, y) ∨
      ∃ e ∈ s.1.partitions, e.1 ≠ pairOf req ∧ s(e.2.1, e.2.2) = s(x, y)) ∧
  (req.op = "heal" → ∀ q, healed s.1.partitions req = some q →
    fw.exits (ruleset q) s.2 = true →
    ∀ x y, x ∈ A → y ∈ B → ∃ e ∈ s.1.partitions, e.1 ≠ pairOf req ∧ s(e.2.1, e.2.2) = s(x, y))

/-- A `heal` of the pair that `req` names, or of all pairs. -/
def Heals (req heal : Request) : Prop :=
  heal.op = "heal" ∧
    (heal.container.getD "" = "" ∧ heal.peer.getD "" = "" ∨
      s(heal.container.getD "", heal.peer.getD "") = s(req.container.getD "", req.peer.getD ""))

variable {A B}

theorem isolated_rules :
    Isolated A B p.rules ↔ ∀ x y, x ∈ A → y ∈ B → ∃ e ∈ p, s(e.2.1, e.2.2) = s(x, y) := by
  constructor
  · intro h x y hx hy
    exact Partitions.mem_rules.mp (h x y hx hy).1
  · intro h x y hx hy
    obtain ⟨e, he, hxy⟩ := h x y hx hy
    exact ⟨Partitions.mem_rules.mpr ⟨e, he, hxy⟩,
      Partitions.mem_rules.mpr ⟨e, he, hxy.trans Sym2.eq_swap⟩⟩

theorem isolated_insert {key : String} {ips : String × String} (hp : p.Ordered) :
    Isolated A B (p.insert key ips).rules ↔ ∀ x y, x ∈ A → y ∈ B → s(ips.1, ips.2) = s(x, y) ∨
      ∃ e ∈ p, e.1 ≠ key ∧ s(e.2.1, e.2.2) = s(x, y) := by
  rw [isolated_rules]
  refine forall₄_congr fun x y _ _ => ?_
  simp only [Partitions.mem_insert_iff hp, or_and_right, exists_or, exists_eq_left, and_assoc]

theorem isolated_remove {key : String} :
    Isolated A B (p.remove key).rules ↔ ∀ x y, x ∈ A → y ∈ B →
      ∃ e ∈ p, e.1 ≠ key ∧ s(e.2.1, e.2.2) = s(x, y) := by
  rw [isolated_rules]
  refine forall₄_congr fun x y _ _ => ?_
  simp only [Partitions.mem_remove, and_assoc]

structure Partitions.Sound (p : Partitions) : Prop where
  words : p.Words
  ordered : p.Ordered

theorem Partitions.Sound.turn (hp : s.1.partitions.Sound) :
    (turn sh s req).1.partitions.Sound := by
  refine ⟨turn_words hp.words, ?_⟩
  rcases @turn_map W sh s req with heq | ⟨ips, _, heq⟩ | heq | heq
  · rw [heq]
    exact hp.ordered
  · rw [heq]
    exact hp.ordered.insert
  · rw [heq]
    exact hp.ordered.remove
  · rw [heq]
    exact .nil

theorem Partitions.Sound.turns (hp : s.1.partitions.Sound) (reqs : List Request) :
    (reqs.foldl (Guest.turn sh) s).1.partitions.Sound := by
  induction reqs generalizing s with
  | nil => exact hp
  | cons req reqs ih => exact ih hp.turn

variable {fw}

theorem partition_installs (pod : Podman sh) (hop : req.op = "partition")
    (hok : (s.1.handle sh req s.2).1.1.ok = some true) (hp : s.1.partitions.Words) :
    ∃ ips, pod.firstAddress s.2 (req.container.getD "") = some ips.1 ∧
      pod.firstAddress s.2 (req.peer.getD "") = some ips.2 ∧
      fw.inForce (turn sh s req).2 = (s.1.partitions.insert (pairOf req) ips).rules := by
  unfold turn
  rw [handle_partition s.1 hop] at hok ⊢
  have hspec := @locate_spec W sh req s.2
  rcases hloc : locate sh req s.2 with ⟨reply | ips, w⟩
  · rw [hloc] at hspec
    rw [doPartition_stops hloc] at hok
    rw [hspec.2] at hok
    contradiction
  · rw [hloc] at hspec
    obtain ⟨hreads, ha, hb⟩ := hspec
    by_cases hacc : Accepted sh (s.1.partitions.insert (pairOf req) ips) w
    · obtain ⟨reply, _, hrun⟩ := doPartition_accepted hloc hacc
      rw [hrun]
      exact ⟨ips, ha.firstAddress pod, hb.firstAddress pod,
        hacc.inForce (hp.insert ha.word hb.word)⟩
    · obtain ⟨reply, hfalse, hrun⟩ := doPartition_refused hloc hacc
      rw [hrun] at hok
      rw [hfalse] at hok
      contradiction

theorem healed_named {q : Partitions} (h : healed p req = some q)
    (hnamed : ¬ (req.container.getD "" = "" ∧ req.peer.getD "" = "")) :
    q = p.remove (pairOf req) := by
  unfold healed at h
  simp only [String.isEmpty_iff] at h
  rw [if_neg hnamed] at h
  split at h
  · exact (Option.some_inj.mp h).symm
  · contradiction

theorem partition_inForce (hop : req.op = "partition") (hp : s.1.partitions.Words) :
    (fw.inForce (turn sh s req).2 = fw.inForce s.2 ∧
        ∀ ips w, locate sh req s.2 ≠ (.ok ips, w)) ∨
      ∃ ips w, locate sh req s.2 = (.ok ips, w) ∧ fw.inForce (turn sh s req).2 =
        if fw.exits (ruleset (s.1.partitions.insert (pairOf req) ips)) w then
          (s.1.partitions.insert (pairOf req) ips).rules else fw.inForce s.2 := by
  unfold turn
  rw [handle_partition s.1 hop]
  have hspec := @locate_spec W sh req s.2
  rcases hloc : locate sh req s.2 with ⟨reply | ips, w⟩
  · rw [hloc] at hspec
    rw [doPartition_stops hloc]
    refine .inl ⟨fw.inForce_reads hspec.1, fun ips w heq => ?_⟩
    cases heq
  · rw [hloc] at hspec
    obtain ⟨hreads, ha, hb⟩ := hspec
    refine .inr ⟨ips, w, rfl, ?_⟩
    -- whatever the answer, nft was run on the map with the pair in it
    rw [← fw.inForce_reads hreads, ← fw.nft_ruleset _ w (hp.insert ha.word hb.word)]
    by_cases hacc : Accepted sh (s.1.partitions.insert (pairOf req) ips) w
    · obtain ⟨reply, _, hrun⟩ := doPartition_accepted hloc hacc
      rw [hrun]
    · obtain ⟨reply, _, hrun⟩ := doPartition_refused hloc hacc
      rw [hrun]

theorem heal_inForce (hop : req.op = "heal") (hp : s.1.partitions.Words) :
    (fw.inForce (turn sh s req).2 = fw.inForce s.2 ∧ healed s.1.partitions req = none) ∨
      ∃ q, healed s.1.partitions req = some q ∧ fw.inForce (turn sh s req).2 =
        if fw.exits (ruleset q) s.2 then q.rules else fw.inForce s.2 := by
  unfold turn
  rw [handle_heal s.1 hop]
  rcases hheal : healed s.1.partitions req with _ | q
  · obtain ⟨reply, _, hrun⟩ := @doHeal_stops W sh s.1.partitions req s.2 hheal
    rw [hrun]
    exact .inl ⟨rfl, rfl⟩
  · obtain ⟨reply, _, hrun⟩ := @doHeal_tries W sh s.1.partitions req s.2 q hheal
    rw [hrun]
    exact .inr ⟨q, rfl, fw.nft_ruleset q s.2 (healed_words hp hheal)⟩

/-- A later request keeps the services apart exactly when it survives. -/
theorem isolated_turn (quiet : fw.Quiet) (hp : s.1.partitions.Sound)
    (hall : ¬ (req.op = "heal" ∧ req.container.getD "" = "" ∧ req.peer.getD "" = ""))
    (hbefore : Isolated A B (fw.inForce s.2)) :
    Isolated A B (fw.inForce (turn sh s req).2) ↔ Survives fw A B s req := by
  by_cases hpart : req.op = "partition"
  · have hheal : req.op ≠ "heal" := by rw [hpart]; decide
    rcases partition_inForce hpart hp.words with ⟨hsame, hnone⟩ | ⟨ips, w, hloc, hafter⟩
    · rw [hsame]
      refine iff_of_true hbefore ⟨fun _ ips w hloc => absurd hloc (hnone ips w), ?_⟩
      exact fun hop => absurd hop hheal
    · rw [hafter]
      constructor
      · intro hiso
        refine ⟨fun _ ips' w' hloc' hexits => ?_, fun hop => absurd hop hheal⟩
        rw [hloc] at hloc'
        cases hloc'
        rw [if_pos hexits] at hiso
        exact (isolated_insert hp.ordered).mp hiso
      · intro hsurv
        split
        next hexits => exact (isolated_insert hp.ordered).mpr (hsurv.1 hpart ips w hloc hexits)
        · exact hbefore
  · by_cases hheal : req.op = "heal"
    · rcases heal_inForce hheal hp.words with ⟨hsame, hnone⟩ | ⟨q, hq, hafter⟩
      · rw [hsame]
        refine iff_of_true hbefore ⟨fun hop => absurd hop hpart, fun _ q hq => ?_⟩
        rw [hnone] at hq
        contradiction
      · obtain rfl := healed_named hq fun hempty => hall ⟨hheal, hempty⟩
        rw [hafter]
        constructor
        · intro hiso
          refine ⟨fun hop => absurd hop hpart, fun _ q' hq' hexits => ?_⟩
          rw [hq] at hq'
          cases hq'
          rw [if_pos hexits] at hiso
          exact isolated_remove.mp hiso
        · intro hsurv
          split
          next hexits => exact isolated_remove.mpr (hsurv.2 hheal _ hq hexits)
          · exact hbefore
    · -- no other request touches the rules
      have hsame : fw.inForce (turn sh s req).2 = fw.inForce s.2 :=
        still_handle quiet hpart hheal s.2
      rw [hsame]
      exact iff_of_true hbefore ⟨fun hop => absurd hop hpart, fun hop => absurd hop hheal⟩

end Isolation

namespace Box

/-- What `addressQuery` prints for a container with these networks. -/
def printed (nets : List Network) : String := String.join (nets.map (·.ipAddress ++ " "))

def networked (cs : List (PodmanPs × List Network)) : List (PodmanPs × String) :=
  cs.map fun c => (c.1, printed c.2)

/-- The small guest with these containers and networks, whose addresses are ASCII words. -/
def podman (cs : List (PodmanPs × List Network))
    (hprinted : ∀ c ∈ cs, fromUtf8Lossy ((printed c.2).toList.map fun ch => .ofNat ch.toNat) =
      printed c.2)
    (hword : ∀ c ∈ cs, ∀ n ∈ c.2, ∀ ch ∈ n.ipAddress.toList, isWhitespace ch = false) :
    Podman (shell (networked cs)) where
  containers _ := cs.map (·.1)
  networks _ id := (cs.find? fun c => c.1.id = id).elim [] (·.2)
  ps w out list _ _ hparse := by
    have hlist : Except.ok ((networked cs).map (·.1)) = Except.ok list := hparse
    rw [← Except.ok.inj hlist, networked, List.map_map]
    rfl
  inspect w id out hrun _ := by
    have hout : out.stdout =
        (((networked cs).find? fun c => (addressQuery id).getLast? = some c.1.id).elim ""
          (·.2)).toList.map fun ch => .ofNat ch.toNat :=
      congrArg Output.stdout (Except.ok.inj hrun).symm
    have hlast : ((fun c : PodmanPs × String => decide ((addressQuery id).getLast? = some c.1.id)) ∘
        fun c : PodmanPs × List Network => (c.1, printed c.2)) = fun c => decide (c.1.id = id) := by
      funext c
      exact decide_eq_decide.mpr ⟨fun h => (Option.some_inj.mp h).symm, fun h => by rw [h]; rfl⟩
    rw [hout, networked, List.find?_map, hlast]
    rcases hfind : cs.find? fun c => c.1.id = id with _ | c
    · rw [hfind]
      rfl
    · rw [hfind]
      exact hprinted c (List.mem_of_find?_eq_some hfind)
  word w id n hn := by
    rcases hfind : cs.find? fun c => c.1.id = id with _ | c
    · rw [hfind] at hn
      contradiction
    · rw [hfind] at hn
      exact hword c (List.mem_of_find?_eq_some hfind) n hn
  reads _ _ _ := ⟨rfl, rfl⟩

theorem words_of_all {cs : List (PodmanPs × List Network)}
    (h : (cs.all fun c => c.2.all fun n => n.ipAddress.toList.all (!isWhitespace ·)) = true) :
    ∀ c ∈ cs, ∀ n ∈ c.2, ∀ ch ∈ n.ipAddress.toList, isWhitespace ch = false := by
  intro c hc n hn ch hch
  have hnets := List.all_eq_true.mp h c hc
  have hchars := List.all_eq_true.mp hnets n hn
  exact Bool.not_eq_true' _ |>.mp (List.all_eq_true.mp hchars ch hch)

/-- A service with one container, another with one or two, each with one address. -/
def single : List (PodmanPs × List Network) :=
  [({ id := "c1", names := ["db"], state := "running" }, [{ ipAddress := "10.89.0.2" }]),
   ({ id := "c2", names := ["web"], state := "running" }, [{ ipAddress := "10.89.0.3" }])]

def replicated : List (PodmanPs × List Network) :=
  single ++
    [({ id := "c3", names := ["db-2"], state := "running",
        labels := [(COMPOSE_SERVICE_LABEL, "db")] }, [{ ipAddress := "10.89.0.4" }])]

def singlePodman : Podman (shell (networked single)) :=
  podman single (by decide +kernel) (words_of_all (by decide +kernel))

def replicatedPodman : Podman (shell (networked replicated)) :=
  podman replicated (by decide +kernel) (words_of_all (by decide +kernel))

end Box

end Tdvmm.Guest
