import Tdvmm.Guest.Integrity
import Tdvmm.Lib.Text
import Tdvmm.Lib.Trace

/-!
# Sdk.Client — the commands of a container and the replies it takes for theirs

`Client.Do` of the Go package: number the request, write its line, read up to the next newline
and decode what was read. A deadline may end the write or the read at any byte.

`Do` does not look at the number in the reply. Every byte of the reply stream carries the
command that it answers, so that `matched_iff` can say when the bytes a command decodes are
those of its own answer.
-/

namespace Tdvmm.Sdk

open Lib Proto

/-! ## The standard library of Go -/

/-- `encoding/json` at the types of the wire, and `bytes.TrimSpace`. -/
structure Go where
  marshal : Request → Except String Bytes
  unmarshal : Bytes → Except String Reply
  trimSpace : Bytes → Bytes

/-- What is relied on, about replies as the agent writes them. A control-socket client
receives no event. An object cut short is no JSON, and what is trimmed is white space. -/
structure Go.Documented (G : Go) (J : Json) : Prop where
  unmarshal_reply : ∀ r, r.event = none → G.unmarshal (J.writeReply r) = .ok r
  unmarshal_cut : ∀ r text, text <+: J.writeReply r → text ≠ J.writeReply r →
    ∃ e, G.unmarshal text = .error e
  trimSpace_nil : G.trimSpace [] = []
  trimSpace_open : ∀ body, G.trimSpace (0x7b :: body) <+: 0x7b :: body
  trimSpace_line : ∀ body, G.trimSpace (0x7b :: body ++ [0x7d, 10]) = 0x7b :: body ++ [0x7d]

/-! ## The connection -/

/-- A byte of the reply stream, with the command whose answer it belongs to. A line of the
agent that does not answer a single command belongs to none. -/
abbrev Owned := Option Nat × UInt8

def ownedBy (owner : Option Nat) (bytes : Bytes) : List Owned := bytes.map (owner, ·)

structure Session where
  nextID : UInt64 := 1
  /-- The number of commands so far. -/
  commands : Nat := 0
  /-- The lines that reached the agent. -/
  lines : List Bytes := []
  /-- What reached it of a line that was cut. -/
  unfinished : Bytes := []
  /-- The answers to the lines, as far as they have not been read. Some may not have
  arrived yet. -/
  unread : List Owned := []

inductive ReadEnd where
  | eof
  | failed (cause : String)
deriving DecidableEq, Repr

structure Io where
  /-- The write goes through, or fails after some bytes of the line, never all of it. -/
  write : Except (Nat × String) Unit := .ok ()
  /-- The error that ends the read after a number of bytes, if one does. -/
  read : Option (Nat × ReadEnd) := none

/-- Write a line. The agent answers the lines that reach it, in order. -/
def Session.write (J : Json) (answer : List Bytes → Reply) (s : Session) (line : Bytes) :
    Except (Nat × String) Unit → Session
  | .ok () =>
    let lines := s.lines ++ [s.unfinished ++ line]
    let owner := if s.unfinished = [] then some s.commands else none
    { s with
      lines := lines, unfinished := []
      unread := s.unread ++ ownedBy owner (J.encodeLine (answer lines)) }
  | .error (n, _) => { s with unfinished := s.unfinished ++ line.dropLast.take n }

/-- `ReadBytes('\n')`: the bytes up to the next newline, or those before an error that
comes first, and the error. -/
def readBytes (unread : List Owned) (stop : Option (Nat × ReadEnd)) :
    List Owned × List Owned × Option ReadEnd :=
  let n := (unread.takeWhile (·.2 ≠ 10)).length
  match stop with
  | some (k, e) =>
    if k ≤ n then (unread.take k, unread.drop k, some e)
    else (unread.take (n + 1), unread.drop (n + 1), none)
  | none => (unread.take (n + 1), unread.drop (n + 1), none)

/-! ## A command -/

inductive DoError where
  | encoding (op cause : String)
  | socket (op cause : String)
  | closed (op : String)
  | malformed (op : String) (raw : Bytes) (cause : String)
  /-- The agent refused the command. -/
  | command (op reason code : String)
deriving DecidableEq, Repr

/-- The part of an error text before its first colon. -/
def codeOf (errStr : String) : String :=
  if Text.contains ':' errStr then String.ofList (errStr.toList.takeWhile (· ≠ ':')) else ""

section Do

variable (G : Go) (J : Json) (answer : List Bytes → Reply)

def checkReply (op : String) (reply : Reply) : Option Reply × Option DoError :=
  if reply.ok = some true then (some reply, none)
  else
    let reason := match reply.error with
      | some e => if e ≠ "" then e else "the agent reported no reason"
      | none => "the agent reported no reason"
    (some reply, some (.command op reason (codeOf reason)))

/-- Send one command and return the agent's reply. -/
def Session.Do (s : Session) (req : Request) (io : Io) :
    (Option Reply × Option DoError) × Session :=
  let numbered := { req with id := s.nextID }
  let s := { s with nextID := s.nextID + 1 }
  match G.marshal numbered with
  | .error e => ((none, some (.encoding req.op e)), { s with commands := s.commands + 1 })
  | .ok text =>
  let s := s.write J answer (text ++ [10]) io.write
  match io.write with
  | .error (_, cause) =>
    ((none, some (.socket req.op cause)), { s with commands := s.commands + 1 })
  | .ok () =>
  let (taken, unread, stop) := readBytes s.unread io.read
  let s := { s with unread := unread, commands := s.commands + 1 }
  let raw := taken.map (·.2)
  match stop, raw with
  | some .eof, [] => ((none, some (.closed req.op)), s)
  | some (.failed cause), [] => ((none, some (.socket req.op cause)), s)
  | _, _ =>
    match G.unmarshal (G.trimSpace raw) with
    | .error e => ((none, some (.malformed req.op raw e)), s)
    | .ok reply => (checkReply req.op reply, s)

/-- The bytes that reach a command, where its request got out. -/
def Session.heard (s : Session) (req : Request) (io : Io) : Option (List Owned) :=
  match G.marshal { req with id := s.nextID }, io.write with
  | .ok text, .ok () =>
    some (readBytes (s.write J answer (text ++ [10]) io.write).unread io.read).1
  | _, _ => none

/-- A reply that the command returns is the agent's answer to its request, and decoded from
the bytes of that answer. -/
def Matched (s : Session) (req : Request) (io : Io) : Prop :=
  ∀ reply, (s.Do G J answer req io).1.1 = some reply →
    (∀ taken, s.heard G J answer req io = some taken → ∀ b ∈ taken, b.1 = some s.commands) ∧
    ∃ text, G.marshal { req with id := s.nextID } = .ok text ∧
      reply = answer (s.lines ++ [text ++ [10]])

/-- Nothing of the earlier commands is left, or what reaches the command is no JSON. -/
def InStep (s : Session) (req : Request) (io : Io) : Prop :=
  (s.unread = [] ∧ s.unfinished = []) ∨
    ∀ taken, s.heard G J answer req io = some taken →
      ∃ e, G.unmarshal (G.trimSpace (taken.map (·.2))) = .error e

end Do

section Matching

variable {G : Go} {J : Json} {answer : List Bytes → Reply} {s : Session} {req : Request} {io : Io}
  {reply : Reply} {taken : List Owned}

theorem checkReply_reply (op : String) (reply : Reply) : (checkReply op reply).1 = some reply := by
  unfold checkReply
  split <;> rfl

theorem Go.Documented.unmarshal_nil (hG : G.Documented J) (hJ : J.Documented) :
    ∃ e, G.unmarshal (G.trimSpace []) = .error e := by
  obtain ⟨body, hbody⟩ := hJ.braces {}
  rw [hG.trimSpace_nil]
  refine hG.unmarshal_cut {} [] List.nil_prefix ?_
  rw [hbody]
  exact (List.cons_ne_nil _ _).symm

theorem Do_reply (hG : G.Documented J) (hJ : J.Documented) :
    (s.Do G J answer req io).1.1 = some reply ↔
      ∃ taken, s.heard G J answer req io = some taken ∧
        G.unmarshal (G.trimSpace (taken.map (·.2))) = .ok reply := by
  unfold Session.Do Session.heard
  dsimp only
  rcases hmarshal : G.marshal { req with id := s.nextID } with e | text
  · simp
  rcases hwrite : io.write with ⟨n, cause⟩ | ⟨⟩
  · simp
  -- what is written does not depend on the number to be given next
  have hunread : (Session.write J answer { s with nextID := s.nextID + 1 } (text ++ [10])
      (.ok ())).unread = (s.write J answer (text ++ [10]) (.ok ())).unread := rfl
  simp only [hunread, Option.some.injEq, exists_eq_left']
  rcases readBytes (s.write J answer (text ++ [10]) (.ok ())).unread io.read with
    ⟨taken, unread, stop⟩
  obtain ⟨e, hnil⟩ := hG.unmarshal_nil hJ
  rcases taken with _ | ⟨b, taken⟩
  · rw [List.map_nil, hnil]
    rcases stop with _ | ⟨⟩ | cause <;> simp
  · rw [List.map_cons]
    rcases hdecode : G.unmarshal (G.trimSpace (b.2 :: taken.map (·.2))) with e' | r
    · rcases stop with _ | ⟨⟩ | cause <;> simp [hdecode]
    · rcases stop with _ | ⟨⟩ | cause <;> simp [hdecode, checkReply_reply]

theorem readBytes_append (unread : List Owned) (stop : Option (Nat × ReadEnd)) :
    (readBytes unread stop).1 ++ (readBytes unread stop).2.1 = unread := by
  unfold readBytes
  dsimp only
  rcases stop with _ | ⟨k, e⟩
  · exact List.take_append_drop _ _
  · dsimp only
    split <;> exact List.take_append_drop _ _

@[simp] theorem ownedBy_bytes (owner : Option Nat) (bytes : Bytes) :
    (ownedBy owner bytes).map Prod.snd = bytes := by
  unfold ownedBy
  rw [List.map_map]
  exact List.map_id _

@[simp] theorem length_ownedBy (owner : Option Nat) (bytes : Bytes) :
    (ownedBy owner bytes).length = bytes.length := List.length_map _

theorem readBytes_line {text : Bytes} (htext : 10 ∉ text) (owner : Option Nat)
    (stop : Option (Nat × ReadEnd)) :
    (readBytes (ownedBy owner (text ++ [10])) stop).1.map Prod.snd = text ++ [10] ∨
      (readBytes (ownedBy owner (text ++ [10])) stop).1.map Prod.snd <+: text := by
  have hlen : ((ownedBy owner (text ++ [10])).takeWhile (·.2 ≠ 10)).length = text.length := by
    have hbody : ∀ b ∈ ownedBy owner text, decide (b.2 ≠ 10) = true := by
      intro b hb
      obtain ⟨c, hc, rfl⟩ := List.mem_map.mp hb
      exact decide_eq_true fun heq => htext (heq ▸ hc)
    have hsplit : ownedBy owner (text ++ [10]) = ownedBy owner text ++ [(owner, 10)] :=
      List.map_append
    rw [hsplit, List.takeWhile_append_of_pos hbody, List.takeWhile_cons_of_neg (by simp),
      List.append_nil, length_ownedBy]
  have hwhole : ((ownedBy owner (text ++ [10])).take (text.length + 1)).map Prod.snd =
      text ++ [10] := by
    rw [List.take_of_length_le (by simp), ownedBy_bytes]
  unfold readBytes
  dsimp only
  rw [hlen]
  rcases stop with _ | ⟨k, e⟩
  · exact .inl hwhole
  · dsimp only
    split
    next hle =>
      refine .inr ?_
      rw [List.map_take, ownedBy_bytes, List.take_append_of_le_length hle]
      exact List.take_prefix k text
    · exact .inl hwhole

theorem unmarshal_own (hG : G.Documented J) (hJ : J.Documented) {r : Reply} (hr : r.event = none)
    {raw : Bytes} (hraw : raw = J.writeReply r ++ [10] ∨ raw <+: J.writeReply r)
    (hdecode : G.unmarshal (G.trimSpace raw) = .ok reply) : reply = r := by
  -- the bytes of an answer, whole or cut, decode to the answer or to nothing
  obtain ⟨body, hbody⟩ := hJ.braces r
  have hwhole : G.trimSpace raw = J.writeReply r → reply = r := by
    intro htrim
    rw [htrim, hG.unmarshal_reply r hr] at hdecode
    exact (Except.ok.inj hdecode).symm
  rcases hraw with rfl | hcut
  · refine hwhole ?_
    rw [hbody, List.append_assoc]
    exact hG.trimSpace_line body
  · -- trimmed, a beginning of the text is a beginning of it still
    have htrim : G.trimSpace raw <+: J.writeReply r := by
      rcases raw with _ | ⟨b, raw⟩
      · rw [hG.trimSpace_nil]
        exact List.nil_prefix
      · have hopen : b = 0x7b := by
          rw [hbody, List.cons_append] at hcut
          exact (List.cons_prefix_cons.mp hcut).1
        rw [hopen] at hcut ⊢
        exact (hG.trimSpace_open raw).trans hcut
    by_contra hne
    obtain ⟨e, herror⟩ := hG.unmarshal_cut r _ htrim fun heq => hne (hwhole heq)
    rw [herror] at hdecode
    contradiction

/-- What is unread belongs to commands that are over. -/
def Session.Past (s : Session) : Prop := ∀ b ∈ s.unread, ∀ k, b.1 = some k → k < s.commands

theorem heard_prefix (h : s.heard G J answer req io = some taken) :
    ∃ text owner, G.marshal { req with id := s.nextID } = .ok text ∧
      owner = (if s.unfinished = [] then some s.commands else none) ∧
      taken = (readBytes (s.unread ++ ownedBy owner
        (J.encodeLine (answer (s.lines ++ [s.unfinished ++ (text ++ [10])])))) io.read).1 := by
  -- the bytes that reach a command are the first unread ones, its own answer included
  unfold Session.heard at h
  rcases hmarshal : G.marshal { req with id := s.nextID } with e | text
  · rw [hmarshal] at h
    contradiction
  rcases hwrite : io.write with cut | ⟨⟩
  · rw [hmarshal, hwrite] at h
    contradiction
  rw [hmarshal, hwrite] at h
  exact ⟨text, _, rfl, rfl, (Option.some_inj.mp h).symm⟩

theorem owner_of_mem {owner : Option Nat} {bytes : Bytes} {b : Owned}
    (h : b ∈ ownedBy owner bytes) : b.1 = owner := by
  obtain ⟨c, _, rfl⟩ := List.mem_map.mp h
  rfl

theorem heard_foreign (hs : s.Past) (hleft : ¬ (s.unread = [] ∧ s.unfinished = [])) {b : Owned}
    (h : s.heard G J answer req io = some (b :: taken)) : b.1 ≠ some s.commands := by
  -- the first byte that reaches a command with something left over is not of its answer
  obtain ⟨text, owner, _, howner, htaken⟩ := heard_prefix h
  have hfirst : b :: taken <+: s.unread ++ ownedBy owner
      (J.encodeLine (answer (s.lines ++ [s.unfinished ++ (text ++ [10])]))) := by
    rw [htaken]
    exact ⟨_, readBytes_append _ _⟩
  rcases hunread : s.unread with _ | ⟨c, rest⟩
  · -- the agent answered a line with the rest of a cut request in front
    have hunfinished : s.unfinished ≠ [] := fun hnil => hleft ⟨hunread, hnil⟩
    rw [if_neg hunfinished] at howner
    rw [hunread, List.nil_append] at hfirst
    rw [owner_of_mem (hfirst.subset List.mem_cons_self), howner]
    exact (Option.some_ne_none _).symm
  · rw [hunread, List.cons_append] at hfirst
    rw [(List.cons_prefix_cons.mp hfirst).1]
    intro howned
    have hpast := hs c (by rw [hunread]; exact List.mem_cons_self) _ howned
    exact lt_irrefl _ hpast

theorem matched_step (hG : G.Documented J) (hJ : J.Documented)
    (hplain : ∀ lines, (answer lines).event = none) (hs : s.Past) :
    Matched G J answer s req io ↔ InStep G J answer s req io := by
  constructor
  · intro hmatched
    by_cases hclean : s.unread = [] ∧ s.unfinished = []
    · exact .inl hclean
    · refine .inr fun taken hheard => ?_
      rcases hdecode : G.unmarshal (G.trimSpace (taken.map (·.2))) with e | reply
      · exact ⟨e, hdecode⟩
      · obtain ⟨howned, _⟩ := hmatched reply ((Do_reply hG hJ).mpr ⟨taken, hheard, hdecode⟩)
        rcases taken with _ | ⟨b, taken⟩
        · exact hdecode ▸ hG.unmarshal_nil hJ
        · exact absurd (howned _ hheard b List.mem_cons_self) (heard_foreign hs hclean hheard)
  · rintro (⟨hunread, hunfinished⟩ | hnone) reply hreply
    · obtain ⟨taken, hheard, hdecode⟩ := (Do_reply hG hJ).mp hreply
      obtain ⟨text, owner, hmarshal, howner, htaken⟩ := heard_prefix hheard
      rw [if_pos hunfinished] at howner
      rw [hunread, List.nil_append, hunfinished, List.nil_append, howner] at htaken
      constructor
      · intro taken' hheard' b hb
        rw [hheard, htaken] at hheard'
        rw [← Option.some_inj.mp hheard'] at hb
        refine owner_of_mem (List.IsPrefix.subset ⟨_, readBytes_append _ _⟩ hb)
      · refine ⟨text, hmarshal, unmarshal_own hG hJ (hplain _) ?_ hdecode⟩
        rw [htaken]
        exact readBytes_line (hJ.no_newline _) _ _
    · obtain ⟨taken, hheard, hdecode⟩ := (Do_reply hG hJ).mp hreply
      obtain ⟨e, herror⟩ := hnone taken hheard
      rw [herror] at hdecode
      contradiction

def Session.after (G : Go) (J : Json) (answer : List Bytes → Reply) (s : Session)
    (c : Request × Io) : Session := (s.Do G J answer c.1 c.2).2

theorem after_unread (c : Request × Io) :
    (s.after G J answer c).commands = s.commands + 1 ∧
      ∀ b ∈ (s.after G J answer c).unread,
        b ∈ s.unread ∨ b.1 = some s.commands ∨ b.1 = none := by
  -- a command leaves nothing unread but what was and its own answer
  obtain ⟨req, io⟩ := c
  unfold Session.after Session.Do
  dsimp only
  rcases hmarshal : G.marshal { req with id := s.nextID } with e | text
  · exact ⟨rfl, fun b hb => .inl hb⟩
  rcases hwrite : io.write with ⟨n, cause⟩ | ⟨⟩
  · exact ⟨rfl, fun b hb => .inl hb⟩
  have hwritten : ∀ b ∈ (Session.write J answer { s with nextID := s.nextID + 1 } (text ++ [10])
      (.ok ())).unread, b ∈ s.unread ∨ b.1 = some s.commands ∨ b.1 = none := by
    intro b hb
    rcases List.mem_append.mp hb with hb | hb
    · exact .inl hb
    · refine .inr ?_
      rw [owner_of_mem hb]
      dsimp only
      split
      · exact .inl rfl
      · exact .inr rfl
  have hrest := readBytes_append (Session.write J answer { s with nextID := s.nextID + 1 }
    (text ++ [10]) (.ok ())).unread io.read
  dsimp only
  rcases hread : readBytes (Session.write J answer { s with nextID := s.nextID + 1 }
    (text ++ [10]) (.ok ())).unread io.read with ⟨taken, unread, stop⟩
  rw [hread] at hrest
  have hleft : ∀ b ∈ unread, b ∈ s.unread ∨ b.1 = some s.commands ∨ b.1 = none := by
    intro b hb
    refine hwritten b ?_
    rw [← hrest]
    exact List.mem_append_right _ hb
  -- the branches differ in what is returned only
  dsimp only
  split
  · exact ⟨rfl, hleft⟩
  · exact ⟨rfl, hleft⟩
  · split <;> exact ⟨rfl, hleft⟩

theorem Session.Past.after (hs : s.Past) (c : Request × Io) : (s.after G J answer c).Past := by
  obtain ⟨hcommands, hunread⟩ := @after_unread G J answer s c
  intro b hb k hk
  rw [hcommands]
  rcases hunread b hb with hold | hown | hnone
  · exact Nat.lt_succ_of_lt (hs b hold k hk)
  · rw [hown] at hk
    exact Nat.lt_succ_of_le (Option.some_inj.mp hk).ge
  · rw [hnone] at hk
    contradiction

/-- Over the commands of a client: every one that returns a reply returns the answer to its
own request exactly when every one is in step. -/
theorem matched_iff (hG : G.Documented J) (hJ : J.Documented)
    (hplain : ∀ lines, (answer lines).event = none) (commands : List (Request × Io)) :
    Each (fun before c =>
        Matched G J answer (before.foldl (Session.after G J answer) {}) c.1 c.2) commands ↔
      Each (fun before c =>
        InStep G J answer (before.foldl (Session.after G J answer) {}) c.1 c.2) commands := by
  have hstart : Session.Past {} := fun b hb => absurd hb List.not_mem_nil
  refine each_congr (K := fun _ => True)
    (I := fun before => (before.foldl (Session.after G J answer) {}).Past) hstart
    (fun before c _ hs => matched_step hG hJ hplain hs) (fun before c _ hs _ => ?_)
    fun _ _ => trivial
  rw [List.foldl_concat]
  exact hs.after c

end Matching

/-! ## A codec, and two commands -/

def replyTexts : List (Reply × Bytes) :=
  [({ id := some 1, ok := some true }, utf8 "\x7b\"id\":1,\"ok\":true\x7d"),
   ({ id := some 2, ok := some true }, utf8 "\x7b\"id\":2,\"ok\":true\x7d")]

def smallJson : Json := Guest.packJson replyTexts (fun _ => .error "") fun _ => .error ""

theorem smallJson_documented : smallJson.Documented :=
  Guest.packJson_documented (show Guest.Tabled replyTexts by decide +kernel)

/-- Requests of a number and an operation only, as they are written. -/
def smallGo : Go where
  marshal r := .ok (utf8 ("\x7b\"id\":" ++ toString r.id.toNat ++ ",\"op\":\"" ++ r.op ++ "\"\x7d"))
  unmarshal text :=
    if text.getLast? = some 0x7d then smallJson.readReply text
    else .error "unexpected end of JSON input"
  trimSpace := trimFrame

theorem brace_last (r : Reply) :
    ∃ front, smallJson.writeReply r = front ++ [0x7d] ∧ 0x7d ∉ front := by
  cases hfind : Guest.textOf replyTexts r with
  | none =>
    have hwrite : smallJson.writeReply r = Guest.packed r := by
      simp only [smallJson, Guest.packJson, hfind]
    rw [hwrite]
    refine ⟨_, rfl, ?_⟩
    simp
  | some p =>
    have hwrite : smallJson.writeReply r = p.2 := by
      simp only [smallJson, Guest.packJson, hfind]
    have htexts : ∀ p ∈ replyTexts, p.2 = p.2.dropLast ++ [0x7d] ∧ 0x7d ∉ p.2.dropLast := by
      decide +kernel
    rw [hwrite]
    exact ⟨_, htexts p (List.mem_of_find?_eq_some hfind)⟩

theorem smallGo_documented : smallGo.Documented smallJson := by
  have hJ := smallJson_documented
  have hopen : isAsciiWhitespace 0x7b = false := by decide
  have hclose : isAsciiWhitespace 0x7d = false := by decide
  have hnewline : isAsciiWhitespace 10 = true := by decide
  refine ⟨fun r hr => ?_, fun r text hcut hne => ?_, rfl, fun body => ?_, fun body => ?_⟩
  · show (if (smallJson.writeReply r).getLast? = some 0x7d then
      smallJson.readReply (smallJson.writeReply r) else _) = _
    rw [if_pos (hJ.getLast_writeReply r)]
    refine hJ.read_write r ?_
    cases r
    cases hr
    rfl
  · refine ⟨"unexpected end of JSON input", if_neg fun hlast => ?_⟩
    obtain ⟨front, hfront, hnot⟩ := brace_last r
    rw [hfront] at hcut hne
    rcases List.prefix_concat_iff.mp hcut with heq | hcut
    · exact hne heq
    · exact hnot (hcut.subset (List.mem_of_getLast? hlast))
  · show trimFrame (0x7b :: body) <+: 0x7b :: body
    unfold trimFrame
    rw [List.dropWhile_cons_of_neg (by rw [hopen]; exact Bool.false_ne_true)]
    have hsuffix := List.dropWhile_suffix isAsciiWhitespace (l := (0x7b :: body).reverse)
    have hfront := List.reverse_prefix.mpr hsuffix
    rwa [List.reverse_reverse] at hfront
  · show trimFrame (0x7b :: body ++ [0x7d, 10]) = 0x7b :: body ++ [0x7d]
    simp [trimFrame, hopen, hclose, hnewline]

/-- An agent that says how many lines it has seen. -/
def countingAgent (lines : List Bytes) : Reply :=
  { id := some (.ofNat lines.length), ok := some true }

/-- A command whose deadline passes before the reply, and the next one. -/
def late : Request × Io :=
  ({ id := 0, op := "kill" }, { read := some (0, .failed "i/o timeout") })

def lateLine : Bytes := utf8 "\x7b\"id\":1,\"op\":\"kill\"\x7d" ++ [10]

def next : Request × Io := ({ id := 0, op := "start" }, {})

/-- The reply that came too late is taken for that of the next command. -/
theorem matched_fails :
    ¬ Each (fun before (c : Request × Io) => Matched smallGo smallJson countingAgent
        (before.foldl (Session.after smallGo smallJson countingAgent) {}) c.1 c.2)
      [late, next] := by
  intro hall
  have hJ : smallJson.Documented := smallJson_documented
  obtain ⟨body, hbody⟩ := hJ.braces (countingAgent [lateLine])
  have hheard : ((Session.after smallGo smallJson countingAgent {} late).heard smallGo smallJson
      countingAgent next.1 next.2).map (List.map Prod.snd) =
        some (smallJson.writeReply (countingAgent [lateLine]) ++ [10]) := by decide +kernel
  obtain ⟨taken, htaken, hraw⟩ := Option.map_eq_some_iff.mp hheard
  have hdecode : smallGo.unmarshal (smallGo.trimSpace (taken.map Prod.snd)) =
      .ok (countingAgent [lateLine]) := by
    rw [hraw, ← smallGo_documented.unmarshal_reply _ rfl, hbody, List.append_assoc]
    exact congrArg smallGo.unmarshal (smallGo_documented.trimSpace_line body)
  obtain ⟨-, text, -, hreply⟩ := hall [late] next List.prefix_rfl _
    ((Do_reply smallGo_documented hJ).mpr ⟨taken, htaken, hdecode⟩)
  have hlines : (Session.after smallGo smallJson countingAgent {} late).lines = [lateLine] := by
    decide +kernel
  have hid := congrArg Reply.id hreply
  rw [show [late].foldl (Session.after smallGo smallJson countingAgent) {} =
    Session.after smallGo smallJson countingAgent {} late from rfl, hlines] at hid
  revert hid
  simp [countingAgent]

theorem matched_iff_waiting :
    Each (fun before (c : Request × Io) => Matched smallGo smallJson countingAgent
        (before.foldl (Session.after smallGo smallJson countingAgent) {}) c.1 c.2)
      [next, next] := by
  -- two commands that wait for their replies: each returns its own
  refine (matched_iff smallGo_documented smallJson_documented (fun _ => rfl) _).mpr ?_
  rw [each_iff_after]
  refine ⟨.inl ⟨rfl, rfl⟩, .inl ⟨?_, ?_⟩, trivial⟩ <;> decide +kernel

end Tdvmm.Sdk
