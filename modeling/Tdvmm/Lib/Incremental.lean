import Mathlib.Data.List.Basic
import Mathlib.Order.Basic

/-!
# Lib.Incremental — parsing a stream that arrives in chunks

A decoder looks at the front of its input and finds a token, asks for more, or finds an error. A
token takes at least one element, and more input does not change an answer.

* `Decoder.parse_eq_parseAll`: the length of the input is fuel enough.
* `Decoder.feed_parseAll`: a chunk takes the parse of a stream to the parse of the longer one.
* `Decoder.feed_chunks`: so the cuts between the chunks do not matter.
-/

namespace Lib

variable {α ε τ : Type*}

structure Decoder (α ε τ : Type*) where
  decode : List α → Except ε (Option (τ × Nat))
  waits : decode [] = .ok none
  bounds : ∀ {input : List α} {t : τ} {n : Nat}, decode input = .ok (some (t, n)) →
    0 < n ∧ n ≤ input.length
  stable : ∀ (input more : List α), decode input ≠ .ok none →
    decode (input ++ more) = decode input

/-- What a parser has found: the tokens, what is left, and the error at its front. -/
@[ext]
structure Parsed (α ε τ : Type*) where
  tokens : List τ
  rest : List α
  error : Option ε

def Parsed.after (ts : List τ) (r : Parsed α ε τ) : Parsed α ε τ :=
  { r with tokens := ts ++ r.tokens }

namespace Decoder

variable (D : Decoder α ε τ)

/-- Decode tokens off the front, at most `fuel` of them. -/
def parse : Nat → List α → Parsed α ε τ
  | 0, buf => ⟨[], buf, none⟩
  | fuel + 1, buf =>
    match D.decode buf with
    | .ok (some (t, n)) => (parse fuel (buf.drop n)).after [t]
    | .ok none => ⟨[], buf, none⟩
    | .error e => ⟨[], buf, some e⟩

def parseAll (buf : List α) : Parsed α ε τ := D.parse (buf.length + 1) buf

/-- Take the next chunk. After an error the input only piles up. -/
def feed (s : Parsed α ε τ) (chunk : List α) : Parsed α ε τ :=
  match s.error with
  | none => (D.parseAll (s.rest ++ chunk)).after s.tokens
  | some _ => { s with rest := s.rest ++ chunk }

variable {D} {buf : List α} {t : τ} {n : Nat} {e : ε}

theorem length_drop_lt (h : D.decode buf = .ok (some (t, n))) :
    (buf.drop n).length < buf.length := by
  have hbounds := D.bounds h
  rw [List.length_drop]
  omega

theorem parse_fuel (fuel fuel' : Nat) (buf : List α) (h : buf.length < fuel)
    (h' : buf.length < fuel') : D.parse fuel buf = D.parse fuel' buf := by
  induction fuel generalizing fuel' buf with
  | zero => omega
  | succ fuel ih =>
    cases fuel' with
    | zero => omega
    | succ fuel' =>
      unfold parse
      split
      · rename_i t n hdec
        have hlt := length_drop_lt hdec
        rw [ih fuel' (buf.drop n) (by omega) (by omega)]
      · rfl
      · rfl

theorem parse_eq_parseAll {fuel : Nat} (h : buf.length < fuel) :
    D.parse fuel buf = D.parseAll buf :=
  parse_fuel fuel _ buf h (Nat.lt_succ_self _)

theorem parseAll_token (h : D.decode buf = .ok (some (t, n))) :
    D.parseAll buf = (D.parseAll (buf.drop n)).after [t] := by
  rw [parseAll, parse, h]
  simp only
  rw [parse_eq_parseAll (length_drop_lt h)]

theorem parseAll_none (h : D.decode buf = .ok none) : D.parseAll buf = ⟨[], buf, none⟩ := by
  rw [parseAll, parse, h]

theorem parseAll_error (h : D.decode buf = .error e) : D.parseAll buf = ⟨[], buf, some e⟩ := by
  rw [parseAll, parse, h]

theorem feed_after (ts : List τ) (r : Parsed α ε τ) (chunk : List α) :
    D.feed (r.after ts) chunk = (D.feed r chunk).after ts := by
  cases herr : r.error <;> simp [feed, Parsed.after, herr]

theorem foldl_feed_of_error {s : Parsed α ε τ} (h : s.error = some e) (chunks : List (List α)) :
    (chunks.foldl D.feed s).error = some e ∧ (chunks.foldl D.feed s).tokens = s.tokens := by
  induction chunks generalizing s with
  | nil => exact ⟨h, rfl⟩
  | cons chunk chunks ih =>
    have hfeed : D.feed s chunk = { s with rest := s.rest ++ chunk } := by rw [feed, h]
    rw [List.foldl_cons, hfeed]
    exact ih h

theorem feed_parseAll (buf chunk : List α) :
    D.feed (D.parseAll buf) chunk = D.parseAll (buf ++ chunk) := by
  -- by induction on the length: a token leaves a shorter input
  induction hlen : buf.length using Nat.strongRecOn generalizing buf with
  | ind len ih =>
    cases hdec : D.decode buf with
    | error e =>
      have hmore := D.stable buf chunk (by simp [hdec])
      rw [parseAll_error hdec, parseAll_error (hmore.trans hdec)]
      rfl
    | ok answer =>
      cases answer with
      | none =>
        rw [parseAll_none hdec]
        rfl
      | some found =>
        have hmore := D.stable buf chunk (by simp [hdec])
        have hlt := length_drop_lt hdec
        have hrest := ih _ (hlen ▸ hlt) (buf.drop found.2) rfl
        rw [parseAll_token hdec, parseAll_token (hmore.trans hdec), feed_after, hrest,
          List.drop_append_of_le_length (D.bounds hdec).2]

theorem parseAll_front {more : List α} (h : (D.parseAll (buf ++ more)).error = none) :
    (D.parseAll buf).error = none ∧
      (D.parseAll buf).tokens <+: (D.parseAll (buf ++ more)).tokens := by
  rw [← feed_parseAll] at h ⊢
  cases hbuf : (D.parseAll buf).error with
  | some e =>
    rw [feed, hbuf] at h
    cases h
  | none =>
    rw [feed, hbuf]
    exact ⟨rfl, List.prefix_append _ _⟩

theorem parseAll_rest (h : (D.parseAll buf).error = none) :
    D.parseAll (D.parseAll buf).rest = ⟨[], (D.parseAll buf).rest, none⟩ := by
  have hagain : (D.parseAll (D.parseAll buf).rest).after (D.parseAll buf).tokens =
      D.parseAll buf := by
    have hfeed := feed_parseAll (D := D) buf []
    rwa [feed, h, List.append_nil, List.append_nil] at hfeed
  have htokens := congrArg Parsed.tokens hagain
  have hrest := congrArg Parsed.rest hagain
  have herror := congrArg Parsed.error hagain
  simp only [Parsed.after] at htokens hrest herror
  exact Parsed.ext (List.append_right_eq_self.mp htokens) hrest (herror.trans h)

theorem feed_chunks (buf : List α) (chunks : List (List α)) :
    chunks.foldl D.feed (D.parseAll buf) = D.parseAll (buf ++ chunks.flatten) := by
  induction chunks generalizing buf with
  | nil => simp
  | cons chunk chunks ih =>
    rw [List.foldl_cons, feed_parseAll, ih, List.flatten_cons, List.append_assoc]

theorem parseAll_tokens {encode : τ → List α} (ts : List τ) (tail : List α)
    (hts : ∀ t ∈ ts, ∀ suffix, D.decode (encode t ++ suffix) = .ok (some (t, (encode t).length))) :
    D.parseAll (ts.flatMap encode ++ tail) = (D.parseAll tail).after ts := by
  induction ts with
  | nil => rfl
  | cons t ts ih =>
    have hhead := hts t List.mem_cons_self (ts.flatMap encode ++ tail)
    have htail := ih fun t' ht' => hts t' (List.mem_cons_of_mem _ ht')
    rw [List.flatMap_cons, List.append_assoc, parseAll_token hhead, List.drop_left, htail]
    rfl

end Decoder

end Lib
