import ShaderInterface.Proofs.Declaration.Agreement
import Mathlib.Data.List.TakeWhile

/-!
# Reading again

A stream can be read again where the last read stopped. Every read is a descent from that position
(`runAt_program`), and the position is all that a read leaves behind: the stream that starts there
is the stream of the tokens that are left (`Opens.drop`). So a read behind a failure is a first read
of those tokens, and a read behind a success finds nothing more (`TokenStream.reads_resume`).
-/
namespace ShaderInterface

namespace TokenStream

/-! ## Streams of token lists -/

/-- The tokens with an end-of-file token behind them, unless the last one is such a token. -/
def closed (ts : List Token) : List Token :=
  if ts.getLast?.map Token.kind = some .eof then ts else ts ++ [endBehind ts]

/-- The stream behind its first `p` tokens. -/
def drop (s : TokenStream) (p : Nat) : TokenStream := { s with ahead := s.ahead.drop p }

section
variable {s : TokenStream} {tokens ts : List Token}

theorem opens_of_split {before : List Token} {e : Token} (hbefore : ∀ t ∈ before, t.kind ≠ .eof)
    (he : e.kind = .eof) (behind : List Token) :
    (⟨before, e⟩ : TokenStream).Opens (before ++ e :: behind) :=
  ⟨⟨behind, rfl⟩, hbefore, he⟩

/-- A stream is determined by the tokens that it opens. -/
theorem Opens.ofTokens (h : s.Opens tokens) : ofTokens tokens = s := by
  obtain ⟨behind, rfl⟩ := h.split
  have hahead : ∀ t ∈ s.ahead, (!decide (t.kind = .eof)) = true :=
    fun t ht => by simp [h.ahead t ht]
  have hnone : s.ahead.find? (fun t => decide (t.kind = .eof)) = none :=
    List.find?_eq_none.2 fun t ht => by simp [h.ahead t ht]
  simp [TokenStream.ofTokens, List.takeWhile_append_of_pos hahead, List.find?_append, hnone, h.stop]

theorem Opens.drop (h : s.Opens tokens) {p : Nat} (hp : p ≤ s.ahead.length) :
    (s.drop p).Opens (tokens.drop p) := by
  refine ⟨?_, fun t ht => h.ahead t (List.mem_of_mem_drop ht), h.stop⟩
  obtain ⟨behind, rfl⟩ := h.split
  exact ⟨behind, by simp [TokenStream.drop, List.drop_append_of_le_length hp]⟩

theorem Opens.length_lt (h : s.Opens tokens) : s.ahead.length < tokens.length := by
  obtain ⟨behind, rfl⟩ := h.split
  simp

theorem opens_closed (ts : List Token) : (ofTokens ts).Opens (closed ts) := by
  cases hfind : ts.find? fun t => decide (t.kind = .eof) with
  | none =>
    have hts : ∀ t ∈ ts, t.kind ≠ .eof := fun t ht => by simpa using List.find?_eq_none.1 hfind t ht
    have hclosed : closed ts = ts ++ [endBehind ts] := by
      refine if_neg fun hlast => ?_
      obtain ⟨t, ht, hkind⟩ := Option.map_eq_some_iff.1 hlast
      exact hts t (List.mem_of_getLast? ht) hkind
    have hstream : ofTokens ts = ⟨ts, endBehind ts⟩ := by
      have hall : ∀ t ∈ ts, (!decide (t.kind = .eof)) = true := fun t ht => by simp [hts t ht]
      simp [ofTokens, hfind, List.takeWhile_eq_self_iff.2 hall]
    rw [hstream, hclosed]
    exact opens_of_split hts rfl []
  | some e =>
    obtain ⟨he, before, behind, rfl, hbefore⟩ := List.find?_eq_some_iff_append.1 hfind
    simp only [decide_eq_true_eq, Bool.not_eq_eq_eq_not, Bool.not_true, decide_eq_false_iff_not]
      at he hbefore
    rw [(opens_of_split hbefore he behind).ofTokens, closed]
    split_ifs
    · exact opens_of_split hbefore he behind
    · simpa using opens_of_split hbefore he (behind ++ [_])

/-- What stands behind an end-of-file token is no part of the stream. -/
theorem ofTokens_replace {before : List Token} {e : Token} (he : e.kind = .eof)
    (behind other : List Token) :
    ofTokens (before ++ e :: behind) = ofTokens (before ++ e :: other) := by
  simp [ofTokens, List.takeWhile_append, List.find?_append, he]

end

/-! ## One read -/

/-- A read is a descent from the position of the stream. One that succeeds gets to the end. -/
theorem runAt_program {s : TokenStream} {tokens : List Token} {p n : Nat} (h : s.Opens tokens)
    (hp : p ≤ s.ahead.length) (hn : tokens.length < n) :
    ∃ q, p ≤ q ∧ q ≤ s.ahead.length ∧ (s.drop p).read.2 = s.drop q ∧
      (Descent.program tokens n []).runAt p = some ((s.drop p).read.1, q) ∧
      ∀ ds, (s.drop p).read.1 = .ok ds → q = s.ahead.length := by
  have hlength := h.length_lt
  cases Descent.mirrors_program h (n := n) hp (by omega) [] with
  | @ok ds q hrun hle hlen hread hend =>
    subst hend
    have hresult : Reader.start.run s.stop (s.ahead.drop p) = ⟨.ok ds, []⟩ := by
      simpa [Reader.start, Reader.run, Reader.atEnd?] using hread
    refine ⟨s.ahead.length, hle, hlen, ?_, ?_, fun _ _ => rfl⟩
    · simp [read, drop, hresult]
    · simp [read, drop, hresult, hrun]
  | @error e q hrun hle hlen herror =>
    have hresult : Reader.start.run s.stop (s.ahead.drop p) = ⟨.error e, s.ahead.drop q⟩ := herror
    refine ⟨q, hle, hlen, ?_, ?_, fun ds hok => ?_⟩
    · simp [read, drop, hresult]
    · simp [read, drop, hresult, hrun]
    · simp [read, drop, hresult] at hok

/-! ## Any number of reads -/

/-- The stream behind `n` reads. -/
def after (s : TokenStream) (n : Nat) : TokenStream := (fun s => s.read.2)^[n] s

/-- What read number `n` gives; the first one is number 0. -/
def answer (s : TokenStream) (n : Nat) : Except ParseError (List Declaration) := (s.after n).read.1

/-- How many tokens are behind after `n` reads. -/
def position (s : TokenStream) (n : Nat) : Nat := s.ahead.length - (s.after n).ahead.length

theorem after_succ (s : TokenStream) (n : Nat) : s.after (n + 1) = (s.after n).read.2 :=
  Function.iterate_succ_apply' _ n s

theorem after_add (s : TokenStream) (n k : Nat) : s.after (n + k) = (s.after n).after k := by
  rw [Nat.add_comm]
  exact Function.iterate_add_apply _ k n s

theorem position_le (s : TokenStream) (n : Nat) : s.position n ≤ s.ahead.length := Nat.sub_le _ _

section
variable {s : TokenStream} {tokens : List Token}

theorem position_of_after {n q : Nat} (hq : q ≤ s.ahead.length) (h : s.after n = s.drop q) :
    s.position n = q := by
  rw [position, h]
  simp only [drop, List.length_drop]
  omega

/-- A stream is at its position. -/
theorem after_eq_drop (h : s.Opens tokens) (n : Nat) : s.after n = s.drop (s.position n) := by
  induction n with
  | zero => simp [position, after, drop]
  | succ n ih =>
    obtain ⟨q, -, hq, hread, -⟩ := runAt_program h (s.position_le n) tokens.length.lt_succ_self
    have hnext : s.after (n + 1) = s.drop q := by rw [after_succ, ih, hread]
    rw [position_of_after hq hnext, hnext]

/-- One read after `n` others. -/
theorem read_step (h : s.Opens tokens) (n : Nat) {rounds : Nat} (hrounds : tokens.length < rounds) :
    s.position n ≤ s.position (n + 1) ∧
      (Descent.program tokens rounds []).runAt (s.position n) =
        some (s.answer n, s.position (n + 1)) ∧
      ∀ ds, s.answer n = .ok ds → s.position (n + 1) = s.ahead.length := by
  obtain ⟨q, hle, hq, hread, hrun, hok⟩ := runAt_program h (s.position_le n) hrounds
  rw [← after_eq_drop h n] at hread hrun hok
  have hnext : s.position (n + 1) = q := position_of_after hq (by rw [after_succ, hread])
  rw [hnext]
  exact ⟨hle, hrun, hok⟩

/-- What comes behind `n` reads is what the reads of the tokens that are left give. -/
theorem resume (h : s.Opens tokens) (n k : Nat) :
    let rest := ofTokens (tokens.drop (s.position n))
    s.answer (n + k) = rest.answer k ∧ s.position (n + k) = s.position n + rest.position k := by
  intro rest
  have hopens := h.drop (s.position_le n)
  have hrest : rest = s.drop (s.position n) := hopens.ofTokens
  have hafter : s.after (n + k) = rest.after k := by rw [after_add, after_eq_drop h n, hrest]
  refine ⟨by rw [answer, hafter, answer], ?_⟩
  have hlength : (rest.after k).ahead.length = s.ahead.length - s.position n - rest.position k := by
    rw [hrest, after_eq_drop hopens k]
    simp only [drop, List.length_drop]
  have hn := s.position_le n
  have hk : rest.position k ≤ s.ahead.length - s.position n := by
    rw [hrest]
    simpa [drop] using (s.drop (s.position n)).position_le k
  rw [position, hafter, hlength]
  omega

/-- Behind the last token nothing is found, and nothing changes. -/
theorem read_of_end (hend : s.ahead = []) : s.read = (.ok [], s) := by
  obtain ⟨ahead, stop⟩ := s
  subst hend
  rfl

theorem after_of_end (hend : s.ahead = []) (n : Nat) : s.after n = s := by
  induction n with
  | zero => rfl
  | succ n ih => rw [after_succ, ih, read_of_end hend]

/-- Behind a read that got to the end, all reads find nothing and stay there. -/
theorem answer_of_end (h : s.Opens tokens) {n m : Nat} (hend : s.position n = s.ahead.length)
    (hm : n ≤ m) : s.answer m = .ok [] ∧ s.position m = s.ahead.length := by
  obtain ⟨k, rfl⟩ := Nat.exists_eq_add_of_le hm
  have hnone : (s.after n).ahead = [] := by simp [after_eq_drop h n, hend, drop]
  have hafter : s.after (n + k) = s.after n := by rw [after_add, after_of_end hnone]
  refine ⟨?_, ?_⟩
  · rw [answer, hafter, read_of_end hnone]
  · rw [position, hafter, hnone]
    rfl

end

end TokenStream

/-! ## Progress -/

namespace Descent

/-- From every position up to `stop` the part ends, not behind `stop`, and it only succeeds further
ahead. -/
def Forward {α : Type} (stop : Nat) (x : Descent α) : Prop :=
  ∀ p ≤ stop, ∃ result q, x.runAt p = some (result, q) ∧ p ≤ q ∧ q ≤ stop ∧
    ∀ a, result = .ok a → p < q

section
variable {s : TokenStream} {tokens : List Token} {n : Nat}

theorem Mirrors.forward {α : Type} {p : Nat} {r : Reader} {x : Descent α} {after : α → Reader}
    (hx : Mirrors s p r x after (fun _ q => p < q)) :
    ∃ result q, x.runAt p = some (result, q) ∧ p ≤ q ∧ q ≤ s.ahead.length ∧
      ∀ a, result = .ok a → p < q := by
  cases hx with
  | ok hrun hle hlen _ hlt => exact ⟨_, _, hrun, hle, hlen, fun _ _ => hlt⟩
  | error hrun hle hlen _ => exact ⟨_, _, hrun, hle, hlen, fun _ hok => by cases hok⟩

variable (h : s.Opens tokens)
include h

/-- Where no item starts, none is read. -/
theorem runAt_item_of_end {p : Nat} (hp : p ≤ s.ahead.length) (n : Nat) (path : List String)
    (hend : (s.tokenAt p).isGrouper '}' = true ∨ (s.tokenAt p).kind = .eof) :
    ∃ e, (item tokens (n + 1) path).runAt p = some (.error e, p) := by
  have hkind : (s.tokenAt p).kind = .grouper ∨ (s.tokenAt p).kind = .eof :=
    hend.imp (fun hbrace => (Token.isGrouper_iff.1 hbrace).1) id
  have hkeyword (word : String) : (s.tokenAt p).isKeyword word = false := by
    rcases hkind with hk | hk <;> simp [Token.isKeyword, hk]
  have hsemicolon : (s.tokenAt p).isPunctuator ";" = false := by
    rcases hkind with hk | hk <;> simp [Token.isPunctuator, hk]
  rw [item, runAt_bind_ok (runAt_peek h hp)]
  simp only [hkeyword, Token.isStruct, hsemicolon, Bool.or_self, Bool.false_eq_true, if_false]
  exact ⟨_, runAt_bind_ok (runAt_peek h hp)⟩

variable (hn : s.ahead.length < n)
include hn

theorem forward_item (path : List String) : Forward s.ahead.length (item tokens n path) := by
  intro p hp
  by_cases hend : (s.tokenAt p).isGrouper '}' = true ∨ (s.tokenAt p).kind = .eof
  · obtain ⟨m, rfl⟩ := Nat.exists_eq_succ_of_ne_zero (show n ≠ 0 by omega)
    obtain ⟨e, hrun⟩ := runAt_item_of_end h hp m path hend
    exact ⟨.error e, p, hrun, le_rfl, hp, fun _ hok => by cases hok⟩
  · push Not at hend
    have hitem := mirrors_items (n := n) h hp (by omega) [path] [] (.inr (by simpa using hend.1))
      hend.2
    exact Mirrors.forward (by simpa using hitem)

theorem forward_member : Forward s.ahead.length (member tokens n) := by
  intro p hp
  have hpn : s.ahead.length < p + n := by omega
  let body : StructBody := ⟨⟨none, "", ⟨0, 0, 0⟩⟩, none, []⟩
  by_cases ha : (s.tokenAt p).isAccess = true
  · have hk := (Token.isAccess_iff.1 ha).1
    have hmember : Mirrors s p ⟨[], [], .members body⟩ (member tokens n) _ _ :=
      mirrors_member h hp hpn body (by simp [Token.isGrouper, hk]) (by simp [hk])
    exact hmember.forward
  · -- A reader that is only ready for a type also fails at a brace and at the end.
    have hfield : Mirrors s p ⟨[], [], .typeStart (.field body)⟩ (field tokens n) _ _ :=
      mirrors_field h hpn (mirrors_typeStart h hp hpn _)
    have hmember : Mirrors s p ⟨[], [], .typeStart (.field body)⟩ (member tokens n)
        (fun m => ⟨[], [], .members { body with fields := body.fields ++ m.toList }⟩)
        (fun _ q => p < q) := by
      unfold member
      refine .peek h hp ?_
      rw [if_neg ha]
      exact hfield.bind fun f q _ hq hlt => .pure hq (by simp) hlt
    exact hmember.forward

end

end Descent

/-- **Reads resume.** Tokens are read any number of times, each time from the position where the
last read stopped. `stop` is the position of their first end-of-file token. Every read is a descent
from its position. It ends within any number of rounds above the number of tokens, and gives the
same result whatever that number is.

The descent looks at nothing behind the first end-of-file token: other tokens there change neither a
result nor a position. Positions never go back and never pass `stop`. A read that succeeds gets to
`stop`, and all later ones find nothing. A read that fails stays where it stopped, and what comes
next are the results of a first read, and of the reads after it, of the tokens that are left. An
item or a member that is read ends ahead of where it started. -/
theorem TokenStream.reads_resume (ts : List Token) :
    let s := ofTokens ts
    let tokens := closed ts
    let stop := (ts.takeWhile fun t => t.kind ≠ .eof).length
    (∀ n rounds, tokens.length < rounds →
      (Descent.program tokens rounds []).runAt (s.position n) =
        some (s.answer n, s.position (n + 1))) ∧
    (∀ before e behind, ts = before ++ e :: behind → e.kind = .eof → ∀ other n rounds,
      (closed (before ++ e :: other)).length < rounds →
      (Descent.program (closed (before ++ e :: other)) rounds []).runAt (s.position n) =
        some (s.answer n, s.position (n + 1))) ∧
    (s.position 0 = 0 ∧ ∀ n, s.position n ≤ s.position (n + 1) ∧ s.position n ≤ stop) ∧
    (∀ n ds, s.answer n = .ok ds → s.position (n + 1) = stop ∧
      ∀ m, n < m → s.answer m = .ok [] ∧ s.position m = stop) ∧
    (∀ n e, s.answer n = .error e → ∀ k,
      let rest := ofTokens (tokens.drop (s.position (n + 1)))
      s.answer (n + 1 + k) = rest.answer k ∧
        s.position (n + 1 + k) = s.position (n + 1) + rest.position k) ∧
    ∀ rounds, tokens.length < rounds →
      (∀ path, Descent.Forward stop (Descent.item tokens rounds path)) ∧
        Descent.Forward stop (Descent.member tokens rounds) := by
  intro s tokens stop
  have hopens : s.Opens tokens := opens_closed ts
  have hstop : s.ahead.length = stop := by simp [s, stop, ofTokens]
  have hlength := hopens.length_lt
  have hstep (n : Nat) := read_step hopens n tokens.length.lt_succ_self
  rw [← hstop]
  refine ⟨fun n rounds hrounds => (read_step hopens n hrounds).2.1, ?_,
    ⟨by simp [position, after], fun n => ⟨(hstep n).1, s.position_le n⟩⟩, ?_, ?_, ?_⟩
  · intro before e behind hts he other n rounds hrounds
    have hsame : s = ofTokens (before ++ e :: other) := by
      rw [← ofTokens_replace he behind other, ← hts]
    have hother : s.Opens (closed (before ++ e :: other)) := hsame ▸ opens_closed _
    exact (read_step hother n hrounds).2.1
  · intro n ds hok
    have hend := (hstep n).2.2 ds hok
    exact ⟨hend, fun m hm => answer_of_end hopens hend hm⟩
  · intro n e _ k
    exact resume hopens (n + 1) k
  · intro rounds hrounds
    exact ⟨Descent.forward_item hopens (by omega), Descent.forward_member hopens (by omega)⟩

end ShaderInterface
