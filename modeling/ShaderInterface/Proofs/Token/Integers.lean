import ShaderInterface.Token.Integer
import Mathlib.Data.List.DropRight
import Mathlib.Data.Nat.Digits.Defs
import Mathlib.Tactic

/-!
# Which texts are integer literals

`Integer.IsLiteral` says how the literal of a number is written: a marker of the base, a sign, digits
and a suffix. Reading a text gives a number exactly if the text is a literal of it
(`Integer.ofText?_eq_some_iff`), so no value is cut off at the limit.
-/
namespace ShaderInterface.Integer

/-! ## Literals -/

/-- `c` is the digit of value `v`, in either case. -/
def HasValue (c : Char) (v : Nat) : Prop :=
  "0123456789abcdef".toList[v]? = some c ∨ "0123456789ABCDEF".toList[v]? = some c

/-- `cs` are digits of base `radix`, at least one, with the positional value `n`. -/
def Denotes (radix : Nat) (cs : List Char) (n : Nat) : Prop :=
  cs ≠ [] ∧ ∃ vs : List Nat, List.Forall₂ HasValue cs vs ∧ (∀ v ∈ vs, v < radix) ∧
    Nat.ofDigits radix vs.reverse = n

/-- `cs` are digits with at most one plus sign before them. -/
def IsSigned (radix : Nat) (cs : List Char) (n : Nat) : Prop :=
  ∃ sign digits, (sign = [] ∨ sign = ['+']) ∧ cs = sign ++ digits ∧ Denotes radix digits n

/-- The texts that tell the base of a number, and the base. -/
def markers : List (String × Nat) := [("", 10), ("0x", 16), ("0X", 16)]

/-- `cs` is a number without a suffix. -/
def IsNumber (cs : List Char) (n : Nat) : Prop :=
  ∃ marker radix rest, (marker, radix) ∈ markers ∧ cs = marker.toList ++ rest ∧
    IsSigned radix rest n

/-- `s` is a literal of `n`: a number below `2 ^ 32`, and behind it every `u` and `U` at the end of the
text. -/
def IsLiteral (s : String) (n : Nat) : Prop :=
  ∃ body suffix, s.toList = body ++ suffix ∧ (∀ c ∈ suffix, c = 'u' ∨ c = 'U') ∧
    (∀ c ∈ body.getLast?, c ≠ 'u' ∧ c ≠ 'U') ∧ IsNumber body n ∧ n < 2 ^ 32

/-! ## Digits -/

/-- The digits by their code points. -/
theorem hasValue_of_toNat {c : Char} {v : Nat}
    (h : c.toNat = 48 + v ∧ v < 10 ∨ (c.toNat = 87 + v ∨ c.toNat = 55 + v) ∧ 10 ≤ v ∧ v < 16) :
    HasValue c v := by
  rw [← Char.ofNat_toNat c]
  rcases h with ⟨hc, hv⟩ | ⟨hc | hc, hle, hv⟩
  all_goals
    rw [hc]
    interval_cases v <;> simp [HasValue]

theorem digit?_eq_some_iff {c : Char} {v : Nat} : digit? c = some v ↔ HasValue c v := by
  constructor
  · intro h
    refine hasValue_of_toNat ?_
    unfold digit? at h
    split_ifs at h with hdecimal hlower hupper
    · have hrange : 48 ≤ c.toNat ∧ c.toNat ≤ 57 := hdecimal
      have hv : c.toNat - 48 = v := Option.some.inj h
      omega
    · have hrange : 97 ≤ c.toNat ∧ c.toNat ≤ 102 := hlower
      have hv : c.toNat - 97 + 10 = v := Option.some.inj h
      omega
    · have hrange : 65 ≤ c.toNat ∧ c.toNat ≤ 70 := hupper
      have hv : c.toNat - 65 + 10 = v := Option.some.inj h
      omega
  · rintro (h | h)
    all_goals
      obtain ⟨hv, rfl⟩ := List.getElem?_eq_some_iff.1 h
      have hlt : v < 16 := hv
      interval_cases v <;> rfl

/-- Digits are read one by one, and each multiplies what was read before it by the base. -/
theorem digitsFrom?_eq_some_iff {radix acc n : Nat} {cs : List Char} :
    digitsFrom? radix acc cs = some n ↔
      ∃ vs : List Nat, List.Forall₂ HasValue cs vs ∧ (∀ v ∈ vs, v < radix) ∧
        vs.foldl (fun value v => v + radix * value) acc = n := by
  induction cs generalizing acc with
  | nil =>
    rw [digitsFrom?]
    constructor
    · intro h
      exact ⟨[], .nil, by simp, Option.some.inj h⟩
    · rintro ⟨vs, hvalues, -, rfl⟩
      cases hvalues
      rfl
  | cons c cs ih =>
    rw [digitsFrom?]
    constructor
    · intro h
      split at h
      · next v hv =>
        split_ifs at h with hlt
        obtain ⟨vs, hvalues, hradix, hn⟩ := ih.1 h
        refine ⟨v :: vs, .cons (digit?_eq_some_iff.1 hv) hvalues, ?_, ?_⟩
        · exact List.forall_mem_cons.2 ⟨hlt, hradix⟩
        · rw [List.foldl_cons, ← hn, Nat.add_comm, Nat.mul_comm]
      · cases h
    · rintro ⟨vs, hvalues, hradix, rfl⟩
      obtain _ | ⟨hv, hvalues⟩ := hvalues
      next v vs =>
        obtain ⟨hlt, hradix⟩ := List.forall_mem_cons.1 hradix
        rw [digit?_eq_some_iff.2 hv]
        simp only [if_pos hlt]
        refine ih.2 ⟨vs, hvalues, hradix, ?_⟩
        rw [List.foldl_cons, Nat.add_comm, Nat.mul_comm]

theorem digits?_eq_some_iff {radix n : Nat} {cs : List Char} :
    digits? radix cs = some n ↔ Denotes radix cs n ∧ n < 2 ^ 32 := by
  cases cs with
  | nil => simp [digits?, Denotes]
  | cons c cs =>
    rw [digits?, Option.filter_eq_some_iff, digitsFrom?_eq_some_iff, decide_eq_true_iff]
    refine and_congr ?_ .rfl
    simp [Denotes, Nat.ofDigits_eq_foldr]

/-! ## Signs, markers and suffixes -/

theorem not_hasValue_plus (v : Nat) : ¬HasValue '+' v := by
  rw [← digit?_eq_some_iff]
  rintro ⟨⟩

theorem not_hasValue_marker {c : Char} (hc : c = 'x' ∨ c = 'X') (v : Nat) : ¬HasValue c v := by
  rw [← digit?_eq_some_iff]
  rcases hc with rfl | rfl <;> rintro ⟨⟩

/-- Every one of the characters that denote a number is a digit. -/
theorem Denotes.hasValue {radix n : Nat} {cs : List Char} (h : Denotes radix cs n) {c : Char}
    (hc : c ∈ cs) : ∃ v, HasValue c v := by
  obtain ⟨-, vs, hvalues, -⟩ := h
  induction hvalues with
  | nil => cases hc
  | cons hv _ ih =>
    rcases List.mem_cons.1 hc with rfl | hc
    · exact ⟨_, hv⟩
    · exact ih hc

theorem signed?_eq_some_iff {radix n : Nat} {cs : List Char} :
    signed? radix cs = some n ↔ IsSigned radix cs n ∧ n < 2 ^ 32 := by
  unfold signed?
  split
  · next cs =>
    rw [digits?_eq_some_iff]
    refine and_congr ⟨fun h => ⟨['+'], cs, .inr rfl, rfl, h⟩, ?_⟩ .rfl
    rintro ⟨sign, digits, rfl | rfl, hcs, h⟩
    · -- A plus sign that is no sign would be a digit.
      obtain ⟨v, hv⟩ := h.hasValue (hcs ▸ List.mem_cons_self)
      exact absurd hv (not_hasValue_plus v)
    · rwa [(List.cons.inj hcs).2]
  · next hplus =>
    rw [digits?_eq_some_iff]
    refine and_congr ⟨fun h => ⟨[], cs, .inl rfl, rfl, h⟩, ?_⟩ .rfl
    rintro ⟨sign, digits, rfl | rfl, rfl, h⟩
    · exact h
    · exact absurd rfl (hplus digits)

/-- A marker is taken as one: no decimal number has its letter. -/
theorem isNumber_marked_iff {c : Char} (hc : c = 'x' ∨ c = 'X') {cs : List Char} {n : Nat} :
    IsNumber ('0' :: c :: cs) n ↔ IsSigned 16 cs n := by
  constructor
  · rintro ⟨marker, radix, rest, hmarker, hcs, h⟩
    simp only [markers, List.mem_cons, List.not_mem_nil, or_false, Prod.mk.injEq] at hmarker
    obtain ⟨rfl, rfl⟩ | ⟨rfl, rfl⟩ | ⟨rfl, rfl⟩ := hmarker
    · obtain ⟨sign, digits, hsign, rfl, hdigits⟩ := h
      rcases hsign with rfl | rfl
      · obtain rfl : '0' :: c :: cs = digits := by simpa using hcs
        obtain ⟨v, hv⟩ := hdigits.hasValue (List.mem_cons_of_mem '0' List.mem_cons_self)
        exact absurd hv (not_hasValue_marker hc v)
      · simp at hcs
    all_goals
      obtain rfl : cs = rest := (List.cons.inj (List.cons.inj hcs).2).2
      exact h
  · intro h
    rcases hc with rfl | rfl
    · exact ⟨"0x", 16, cs, by decide, rfl, h⟩
    · exact ⟨"0X", 16, cs, by decide, rfl, h⟩

theorem isNumber_unmarked_iff {cs : List Char} {n : Nat} (hx : ∀ ds, cs ≠ '0' :: 'x' :: ds)
    (hX : ∀ ds, cs ≠ '0' :: 'X' :: ds) : IsNumber cs n ↔ IsSigned 10 cs n := by
  constructor
  · rintro ⟨marker, radix, rest, hmarker, rfl, h⟩
    simp only [markers, List.mem_cons, List.not_mem_nil, or_false, Prod.mk.injEq] at hmarker
    obtain ⟨rfl, rfl⟩ | ⟨rfl, rfl⟩ | ⟨rfl, rfl⟩ := hmarker
    · exact h
    · exact absurd rfl (hx rest)
    · exact absurd rfl (hX rest)
  · intro h
    exact ⟨"", 10, cs, by decide, rfl, h⟩

theorem ofChars?_eq_some_iff {cs : List Char} {n : Nat} :
    ofChars? cs = some n ↔ IsNumber (dropSuffix cs) n ∧ n < 2 ^ 32 := by
  unfold ofChars?
  split
  · next ds hds => rw [hds, isNumber_marked_iff (.inl rfl), signed?_eq_some_iff]
  · next ds hds => rw [hds, isNumber_marked_iff (.inr rfl), signed?_eq_some_iff]
  · next hx hX => rw [isNumber_unmarked_iff hx hX, signed?_eq_some_iff]

/-- The text without its suffix is the one part of it that such a suffix follows. -/
theorem dropSuffix_eq_iff {cs body : List Char} :
    dropSuffix cs = body ↔ ∃ suffix, cs = body ++ suffix ∧ (∀ c ∈ suffix, c = 'u' ∨ c = 'U') ∧
      ∀ c ∈ body.getLast?, c ≠ 'u' ∧ c ≠ 'U' := by
  constructor
  · rintro rfl
    refine ⟨cs.rtakeWhile fun c => c == 'u' || c == 'U', ?_, ?_, ?_⟩
    · exact List.rdropWhile_append_rtakeWhile.symm
    · intro c hc
      simpa using List.mem_rtakeWhile_imp hc
    · intro c hc
      obtain ⟨hne, rfl⟩ := List.mem_getLast?_eq_getLast hc
      have hlast : ¬((dropSuffix cs).getLast hne == 'u' || (dropSuffix cs).getLast hne == 'U') :=
        List.rdropWhile_last_not _ cs hne
      simpa using hlast
  · rintro ⟨suffix, rfl, hsuffix, hbody⟩
    rw [dropSuffix, List.reverse_append, List.dropWhile_append_of_pos (by simpa using hsuffix)]
    cases hreverse : body.reverse with
    | nil => simpa using hreverse.symm
    | cons c ds =>
      obtain rfl : body = ds.reverse ++ [c] := by simpa using congrArg List.reverse hreverse
      obtain ⟨hu, hU⟩ := hbody c (by simp)
      rw [List.dropWhile_cons_of_neg (by simp [hu, hU])]
      simp

/-- A text is read as a number exactly if it is a literal of this number, and as none if it is a literal
of no number. -/
theorem ofText?_eq_some_iff (s : String) :
    (∀ n, ofText? s = some n ↔ IsLiteral s n) ∧ (ofText? s = none ↔ ∀ n, ¬IsLiteral s n) := by
  have hsome : ∀ n, ofText? s = some n ↔ IsLiteral s n := by
    intro n
    rw [ofText?, ofChars?_eq_some_iff]
    constructor
    · rintro ⟨hnumber, hlimit⟩
      obtain ⟨suffix, htext, hsuffix, hlast⟩ := dropSuffix_eq_iff.1 (rfl : dropSuffix s.toList = _)
      exact ⟨_, suffix, htext, hsuffix, hlast, hnumber, hlimit⟩
    · rintro ⟨body, suffix, htext, hsuffix, hlast, hnumber, hlimit⟩
      rw [dropSuffix_eq_iff.2 ⟨suffix, htext, hsuffix, hlast⟩]
      exact ⟨hnumber, hlimit⟩
  refine ⟨hsome, ?_⟩
  simp only [← hsome, Option.eq_none_iff_forall_ne_some, ne_eq]

/-- Zeros before the digits and letters of either case make no difference, and the least number that is
too great has no value. -/
example : ofText? "0x+00fFuU" = some 255 ∧ ofText? "04294967295" = some 4294967295 ∧
    ofText? "4294967296" = none ∧ ofText? "+0x1" = none := by decide +kernel

end ShaderInterface.Integer
