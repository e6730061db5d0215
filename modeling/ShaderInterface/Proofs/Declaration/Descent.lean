import ShaderInterface.Proofs.Declaration.Viable

/-!
# Recursive descent

A second way to read declarations, with one function for each rule of the grammar. It looks at the
token at its position and goes on behind it. Loops and the recursion of namespace blocks are given a
number of rounds, and a part that needs more rounds than it has is `none`.

Here are the parts, and the relation `Mirrors` between a part and a reader that do the same. Both
look at one token after the other, so the relation is put together along the definitions: one part
behind another is `Mirrors.bind`, one token is `mirrors_token`.
-/
namespace ShaderInterface

/-- A part of a descent. At a position in the tokens it finds something or fails, and leaves a
position; it gives `none` if its rounds are used up before. -/
abbrev Descent (α : Type) := ExceptT ParseError (StateT Nat Option) α

namespace Descent

/-- What a part does at position `p`. -/
def runAt {α : Type} (x : Descent α) (p : Nat) : Option (Except ParseError α × Nat) := x.run.run p

/-- No round is left. -/
def unfinished {α : Type} : Descent α := liftM (none : Option α)

section
variable (tokens : List Token)

/-! ## The token at the position -/

/-- The token at the position. Behind all tokens it is the last one. -/
def peek : Descent Token := do
  let p ← get
  return (tokens[min p (tokens.length - 1)]?).getD (TokenStream.endBehind tokens)

/-- Goes behind the token, unless it is an end-of-file token. -/
def advance : Descent Unit := do
  if (← peek tokens).kind ≠ .eof then modify (· + 1)

/-- Fails because of the token. -/
def fail {α : Type} (expected : Expected) : Descent α := do
  let t ← peek tokens
  throw ⟨expected, t.message, t.location⟩

/-- Goes behind the token if it is accepted. -/
def expect {α : Type} (accepts : Token → Option α) (expected : Expected) : Descent α := do
  match accepts (← peek tokens) with
  | some a => advance tokens; return a
  | none => fail tokens expected

def expectToken (test : Token → Bool) (expected : Expected) : Descent Token :=
  expect tokens (Option.guard test) expected

/-- Goes behind the token if it passes the test. -/
def skip (test : Token → Bool) : Descent Unit := do
  if test (← peek tokens) then advance tokens

/-! ## The rules of the grammar -/

/-- The names behind a name, each with a `::` before it. -/
def segments : Nat → List String → Descent (List String)
  | 0, _ => unfinished
  | n + 1, found => do
    if (← peek tokens).isPunctuator "::" then
      advance tokens
      let name ← expectToken tokens Token.isIdentifier .pathName
      segments n (found ++ [name.text])
    else
      return found

def typeName (n : Nat) : Descent TypeName := do
  let first ← peek tokens
  skip tokens (·.isPunctuator "::")
  let name ← expectToken tokens Token.isIdentifier .typeName
  let path ← segments tokens n [name.text]
  return ⟨path, first.location⟩

def markers : Nat → List Marker → Descent (List Marker)
  | 0, _ => unfinished
  | n + 1, found => do
    match MarkerWord.ofToken? (← peek tokens) with
    | none => return found
    | some word =>
      advance tokens
      let _ ← expectToken tokens (·.isGrouper '(') (.markerOpen word)
      let marker ← expect tokens (Marker.ofToken? word) (.markerValue word)
      let _ ← expectToken tokens (·.isGrouper ')') (.markerClose word)
      markers n (found ++ [marker])

def field (n : Nat) : Descent FieldDecl := do
  let type ← typeName tokens n
  let name ← expectToken tokens Token.isIdentifier .fieldName
  let found ← markers tokens n []
  let _ ← expectToken tokens (·.isPunctuator ";") .fieldEnd
  return ⟨name.text, type, found, name.location⟩

/-- A member of a struct; an access specifier declares no field. -/
def member (n : Nat) : Descent (Option FieldDecl) := do
  if (← peek tokens).isAccess then
    advance tokens
    let _ ← expectToken tokens (·.isPunctuator ":") .accessColon
    return none
  else
    return some (← field tokens n)

/-- The fields up to the brace that ends a struct. -/
def members : Nat → List FieldDecl → Descent (List FieldDecl)
  | 0, _ => unfinished
  | n + 1, found => do
    let t ← peek tokens
    if t.isGrouper '}' then
      advance tokens
      return found
    else if t.kind = .eof then
      fail tokens .structEnd
    else
      let field? ← member tokens n
      members n (found ++ field?.toList)

/-- The value of an alignment. A value out of range is an error at its token, behind which the
position already is. -/
def alignValue : Descent Nat := do
  let t ← peek tokens
  let n ← expect tokens Token.integer? .alignValue
  if isStructAlignment n then return n else throw ⟨.alignRange, t.message, t.location⟩

def alignment : Descent (Option Nat) := do
  if (← peek tokens).isKeyword "alignas" then
    advance tokens
    let _ ← expectToken tokens (·.isGrouper '(') .alignOpen
    let n ← alignValue tokens
    let _ ← expectToken tokens (·.isGrouper ')') .alignClose
    return some n
  else
    return none

/-- A struct behind its markers; a forward declaration declares nothing. -/
def structBody (n : Nat) (path : List String) (head : StructHead) (found : List Marker) :
    Descent (List Declaration) := do
  match foreignMarker? found with
  | some marker => throw ⟨.onlyRegister, marker.word.text, head.name.location⟩
  | none =>
    let t ← peek tokens
    if t.isPunctuator ";" && head.alignment.isNone && (lastRegister? found).isNone then
      advance tokens
      return []
    else
      let _ ← expectToken tokens (·.isGrouper '{') .structBody
      let fields ← members tokens n []
      skip tokens (·.isPunctuator ";")
      return [.aggregate (Grammar.declarationOf path ⟨head, lastRegister? found, fields⟩)]

/-- A struct behind its keyword. -/
def aggregate (n : Nat) (path : List String) : Descent (List Declaration) := do
  let alignment? ← alignment tokens
  let name ← expectToken tokens Token.isIdentifier .structName
  let found ← markers tokens n []
  structBody tokens n path ⟨alignment?, name.name⟩ found

/-- An alias behind its keyword. -/
def typeAlias (n : Nat) (path : List String) : Descent (List Declaration) := do
  let name ← expectToken tokens Token.isIdentifier .aliasName
  let _ ← expectToken tokens (·.isPunctuator "=") .aliasEquals
  let target ← typeName tokens n
  let _ ← expectToken tokens (·.isPunctuator ";") .aliasEnd
  return [.typeAlias ⟨name.text, path, target, name.location⟩]

/-- A namespace block behind its keyword; `items` reads what is inside its braces. -/
def namespaceBlock (n : Nat) (path : List String)
    (items : List String → Descent (List Declaration)) : Descent (List Declaration) := do
  let name ← expectToken tokens Token.isIdentifier .namespaceName
  let inner ← segments tokens n [name.text]
  let _ ← expectToken tokens (·.isGrouper '{') .namespaceBody
  items (path ++ inner)

mutual

/-- An item in the namespace `path`. -/
def item : Nat → List String → Descent (List Declaration)
  | 0, _ => unfinished
  | n + 1, path => do
    let t ← peek tokens
    if t.isKeyword "namespace" then
      advance tokens
      namespaceBlock tokens n path fun path => block n path []
    else if t.isKeyword "using" then
      advance tokens
      typeAlias tokens n path
    else if t.isStruct then
      advance tokens
      aggregate tokens n path
    else if t.isPunctuator ";" then
      advance tokens
      return []
    else
      fail tokens .item

/-- The items up to the brace that ends the block of the namespace `path`. -/
def block : Nat → List String → List Declaration → Descent (List Declaration)
  | 0, _, _ => unfinished
  | n + 1, path, found => do
    let t ← peek tokens
    if t.isGrouper '}' then
      advance tokens
      return found
    else if t.kind = .eof then
      fail tokens .namespaceEnd
    else
      let more ← item n path
      block n path (found ++ more)

end

/-- The items of a file. -/
def program : Nat → List Declaration → Descent (List Declaration)
  | 0, _ => unfinished
  | n + 1, found => do
    if (← peek tokens).kind = .eof then
      return found
    else
      let more ← item tokens n []
      program n (found ++ more)

end

end Descent

/-! ## Parts and readers -/

namespace TokenStream

/-- The stream goes through the tokens up to their first end-of-file token. -/
structure Opens (s : TokenStream) (tokens : List Token) : Prop where
  split : ∃ behind, tokens = s.ahead ++ s.stop :: behind
  ahead : ∀ t ∈ s.ahead, t.kind ≠ .eof
  stop : s.stop.kind = .eof

/-- The token at a position of the stream. -/
def tokenAt (s : TokenStream) (p : Nat) : Token := s.ahead.getD p s.stop

section
variable {s : TokenStream} {tokens : List Token} {p : Nat}

theorem drop_of_lt (hlt : p < s.ahead.length) :
    s.ahead.drop p = s.tokenAt p :: s.ahead.drop (p + 1) := by
  rw [List.drop_eq_getElem_cons hlt]
  simp [tokenAt, hlt]

theorem tokenAt_length (s : TokenStream) : s.tokenAt s.ahead.length = s.stop := by simp [tokenAt]

theorem Opens.getElem? (h : s.Opens tokens) (hp : p ≤ s.ahead.length) :
    tokens[min p (tokens.length - 1)]? = some (s.tokenAt p) := by
  obtain ⟨behind, rfl⟩ := h.split
  have hmin : min p ((s.ahead ++ s.stop :: behind).length - 1) = p := by
    simp
    omega
  rw [hmin]
  obtain hlt | rfl := hp.lt_or_eq
  · simp [tokenAt, List.getElem?_append_left hlt, hlt]
  · simp [tokenAt_length]

theorem Opens.kind_tokenAt (h : s.Opens tokens) (hp : p ≤ s.ahead.length) :
    (s.tokenAt p).kind = .eof ↔ p = s.ahead.length := by
  obtain hlt | rfl := hp.lt_or_eq
  · have hkind : (s.tokenAt p).kind ≠ .eof := by
      simpa [tokenAt, hlt] using h.ahead s.ahead[p] (List.getElem_mem hlt)
    exact ⟨fun heof => absurd heof hkind, fun heq => absurd heq hlt.ne⟩
  · rw [tokenAt_length, h.stop]
    simp

theorem Opens.lt_of_kind (h : s.Opens tokens) (hp : p ≤ s.ahead.length)
    (hkind : (s.tokenAt p).kind ≠ .eof) : p < s.ahead.length :=
  lt_of_le_of_ne hp fun heq => hkind ((h.kind_tokenAt hp).2 heq)

end

end TokenStream

namespace Reader

/-- The reader fails in front of a token, which stays unread. -/
def Fails (r : Reader) (t : Token) (e : ParseError) : Prop :=
  if t.kind = .eof then r.atEnd? t = some e else r.step t = .error ⟨e, false⟩

/-- A token that cannot stand, and the end where it cannot stand either. -/
theorem fails_of_unexpected {r : Reader} {t : Token} {expected : Expected}
    (hend : r.atEnd? t = some ⟨expected, t.message, t.location⟩)
    (hstep : r.step t = unexpected expected t) : r.Fails t ⟨expected, t.message, t.location⟩ := by
  unfold Fails
  split
  · exact hend
  · exact hstep

/-- The end of the file is never taken. -/
theorem kind_of_step {r r' : Reader} {t : Token} (h : r.step t = .ok r') : t.kind ≠ .eof := by
  intro heof
  by_cases hforeign : ∀ head found, r.phase = .markers (.aggregate head) found →
      foreignMarker? found = none
  · rw [step_of_eof heof hforeign] at h
    cases h
  · push Not at hforeign
    obtain ⟨head, found, hphase, hfound⟩ := hforeign
    obtain ⟨m, hm⟩ := Option.ne_none_iff_exists'.1 hfound
    have hword : MarkerWord.ofToken? t = none := by
      simp [MarkerWord.ofToken?, Token.isIdentifier, heof]
    simp [step, hphase, hword, stepHead, hm] at h

section
variable {s : TokenStream} {tokens : List Token} {p : Nat} {r r' : Reader}

theorem run_of_step (h : s.Opens tokens) (hp : p ≤ s.ahead.length)
    (hstep : r.step (s.tokenAt p) = .ok r') : p < s.ahead.length ∧
      r.run s.stop (s.ahead.drop p) = r'.run s.stop (s.ahead.drop (p + 1)) := by
  have hlt := h.lt_of_kind hp (kind_of_step hstep)
  refine ⟨hlt, ?_⟩
  rw [TokenStream.drop_of_lt hlt]
  simp [run, hstep]

theorem run_of_fails (h : s.Opens tokens) (hp : p ≤ s.ahead.length) {e : ParseError}
    (hfails : r.Fails (s.tokenAt p) e) :
    r.run s.stop (s.ahead.drop p) = ⟨.error e, s.ahead.drop p⟩ := by
  unfold Fails at hfails
  split_ifs at hfails with heof
  · obtain rfl := (h.kind_tokenAt hp).1 heof
    rw [TokenStream.tokenAt_length] at hfails
    simp [run, hfails]
  · rw [TokenStream.drop_of_lt (h.lt_of_kind hp heof)]
    simp [run, hfails]

end

end Reader

theorem Marker.word_of_ofToken? {word : MarkerWord} {t : Token} {marker : Marker}
    (h : Marker.ofToken? word t = some marker) : marker.word = word := by
  unfold ofToken? at h
  cases word with
  | semantic =>
    split_ifs at h
    cases h
    rfl
  | register | instanceData =>
    obtain ⟨n, -, rfl⟩ := Option.map_eq_some_iff.1 h
    rfl

namespace Descent

/-- At position `p`, the part `x` does what the reader `r` does: it ends, at no earlier position and
not behind the stream. If it finds `a`, the reader goes on as `after a` and `post` holds, and if it
fails, so does the reader. -/
inductive Mirrors (s : TokenStream) (p : Nat) (r : Reader) {α : Type} (x : Descent α)
    (after : α → Reader) (post : α → Nat → Prop) : Prop where
  | ok {a : α} {q : Nat} : x.runAt p = some (.ok a, q) → p ≤ q → q ≤ s.ahead.length →
      r.run s.stop (s.ahead.drop p) = (after a).run s.stop (s.ahead.drop q) → post a q →
      Mirrors s p r x after post
  | error {e : ParseError} {q : Nat} : x.runAt p = some (.error e, q) → p ≤ q →
      q ≤ s.ahead.length → r.run s.stop (s.ahead.drop p) = ⟨.error e, s.ahead.drop q⟩ →
      Mirrors s p r x after post

section
variable {s : TokenStream} {tokens : List Token} {p : Nat} {r r' : Reader} {α β : Type}
  {x : Descent α} {f : α → Descent β} {after : α → Reader} {post : α → Nat → Prop}

theorem runAt_bind_ok {a : α} {q : Nat} (h : x.runAt p = some (.ok a, q)) :
    (x >>= f).runAt p = (f a).runAt q := by
  unfold runAt at *
  simp [ExceptT.run_bind, StateT.run_bind, h]

theorem runAt_bind_error {e : ParseError} {q : Nat} (h : x.runAt p = some (.error e, q)) :
    (x >>= f).runAt p = some (.error e, q) := by
  unfold runAt at *
  simp [ExceptT.run_bind, StateT.run_bind, h]

namespace Mirrors

theorem pure {a : α} (hp : p ≤ s.ahead.length) (hr : r = after a) (hpost : post a p) :
    Mirrors s p r (Pure.pure a) after post :=
  .ok rfl le_rfl hp (by rw [hr]) hpost

theorem bind {after : β → Reader} {post : β → Nat → Prop} {mid : α → Reader}
    {between : α → Nat → Prop} (hx : Mirrors s p r x mid between)
    (hf : ∀ a q, p ≤ q → q ≤ s.ahead.length → between a q →
      Mirrors s q (mid a) (f a) after post) : Mirrors s p r (x >>= f) after post := by
  cases hx with
  | error hrun hle hlen herror => exact .error (runAt_bind_error hrun) hle hlen herror
  | @ok a q hrun hle hlen hread hbetween =>
    cases hf a q hle hlen hbetween with
    | ok hrun' hle' hlen' hread' hpost =>
      exact .ok ((runAt_bind_ok hrun).trans hrun') (hle.trans hle') hlen' (hread.trans hread') hpost
    | error hrun' hle' hlen' herror =>
      exact .error ((runAt_bind_ok hrun).trans hrun') (hle.trans hle') hlen' (hread.trans herror)

theorem mono {post' : α → Nat → Prop} (hx : Mirrors s p r x after post)
    (hpost : ∀ a q, p ≤ q → post a q → post' a q) : Mirrors s p r x after post' := by
  cases hx with
  | error hrun hle hlen herror => exact .error hrun hle hlen herror
  | @ok a q hrun hle hlen hread h => exact .ok hrun hle hlen hread (hpost a q hle h)

end Mirrors

/-! ### One token -/

variable (h : s.Opens tokens) (hp : p ≤ s.ahead.length)
include h hp

theorem runAt_peek : (peek tokens).runAt p = some (.ok (s.tokenAt p), p) := by
  have hpeek : (peek tokens).runAt p = some
      (.ok ((tokens[min p (tokens.length - 1)]?).getD (TokenStream.endBehind tokens)), p) := rfl
  rw [hpeek, h.getElem? hp, Option.getD_some]

theorem runAt_advance (hkind : (s.tokenAt p).kind ≠ .eof) :
    (advance tokens).runAt p = some (.ok (), p + 1) := by
  unfold advance
  rw [runAt_bind_ok (runAt_peek h hp), if_pos hkind]
  rfl

theorem runAt_expect {accepts : Token → Option α} {expected : Expected} {a : α}
    (ha : accepts (s.tokenAt p) = some a) (hkind : (s.tokenAt p).kind ≠ .eof) :
    (expect tokens accepts expected).runAt p = some (.ok a, p + 1) := by
  unfold expect
  rw [runAt_bind_ok (runAt_peek h hp), ha]
  exact runAt_bind_ok (runAt_advance h hp hkind)

theorem Mirrors.peek {f : Token → Descent α} (hf : Mirrors s p r (f (s.tokenAt p)) after post) :
    Mirrors s p r (Descent.peek tokens >>= f) after post := by
  have hbind := runAt_bind_ok (f := f) (runAt_peek h hp)
  cases hf with
  | ok hrun hle hlen hread hpost => exact .ok (hbind.trans hrun) hle hlen hread hpost
  | error hrun hle hlen herror => exact .error (hbind.trans hrun) hle hlen herror

theorem mirrors_advance (hstep : r.step (s.tokenAt p) = .ok r') :
    Mirrors s p r (advance tokens) (fun _ => r') (fun _ q => q = p + 1) := by
  obtain ⟨hlt, hrun⟩ := Reader.run_of_step h hp hstep
  exact .ok (runAt_advance h hp (Reader.kind_of_step hstep)) p.le_succ hlt hrun rfl

theorem mirrors_throw {e : ParseError} (hfails : r.Fails (s.tokenAt p) e) :
    Mirrors s p r (throw e) after post :=
  .error rfl le_rfl hp (Reader.run_of_fails h hp hfails)

theorem mirrors_fail {expected : Expected}
    (hfails : r.Fails (s.tokenAt p) ⟨expected, (s.tokenAt p).message, (s.tokenAt p).location⟩) :
    Mirrors s p r (fail tokens expected) after post :=
  .peek h hp (mirrors_throw h hp hfails)

theorem mirrors_expect {accepts : Token → Option α} {expected : Expected}
    (hok : ∀ a, accepts (s.tokenAt p) = some a → r.step (s.tokenAt p) = .ok (after a))
    (hno : accepts (s.tokenAt p) = none →
      r.Fails (s.tokenAt p) ⟨expected, (s.tokenAt p).message, (s.tokenAt p).location⟩) :
    Mirrors s p r (expect tokens accepts expected) after
      (fun a q => q = p + 1 ∧ accepts (s.tokenAt p) = some a) := by
  cases ha : accepts (s.tokenAt p) with
  | none =>
    unfold expect
    refine .peek h hp ?_
    rw [ha]
    exact mirrors_fail h hp (hno ha)
  | some a =>
    obtain ⟨hlt, hrun⟩ := Reader.run_of_step h hp (hok a ha)
    have hkind := Reader.kind_of_step (hok a ha)
    exact .ok (runAt_expect h hp ha hkind) p.le_succ hlt hrun ⟨rfl, rfl⟩

theorem mirrors_expectToken {test : Token → Bool} {expected : Expected} {after : Token → Reader}
    (hok : test (s.tokenAt p) = true → r.step (s.tokenAt p) = .ok (after (s.tokenAt p)))
    (hno : test (s.tokenAt p) = false →
      r.Fails (s.tokenAt p) ⟨expected, (s.tokenAt p).message, (s.tokenAt p).location⟩) :
    Mirrors s p r (expectToken tokens test expected) after (fun _ q => q = p + 1) := by
  refine (mirrors_expect h hp (fun t ht => ?_) fun hnone => hno ?_).mono fun _ _ _ hpost => hpost.1
  · obtain ⟨rfl, htest⟩ := Option.guard_eq_some_iff.1 ht
    exact hok htest
  · simpa using hnone

/-- A token that the reader tests in the same way. -/
theorem mirrors_token {test : Token → Bool} {expected : Expected} (after : Token → Reader)
    (hstep : r.step (s.tokenAt p) =
      if test (s.tokenAt p) then .ok (after (s.tokenAt p))
      else Reader.unexpected expected (s.tokenAt p))
    (hend : r.atEnd? (s.tokenAt p) =
      some ⟨expected, (s.tokenAt p).message, (s.tokenAt p).location⟩) :
    Mirrors s p r (expectToken tokens test expected) after (fun _ q => q = p + 1) := by
  refine mirrors_expectToken h hp (fun htest => ?_) fun htest => ?_
  · rw [hstep, if_pos htest]
  · refine Reader.fails_of_unexpected hend ?_
    rw [hstep, if_neg (by simp [htest])]

theorem mirrors_skip_of_pos {test : Token → Bool} (htest : test (s.tokenAt p) = true)
    (hstep : r.step (s.tokenAt p) = .ok r') :
    Mirrors s p r (skip tokens test) (fun _ => r') (fun _ q => q = p + 1) := by
  unfold skip
  refine .peek h hp ?_
  rw [if_pos htest]
  exact mirrors_advance h hp hstep

theorem mirrors_skip_of_neg {test : Token → Bool} (htest : test (s.tokenAt p) = false) :
    Mirrors s p r (skip tokens test) (fun _ => r) (fun _ q => q = p) := by
  unfold skip
  refine .peek h hp ?_
  rw [if_neg (by simp [htest])]
  exact .pure hp rfl rfl

end

end Descent

end ShaderInterface
