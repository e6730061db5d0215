import ShaderInterface.Proofs.Declaration.Descent

/-!
# Recursive descent reads what a reader reads

Each part of a descent does what a reader does in the phase where the part starts. What is repeated
goes forward, and no part goes behind the first end-of-file token. So a part ends if it has more
rounds than there are tokens before that one: each round that it uses up is paid for by a token. The
inductions are on the rounds. The results are `mirrors_items`, for one item at any position, and
`mirrors_program` for a file.
-/
namespace ShaderInterface.Descent

/-! ## Loops -/

section
variable {s : TokenStream} {tokens : List Token} (h : s.Opens tokens)
include h

/-- Parts that are repeated up to a closing brace. -/
theorem mirrors_braced {β γ : Type} (x : Nat → List β → Descent (List β)) (part : Nat → Descent γ)
    {list : γ → List β} {missing : Expected} (inside after : List β → Reader)
    (hloop : ∀ n found, x (n + 1) found = do
      let t ← peek tokens
      if t.isGrouper '}' then
        advance tokens
        return found
      else if t.kind = .eof then fail tokens missing
      else
        let more ← part n
        x n (found ++ list more))
    (hclose : ∀ found {t : Token}, t.isGrouper '}' → (inside found).step t = .ok (after found))
    (hmissing : ∀ found t, (inside found).atEnd? t = some ⟨missing, t.message, t.location⟩)
    {n : Nat} (hpart : ∀ m < n, ∀ p ≤ s.ahead.length, s.ahead.length < p + m →
      (s.tokenAt p).isGrouper '}' = false → (s.tokenAt p).kind ≠ .eof → ∀ found,
        Mirrors s p (inside found) (part m) (fun more => inside (found ++ list more))
          (fun _ q => p < q))
    {p : Nat} (hp : p ≤ s.ahead.length) (hn : s.ahead.length + 1 < p + n) (found : List β) :
    Mirrors s p (inside found) (x n found) after (fun _ q => p < q) := by
  induction n generalizing p found with
  | zero => omega
  | succ n ih =>
    rw [hloop]
    refine .peek h hp ?_
    split_ifs with hbrace heof
    · refine (mirrors_advance h hp (hclose found hbrace)).bind fun _ q _ hq hnext => ?_
      exact .pure hq rfl (by omega)
    · refine mirrors_fail h hp ?_
      rw [Reader.Fails, if_pos heof]
      exact hmissing found _
    · have hfirst := hpart n n.lt_succ_self p hp (by omega) (by simpa using hbrace) heof found
      refine hfirst.bind fun more q _ hq hlt => ?_
      have hrest := ih (fun m hm => hpart m (by omega)) hq (by omega) (found ++ list more)
      exact hrest.mono fun _ q' _ hlt' => by omega

variable {n p : Nat} (hp : p ≤ s.ahead.length) (hn : s.ahead.length < p + n)
include hp hn

variable {scopes : List (List String)} {ds : List Declaration}

/-- A path read in two phases that take turns, `name` behind a name and `colons` behind a `::`. -/
theorem mirrors_segments (name colons : List String → Phase)
    (hcolons : ∀ found {t : Token}, t.isPunctuator "::" →
      Reader.step ⟨scopes, ds, name found⟩ t = .ok ⟨scopes, ds, colons found⟩)
    (hname : ∀ found t, Reader.step ⟨scopes, ds, colons found⟩ t =
      if t.isIdentifier then .ok ⟨scopes, ds, name (found ++ [t.text])⟩
      else Reader.unexpected .pathName t)
    (hend : ∀ found t, Reader.atEnd? ⟨scopes, ds, colons found⟩ t =
      some ⟨.pathName, t.message, t.location⟩) (found : List String) :
    Mirrors s p ⟨scopes, ds, name found⟩ (segments tokens n found)
      (fun found => ⟨scopes, ds, name found⟩)
      (fun _ q => (s.tokenAt q).isPunctuator "::" = false) := by
  induction n generalizing p found with
  | zero => omega
  | succ n ih =>
    rw [segments]
    refine .peek h hp ?_
    split_ifs with hc
    · refine (mirrors_advance h hp (hcolons found hc)).bind fun _ q _ hq hnext => ?_
      refine (mirrors_token h hq (fun t => ⟨scopes, ds, name (found ++ [t.text])⟩) (hname found _)
        (hend found _)).bind fun t q' _ hq' hnext' => ?_
      exact ih hq' (by omega) (found ++ [t.text])
    · exact .pure hp rfl (by simpa using hc)

theorem mirrors_markers {site : MarkerSite} (found : List Marker) :
    Mirrors s p ⟨scopes, ds, .markers site found⟩ (markers tokens n found)
      (fun found => ⟨scopes, ds, .markers site found⟩)
      (fun _ q => MarkerWord.ofToken? (s.tokenAt q) = none) := by
  induction n generalizing p found with
  | zero => omega
  | succ n ih =>
    rw [markers]
    refine .peek h hp ?_
    cases hword : MarkerWord.ofToken? (s.tokenAt p) with
    | none => exact .pure hp rfl hword
    | some word =>
      have hstart : Reader.step ⟨scopes, ds, .markers site found⟩ (s.tokenAt p) =
          .ok ⟨scopes, ds, .markerWord site found word⟩ := by
        simp [Reader.step, Reader.goto, hword]
      refine (mirrors_advance h hp hstart).bind fun _ q hpq hq hnext => ?_
      refine (mirrors_token h hq (fun _ => ⟨scopes, ds, .markerOpen site found word⟩) rfl rfl).bind
        fun _ q' hqq' hq' _ => ?_
      have hvalue : Mirrors s q' ⟨scopes, ds, .markerOpen site found word⟩
          (expect tokens (Marker.ofToken? word) (.markerValue word))
          (fun marker => ⟨scopes, ds, .markerValue site found marker⟩)
          (fun marker q'' => q'' = q' + 1 ∧ Marker.ofToken? word (s.tokenAt q') = some marker) := by
        refine mirrors_expect h hq' (fun marker hmarker => ?_) fun hnone => ?_
        · simp [Reader.step, Reader.goto, hmarker]
        · exact Reader.fails_of_unexpected rfl (by simp [Reader.step, Phase.expected, hnone])
      refine hvalue.bind fun marker q'' hqq'' hq'' hmarker => ?_
      rw [← Marker.word_of_ofToken? hmarker.2]
      refine (mirrors_token h hq'' (fun _ => ⟨scopes, ds, .markers site (found ++ [marker])⟩) rfl
        rfl).bind fun _ q₃ _ hq₃ _ => ?_
      exact ih hq₃ (by omega) (found ++ [marker])

/-! ## Members -/

/-- A type, from any reader that takes its first token and fails where no type starts. -/
theorem mirrors_typeName {r : Reader} {site : TypeSite}
    (hroot : (s.tokenAt p).isPunctuator "::" = true →
      r.step (s.tokenAt p) = .ok ⟨scopes, ds, .typeRoot site (s.tokenAt p).location⟩)
    (hname : (s.tokenAt p).isIdentifier = true → r.step (s.tokenAt p) =
      .ok ⟨scopes, ds, .typeName site ⟨[(s.tokenAt p).text], (s.tokenAt p).location⟩⟩)
    (hno : (s.tokenAt p).isPunctuator "::" = false → (s.tokenAt p).isIdentifier = false →
      r.Fails (s.tokenAt p) ⟨.typeName, (s.tokenAt p).message, (s.tokenAt p).location⟩) :
    Mirrors s p r (typeName tokens n) (fun type => ⟨scopes, ds, .typeName site type⟩)
      (fun _ q => p < q ∧ (s.tokenAt q).isPunctuator "::" = false) := by
  have hpath (location : Location) {q : Nat} (hq : q ≤ s.ahead.length) (hpq : p ≤ q)
      (name : Token) : Mirrors s q ⟨scopes, ds, .typeName site ⟨[name.text], location⟩⟩
        (segments tokens n [name.text])
        (fun path => ⟨scopes, ds, .typeName site ⟨path, location⟩⟩)
        (fun _ q' => (s.tokenAt q').isPunctuator "::" = false) :=
    mirrors_segments h hq (by omega) (fun path => .typeName site ⟨path, location⟩)
      (fun path => .typeColons site ⟨path, location⟩)
      (fun _ _ hc => by simp [Reader.step, Reader.goto, hc]) (fun _ _ => rfl) (fun _ _ => rfl) _
  unfold typeName
  refine .peek h hp ?_
  cases hc : (s.tokenAt p).isPunctuator "::" with
  | true =>
    refine (mirrors_skip_of_pos h hp hc (hroot hc)).bind fun _ q _ hq hnext => ?_
    refine (mirrors_token h hq (fun t =>
      ⟨scopes, ds, .typeName site ⟨[t.text], (s.tokenAt p).location⟩⟩) rfl rfl).bind
      fun name q' _ hq' hnext' => ?_
    refine (hpath _ hq' (by omega) name).bind fun path q'' _ hq'' hcolons => ?_
    exact .pure hq'' rfl ⟨by omega, hcolons⟩
  | false =>
    refine (mirrors_skip_of_neg h hp hc).bind fun _ q _ hq hnext => ?_
    subst hnext
    have hfirst : Mirrors s q r (expectToken tokens Token.isIdentifier .typeName)
        (fun t => ⟨scopes, ds, .typeName site ⟨[t.text], (s.tokenAt q).location⟩⟩)
        (fun _ q' => q' = q + 1) := mirrors_expectToken h hq hname (hno hc)
    refine hfirst.bind fun name q' _ hq' hnext' => ?_
    refine (hpath _ hq' (by omega) name).bind fun path q'' _ hq'' hcolons => ?_
    exact .pure hq'' rfl ⟨by omega, hcolons⟩

/-- A type where only a type can stand. -/
theorem mirrors_typeStart (site : TypeSite) :
    Mirrors s p ⟨scopes, ds, .typeStart site⟩ (typeName tokens n)
      (fun type => ⟨scopes, ds, .typeName site type⟩)
      (fun _ q => p < q ∧ (s.tokenAt q).isPunctuator "::" = false) := by
  refine mirrors_typeName h hp hn (fun hc => ?_) (fun hn => ?_) fun hc hn => ?_
  · simp [Reader.step, Reader.goto, hc]
  · have hk := Token.isIdentifier_iff.1 hn
    simp [Reader.step, Reader.goto, Token.isPunctuator, hk, hn]
  · exact Reader.fails_of_unexpected rfl (by simp [Reader.step, Phase.expected, hc, hn])

omit hp in
/-- A field, from any reader that takes the first token of its type. -/
theorem mirrors_field {r : Reader} {body : StructBody}
    (htype : Mirrors s p r (typeName tokens n)
      (fun type => ⟨scopes, ds, .typeName (.field body) type⟩)
      (fun _ q => p < q ∧ (s.tokenAt q).isPunctuator "::" = false)) :
    Mirrors s p r (field tokens n)
      (fun f => ⟨scopes, ds, .members { body with fields := body.fields ++ [f] }⟩)
      (fun _ q => p < q) := by
  unfold field
  refine htype.bind fun type q hpq hq htype => ?_
  have hname : Mirrors s q ⟨scopes, ds, .typeName (.field body) type⟩
      (expectToken tokens Token.isIdentifier .fieldName)
      (fun t => ⟨scopes, ds, .markers (.field body type t.name) []⟩) (fun _ q' => q' = q + 1) :=
    mirrors_token h hq _ (by simp [Reader.step, Reader.goto, Phase.expected, htype.2]) rfl
  refine hname.bind fun name q' _ hq' hnext => ?_
  refine (mirrors_markers h hq' (by omega) []).bind fun found q'' _ hq'' hword => ?_
  have hend : Mirrors s q'' ⟨scopes, ds, .markers (.field body type name.name) found⟩
      (expectToken tokens (·.isPunctuator ";") .fieldEnd)
      (fun _ => Reader.finishField ⟨scopes, ds, .item⟩ body type name.name found)
      (fun _ q₃ => q₃ = q'' + 1) :=
    mirrors_token h hq'' _ (by
      simp [Reader.step, Reader.finishField, Reader.goto, Phase.expected, hword]) rfl
  refine hend.bind fun _ q₃ _ hq₃ hnext' => ?_
  exact .pure hq₃ rfl (by omega)

/-- A member, where the struct goes on. -/
theorem mirrors_member (body : StructBody) (hbrace : (s.tokenAt p).isGrouper '}' = false)
    (heof : (s.tokenAt p).kind ≠ .eof) :
    Mirrors s p ⟨scopes, ds, .members body⟩ (member tokens n)
      (fun m => ⟨scopes, ds, .members { body with fields := body.fields ++ m.toList }⟩)
      (fun _ q => p < q) := by
  unfold member
  refine .peek h hp ?_
  split_ifs with ha
  · have hstart : Reader.step ⟨scopes, ds, .members body⟩ (s.tokenAt p) =
        .ok ⟨scopes, ds, .access body⟩ := by
      simp [Reader.step, Reader.goto, hbrace, ha]
    refine (mirrors_advance h hp hstart).bind fun _ q _ hq hnext => ?_
    refine (mirrors_token h hq (fun _ => ⟨scopes, ds, .members body⟩) rfl rfl).bind
      fun _ q' _ hq' hnext' => ?_
    exact .pure hq' (by simp) (by omega)
  · have htype : Mirrors s p ⟨scopes, ds, .members body⟩ (typeName tokens n)
        (fun type => ⟨scopes, ds, .typeName (.field body) type⟩)
        (fun _ q => p < q ∧ (s.tokenAt q).isPunctuator "::" = false) := by
      refine mirrors_typeName h hp hn (fun hc => ?_) (fun hn => ?_) fun hc hn => ?_
      · simp [Reader.step, Reader.goto, hbrace, ha, hc]
      · have hk := Token.isIdentifier_iff.1 hn
        simp [Reader.step, Reader.goto, hbrace, ha, Token.isPunctuator, hk, hn]
      · rw [Reader.Fails, if_neg heof]
        simp [Reader.step, Reader.unexpected, Phase.expected, hbrace, ha, hc, hn]
    refine (mirrors_field h hn htype).bind fun f q _ hq hlt => ?_
    exact .pure hq (by simp) hlt

omit hn in
theorem mirrors_members (body : StructBody) (hn : s.ahead.length + 1 < p + n) :
    Mirrors s p ⟨scopes, ds, .members { body with fields := [] }⟩ (members tokens n [])
      (fun fields => Reader.finishStruct ⟨scopes, ds, .item⟩ { body with fields := fields })
      (fun _ q => p < q) := by
  refine mirrors_braced h (members tokens) (member tokens)
    (fun found => ⟨scopes, ds, .members { body with fields := found }⟩) _
    (fun _ _ => by rw [members]) (fun found t hc => ?_) (fun _ _ => rfl)
    (fun m _ q hq hm hbrace heof found => ?_) hp hn []
  · simp [Reader.step, hc, Reader.finishStruct, Reader.declare, Reader.path]
  · exact mirrors_member h hq hm { body with fields := found } hbrace heof

/-! ## Items -/

omit hn in
theorem mirrors_alignValue :
    Mirrors s p ⟨scopes, ds, .alignOpen⟩ (alignValue tokens) (fun n => ⟨scopes, ds, .alignValue n⟩)
      (fun _ _ => True) := by
  unfold alignValue
  refine .peek h hp ?_
  by_cases hbad : ∃ n, (s.tokenAt p).integer? = some n ∧ isStructAlignment n = false
  · obtain ⟨n, hn, hrange⟩ := hbad
    have hkind : (s.tokenAt p).kind ≠ .eof := by
      intro heof
      simp [Token.integer?, heof] at hn
    have hlt := h.lt_of_kind hp hkind
    have hthrow (e : ParseError) : runAt (if isStructAlignment n then pure n else throw e) (p + 1) =
        some (.error e, p + 1) := by
      rw [if_neg (by simp [hrange])]
      rfl
    -- The reader stops in front of the value, but counts it as read.
    refine .error ((runAt_bind_ok (runAt_expect h hp hn hkind)).trans (hthrow _)) p.le_succ hlt ?_
    rw [TokenStream.drop_of_lt hlt]
    simp [Reader.run, Reader.step, hn, hrange]
  · have hrange {n : Nat} (hn : (s.tokenAt p).integer? = some n) : isStructAlignment n = true := by
      by_contra hno
      exact hbad ⟨n, hn, by simpa using hno⟩
    have hvalue : Mirrors s p ⟨scopes, ds, .alignOpen⟩ (expect tokens Token.integer? .alignValue)
        (fun n => ⟨scopes, ds, .alignValue n⟩)
        (fun n q => q = p + 1 ∧ (s.tokenAt p).integer? = some n) := by
      refine mirrors_expect h hp (fun n hn => ?_) fun hnone => ?_
      · simp [Reader.step, Reader.goto, hn, hrange hn]
      · exact Reader.fails_of_unexpected rfl (by simp [Reader.step, Phase.expected, hnone])
    refine hvalue.bind fun n q _ hq hn => ?_
    rw [if_pos (hrange hn.2)]
    exact .pure hq rfl trivial

/-- The reader behind the alignment that a struct may ask for. -/
def behindAlignment (scopes : List (List String)) (ds : List Declaration) : Option Nat → Reader
  | none => ⟨scopes, ds, .structStart⟩
  | some n => ⟨scopes, ds, .alignClose n⟩

omit hn in
theorem mirrors_alignment :
    Mirrors s p ⟨scopes, ds, .structStart⟩ (alignment tokens) (behindAlignment scopes ds)
      (fun a q => a = none → (s.tokenAt q).isKeyword "alignas" = false) := by
  unfold alignment
  refine .peek h hp ?_
  split_ifs with ha
  · have hstart : Reader.step ⟨scopes, ds, .structStart⟩ (s.tokenAt p) =
        .ok ⟨scopes, ds, .alignStart⟩ := by
      simp [Reader.step, Reader.goto, ha]
    refine (mirrors_advance h hp hstart).bind fun _ q _ hq _ => ?_
    refine (mirrors_token h hq (fun _ => ⟨scopes, ds, .alignOpen⟩) rfl rfl).bind
      fun _ q' _ hq' _ => ?_
    refine (mirrors_alignValue h hq').bind fun n q'' _ hq'' _ => ?_
    refine (mirrors_token h hq'' (fun _ => ⟨scopes, ds, .alignClose n⟩) rfl rfl).bind
      fun _ q₃ _ hq₃ _ => ?_
    exact .pure hq₃ rfl (by simp)
  · exact .pure hp rfl fun _ => by simpa using ha

omit hn in
theorem mirrors_structName {alignment? : Option Nat}
    (halign : alignment? = none → (s.tokenAt p).isKeyword "alignas" = false) :
    Mirrors s p (behindAlignment scopes ds alignment?)
      (expectToken tokens Token.isIdentifier .structName)
      (fun t => ⟨scopes, ds, .markers (.aggregate ⟨alignment?, t.name⟩) []⟩)
      (fun _ q => q = p + 1) := by
  cases alignment? with
  | some n => exact mirrors_token h hp _ rfl rfl
  | none =>
    refine mirrors_token h hp _ ?_ rfl
    simp [behindAlignment, Reader.step, Reader.goto, Phase.expected, halign rfl]

omit hn in
theorem mirrors_structEnd :
    Mirrors s p ⟨scopes, ds, .item⟩ (skip tokens (·.isPunctuator ";"))
      (fun _ => ⟨scopes, ds, .item⟩) (fun _ _ => True) := by
  cases hsemicolon : (s.tokenAt p).isPunctuator ";" with
  | true =>
    have hstep : Reader.step ⟨scopes, ds, .item⟩ (s.tokenAt p) = .ok ⟨scopes, ds, .item⟩ :=
      Reader.step_semicolon hsemicolon
    exact (mirrors_skip_of_pos h hp hsemicolon hstep).mono fun _ _ _ _ => trivial
  | false => exact (mirrors_skip_of_neg h hp hsemicolon).mono fun _ _ _ _ => trivial

theorem mirrors_structBody {path : List String} (hpath : scopes.reverse.flatten = path)
    {head : StructHead} {found : List Marker} (hword : MarkerWord.ofToken? (s.tokenAt p) = none) :
    Mirrors s p ⟨scopes, ds, .markers (.aggregate head) found⟩
      (structBody tokens n path head found) (fun es => ⟨scopes, ds ++ es, .item⟩)
      (fun _ _ => True) := by
  unfold structBody
  cases hforeign : foreignMarker? found with
  | some marker =>
    refine mirrors_throw h hp ?_
    unfold Reader.Fails
    split_ifs
    · simp [Reader.atEnd?, hforeign]
    · simp [Reader.step, hword, Reader.stepHead, hforeign]
  | none =>
    refine .peek h hp ?_
    split_ifs with hforward
    · have hend : Reader.step ⟨scopes, ds, .markers (.aggregate head) found⟩ (s.tokenAt p) =
          .ok ⟨scopes, ds, .item⟩ := by
        simp only [Reader.step, hword, Reader.stepHead, hforeign]
        rw [if_pos hforward]
        rfl
      refine (mirrors_advance h hp hend).bind fun _ q _ hq _ => ?_
      exact .pure hq (by simp) trivial
    · have hopen : Mirrors s p ⟨scopes, ds, .markers (.aggregate head) found⟩
          (expectToken tokens (·.isGrouper '{') .structBody)
          (fun _ => ⟨scopes, ds, .members ⟨head, lastRegister? found, []⟩⟩)
          (fun _ q => q = p + 1) := by
        refine mirrors_token h hp _ ?_ (by simp [Reader.atEnd?, hforeign])
        simp only [Reader.step, hword, Reader.stepHead, hforeign]
        rw [if_neg hforward]
        rfl
      refine hopen.bind fun _ q _ hq hnext => ?_
      refine (mirrors_members h hq ⟨head, lastRegister? found, []⟩ (by omega)).bind
        fun fields q' _ hq' _ => ?_
      refine (mirrors_structEnd h hq').bind fun _ q'' _ hq'' _ => ?_
      refine .pure hq'' ?_ trivial
      simp [Grammar.declarationOf, Reader.path, hpath]

theorem mirrors_aggregate {path : List String} (hpath : scopes.reverse.flatten = path) :
    Mirrors s p ⟨scopes, ds, .structStart⟩ (aggregate tokens n path)
      (fun es => ⟨scopes, ds ++ es, .item⟩) (fun _ _ => True) := by
  unfold aggregate
  refine (mirrors_alignment h hp).bind fun alignment? q _ hq halign => ?_
  refine (mirrors_structName h hq halign).bind fun name q' _ hq' _ => ?_
  refine (mirrors_markers h hq' (by omega) []).bind fun found q'' _ hq'' hword => ?_
  exact mirrors_structBody h hq'' (by omega) hpath hword

theorem mirrors_typeAlias {path : List String} (hpath : scopes.reverse.flatten = path) :
    Mirrors s p ⟨scopes, ds, .aliasStart⟩ (typeAlias tokens n path)
      (fun es => ⟨scopes, ds ++ es, .item⟩) (fun _ _ => True) := by
  unfold typeAlias
  refine (mirrors_token h hp (fun t => ⟨scopes, ds, .aliasName t.name⟩) rfl rfl).bind
    fun name q _ hq _ => ?_
  refine (mirrors_token h hq (fun _ => ⟨scopes, ds, .typeStart (.target name.name)⟩) rfl rfl).bind
    fun _ q' _ hq' _ => ?_
  have htarget : Mirrors s q' ⟨scopes, ds, .typeStart (.target name.name)⟩ (typeName tokens n)
      (fun type => ⟨scopes, ds, .typeName (.target name.name) type⟩)
      (fun _ q'' => q' < q'' ∧ (s.tokenAt q'').isPunctuator "::" = false) :=
    mirrors_typeStart h hq' (by omega) _
  refine htarget.bind fun target q'' _ hq'' htarget => ?_
  have hend : Mirrors s q'' ⟨scopes, ds, .typeName (.target name.name) target⟩
      (expectToken tokens (·.isPunctuator ";") .aliasEnd)
      (fun _ => Reader.finishAlias ⟨scopes, ds, .item⟩ name.name target)
      (fun _ q₃ => q₃ = q'' + 1) := by
    refine mirrors_token h hq'' _ ?_ rfl
    simp [Reader.step, Reader.finishAlias, Reader.declare, Reader.path, Phase.expected, htarget.2]
  refine hend.bind fun _ q₃ _ hq₃ _ => ?_
  refine .pure hq₃ ?_ trivial
  simp [Reader.finishAlias, Reader.declare, Reader.path, Token.name, hpath]

end

/-- At position `p` and with `n` rounds, an item is read as by a reader, wherever a reader would
start one. -/
def MirrorsItem (s : TokenStream) (tokens : List Token) (n p : Nat) : Prop :=
  ∀ scopes ds, (scopes = [] ∨ (s.tokenAt p).isGrouper '}' = false) →
    (s.tokenAt p).kind ≠ .eof →
    Mirrors s p ⟨scopes, ds, .item⟩ (item tokens n scopes.reverse.flatten)
      (fun es => ⟨scopes, ds ++ es, .item⟩) (fun _ q => p < q)

section
variable {s : TokenStream} {tokens : List Token} {n p : Nat} (h : s.Opens tokens)
  (hp : p ≤ s.ahead.length) {scopes : List (List String)} {ds : List Declaration}
include h hp

theorem mirrors_block (hn : s.ahead.length + 1 < p + n)
    (hitem : ∀ m < n, ∀ q ≤ s.ahead.length, s.ahead.length < q + m → MirrorsItem s tokens m q)
    (inner : List String) :
    Mirrors s p ⟨inner :: scopes, ds, .item⟩ (block tokens n (scopes.reverse.flatten ++ inner) [])
      (fun es => ⟨scopes, ds ++ es, .item⟩) (fun _ q => p < q) := by
  have hpath : scopes.reverse.flatten ++ inner = (inner :: scopes).reverse.flatten := by simp
  have hblock : Mirrors s p ⟨inner :: scopes, ds ++ [], .item⟩
      (block tokens n (scopes.reverse.flatten ++ inner) [])
      (fun es => ⟨scopes, ds ++ es, .item⟩) (fun _ q => p < q) := by
    refine mirrors_braced h (fun n => block tokens n (scopes.reverse.flatten ++ inner))
      (fun n => item tokens n (scopes.reverse.flatten ++ inner))
      (fun found => ⟨inner :: scopes, ds ++ found, .item⟩) _
      (fun _ _ => by rw [block]) (fun found t hc => ?_) (fun _ _ => rfl)
      (fun m hm q hq hmq hbrace heof found => ?_) hp hn []
    · have hk := (Token.isGrouper_iff.1 hc).1
      simp [Reader.step, Reader.stepItem, Token.isKeyword, Token.isStruct, Token.isPunctuator, hk,
        hc]
    · rw [hpath]
      simpa using hitem m hm q hq hmq (inner :: scopes) (ds ++ found) (.inr hbrace) heof
  simpa using hblock

theorem mirrors_namespaceBlock (hn : s.ahead.length < p + n)
    (hitem : ∀ m < n, ∀ q ≤ s.ahead.length, s.ahead.length < q + m → MirrorsItem s tokens m q) :
    Mirrors s p ⟨scopes, ds, .namespaceStart⟩
      (namespaceBlock tokens n scopes.reverse.flatten fun path => block tokens n path [])
      (fun es => ⟨scopes, ds ++ es, .item⟩) (fun _ _ => True) := by
  unfold namespaceBlock
  refine (mirrors_token h hp (fun t => ⟨scopes, ds, .namespaceName [t.text]⟩) rfl rfl).bind
    fun name q _ hq hnext => ?_
  refine (mirrors_segments h hq (by omega) .namespaceName .namespaceColons
    (fun _ _ hc => by simp [Reader.step, Reader.goto, hc]) (fun _ _ => rfl) (fun _ _ => rfl) _).bind
    fun inner q' _ hq' hcolons => ?_
  have hopen : Mirrors s q' ⟨scopes, ds, .namespaceName inner⟩
      (expectToken tokens (·.isGrouper '{') .namespaceBody)
      (fun _ => ⟨inner :: scopes, ds, .item⟩) (fun _ q'' => q'' = q' + 1) :=
    mirrors_token h hq' _ (by simp [Reader.step, Phase.expected, hcolons]) rfl
  refine hopen.bind fun _ q'' _ hq'' hnext' => ?_
  exact (mirrors_block h hq'' (by omega) hitem inner).mono fun _ _ _ _ => trivial

end

theorem mirrors_items {s : TokenStream} {tokens : List Token} (h : s.Opens tokens) {n p : Nat}
    (hp : p ≤ s.ahead.length) (hn : s.ahead.length < p + n) : MirrorsItem s tokens n p := by
  -- The items of a block have fewer rounds, but not just one round less.
  induction n using Nat.strong_induction_on generalizing p with
  | _ n ih =>
  obtain _ | n := n
  · omega
  intro scopes ds hbrace heof
  rw [item]
  refine .peek h hp ?_
  have hgoto (phase : Phase) (hstep : Reader.step ⟨scopes, ds, .item⟩ (s.tokenAt p) =
      .ok ⟨scopes, ds, phase⟩) {x : Descent (List Declaration)}
      (hx : ∀ q, p < q → q ≤ s.ahead.length →
        Mirrors s q ⟨scopes, ds, phase⟩ x (fun es => ⟨scopes, ds ++ es, .item⟩) (fun _ _ => True)) :
      Mirrors s p ⟨scopes, ds, .item⟩ (do advance tokens; x) (fun es => ⟨scopes, ds ++ es, .item⟩)
        (fun _ q => p < q) := by
    refine (mirrors_advance h hp hstep).bind fun _ q hpq hq hnext => ?_
    exact (hx q (by omega) hq).mono fun _ q' hle _ => by omega
  split_ifs with hkeyword hu hs hsemicolon
  · refine hgoto .namespaceStart (by simp [Reader.step, Reader.stepItem, Reader.goto, hkeyword]) ?_
    intro q hlt hq
    exact mirrors_namespaceBlock h hq (by omega) fun m hm q' hq' => ih m (by omega) hq'
  · exact hgoto .aliasStart (by simp [Reader.step, Reader.stepItem, Reader.goto, hkeyword, hu])
      fun q _ hq => mirrors_typeAlias h hq (by omega) rfl
  · exact hgoto .structStart (by simp [Reader.step, Reader.stepItem, Reader.goto, hkeyword, hu, hs])
      fun q _ hq => mirrors_aggregate h hq (by omega) rfl
  · exact hgoto .item (Reader.step_semicolon hsemicolon) fun q _ hq => .pure hq (by simp) trivial
  · refine mirrors_fail h hp ?_
    rw [Reader.Fails, if_neg heof]
    obtain rfl | hbrace := hbrace
    · simp [Reader.step, Reader.stepItem, Reader.unexpected, hkeyword, hu, hs, hsemicolon]
    · cases scopes <;>
        simp [Reader.step, Reader.stepItem, Reader.unexpected, hkeyword, hu, hs, hsemicolon, hbrace]

theorem mirrors_program {s : TokenStream} {tokens : List Token} (h : s.Opens tokens) {n p : Nat}
    (hp : p ≤ s.ahead.length) (hn : s.ahead.length + 1 < p + n) (found : List Declaration) :
    Mirrors s p ⟨[], found, .item⟩ (program tokens n found) (fun ds => ⟨[], ds, .item⟩)
      (fun _ q => q = s.ahead.length) := by
  induction n generalizing p found with
  | zero => omega
  | succ n ih =>
    rw [program]
    refine .peek h hp ?_
    split_ifs with heof
    · exact .pure hp rfl ((h.kind_tokenAt hp).1 heof)
    · have hitem := mirrors_items (n := n) h hp (by omega) [] found (.inl rfl) heof
      refine hitem.bind fun more q _ hq hlt => ?_
      exact ih hq (by omega) (found ++ more)

end ShaderInterface.Descent
