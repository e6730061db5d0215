import ShaderInterface.Proofs.Declaration.Grammar

/-!
# Sentences are read

Every phrase of the grammar takes the reader from the phase before it to the phase behind it,
whatever tokens follow (`Passes`). Phrases are put together by `Passes.trans`, so each lemma looks
at its own tokens only; `passes_items` is the case of whole items.

The grammar has a rule for struct heads that may allow more than the reader does. Where it does, the
reader may also stop with one of the two errors of `HeadRefusal`.
-/
namespace ShaderInterface

namespace Reader
open Grammar

/-- An error for an alignment or a struct marker that the rule allows and the reader does not. -/
def HeadRefusal (rule : HeadRule) (e : ParseError) : Prop :=
  (e.expected = .alignRange ∧ ∃ n, rule.alignment n ∧ isStructAlignment n = false) ∨
    (e.expected = .onlyRegister ∧ ∃ m, rule.marker m ∧ m.register? = none)

/-- In front of any rest, the tokens `ts` lead from `r` to `r'`, unless a struct head is refused. -/
def Passes (rule : HeadRule) (r r' : Reader) (ts : List Token) : Prop :=
  ∀ (stop : Token) (rest : List Token), r.run stop (ts ++ rest) = r'.run stop rest ∨
    ∃ e left, r.run stop (ts ++ rest) = ⟨.error e, left⟩ ∧ HeadRefusal rule e

section
variable {rule : HeadRule}

theorem Passes.refl (r : Reader) : Passes rule r r [] := fun _ _ => .inl rfl

theorem Passes.trans {r r' r'' : Reader} {ts us : List Token} (h : Passes rule r r' ts)
    (h' : Passes rule r' r'' us) : Passes rule r r'' (ts ++ us) := by
  intro stop rest
  rw [List.append_assoc]
  rcases h stop (us ++ rest) with heq | href
  · rw [heq]
    exact h' stop rest
  · exact .inr href

theorem Passes.step {r r' : Reader} {t : Token} (h : r.step t = .ok r') : Passes rule r r' [t] := by
  intro stop rest
  left
  simp [Reader.run, h]

/-- One token, and then the others from the reader `next`. -/
theorem Passes.cons (next : Reader) {r r' : Reader} {t : Token} {ts : List Token}
    (h : r.step t = .ok next) (h' : Passes rule next r' ts) : Passes rule r r' (t :: ts) :=
  (Passes.step h).trans h'

variable {scopes : List (List String)} {ds : List Declaration}

/-! ### Paths and types -/

/-- A path read in two phases that take turns, `name` behind a name and `colons` behind a `::`. -/
theorem passes_segments (name colons : List String → Phase)
    (hc : ∀ before {c : Token}, c.isPunctuator "::" →
      Reader.step ⟨scopes, ds, name before⟩ c = .ok ⟨scopes, ds, colons before⟩)
    (ht : ∀ before {t : Token}, t.isIdentifier →
      Reader.step ⟨scopes, ds, colons before⟩ t = .ok ⟨scopes, ds, name (before ++ [t.text])⟩)
    {ts : List Token} {segments : List String} (h : Many Segment ts segments) :
    ∀ before, Passes rule ⟨scopes, ds, name before⟩ ⟨scopes, ds, name (before ++ segments)⟩ ts := by
  induction h with
  | nil => intro before; simpa using Passes.refl _
  | cons hs _ ih =>
    intro before
    obtain @⟨c, t, hcolons, hname⟩ := hs
    refine .cons ⟨scopes, ds, colons before⟩ (hc before hcolons) ?_
    refine .cons ⟨scopes, ds, name (before ++ [t.text])⟩ (ht before hname) ?_
    simpa using ih (before ++ [t.text])

theorem passes_namespacePath {ts : List Token} {segments : List String} (h : Path ts segments) :
    Passes rule ⟨scopes, ds, .namespaceStart⟩ ⟨scopes, ds, .namespaceName segments⟩ ts := by
  obtain @⟨t, us, rest, ht, hs⟩ := h
  refine .cons ⟨scopes, ds, .namespaceName [t.text]⟩ (by simp [Reader.step, goto, ht]) ?_
  exact passes_segments .namespaceName .namespaceColons
    (fun _ _ hc => by simp [Reader.step, goto, hc])
    (fun _ _ ht => by simp [Reader.step, goto, ht]) hs [t.text]

/-- A type, from any reader `r` that takes the first token of a type for `site`. -/
theorem passes_type {r : Reader} {site : TypeSite}
    (hroot : ∀ {c : Token}, c.isPunctuator "::" →
      r.step c = .ok ⟨scopes, ds, .typeRoot site c.location⟩)
    (hname : ∀ {t : Token}, t.isIdentifier →
      r.step t = .ok ⟨scopes, ds, .typeName site ⟨[t.text], t.location⟩⟩)
    {ts : List Token} {type : TypeName} (h : TypePhrase ts type) :
    Passes rule r ⟨scopes, ds, .typeName site type⟩ ts := by
  -- The location is that of the first token of the type, so it stays as the path grows.
  have segments {us : List Token} {rest : List String} (location : Location) (before : List String)
      (hs : Many Segment us rest) :
      Passes rule ⟨scopes, ds, .typeName site ⟨before, location⟩⟩
        ⟨scopes, ds, .typeName site ⟨before ++ rest, location⟩⟩ us :=
    passes_segments (fun ss => .typeName site ⟨ss, location⟩)
      (fun ss => .typeColons site ⟨ss, location⟩)
      (fun _ _ hc => by simp [Reader.step, goto, hc])
      (fun _ _ ht => by simp [Reader.step, goto, ht]) hs before
  cases h with
  | plain h =>
    obtain ⟨ht, hs⟩ := h
    exact .cons _ (hname ht) (segments _ _ hs)
  | @rooted c us _ hc h =>
    obtain @⟨t, us, rest, ht, hs⟩ := h
    refine .cons _ (hroot hc) ?_
    refine .cons ⟨scopes, ds, .typeName site ⟨[t.text], c.location⟩⟩ ?_ (segments _ _ hs)
    simp [Reader.step, goto, ht]

/-! ### Markers and members -/

theorem passes_marker {site : MarkerSite} {found : List Marker} {ts : List Token} {m : Marker}
    (h : MarkerPhrase ts m) :
    Passes rule ⟨scopes, ds, .markers site found⟩
      ⟨scopes, ds, .markers site (found ++ [m])⟩ ts := by
  obtain ⟨w, o, v, c, word, rfl, hw, ho, hv, hc⟩ := markerPhrase_iff.1 h
  refine .cons ⟨scopes, ds, .markerWord site found word⟩ (by simp [Reader.step, goto, hw]) ?_
  refine .cons ⟨scopes, ds, .markerOpen site found word⟩ (by simp [Reader.step, goto, ho]) ?_
  refine .cons ⟨scopes, ds, .markerValue site found m⟩ (by simp [Reader.step, goto, hv]) ?_
  exact .step (by simp [Reader.step, goto, hc])

theorem passes_markers {site : MarkerSite} {ts : List Token} {markers : List Marker}
    (h : Many MarkerPhrase ts markers) : ∀ found,
      Passes rule ⟨scopes, ds, .markers site found⟩
        ⟨scopes, ds, .markers site (found ++ markers)⟩ ts := by
  induction h with
  | nil => intro found; simpa using Passes.refl _
  | cons hm _ ih => intro found; simpa using (passes_marker hm).trans (ih (found ++ [_]))

theorem passes_member {body : StructBody} {ts : List Token} {m : Option FieldDecl}
    (h : MemberPhrase ts m) :
    Passes rule ⟨scopes, ds, .members body⟩
      ⟨scopes, ds, .members { body with fields := body.fields ++ m.toList }⟩ ts := by
  cases h with
  | access ha hc =>
    have hk := (Token.isAccess_iff.1 ha).1
    refine .cons ⟨scopes, ds, .access body⟩ ?_ (.step ?_)
    · simp [Reader.step, goto, Token.isGrouper, hk, ha]
    · simp [Reader.step, goto, hc]
  | @field us ms n e type markers ht hn hms he =>
    have hkn := Token.isIdentifier_iff.1 hn
    have hke := (Token.isPunctuator_iff.1 he).1
    have htype : Passes rule ⟨scopes, ds, .members body⟩
        ⟨scopes, ds, .typeName (.field body) type⟩ us := by
      refine passes_type (fun {c} hc => ?_) (fun {t} ht => ?_) ht
      · have hk := (Token.isPunctuator_iff.1 hc).1
        simp [Reader.step, goto, Token.isGrouper, Token.isAccess, Token.isKeyword, hk, hc]
      · have hk := Token.isIdentifier_iff.1 ht
        simp [Reader.step, goto, Token.isGrouper, Token.isAccess, Token.isKeyword,
          Token.isPunctuator, hk, ht]
    refine (htype.trans (.cons ⟨scopes, ds, .markers (.field body type n.name) []⟩ ?_
      (passes_markers hms []))).trans (.step ?_)
    · simp [Reader.step, goto, Token.isPunctuator, hkn, hn]
    · simp [Reader.step, MarkerWord.ofToken?, Token.isIdentifier, hke, he, finishField, goto,
        Token.name]

theorem passes_members {ts : List Token} {members : List (Option FieldDecl)}
    (h : Many MemberPhrase ts members) : ∀ body : StructBody,
      Passes rule ⟨scopes, ds, .members body⟩
        ⟨scopes, ds, .members { body with fields := body.fields ++ members.filterMap id }⟩ ts := by
  induction h with
  | nil => intro body; simpa using Passes.refl _
  | @cons _ _ m ms hm _ ih =>
    intro body
    have := (passes_member hm).trans (ih { body with fields := body.fields ++ m.toList })
    cases m <;> simpa using this

/-! ### Structs -/

theorem passes_alignment {v : Token} {n : Nat} (hv : v.integer? = some n) (hn : rule.alignment n) :
    Passes rule ⟨scopes, ds, .alignOpen⟩ ⟨scopes, ds, .alignValue n⟩ [v] := by
  by_cases ha : isStructAlignment n = true
  · exact .step (by simp [Reader.step, goto, hv, ha])
  · intro stop rest
    have hrefusal : HeadRefusal rule ⟨.alignRange, v.message, v.location⟩ :=
      .inl ⟨rfl, n, hn, by simpa using ha⟩
    exact .inr ⟨_, rest, by simp [Reader.run, Reader.step, hv, ha], hrefusal⟩

theorem passes_head {ts : List Token} {head : StructHead} (h : HeadPhrase rule ts head) :
    Passes rule ⟨scopes, ds, .item⟩ ⟨scopes, ds, .markers (.aggregate head) []⟩ ts := by
  obtain @⟨k, n, as, alignment, hk, ha, hn⟩ := h
  obtain ⟨hkind, htext⟩ := Token.isStruct_iff.1 hk
  have hstart : Reader.step ⟨scopes, ds, .item⟩ k = .ok ⟨scopes, ds, .structStart⟩ := by
    rcases htext with htext | htext <;>
      simp [Reader.step, stepItem, goto, Token.isKeyword, Token.isStruct, hkind, htext]
  refine .cons _ hstart ?_
  cases ha with
  | none =>
    have hkn := Token.isIdentifier_iff.1 hn
    exact .step (by simp [Reader.step, goto, Token.isKeyword, hkn, hn])
  | @some a o v c m ha ho hv hm hc =>
    refine .cons ⟨scopes, ds, .alignStart⟩ (by simp [Reader.step, goto, ha]) ?_
    refine .cons ⟨scopes, ds, .alignOpen⟩ (by simp [Reader.step, goto, ho]) ?_
    refine (passes_alignment hv hm).trans ?_
    refine .cons ⟨scopes, ds, .alignClose m⟩ (by simp [Reader.step, goto, hc]) ?_
    exact .step (by simp [Reader.step, goto, hn])

theorem passes_bodyOpen {head : StructHead} {markers : List Marker} {register : Option Nat}
    {o : Token} (hm : ∀ m ∈ markers, rule.marker m) (hregister : RegisterOf markers register)
    (ho : o.isGrouper '{') :
    Passes rule ⟨scopes, ds, .markers (.aggregate head) markers⟩
      ⟨scopes, ds, .members ⟨head, register, []⟩⟩ [o] := by
  obtain rfl := registerOf_iff.1 hregister
  have hk := (Token.isGrouper_iff.1 ho).1
  have hword : MarkerWord.ofToken? o = none := by simp [MarkerWord.ofToken?, Token.isIdentifier, hk]
  cases hf : foreignMarker? markers with
  | none =>
    exact .step (by simp [Reader.step, hword, stepHead, hf, Token.isPunctuator, hk, ho, goto])
  | some m =>
    intro stop rest
    have hforeign : m.register? = none := by simpa using List.find?_some hf
    have hrefusal : HeadRefusal rule ⟨.onlyRegister, m.word.text, head.name.location⟩ :=
      .inr ⟨rfl, m, hm m (List.mem_of_find?_eq_some hf), hforeign⟩
    -- The markers are looked at before the brace, which stays unread.
    exact .inr ⟨_, o :: rest, by simp [Reader.run, Reader.step, hword, stepHead, hf], hrefusal⟩

theorem passes_body {ts : List Token} {body : StructBody} (h : BodyPhrase rule ts body) :
    Passes rule ⟨scopes, ds, .item⟩ ⟨scopes, ds, .members body⟩ ts := by
  obtain ⟨hh, hms, hm, hregister, ho, hbs⟩ := h
  refine ((passes_head hh).trans (passes_markers hms [])).trans ?_
  exact (passes_bodyOpen hm hregister ho).trans (passes_members hbs _)

/-! ### Items -/

theorem step_semicolon {s : Token} (hs : s.isPunctuator ";") :
    Reader.step ⟨scopes, ds, .item⟩ s = .ok ⟨scopes, ds, .item⟩ := by
  have hk := (Token.isPunctuator_iff.1 hs).1
  simp [Reader.step, stepItem, Token.isKeyword, Token.isStruct, hk, hs]

theorem passes_semicolon {s : Token} (hs : s.isPunctuator ";") :
    Passes rule ⟨scopes, ds, .item⟩ ⟨scopes, ds, .item⟩ [s] :=
  .step (step_semicolon hs)

mutual

theorem passes_item {path : List String} {ts : List Token} {es : List Declaration}
    {scopes : List (List String)} {ds : List Declaration} (hp : scopes.reverse.flatten = path) :
    Item rule path ts es → Passes rule ⟨scopes, ds, .item⟩ ⟨scopes, ds ++ es, .item⟩ ts
  | @Item.namespaceBlock _ _ segments k o c ns body _ hk hns ho hbody hc => by
    have hkc := (Token.isGrouper_iff.1 hc).1
    have hko := (Token.isGrouper_iff.1 ho).1
    have hinner : (segments :: scopes).reverse.flatten = path ++ segments := by simp [hp]
    have hstart : Reader.step ⟨scopes, ds, .item⟩ k = .ok ⟨scopes, ds, .namespaceStart⟩ := by
      simp [Reader.step, stepItem, goto, hk]
    have hopen : Reader.step ⟨scopes, ds, .namespaceName segments⟩ o =
        .ok ⟨segments :: scopes, ds, .item⟩ := by
      simp [Reader.step, Token.isPunctuator, hko, ho]
    have hclose : Reader.step ⟨segments :: scopes, ds ++ es, .item⟩ c =
        .ok ⟨scopes, ds ++ es, .item⟩ := by
      simp [Reader.step, stepItem, Token.isKeyword, Token.isStruct, Token.isPunctuator, hkc, hc]
    refine ((Passes.cons _ hstart (passes_namespacePath hns)).trans ?_).trans (.step hclose)
    exact .cons _ hopen (passes_items hinner hbody)
  | @Item.alias _ _ u n e s ts target hu hn he ht hs => by
    obtain ⟨hku, htu⟩ := Token.isKeyword_iff.1 hu
    have htarget : Passes rule ⟨scopes, ds, .item⟩ ⟨scopes, ds, .typeName (.target n.name) target⟩
        (u :: n :: e :: ts) := by
      have hstart : Reader.step ⟨scopes, ds, .item⟩ u = .ok ⟨scopes, ds, .aliasStart⟩ := by
        simp [Reader.step, stepItem, goto, Token.isKeyword, hku, htu]
      refine .cons _ hstart ?_
      refine .cons ⟨scopes, ds, .aliasName n.name⟩ (by simp [Reader.step, goto, hn]) ?_
      refine .cons ⟨scopes, ds, .typeStart (.target n.name)⟩ (by simp [Reader.step, goto, he]) ?_
      refine passes_type (fun hc => by simp [Reader.step, goto, hc]) (fun {t} ht => ?_) ht
      have hk := Token.isIdentifier_iff.1 ht
      simp [Reader.step, goto, Token.isPunctuator, hk, ht]
    obtain ⟨hks, hts⟩ := Token.isPunctuator_iff.1 hs
    refine htarget.trans (.step ?_)
    simp [Reader.step, Token.isPunctuator, hks, hts, finishAlias, declare, Token.name,
      Reader.path, hp]
  | @Item.aggregate _ _ bs ss c body hbody hc hss => by
    have hclose : Reader.step ⟨scopes, ds, .members body⟩ c =
        .ok ⟨scopes, ds ++ [.aggregate (declarationOf path body)], .item⟩ := by
      simp [Reader.step, hc, finishStruct, declare, declarationOf, Reader.path, hp]
    refine (passes_body hbody).trans (.cons _ hclose ?_)
    cases hss with
    | absent => exact .refl _
    | present hs => exact passes_semicolon hs
  | @Item.forward _ _ k n s hk hn hs => by
    have hks := (Token.isPunctuator_iff.1 hs).1
    have hhead : HeadPhrase rule [k, n] ⟨none, n.name⟩ := .mk hk .none hn
    refine (passes_head hhead).trans (.step ?_)
    simp [Reader.step, MarkerWord.ofToken?, Token.isIdentifier, hks, stepHead, foreignMarker?,
      lastRegister?, hs, goto]
  | .semicolon hs => by simpa using passes_semicolon hs

theorem passes_items {path : List String} {ts : List Token} {es : List Declaration}
    {scopes : List (List String)} {ds : List Declaration} (hp : scopes.reverse.flatten = path) :
    Items rule path ts es → Passes rule ⟨scopes, ds, .item⟩ ⟨scopes, ds ++ es, .item⟩ ts
  | .nil => by simpa using Passes.refl _
  | .cons hi his => by simpa using (passes_item hp hi).trans (passes_items hp his)

end

end

end Reader

end ShaderInterface
