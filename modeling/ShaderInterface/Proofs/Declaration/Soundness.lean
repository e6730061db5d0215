import ShaderInterface.Proofs.Declaration.Completeness

/-!
# What is read has a derivation

At any moment the tokens a reader has read are finished items, in the file and in the namespace
blocks still open, and then the start of one item (`ReaderRead`). `Advance` lists what one token can
do to that, `advance_of_step` shows it phase by phase, and `items_of_run` carries it through a run:
at the end no block is open and no item is begun, so the tokens are items. With the other direction,
`TokenStream.read_eq_ok_iff` says that reading accepts exactly the grammar.
-/
namespace ShaderInterface

/-- A rule that allows every struct head the reader takes. -/
structure HeadRule.Admits (rule : HeadRule) : Prop where
  alignment : ∀ n, isStructAlignment n = true → rule.alignment n
  register : ∀ slot, rule.marker (.register slot)

namespace Grammar

/-! ## Unfinished phrases -/

/-- The tokens of an item before a type that is read for a site. -/
inductive TypeSiteRead (rule : HeadRule) : TypeSite → List Token → Prop where
  | target {u n e : Token} : u.isKeyword "using" → n.isIdentifier → e.isPunctuator "=" →
      TypeSiteRead rule (.target n.name) [u, n, e]
  | field {bs : List Token} {body : StructBody} : BodyPhrase rule bs body →
      TypeSiteRead rule (.field body) bs

/-- The tokens of an item before markers that are read for a site. -/
inductive MarkerSiteRead (rule : HeadRule) : MarkerSite → List Token → Prop where
  | aggregate {hs : List Token} {head : StructHead} : HeadPhrase rule hs head →
      MarkerSiteRead rule (.aggregate head) hs
  | field {bs ts : List Token} {n : Token} {body : StructBody} {type : TypeName} :
      BodyPhrase rule bs body → TypePhrase ts type → n.isIdentifier →
      MarkerSiteRead rule (.field body type n.name) (bs ++ ts ++ [n])

/-- The tokens of the item that a reader in a phase is in the middle of. -/
inductive PhaseRead (rule : HeadRule) : Phase → List Token → Prop where
  | item : PhaseRead rule .item []
  | namespaceStart {k : Token} : k.isKeyword "namespace" → PhaseRead rule .namespaceStart [k]
  | namespaceName {k : Token} {ns : List Token} {segments : List String} : k.isKeyword "namespace" →
      Path ns segments → PhaseRead rule (.namespaceName segments) (k :: ns)
  | namespaceColons {k c : Token} {ns : List Token} {segments : List String} :
      k.isKeyword "namespace" → Path ns segments → c.isPunctuator "::" →
      PhaseRead rule (.namespaceColons segments) (k :: ns ++ [c])
  | aliasStart {u : Token} : u.isKeyword "using" → PhaseRead rule .aliasStart [u]
  | aliasName {u n : Token} : u.isKeyword "using" → n.isIdentifier →
      PhaseRead rule (.aliasName n.name) [u, n]
  | typeStart {site : TypeSite} {us : List Token} : TypeSiteRead rule site us →
      PhaseRead rule (.typeStart site) us
  | typeRoot {site : TypeSite} {us : List Token} {c : Token} : TypeSiteRead rule site us →
      c.isPunctuator "::" → PhaseRead rule (.typeRoot site c.location) (us ++ [c])
  | typeName {site : TypeSite} {us ts : List Token} {type : TypeName} : TypeSiteRead rule site us →
      TypePhrase ts type → PhaseRead rule (.typeName site type) (us ++ ts)
  | typeColons {site : TypeSite} {us ts : List Token} {type : TypeName} {c : Token} :
      TypeSiteRead rule site us → TypePhrase ts type → c.isPunctuator "::" →
      PhaseRead rule (.typeColons site type) (us ++ ts ++ [c])
  | structStart {k : Token} : k.isStruct → PhaseRead rule .structStart [k]
  | alignStart {k a : Token} : k.isStruct → a.isKeyword "alignas" →
      PhaseRead rule .alignStart [k, a]
  | alignOpen {k a o : Token} : k.isStruct → a.isKeyword "alignas" → o.isGrouper '(' →
      PhaseRead rule .alignOpen [k, a, o]
  | alignValue {k a o v : Token} {n : Nat} : k.isStruct → a.isKeyword "alignas" → o.isGrouper '(' →
      v.integer? = some n → rule.alignment n → PhaseRead rule (.alignValue n) [k, a, o, v]
  | alignClose {k : Token} {as : List Token} {n : Nat} : k.isStruct → AlignPhrase rule as (some n) →
      PhaseRead rule (.alignClose n) (k :: as)
  | markers {site : MarkerSite} {us ms : List Token} {found : List Marker} :
      MarkerSiteRead rule site us → Many MarkerPhrase ms found →
      PhaseRead rule (.markers site found) (us ++ ms)
  | markerWord {site : MarkerSite} {us ms : List Token} {found : List Marker} {w : Token}
      {word : MarkerWord} : MarkerSiteRead rule site us → Many MarkerPhrase ms found →
      MarkerWord.ofToken? w = some word →
      PhaseRead rule (.markerWord site found word) (us ++ ms ++ [w])
  | markerOpen {site : MarkerSite} {us ms : List Token} {found : List Marker} {w o : Token}
      {word : MarkerWord} : MarkerSiteRead rule site us → Many MarkerPhrase ms found →
      MarkerWord.ofToken? w = some word → o.isGrouper '(' →
      PhaseRead rule (.markerOpen site found word) (us ++ ms ++ [w, o])
  | markerValue {site : MarkerSite} {us ms : List Token} {found : List Marker} {w o v : Token}
      {word : MarkerWord} {m : Marker} : MarkerSiteRead rule site us → Many MarkerPhrase ms found →
      MarkerWord.ofToken? w = some word → o.isGrouper '(' → Marker.ofToken? word v = some m →
      PhaseRead rule (.markerValue site found m) (us ++ ms ++ [w, o, v])
  | members {bs : List Token} {body : StructBody} : BodyPhrase rule bs body →
      PhaseRead rule (.members body) bs
  | access {bs : List Token} {body : StructBody} {a : Token} : BodyPhrase rule bs body →
      a.isAccess → PhaseRead rule (.access body) (bs ++ [a])

/-- The tokens before the item that is being read: finished items, and the open namespace blocks. -/
inductive ScopesRead (rule : HeadRule) :
    List (List String) → List Token → List Declaration → Prop where
  | file {ts : List Token} {ds : List Declaration} : Items rule [] ts ds → ScopesRead rule [] ts ds
  | block {scopes : List (List String)} {segments : List String} {ts ns body : List Token}
      {ds es : List Declaration} {k o : Token} : ScopesRead rule scopes ts ds →
      k.isKeyword "namespace" → Path ns segments → o.isGrouper '{' →
      Items rule (segments :: scopes).reverse.flatten body es →
      ScopesRead rule (segments :: scopes) (ts ++ k :: ns ++ o :: body) (ds ++ es)

/-- The reader `r` is where the tokens `ts` lead. -/
def ReaderRead (rule : HeadRule) (r : Reader) (ts : List Token) : Prop :=
  ∃ us vs, ts = us ++ vs ∧ ScopesRead rule r.scopes us r.declarations ∧ PhaseRead rule r.phase vs

section
variable {rule : HeadRule} {scopes : List (List String)} {ds : List Declaration} {ts : List Token}

theorem ScopesRead.snoc (h : ScopesRead rule scopes ts ds) {us : List Token} {es : List Declaration}
    (hi : Item rule scopes.reverse.flatten us es) :
    ScopesRead rule scopes (ts ++ us) (ds ++ es) := by
  cases h with
  | file h => exact .file (Items.snoc hi h)
  | block h hk hns ho hbody => simpa using ScopesRead.block h hk hns ho (Items.snoc hi hbody)

theorem ScopesRead.close {segments : List String} (h : ScopesRead rule (segments :: scopes) ts ds)
    {c : Token} (hc : c.isGrouper '}') : ScopesRead rule scopes (ts ++ [c]) ds := by
  cases h with
  | block h hk hns ho hbody =>
    have hitem : Item rule scopes.reverse.flatten _ _ :=
      .namespaceBlock hk hns ho (by simpa using hbody) hc
    simpa using h.snoc hitem

theorem BodyPhrase.snoc {bs ms : List Token} {body : StructBody} {m : Option FieldDecl}
    (h : BodyPhrase rule bs body) (hm : MemberPhrase ms m) :
    BodyPhrase rule (bs ++ ms) { body with fields := body.fields ++ m.toList } := by
  obtain ⟨hh, hms, hall, hregister, ho, hbs⟩ := h
  have := BodyPhrase.mk hh hms hall hregister ho (hbs.snoc hm)
  cases m <;> simpa using this

/-! ## What one token does -/

/-- What a reader that has read `vs` of an item can become with the token `t`. -/
inductive Advance (rule : HeadRule) (scopes : List (List String)) (ds : List Declaration)
    (vs : List Token) (t : Token) : Reader → Prop where
  /-- The item goes on. -/
  | inside {phase : Phase} : PhaseRead rule phase (vs ++ [t]) →
      Advance rule scopes ds vs t ⟨scopes, ds, phase⟩
  /-- The item ends. -/
  | finish {es : List Declaration} {r : Reader} : Item rule scopes.reverse.flatten (vs ++ [t]) es →
      r = ⟨scopes, ds ++ es, .item⟩ → Advance rule scopes ds vs t r
  /-- A namespace block opens. -/
  | openBlock {k : Token} {ns : List Token} {segments : List String} : vs = k :: ns →
      k.isKeyword "namespace" → Path ns segments → t.isGrouper '{' →
      Advance rule scopes ds vs t ⟨segments :: scopes, ds, .item⟩
  /-- The innermost namespace block closes. -/
  | closeBlock {segments : List String} {outer : List (List String)} : vs = [] →
      scopes = segments :: outer → t.isGrouper '}' →
      Advance rule scopes ds vs t ⟨outer, ds, .item⟩

end

end Grammar

namespace Reader
open Grammar

/-- A test that is made for a token before others. -/
theorem ite_eq_ok {c : Prop} [Decidable c] {r r' : Reader} {other : Except Refusal Reader} :
    (if c then .ok r else other) = .ok r' ↔ c ∧ r = r' ∨ ¬c ∧ other = .ok r' := by
  by_cases hc : c <;> simp [hc]

/-- The last test that is made for a token. -/
theorem ite_unexpected_eq_ok {c : Prop} [Decidable c] {r r' : Reader} {e : Expected} {t : Token} :
    (if c then .ok r else unexpected e t) = .ok r' ↔ c ∧ r = r' := by
  by_cases hc : c <;> simp [hc, unexpected]

section
variable {rule : HeadRule} {scopes : List (List String)} {ds : List Declaration} {vs : List Token}
  {t : Token} {r : Reader}

theorem advance_item (h : Reader.stepItem ⟨scopes, ds, .item⟩ t = .ok r) :
    Advance rule scopes ds [] t r := by
  unfold stepItem at h
  obtain ⟨hn, rfl⟩ | ⟨-, h⟩ := ite_eq_ok.1 h
  · exact .inside (.namespaceStart hn)
  obtain ⟨hu, rfl⟩ | ⟨-, h⟩ := ite_eq_ok.1 h
  · exact .inside (.aliasStart hu)
  obtain ⟨hs, rfl⟩ | ⟨-, h⟩ := ite_eq_ok.1 h
  · exact .inside (.structStart hs)
  obtain ⟨hp, rfl⟩ | ⟨-, h⟩ := ite_eq_ok.1 h
  · exact .finish (.semicolon hp) (by simp)
  cases scopes with
  | nil => simp [unexpected] at h
  | cons segments outer =>
    obtain ⟨hc, rfl⟩ := ite_unexpected_eq_ok.1 h
    exact .closeBlock rfl rfl hc

theorem registers_of_foreignMarker? {found : List Marker} (h : foreignMarker? found = none) :
    ∀ m ∈ found, ∃ slot, m = .register slot := by
  intro m hm
  have := List.find?_eq_none.1 h m hm
  cases m <;> simp_all [Marker.register?]

theorem eq_nil_of_lastRegister? {found : List Marker}
    (hall : ∀ m ∈ found, ∃ slot, m = .register slot) (h : lastRegister? found = none) :
    found = [] := by
  cases found with
  | nil => rfl
  | cons m ms =>
    obtain ⟨slot, rfl⟩ := hall m (by simp)
    simp [lastRegister?, Marker.register?] at h

theorem advance_head (hrule : rule.Admits) {head : StructHead} {found : List Marker}
    {hs ms : List Token} (hh : HeadPhrase rule hs head) (hms : Many MarkerPhrase ms found)
    (h : Reader.stepHead ⟨scopes, ds, .markers (.aggregate head) found⟩ head found t = .ok r) :
    Advance rule scopes ds (hs ++ ms) t r := by
  cases hf : foreignMarker? found with
  | some m => simp [stepHead, hf] at h
  | none =>
    have hall := registers_of_foreignMarker? hf
    simp only [stepHead, hf] at h
    obtain ⟨hforward, rfl⟩ | ⟨-, h⟩ := ite_eq_ok.1 h
    · -- A forward declaration has no alignment and, as all its markers are registers, no marker.
      simp only [Bool.and_eq_true, Option.isNone_iff_eq_none] at hforward
      obtain ⟨⟨ht, halign⟩, hreg⟩ := hforward
      obtain rfl := eq_nil_of_lastRegister? hall hreg
      cases hms
      obtain ⟨hk, has, hn⟩ := hh
      obtain rfl := halign
      cases has
      exact .finish (.forward hk hn ht) (by simp [goto])
    · obtain ⟨ho, rfl⟩ := ite_unexpected_eq_ok.1 h
      have hmarkers : ∀ m ∈ found, rule.marker m := by
        intro m hm
        obtain ⟨slot, rfl⟩ := hall m hm
        exact hrule.register slot
      exact .inside (.members (.mk hh hms hmarkers (registerOf_iff.2 rfl) ho .nil))

theorem advance_members {body : StructBody} (hb : BodyPhrase rule vs body)
    (h : Reader.step ⟨scopes, ds, .members body⟩ t = .ok r) : Advance rule scopes ds vs t r := by
  simp only [Reader.step] at h
  obtain ⟨hc, rfl⟩ | ⟨-, h⟩ := ite_eq_ok.1 h
  · exact .finish (.aggregate hb hc .absent) rfl
  obtain ⟨ha, rfl⟩ | ⟨-, h⟩ := ite_eq_ok.1 h
  · exact .inside (.access hb ha)
  obtain ⟨hc, rfl⟩ | ⟨-, h⟩ := ite_eq_ok.1 h
  · exact .inside (.typeRoot (.field hb) hc)
  obtain ⟨ht, rfl⟩ := ite_unexpected_eq_ok.1 h
  exact .inside (.typeName (.field hb) (.plain (.mk ht .nil)))

theorem advance_markers (hrule : rule.Admits) {site : MarkerSite} {found : List Marker}
    {us ms : List Token} (hsite : MarkerSiteRead rule site us) (hms : Many MarkerPhrase ms found)
    (h : Reader.step ⟨scopes, ds, .markers site found⟩ t = .ok r) :
    Advance rule scopes ds (us ++ ms) t r := by
  cases hw : MarkerWord.ofToken? t with
  | some word =>
    simp only [Reader.step, hw] at h
    cases h
    exact .inside (.markerWord hsite hms hw)
  | none =>
    cases hsite with
    | aggregate hh =>
      simp only [Reader.step, hw] at h
      exact advance_head hrule hh hms h
    | field hb htype hn =>
      simp only [Reader.step, hw] at h
      obtain ⟨ht, rfl⟩ := ite_unexpected_eq_ok.1 h
      refine .inside ?_
      simpa [Token.name] using PhaseRead.members (hb.snoc (.field htype hn hms ht))

theorem advance_type {site : TypeSite} {us ts : List Token} {type : TypeName}
    (hsite : TypeSiteRead rule site us) (htype : TypePhrase ts type)
    (h : Reader.step ⟨scopes, ds, .typeName site type⟩ t = .ok r) :
    Advance rule scopes ds (us ++ ts) t r := by
  simp only [Reader.step] at h
  obtain ⟨hc, rfl⟩ | ⟨-, h⟩ := ite_eq_ok.1 h
  · exact .inside (.typeColons hsite htype hc)
  cases hsite with
  | target hu hn he =>
    obtain ⟨hs, rfl⟩ := ite_unexpected_eq_ok.1 h
    exact .finish (.alias hu hn he htype hs) rfl
  | field hb =>
    obtain ⟨hn, rfl⟩ := ite_unexpected_eq_ok.1 h
    refine .inside ?_
    simpa using PhaseRead.markers (.field hb htype hn) .nil

theorem advance_alignment (hrule : rule.Admits) {k a o : Token} (hk : k.isStruct)
    (ha : a.isKeyword "alignas") (ho : o.isGrouper '(')
    (h : Reader.step ⟨scopes, ds, .alignOpen⟩ t = .ok r) :
    Advance rule scopes ds [k, a, o] t r := by
  cases hv : t.integer? with
  | none => simp [Reader.step, hv, unexpected] at h
  | some n =>
    by_cases hn : isStructAlignment n = true
    · simp only [Reader.step, hv, hn, if_true] at h
      cases h
      exact .inside (.alignValue hk ha ho hv (hrule.alignment n hn))
    · simp [Reader.step, hv, hn] at h

/-- Every token that a reader takes leads to a reader whose tokens are explained again. -/
theorem advance_of_step (hrule : rule.Admits) {phase : Phase} (hp : PhaseRead rule phase vs)
    (h : Reader.step ⟨scopes, ds, phase⟩ t = .ok r) : Advance rule scopes ds vs t r := by
  cases hp with
  | item => exact advance_item h
  | namespaceStart hk =>
    obtain ⟨ht, rfl⟩ := ite_unexpected_eq_ok.1 h
    exact .inside (.namespaceName hk (.mk ht .nil))
  | namespaceName hk hns =>
    obtain ⟨hc, rfl⟩ | ⟨-, h⟩ := ite_eq_ok.1 h
    · exact .inside (.namespaceColons hk hns hc)
    · obtain ⟨ho, rfl⟩ := ite_unexpected_eq_ok.1 h
      exact .openBlock rfl hk hns ho
  | namespaceColons hk hns hc =>
    obtain ⟨ht, rfl⟩ := ite_unexpected_eq_ok.1 h
    refine .inside ?_
    simpa using PhaseRead.namespaceName hk (hns.snoc hc ht)
  | aliasStart hu =>
    obtain ⟨hn, rfl⟩ := ite_unexpected_eq_ok.1 h
    exact .inside (.aliasName hu hn)
  | aliasName hu hn =>
    obtain ⟨he, rfl⟩ := ite_unexpected_eq_ok.1 h
    exact .inside (.typeStart (.target hu hn he))
  | typeStart hsite =>
    obtain ⟨hc, rfl⟩ | ⟨-, h⟩ := ite_eq_ok.1 h
    · exact .inside (.typeRoot hsite hc)
    · obtain ⟨ht, rfl⟩ := ite_unexpected_eq_ok.1 h
      exact .inside (.typeName hsite (.plain (.mk ht .nil)))
  | typeRoot hsite hc =>
    obtain ⟨ht, rfl⟩ := ite_unexpected_eq_ok.1 h
    refine .inside ?_
    simpa using PhaseRead.typeName hsite (.rooted hc (.mk ht .nil))
  | typeName hsite htype => exact advance_type hsite htype h
  | typeColons hsite htype hc =>
    obtain ⟨ht, rfl⟩ := ite_unexpected_eq_ok.1 h
    refine .inside ?_
    simpa using PhaseRead.typeName hsite (htype.snoc hc ht)
  | structStart hk =>
    obtain ⟨ha, rfl⟩ | ⟨-, h⟩ := ite_eq_ok.1 h
    · exact .inside (.alignStart hk ha)
    · obtain ⟨hn, rfl⟩ := ite_unexpected_eq_ok.1 h
      refine .inside ?_
      simpa using PhaseRead.markers (.aggregate (.mk hk .none hn)) .nil
  | alignStart hk ha =>
    obtain ⟨ho, rfl⟩ := ite_unexpected_eq_ok.1 h
    exact .inside (.alignOpen hk ha ho)
  | alignOpen hk ha ho => exact advance_alignment hrule hk ha ho h
  | alignValue hk ha ho hv hn =>
    obtain ⟨hc, rfl⟩ := ite_unexpected_eq_ok.1 h
    exact .inside (.alignClose hk (.some ha ho hv hn hc))
  | alignClose hk has =>
    obtain ⟨hn, rfl⟩ := ite_unexpected_eq_ok.1 h
    refine .inside ?_
    simpa using PhaseRead.markers (.aggregate (.mk hk has hn)) .nil
  | markers hsite hms => exact advance_markers hrule hsite hms h
  | markerWord hsite hms hw =>
    obtain ⟨ho, rfl⟩ := ite_unexpected_eq_ok.1 h
    refine .inside ?_
    simpa using PhaseRead.markerOpen hsite hms hw ho
  | @markerOpen _ _ _ _ _ _ word hsite hms hw ho =>
    cases hv : Marker.ofToken? word t with
    | none => simp [Reader.step, hv, unexpected] at h
    | some m =>
      simp only [Reader.step, hv] at h
      cases h
      refine .inside ?_
      simpa using PhaseRead.markerValue hsite hms hw ho hv
  | markerValue hsite hms hw ho hv =>
    obtain ⟨hc, rfl⟩ := ite_unexpected_eq_ok.1 h
    refine .inside ?_
    have hphrase := markerPhrase_iff.2 ⟨_, _, _, t, _, rfl, hw, ho, hv, hc⟩
    simpa using PhaseRead.markers hsite (hms.snoc hphrase)
  | members hb => exact advance_members hb h
  | access hb ha =>
    obtain ⟨hc, rfl⟩ := ite_unexpected_eq_ok.1 h
    refine .inside ?_
    simpa using PhaseRead.members (hb.snoc (.access ha hc))

/-! ## Whole runs -/

theorem readerRead_start (rule : HeadRule) : ReaderRead rule .start [] :=
  ⟨[], [], rfl, .file .nil, .item⟩

theorem readerRead_step (hrule : rule.Admits) {r' : Reader} {ts : List Token}
    (h : ReaderRead rule r ts) (hs : r.step t = .ok r') : ReaderRead rule r' (ts ++ [t]) := by
  obtain ⟨us, vs, rfl, hscopes, hp⟩ := h
  obtain ⟨scopes, ds, phase⟩ := r
  cases advance_of_step hrule hp hs with
  | inside hp' => exact ⟨us, vs ++ [t], by simp, hscopes, hp'⟩
  | finish hi hr =>
    subst hr
    exact ⟨us ++ (vs ++ [t]), [], by simp, hscopes.snoc hi, .item⟩
  | @openBlock k ns _ hvs hk hns ho =>
    subst hvs
    have hblock := ScopesRead.block hscopes hk hns ho .nil
    exact ⟨us ++ k :: ns ++ [t], [], by simp, by simpa using hblock, .item⟩
  | closeBlock hvs hsc hc =>
    obtain rfl : vs = [] := hvs
    obtain rfl : scopes = _ := hsc
    exact ⟨us ++ [t], [], by simp, hscopes.close hc, .item⟩

theorem atEnd?_eq_none {stop : Token} (h : r.atEnd? stop = none) :
    r.phase = .item ∧ r.scopes = [] := by
  unfold atEnd? at h
  split at h
  · split_ifs at h with hs
    exact ⟨‹_›, by simpa using hs⟩
  · cases h
  · split at h <;> cases h
  · cases h

/-- The invariant of a run: what was read before stays in front. -/
theorem items_of_run (hrule : rule.Admits) {stop : Token} {found : List Declaration} :
    ∀ {ts before : List Token} {r : Reader}, ReaderRead rule r before →
      (r.run stop ts).result = .ok found → Items rule [] (before ++ ts) found
  | [], before, r, hread, h => by
    obtain ⟨us, vs, rfl, hscopes, hp⟩ := hread
    unfold run at h
    split at h
    case h_2 => cases h
    case h_1 hend =>
    obtain ⟨hphase, hnone⟩ := atEnd?_eq_none hend
    rw [hphase] at hp
    rw [hnone] at hscopes
    cases h
    cases hp
    cases hscopes
    simpa
  | t :: ts, before, r, hread, h => by
    unfold run at h
    split at h
    case h_2 => cases h
    case h_1 r' hs =>
    simpa using items_of_run hrule (readerRead_step hrule hread hs) h

end

end Reader

/-! ## Both directions for headers -/

theorem isStructAlignment_iff {n : Nat} :
    isStructAlignment n = true ↔ n.isPowerOfTwo ∧ n ≤ maxStructAlignment := by
  have hpowers :
      [1, 2, 4, 8, 16, 32, 64, 128, maxStructAlignment] = (List.range 9).map (2 ^ ·) := by
    decide
  have hmem : isStructAlignment n = true ↔ ∃ k < 9, 2 ^ k = n := by
    rw [isStructAlignment, hpowers]
    simp
  have hmax : maxStructAlignment = 2 ^ 8 := rfl
  rw [hmem, hmax]
  constructor
  · rintro ⟨k, hk, rfl⟩
    exact ⟨⟨k, rfl⟩, Nat.pow_le_pow_right (by decide) (by omega)⟩
  · rintro ⟨⟨k, rfl⟩, hk⟩
    have := (Nat.pow_le_pow_iff_right (by decide : 1 < 2)).1 hk
    exact ⟨k, by omega, rfl⟩

theorem HeadRule.documented_admits : HeadRule.documented.Admits :=
  ⟨fun _ h => isStructAlignment_iff.1 h, fun slot => ⟨slot, rfl⟩⟩

/-- A struct head that headers can have is never refused. -/
theorem not_headRefusal_documented (e : ParseError) : ¬Reader.HeadRefusal .documented e := by
  rintro (⟨-, n, hn, ha⟩ | ⟨-, m, ⟨slot, rfl⟩, hm⟩)
  · simp [isStructAlignment_iff.2 hn] at ha
  · simp [Marker.register?] at hm

namespace TokenStream

theorem items_of_read {s : TokenStream} {ds : List Declaration} (h : s.read.1 = .ok ds) :
    Grammar.Items .documented [] s.ahead ds :=
  Reader.items_of_run HeadRule.documented_admits (Reader.readerRead_start _) h

theorem read_of_items {s : TokenStream} {ds : List Declaration}
    (h : Grammar.Items .documented [] s.ahead ds) : s.read.1 = .ok ds := by
  have hpasses : Reader.Passes .documented ⟨[], [], .item⟩ ⟨[], [] ++ ds, .item⟩ s.ahead :=
    Reader.passes_items rfl h
  rcases hpasses s.stop [] with hrun | ⟨e, left, -, he⟩
  · have : s.read.1 = (Reader.run s.stop ⟨[], ds, .item⟩ []).result := by
      simpa [read, Reader.start] using congrArg ReadResult.result hrun
    rw [this]
    rfl
  · exact absurd he (not_headRefusal_documented e)

/-- **Reading accepts exactly the grammar, and finds exactly what the derivation denotes.** -/
theorem read_eq_ok_iff (ts : List Token) (ds : List Declaration) :
    (ofTokens ts).read.1 = .ok ds ↔
      Grammar.Items .documented [] (ts.takeWhile fun t => t.kind ≠ .eof) ds := by
  have hahead : (ofTokens ts).ahead = ts.takeWhile fun t => t.kind ≠ .eof := by simp [ofTokens]
  rw [← hahead]
  exact ⟨items_of_read, read_of_items⟩

end TokenStream

end ShaderInterface
