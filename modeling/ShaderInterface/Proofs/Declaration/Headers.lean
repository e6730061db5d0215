import ShaderInterface.Catalog
import ShaderInterface.Proofs.Declaration.Soundness
import ShaderInterface.Proofs.Lexical.Spans

/-!
# Headers, their tokens and their names

A header is read if its text is cut into tokens and the tokens are items of the grammar
(`readHeader_eq_ok_iff`). The name of a struct and of each of its fields is then an identifier of the
header, and the declaration stands where this identifier stands (`identifierAt_of_readHeader`).
-/
namespace ShaderInterface

/-! ## Classified tokens -/

/-- A token with its kind and its place in the text. -/
def RawToken.classified (rules : LexicalRules) (text : List Char) (t : RawToken) : Token :=
  ⟨t.kind rules, t.text, locate text t.start, t.length⟩

theorem LexicalRules.classify_ne_eof (rules : LexicalRules) (word : String) :
    rules.classify word ≠ .eof := by
  unfold classify
  split_ifs
  · simp
  · split
    · simp
    · split_ifs <;> simp

theorem RawToken.kind_ne_eof (rules : LexicalRules) (t : RawToken) : t.kind rules ≠ .eof := by
  unfold RawToken.kind
  split <;> simp [rules.classify_ne_eof]

/-- An identifier is a word that is a name and no keyword. -/
theorem RawToken.isName_of_kind {rules : LexicalRules} {t : RawToken}
    (h : t.kind rules = .identifier) :
    isName t.text.toList = true ∧ t.text ∉ rules.keywords := by
  unfold RawToken.kind at h
  split at h <;> try cases h
  unfold LexicalRules.classify at h
  split_ifs at h with hkeyword
  split at h
  · cases h
  · next c cs htext =>
    split_ifs at h with hdigit hname
    exact ⟨htext ▸ hname, by simpa using hkeyword⟩

theorem isWordChar_of_isName {cs : List Char} (h : isName cs = true) :
    ∀ c ∈ cs, Text.isWordChar c = true := by
  cases cs with
  | nil => simp
  | cons c cs =>
    simp only [isName, Bool.and_eq_true, Bool.or_eq_true, List.all_eq_true] at h
    intro d hd
    rcases List.mem_cons.1 hd with rfl | hd
    · rcases h.1 with hletter | hunderscore
      · simp [Text.isWordChar, hletter]
      · simp [Text.isWordChar, hunderscore]
    · exact h.2 d hd

/-- A token starts in front of a character of the text. -/
theorem LexicalRules.start_of_tokenize {rules : LexicalRules} (wf : rules.WellFormed)
    {source : String} {found : Tokenized} (h : rules.tokenize source = .ok found) {t : RawToken}
    (ht : t ∈ found.tokens) :
    ∃ before behind, source.toList = before ++ behind ∧ t.start = Text.byteLength before := by
  obtain ⟨hfault, rfl⟩ := scan_of_tokenize h
  have htiling := tiling_scan wf source.toList (Scan.unended_of_fault? hfault)
  obtain ⟨chars, ⟨before, behind, htext, hspan⟩, -⟩ := htiling.tiles.spelled t ht
  exact ⟨before, chars ++ behind, by simpa using htext, congrArg ByteRange.start hspan⟩

/-! ## Reading a header -/

/-- The end-of-file token is the first one of its kind, so all tokens before it are read. -/
theorem ahead_ofTokens_classified (rules : LexicalRules) (text : List Char) (ts : List RawToken) :
    (TokenStream.ofTokens (ts.map (RawToken.classified rules text) ++ [endToken text])).ahead =
      ts.map (RawToken.classified rules text) := by
  have hread : ∀ t ∈ ts.map (RawToken.classified rules text), t.kind ≠ .eof := by
    intro t ht
    obtain ⟨raw, -, rfl⟩ := List.mem_map.1 ht
    exact raw.kind_ne_eof rules
  simp only [TokenStream.ofTokens]
  rw [List.takeWhile_append_of_pos (by simpa using hread)]
  simp [endToken]

theorem readHeader_of_tokenize {source : String} {found : Tokenized}
    (h : LexicalRules.headers.tokenize source = .ok found) :
    readHeader source = (TokenStream.ofTokens (found.tokens.map
      (RawToken.classified .headers source.toList) ++ [endToken source.toList])).read.1.mapError
        .parse := by
  have htokens : found.tokens.map (RawToken.classified .headers source.toList) =
    found.tokens.map fun t =>
      ⟨t.kind .headers, t.text, locate source.toList t.start, t.length⟩ := rfl
  rw [htokens]
  simp only [readHeader, LexicalRules.lex, h]
  split
  · next e hread => rw [hread]; rfl
  · next ds hread => rw [hread]; rfl

/-- A header is read if it is cut into tokens and the tokens are items. -/
theorem readHeader_eq_ok_iff {source : String} {ds : List Declaration} :
    readHeader source = .ok ds ↔ ∃ found, LexicalRules.headers.tokenize source = .ok found ∧
      Grammar.Items .documented []
        (found.tokens.map (RawToken.classified .headers source.toList)) ds := by
  constructor
  · intro h
    cases htokenize : LexicalRules.headers.tokenize source with
    | error e => simp [readHeader, LexicalRules.lex, htokenize] at h
    | ok found =>
      refine ⟨found, rfl, ?_⟩
      rw [readHeader_of_tokenize htokenize] at h
      rw [← ahead_ofTokens_classified]
      cases hread : (TokenStream.ofTokens (found.tokens.map
          (RawToken.classified .headers source.toList) ++ [endToken source.toList])).read.1 with
      | error e => simp [hread, Except.mapError] at h
      | ok ds' =>
        obtain rfl : ds' = ds := by simpa [hread, Except.mapError] using h
        exact TokenStream.items_of_read hread
  · rintro ⟨found, htokenize, hitems⟩
    rw [← ahead_ofTokens_classified] at hitems
    rw [readHeader_of_tokenize htokenize, TokenStream.read_of_items hitems]
    rfl

/-! ## Names -/

namespace Grammar

/-- One of the tokens is the identifier `name` and stands at `location`. -/
def NamedIn (ts : List Token) (name : String) (location : Location) : Prop :=
  ∃ t ∈ ts, t.isIdentifier = true ∧ t.text = name ∧ t.location = location

theorem NamedIn.mono {ts us : List Token} {name : String} {location : Location}
    (h : NamedIn ts name location) (hsub : ts ⊆ us) : NamedIn us name location := by
  obtain ⟨t, ht, hname⟩ := h
  exact ⟨t, hsub ht, hname⟩

/-- The tokens hold the name of a field and the name in its semantic marker. -/
structure FieldNames (ts : List Token) (f : FieldDecl) : Prop where
  name : NamedIn ts f.name f.location
  semantic : ∀ s ∈ f.semantic?, ∃ location, NamedIn ts s location

theorem FieldNames.mono {ts us : List Token} {f : FieldDecl} (h : FieldNames ts f) (hsub : ts ⊆ us) :
    FieldNames us f := by
  refine ⟨h.name.mono hsub, ?_⟩
  intro s hs
  obtain ⟨location, hnamed⟩ := h.semantic s hs
  exact ⟨location, hnamed.mono hsub⟩

theorem semantic_of_markers {ts : List Token} {markers : List Marker}
    (h : Many MarkerPhrase ts markers) {s : String}
    (hs : markers.findSome? Marker.semantic? = some s) : ∃ location, NamedIn ts s location := by
  induction h with
  | nil => simp at hs
  | @cons us vs m ms hm _ ih =>
    rw [List.findSome?_cons] at hs
    split at hs
    · next s' hs' =>
      obtain rfl : s' = s := Option.some.inj hs
      cases hm with
      | @semantic w o v c _ _ _ hv _ =>
        obtain rfl : v.text = s' := Option.some.inj hs'
        exact ⟨v.location, v, by simp, hv, rfl, rfl⟩
      | register => cases hs'
      | instanceData => cases hs'
    · obtain ⟨location, hnamed⟩ := ih hs
      exact ⟨location, hnamed.mono (List.subset_append_right us vs)⟩

theorem MemberPhrase.named {ts : List Token} {f : FieldDecl} (h : MemberPhrase ts (some f)) :
    FieldNames ts f := by
  cases h with
  | field _ hn hmarkers _ =>
    refine ⟨⟨_, by simp, hn, rfl, rfl⟩, fun s hs => ?_⟩
    obtain ⟨location, hnamed⟩ := semantic_of_markers hmarkers hs
    exact ⟨location, hnamed.mono fun t ht => by simp [ht]⟩

theorem named_of_members {ts : List Token} {members : List (Option FieldDecl)}
    (h : Many MemberPhrase ts members) : ∀ f ∈ members.filterMap id, FieldNames ts f := by
  induction h with
  | nil => simp
  | @cons us vs m ms hm _ ih =>
    intro f hf
    rcases List.mem_filterMap.1 hf with ⟨m', hm', rfl⟩
    rcases List.mem_cons.1 hm' with rfl | hm'
    · exact hm.named.mono (List.subset_append_left us vs)
    · exact (ih f (List.mem_filterMap.2 ⟨_, hm', rfl⟩)).mono (List.subset_append_right us vs)

theorem HeadPhrase.named {rule : HeadRule} {ts : List Token} {head : StructHead}
    (h : HeadPhrase rule ts head) : NamedIn ts head.name.text head.name.location := by
  obtain ⟨-, -, hn⟩ := h
  exact ⟨_, by simp, hn, rfl, rfl⟩

theorem BodyPhrase.named {rule : HeadRule} {ts : List Token} {body : StructBody}
    (h : BodyPhrase rule ts body) : NamedIn ts body.head.name.text body.head.name.location ∧
      ∀ f ∈ body.fields, FieldNames ts f := by
  obtain ⟨hhead, -, -, -, -, hmembers⟩ := h
  refine ⟨hhead.named.mono (by simp), fun f hf => (named_of_members hmembers f hf).mono ?_⟩
  intro t ht
  simp [ht]

/-- The tokens hold the names of a struct and of its fields. -/
def Names (ts : List Token) (d : StructDecl) : Prop :=
  NamedIn ts d.name d.location ∧ ∀ f ∈ d.fields, FieldNames ts f

theorem Names.mono {ts us : List Token} {d : StructDecl} (h : Names ts d) (hsub : ts ⊆ us) :
    Names us d :=
  ⟨h.1.mono hsub, fun f hf => (h.2 f hf).mono hsub⟩

mutual

theorem Item.names {rule : HeadRule} {path : List String} {ts : List Token}
    {ds : List Declaration} {d : StructDecl} :
    Item rule path ts ds → .aggregate d ∈ ds → Names ts d
  | .namespaceBlock _ _ _ hbody _, hd =>
    (Items.names hbody hd).mono fun t ht => by simp [ht]
  | .alias .., hd => by simp at hd
  | .aggregate hbody _ _, hd => by
    obtain rfl : d = declarationOf path _ := by simpa using hd
    have hnames : Names _ (declarationOf path _) := hbody.named
    exact hnames.mono (List.subset_append_left _ _)
  | .forward .., hd => by simp at hd
  | .semicolon _, hd => by simp at hd

theorem Items.names {rule : HeadRule} {path : List String} {ts : List Token}
    {ds : List Declaration} {d : StructDecl} :
    Items rule path ts ds → .aggregate d ∈ ds → Names ts d
  | .nil, hd => by simp at hd
  | .cons hi his, hd => by
    rcases List.mem_append.1 hd with hd | hd
    · exact (Item.names hi hd).mono (List.subset_append_left _ _)
    · exact (Items.names his hd).mono (List.subset_append_right _ _)

end

end Grammar

/-- The header has the identifier `name`, and it stands at `location`. -/
def IdentifierAt (source name : String) (location : Location) : Prop :=
  ∃ found t, LexicalRules.headers.tokenize source = .ok found ∧ t ∈ found.tokens ∧
    t.kind .headers = .identifier ∧ t.text = name ∧ locate source.toList t.start = location

/-- The tokens of a header that is read hold the names of its structs. -/
theorem names_of_readHeader {source : String} {ds : List Declaration} {d : StructDecl}
    (hread : readHeader source = .ok ds) (hd : .aggregate d ∈ ds) :
    ∃ found, LexicalRules.headers.tokenize source = .ok found ∧
      Grammar.Names (found.tokens.map (RawToken.classified .headers source.toList)) d := by
  obtain ⟨found, htokenize, hitems⟩ := readHeader_eq_ok_iff.1 hread
  exact ⟨found, htokenize, hitems.names hd⟩

/-- An identifier among the classified tokens is one of the tokens found. -/
theorem Grammar.NamedIn.identifierAt {source name : String} {location : Location} {found : Tokenized}
    (htokenize : LexicalRules.headers.tokenize source = .ok found)
    (h : NamedIn (found.tokens.map (RawToken.classified .headers source.toList)) name location) :
    IdentifierAt source name location := by
  obtain ⟨t, ht, hid, htext, hlocation⟩ := h
  obtain ⟨raw, hraw, rfl⟩ := List.mem_map.1 ht
  exact ⟨found, raw, htokenize, hraw, Token.isIdentifier_iff.1 hid, htext, hlocation⟩

theorem identifierAt_of_readHeader {source : String} {ds : List Declaration} {d : StructDecl}
    (hread : readHeader source = .ok ds) (hd : .aggregate d ∈ ds) :
    IdentifierAt source d.name d.location ∧
      ∀ f ∈ d.fields, IdentifierAt source f.name f.location := by
  obtain ⟨found, htokenize, hname, hfields⟩ := names_of_readHeader hread hd
  exact ⟨hname.identifierAt htokenize, fun f hf => (hfields f hf).name.identifierAt htokenize⟩

/-- The semantic in a marker is an identifier of the header. -/
theorem identifierAt_semantic {source : String} {ds : List Declaration} {d : StructDecl}
    {f : FieldDecl} {s : String} (hread : readHeader source = .ok ds) (hd : .aggregate d ∈ ds)
    (hf : f ∈ d.fields) (hs : f.semantic? = some s) : ∃ location, IdentifierAt source s location := by
  obtain ⟨found, htokenize, -, hfields⟩ := names_of_readHeader hread hd
  obtain ⟨location, hnamed⟩ := (hfields f hf).semantic s hs
  exact ⟨location, hnamed.identifierAt htokenize⟩

namespace IdentifierAt

variable {source name : String} {location : Location}

theorem isName (h : IdentifierAt source name location) : isName name.toList = true := by
  obtain ⟨found, t, -, -, hkind, rfl, -⟩ := h
  exact (RawToken.isName_of_kind hkind).1

theorem not_keyword (h : IdentifierAt source name location) :
    name ∉ LexicalRules.headers.keywords := by
  obtain ⟨found, t, -, -, hkind, rfl, -⟩ := h
  exact (RawToken.isName_of_kind hkind).2

/-- An identifier starts in front of a character of the header. -/
theorem split (h : IdentifierAt source name location) :
    ∃ before behind, source.toList = before ++ behind ∧
      location = locate source.toList (Text.byteLength before) := by
  obtain ⟨found, t, htokenize, ht, -, -, rfl⟩ := h
  obtain ⟨before, behind, hsource, hstart⟩ :=
    LexicalRules.start_of_tokenize LexicalRules.wellFormed_headers htokenize ht
  exact ⟨before, behind, hsource, by rw [hstart]⟩

end IdentifierAt

end ShaderInterface
