import ShaderInterface.Emission
import ShaderInterface.Proofs.Lexical.Lines

/-!
# Reading emitted text

The text of structured buffers is a header again. Its lines are read one by one, the aggregates as
structs without markers and comments as nothing (`readHeader_emit`), provided that the names in it
are identifiers.
-/
namespace ShaderInterface

namespace ShaderType

/-- The spelling of a type can be read as a name. -/
theorem isIdentifier_text (t : ShaderType) : IsIdentifier t.text := by
  rcases t with ⟨scalar, width⟩ | _
  · cases scalar <;> cases width <;> exact ⟨by decide +kernel, by decide⟩
  · exact ⟨by decide +kernel, by decide⟩

/-- A type is found by its own spelling. -/
theorem ofName?_text (t : ShaderType) : ofName? t.text = some t := by
  rcases t with ⟨scalar, width⟩ | _
  · cases scalar <;> cases width <;> rfl
  · rfl

end ShaderType

theorem Text.not_mem_toDigits {c : Char} (h : c.isDigit = false) (n : Nat) :
    c ∉ Nat.toDigits 10 n := by
  intro hmem
  rw [Nat.isDigit_of_mem_toDigits (by decide) (by decide) hmem] at h
  cases h

/-- All names of the aggregate can be read as names. -/
structure Aggregate.Nameable (a : Aggregate) : Prop where
  name : IsIdentifier a.name
  member : ∀ m ∈ a.members, IsIdentifier m.name

namespace Emission

/-! ## Characters of lines -/

theorem toList_titleLine (a : Aggregate) :
    (titleLine .structuredBuffer a).toList = "struct".toList ++ ' ' :: a.name.toList :=
  String.toList_append

theorem toList_memberLine (indent : Nat) (m : Member) :
    (memberLine .structuredBuffer indent m).toList = List.replicate indent ' ' ++
      (m.type.text.toList ++ ' ' :: (m.name.toList ++ [';'])) := by
  have hline : memberLine .structuredBuffer indent m =
      String.ofList (List.replicate indent ' ') ++ (m.type.text ++ " " ++ m.name) ++ ";" := rfl
  rw [hline]
  simp

theorem not_special_struct {c : Char} (hc : c ∈ "struct".toList) :
    c ∉ LexicalRules.headers.specials := by
  have hname : isName "struct".toList = true := by decide +kernel
  exact LexicalRules.not_special_of_isWordChar (isWordChar_of_isName hname c hc)

/-- No special character but a blank stands in a title. -/
theorem not_mem_titleLine {a : Aggregate} (h : IsIdentifier a.name) {c : Char}
    (hc : c ∈ LexicalRules.headers.specials) (hblank : c ≠ ' ') :
    c ∉ (titleLine .structuredBuffer a).toList := by
  rw [toList_titleLine, List.mem_append, List.mem_cons]
  rintro (hmem | hmem | hmem)
  · exact not_special_struct hmem hc
  · exact hblank hmem
  · exact h.not_special hmem hc

/-- No special character but blanks stands in a field, behind any number of blanks. -/
theorem not_mem_field (indent : Nat) {m : Member} (h : IsIdentifier m.name) {c : Char}
    (hc : c ∈ LexicalRules.headers.specials) (hblank : c ≠ ' ') :
    c ∉ List.replicate indent ' ' ++ (m.type.text.toList ++ ' ' :: m.name.toList) := by
  rw [List.mem_append, List.mem_append, List.mem_cons]
  rintro (hmem | hmem | hmem | hmem)
  · exact hblank (List.eq_of_mem_replicate hmem)
  · exact m.type.isIdentifier_text.not_special hmem hc
  · exact hblank hmem
  · exact h.not_special hmem hc

/-- No special character but blanks and the semicolon stands on the line of a field. -/
theorem not_mem_memberLine (indent : Nat) {m : Member} (h : IsIdentifier m.name) {c : Char}
    (hc : c ∈ LexicalRules.headers.specials) (hblank : c ≠ ' ') (hsemicolon : c ≠ ';') :
    c ∉ (memberLine .structuredBuffer indent m).toList := by
  have hfield := not_mem_field indent h hc hblank
  rw [toList_memberLine]
  simp only [List.mem_append, List.mem_cons, List.not_mem_nil, or_false] at hfield ⊢
  tauto

/-! ## Keys of lines -/

/-- The keys of a field. -/
def memberKeys (m : Member) : List (TokenKind × String) :=
  [(.identifier, m.type.text), (.identifier, m.name), (.punctuator, ";")]

/-- The keys of an aggregate. -/
def blockKeys (a : Aggregate) : List (TokenKind × String) :=
  [(.keyword, "struct"), (.identifier, a.name), (.grouper, String.ofList ['{'])] ++
    a.members.flatMap memberKeys ++ [(.grouper, String.ofList ['}']), (.punctuator, ";")]

/-- The comment on an element that claims the register `slot`. -/
def strideLine (slot size : Nat) : String :=
  "// register(t" ++ toString slot ++ "), stride " ++ toString size

theorem strideLines_eq (a : Aggregate) :
    strideLines .structuredBuffer a = a.register.toList.map fun slot => strideLine slot a.size := by
  unfold strideLines
  cases a.register <;> rfl

theorem toList_strideLine (slot size : Nat) :
    (strideLine slot size).toList = "// register(t".toList ++ Nat.toDigits 10 slot ++
      "), stride ".toList ++ Nat.toDigits 10 size := by
  unfold strideLine
  simp only [String.toList_append, Nat.toString_eq_repr, Nat.toList_repr]

section
variable (expected : List Char)

theorem nestAll_blanks (n : Nat) :
    nestAll expected (List.replicate n ⟨.delimiter, [' ']⟩) = some expected := by
  induction n with
  | zero => rfl
  | succ n ih => exact ih

theorem read_title {a : Aggregate} (h : IsIdentifier a.name) :
    LinesRead [titleLine .structuredBuffer a] expected expected
      [(.keyword, "struct"), (.identifier, a.name)] := by
  have hscan : LexicalRules.headers.scan (titleLine .structuredBuffer a).toList =
      ⟨[wordPiece "struct", ⟨.delimiter, [' ']⟩, wordPiece a.name], none⟩ := by
    have hname : LexicalRules.headers.scan (a.name.toList ++ []) = ⟨[wordPiece a.name], none⟩ :=
      scan_identifier h id
    rw [List.append_nil] at hname
    rw [toList_titleLine, LexicalRules.scan_word LexicalRules.wellFormed_headers (by decide)
      (fun _ => not_special_struct) (LexicalRules.not_startsWord_blank _), LexicalRules.scan_blank,
      hname]
    rfl
  refine .single hscan (not_mem_titleLine h (by decide) (by decide)) rfl ?_
  have hstruct : (wordPiece "struct").key? .headers = some (.keyword, "struct") := by decide +kernel
  rw [List.filterMap_cons_some hstruct, List.filterMap_cons_none (Piece.key?_delimiter _ _),
    List.filterMap_cons_some (key?_wordPiece h), List.filterMap_nil]

theorem read_member (indent : Nat) {m : Member} (h : IsIdentifier m.name) :
    LinesRead [memberLine .structuredBuffer indent m] expected expected (memberKeys m) := by
  have htype := m.type.isIdentifier_text
  have hscan : LexicalRules.headers.scan (memberLine .structuredBuffer indent m).toList =
      ⟨List.replicate indent ⟨.delimiter, [' ']⟩ ++ [wordPiece m.type.text, ⟨.delimiter, [' ']⟩,
        wordPiece m.name, ⟨.token .terminator, [';']⟩], none⟩ := by
    rw [toList_memberLine, LexicalRules.scan_blanks,
      scan_identifier htype (LexicalRules.not_startsWord_blank _), LexicalRules.scan_blank,
      scan_identifier h (LexicalRules.not_startsWord_semicolon _), LexicalRules.scan_semicolon]
    rfl
  refine .single hscan (not_mem_memberLine indent h (by decide) (by decide) (by decide)) ?_ ?_
  · rw [nestAll_append, nestAll_blanks]
    rfl
  · have hblanks : (List.replicate indent (⟨.delimiter, [' ']⟩ : Piece)).filterMap
        (Piece.key? .headers) = [] :=
      List.filterMap_replicate_of_none rfl
    rw [List.filterMap_append, hblanks, List.nil_append,
      List.filterMap_cons_some (key?_wordPiece htype),
      List.filterMap_cons_none (Piece.key?_delimiter _ _), List.filterMap_cons_some (key?_wordPiece h),
      List.filterMap_cons_some Piece.key?_semicolon, List.filterMap_nil, memberKeys]

theorem read_openLine :
    LinesRead [openLine] expected ('}' :: expected) [(.grouper, String.ofList ['{'])] :=
  .single (LexicalRules.scan_openBrace []) (by decide) rfl rfl

theorem read_closeLine : LinesRead [closeLine] ('}' :: expected) expected
    [(.grouper, String.ofList ['}']), (.punctuator, ";")] := by
  have hscan := LexicalRules.scan_closeBrace [';']
  rw [LexicalRules.scan_semicolon] at hscan
  exact .single hscan (by decide) rfl rfl

theorem read_empty : LinesRead [""] expected expected [] := .single rfl (by decide) rfl rfl

theorem read_comment {l : String} (cs : List Char) (hl : l.toList = '/' :: '/' :: cs)
    (hnewline : '\n' ∉ cs) (hescape : '\\' ∉ cs) : LinesRead [l] expected expected [] := by
  refine .single (hl ▸ LexicalRules.scan_comment hnewline) ?_ rfl rfl
  simpa [hl] using hescape

theorem read_members (indent : Nat) {ms : List Member} (h : ∀ m ∈ ms, IsIdentifier m.name) :
    LinesRead (ms.map (memberLine .structuredBuffer indent)) expected expected
      (ms.flatMap memberKeys) := by
  induction ms with
  | nil => exact .nil expected
  | cons m ms ih =>
    exact (read_member expected indent (h m List.mem_cons_self)).append
      (ih fun m' hm' => h m' (List.mem_cons_of_mem m hm'))

theorem read_stride (a : Aggregate) :
    LinesRead (strideLines .structuredBuffer a) expected expected [] := by
  rw [strideLines_eq]
  cases a.register with
  | none => exact .nil expected
  | some slot =>
    refine read_comment expected (" register(t".toList ++ Nat.toDigits 10 slot ++
      "), stride ".toList ++ Nat.toDigits 10 a.size) ?_ ?_ ?_
    · rw [toList_strideLine]
      rfl
    · simp [Text.not_mem_toDigits]
    · simp [Text.not_mem_toDigits]

/-- The lines of an aggregate. -/
theorem read_block (indent : Nat) {a : Aggregate} (h : a.Nameable) :
    LinesRead (block .structuredBuffer indent a) expected expected (blockKeys a) := by
  have hhead := (read_title expected h.name).append (read_openLine expected)
  have hbody := hhead.append (read_members ('}' :: expected) indent h.member)
  have hend := (hbody.append (read_closeLine expected)).append (read_stride expected a)
  rw [List.append_nil] at hend
  exact hend

theorem read_joinBlocks (indent : Nat) : ∀ {as : List Aggregate}, (∀ a ∈ as, a.Nameable) →
    LinesRead (joinBlocks (as.map (block .structuredBuffer indent))) expected expected
      (as.flatMap blockKeys)
  | [], _ => .nil expected
  | [a], h => by simpa [joinBlocks] using read_block expected indent (h a List.mem_cons_self)
  | a :: b :: as, h => by
    have hfirst := read_block expected indent (h a List.mem_cons_self)
    have hrest := read_joinBlocks indent fun a' ha' => h a' (List.mem_cons_of_mem a ha')
    have hall := (hfirst.append (read_empty expected)).append hrest
    rw [List.append_nil] at hall
    exact hall

end

theorem read_header (options : EmitOptions) :
    LinesRead (if options.header then [headerLine] else []) [] [] [] := by
  split
  · exact read_comment [] (headerLine.toList.drop 2) (by decide) (by decide) (by decide)
  · exact .nil []

end Emission

/-! ## Structs without markers -/

/-- The field spells the member in the shader language. -/
structure FieldDecl.Spells (f : FieldDecl) (m : Member) : Prop where
  name : f.name = m.name
  type : f.type.segments = [m.type.text]
  markers : f.markers = []

/-- The struct spells the aggregate in the shader language: without a namespace, an alignment or a
register. -/
structure StructDecl.Spells (d : StructDecl) (a : Aggregate) : Prop where
  name : d.name = a.name
  path : d.path = []
  alignment : d.alignment = none
  register : d.register = none
  fields : List.Forall₂ FieldDecl.Spells d.fields a.members

theorem Token.key_eq_iff {t : Token} {kind : TokenKind} {text : String} :
    t.key = (kind, text) ↔ t.kind = kind ∧ t.text = text := by
  simp [key]

namespace Emission

open Grammar

theorem members_of_keys {ms : List Member} {ts : List Token}
    (h : ts.map Token.key = ms.flatMap memberKeys) :
    ∃ fs : List FieldDecl, Many MemberPhrase ts (fs.map some) ∧
      List.Forall₂ FieldDecl.Spells fs ms := by
  induction ms generalizing ts with
  | nil =>
    obtain rfl : ts = [] := by simpa using h
    exact ⟨[], .nil, .nil⟩
  | cons m ms ih =>
    simp only [List.flatMap_cons, memberKeys, List.cons_append, List.nil_append,
      List.map_eq_cons_iff, Token.key_eq_iff] at h
    obtain ⟨ty, _, rfl, ⟨htype, htext⟩, n, _, rfl, ⟨hn, hname⟩, e, ts, rfl, ⟨he, hend⟩, hrest⟩ := h
    obtain ⟨fs, hfs, hspells⟩ := ih hrest
    have htypePhrase : TypePhrase [ty] ⟨[ty.text], ty.location⟩ :=
      .plain (.mk (Token.isIdentifier_iff.2 htype) .nil)
    have hfield : MemberPhrase [ty, n, e]
        (some ⟨n.text, ⟨[ty.text], ty.location⟩, [], n.location⟩) :=
      .field htypePhrase (Token.isIdentifier_iff.2 hn) .nil (Token.isPunctuator_iff.2 ⟨he, hend⟩)
    exact ⟨_ :: fs, .cons hfield hfs, .cons ⟨hname, by rw [htext], rfl⟩ hspells⟩

/-- The tokens of an aggregate are a struct that spells it. -/
theorem item_of_keys {a : Aggregate} {ts : List Token} (h : ts.map Token.key = blockKeys a) :
    ∃ d, Item .documented [] ts [.aggregate d] ∧ d.Spells a := by
  simp only [blockKeys, List.cons_append, List.nil_append, List.map_eq_cons_iff,
    List.map_eq_append_iff, Token.key_eq_iff] at h
  obtain ⟨k, _, rfl, ⟨hk, hstruct⟩, n, _, rfl, ⟨hn, hname⟩, o, _, rfl, ⟨ho, hopen⟩, bs, _, rfl,
    hmembers, c, _, rfl, ⟨hc, hclose⟩, e, _, rfl, ⟨he, hend⟩, hrest⟩ := h
  obtain rfl := List.map_eq_nil_iff.1 hrest
  obtain ⟨fs, hfs, hspells⟩ := members_of_keys hmembers
  have hhead : HeadPhrase .documented (k :: [] ++ [n]) ⟨none, n.name⟩ :=
    .mk (Token.isStruct_iff.2 ⟨hk, .inl hstruct⟩) .none (Token.isIdentifier_iff.2 hn)
  have hbody : BodyPhrase .documented (k :: n :: o :: bs) ⟨⟨none, n.name⟩, none, fs⟩ := by
    have := BodyPhrase.mk hhead .nil (by simp) (.none (by simp))
      (Token.isGrouper_iff.2 ⟨ho, by simp [hopen]⟩) hfs
    simpa [List.filterMap_map] using this
  refine ⟨declarationOf [] ⟨⟨none, n.name⟩, none, fs⟩, ?_, ⟨hname, rfl, rfl, rfl, hspells⟩⟩
  have hitem : Item .documented [] (k :: n :: o :: bs ++ c :: [e])
      [.aggregate (declarationOf [] ⟨⟨none, n.name⟩, none, fs⟩)] :=
    .aggregate hbody (Token.isGrouper_iff.2 ⟨hc, by simp [hclose]⟩)
      (.present (Token.isPunctuator_iff.2 ⟨he, hend⟩))
  simpa using hitem

theorem items_of_keys {as : List Aggregate} {ts : List Token}
    (h : ts.map Token.key = as.flatMap blockKeys) :
    ∃ ds : List StructDecl, Items .documented [] ts (ds.map .aggregate) ∧
      List.Forall₂ StructDecl.Spells ds as := by
  induction as generalizing ts with
  | nil =>
    obtain rfl : ts = [] := by simpa using h
    exact ⟨[], .nil, .nil⟩
  | cons a as ih =>
    obtain ⟨us, vs, rfl, hus, hvs⟩ := List.map_eq_append_iff.1 h
    obtain ⟨d, hitem, hd⟩ := item_of_keys hus
    obtain ⟨ds, hitems, hds⟩ := ih hvs
    exact ⟨d :: ds, .cons hitem hitems, .cons hd hds⟩

end Emission

/-- The lines of the text of structured buffers. -/
def Emission.linesOf (options : EmitOptions) (types : List Aggregate) : List String :=
  (if options.header then [headerLine] else []) ++
    joinBlocks (types.map (block .structuredBuffer options.indent))

theorem emit_eq_unlines (options : EmitOptions) {types : List Aggregate}
    (hkind : ∀ a ∈ types, a.kind = .structuredBuffer) :
    emit .structuredBuffer types options = Text.unlines (Emission.linesOf options types) := by
  have hfilter : types.filter (fun a => a.kind == .structuredBuffer) = types :=
    List.filter_eq_self.2 fun a ha => by simp [hkind a ha]
  rw [emit, hfilter]
  rfl

/-- The text of structured buffers is a header that spells them. -/
theorem readHeader_emit (options : EmitOptions) {types : List Aggregate}
    (hkind : ∀ a ∈ types, a.kind = .structuredBuffer) (hnames : ∀ a ∈ types, a.Nameable) :
    ∃ ds : List StructDecl,
      readHeader (emit .structuredBuffer types options) = .ok (ds.map .aggregate) ∧
        List.Forall₂ StructDecl.Spells ds types := by
  have hlines := (Emission.read_header options).append
    (Emission.read_joinBlocks [] options.indent hnames)
  obtain ⟨found, htokens, hkeys⟩ := hlines.tokenize
  obtain ⟨ds, hitems, hds⟩ := Emission.items_of_keys hkeys
  refine ⟨ds, ?_, hds⟩
  rw [emit_eq_unlines options hkind]
  exact readHeader_eq_ok_iff.2 ⟨found, htokens, hitems⟩

end ShaderInterface
