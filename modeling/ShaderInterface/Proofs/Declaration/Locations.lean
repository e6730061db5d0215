import ShaderInterface.Proofs.Declaration.Headers

/-!
# Where errors and declarations stand

A reader makes no locations of its own. All those in what it has read so far, and the one in its
error, are locations of tokens (`Reader.within_step`, `Reader.within_run`). So every location that
comes out of a header, with an error or without, is that of a character of the header or of its end
(`liesIn_of_readHeader`, `standsIn_of_readHeader`).
-/
namespace ShaderInterface

/-! ## Locations of a text -/

/-- The location is that of a character of the text or of its end. -/
def Location.LiesIn (text : String) (l : Location) : Prop :=
  ∃ before behind, text.toList = before ++ behind ∧ l = locate text.toList (Text.byteLength before)

/-! ## Locations in declarations -/

def FieldDecl.locations (f : FieldDecl) : List Location := [f.location, f.type.location]

def Declaration.locations : Declaration → List Location
  | .aggregate d => d.location :: d.fields.flatMap FieldDecl.locations
  | .typeAlias d => [d.location, d.target.location]

def StructBody.locations (body : StructBody) : List Location :=
  body.head.name.location :: body.fields.flatMap FieldDecl.locations

def TypeSite.locations : TypeSite → List Location
  | .target name => [name.location]
  | .field body => body.locations

def MarkerSite.locations : MarkerSite → List Location
  | .aggregate head => [head.name.location]
  | .field body type name => name.location :: type.location :: body.locations

def Phase.locations : Phase → List Location
  | .aliasName name => [name.location]
  | .typeStart site => site.locations
  | .typeRoot site location => location :: site.locations
  | .typeColons site type | .typeName site type => type.location :: site.locations
  | .markers site _ | .markerWord site _ _ | .markerOpen site _ _ | .markerValue site _ _ =>
    site.locations
  | .members body | .access body => body.locations
  | _ => []

namespace Reader

/-- All locations that a reader holds. -/
def locations (r : Reader) : List Location :=
  r.phase.locations ++ r.declarations.flatMap Declaration.locations

/-! ## One token -/

/-- A step stays within the locations `ls`: the reader behind it, or the error. -/
def Within (ls : List Location) : Except Refusal Reader → Prop
  | .ok r => r.locations ⊆ ls
  | .error refusal => refusal.error.location ∈ ls

section
variable {r : Reader} {t : Token}

theorem within_ite {ls : List Location} {c : Prop} [Decidable c] {a b : Except Refusal Reader}
    (ha : Within ls a) (hb : Within ls b) : Within ls (if c then a else b) := by
  split
  · exact ha
  · exact hb

theorem within_unexpected (expected : Expected) :
    Within (t.location :: r.locations) (unexpected expected t) := List.mem_cons_self

theorem phase_subset : t.location :: r.phase.locations ⊆ t.location :: r.locations :=
  List.cons_subset_cons _ (List.subset_append_left _ _)

theorem declarations_subset :
    r.declarations.flatMap Declaration.locations ⊆ t.location :: r.locations :=
  List.subset_cons_of_subset _ (List.subset_append_right _ _)

theorem within_goto {phase : Phase} (h : phase.locations ⊆ t.location :: r.phase.locations) :
    Within (t.location :: r.locations) (.ok (r.goto phase)) := by
  have hdeclarations : r.declarations.flatMap Declaration.locations ⊆ t.location :: r.locations :=
    declarations_subset
  exact List.append_subset.2 ⟨List.Subset.trans h phase_subset, hdeclarations⟩

theorem within_declare {d : Declaration} (h : d.locations ⊆ t.location :: r.phase.locations) :
    Within (t.location :: r.locations) (.ok (r.declare d)) := by
  have hdeclared : (r.declare d).locations =
      r.declarations.flatMap Declaration.locations ++ d.locations := by
    simp [locations, declare, Phase.locations]
  show (r.declare d).locations ⊆ _
  rw [hdeclared]
  exact List.append_subset.2 ⟨declarations_subset, List.Subset.trans h phase_subset⟩

theorem within_stepItem : Within (t.location :: r.locations) (r.stepItem t) := by
  have hsame {scopes : List (List String)} :
      Within (t.location :: r.locations) (.ok { r with scopes := scopes }) :=
    List.subset_cons_self _ _
  unfold stepItem
  refine within_ite (within_goto (by simp [Phase.locations])) ?_
  refine within_ite (within_goto (by simp [Phase.locations])) ?_
  refine within_ite (within_goto (by simp [Phase.locations])) ?_
  refine within_ite hsame ?_
  split
  · exact within_unexpected _
  · exact within_ite hsame (within_unexpected _)

theorem within_stepHead {head : StructHead} {found : List Marker}
    (hhead : head.name.location ∈ r.phase.locations) :
    Within (t.location :: r.locations) (r.stepHead head found t) := by
  unfold stepHead
  split
  · exact phase_subset (List.mem_cons_of_mem _ hhead)
  · refine within_ite (within_goto (by simp [Phase.locations])) ?_
    refine within_ite (within_goto ?_) (within_unexpected _)
    intro l hl
    obtain rfl : l = head.name.location := by simpa [Phase.locations, StructBody.locations] using hl
    exact List.mem_cons_of_mem _ hhead

/-- A reader that takes a token holds only locations it held before and that of the token, and so
does its error. -/
theorem within_step (r : Reader) (t : Token) : Within (t.location :: r.locations) (r.step t) := by
  obtain ⟨scopes, ds, phase⟩ := r
  cases phase with
  | item => exact within_stepItem
  | namespaceStart | namespaceColons | aliasStart | aliasName | alignStart | alignValue | alignClose
  | typeRoot | typeColons | markerWord | markerValue | access =>
    simp only [step]
    refine within_ite (within_goto ?_) (within_unexpected _)
    simp [Phase.locations, TypeSite.locations, MarkerSite.locations, Token.name]
  | namespaceName segments =>
    simp only [step]
    refine within_ite (within_goto (by simp [Phase.locations])) (within_ite ?_ (within_unexpected _))
    exact List.subset_cons_self _ _
  | typeStart site =>
    simp only [step]
    refine within_ite (within_goto ?_) (within_ite (within_goto ?_) (within_unexpected _))
    · simp [Phase.locations]
    · simp [Phase.locations]
  | typeName site type =>
    simp only [step]
    refine within_ite (within_goto (by simp [Phase.locations])) ?_
    cases site with
    | target name =>
      refine within_ite (within_declare ?_) (within_unexpected _)
      simp [Phase.locations, TypeSite.locations, Declaration.locations]
    | field body =>
      refine within_ite (within_goto ?_) (within_unexpected _)
      simp [Phase.locations, TypeSite.locations, MarkerSite.locations, Token.name]
  | structStart =>
    simp only [step]
    refine within_ite (within_goto ?_) (within_ite (within_goto ?_) (within_unexpected _))
    · simp [Phase.locations]
    · simp [Phase.locations, MarkerSite.locations, Token.name]
  | alignOpen =>
    simp only [step]
    cases t.integer? with
    | none => exact within_unexpected _
    | some n => exact within_ite (within_goto (by simp [Phase.locations])) List.mem_cons_self
  | markers site found =>
    simp only [step]
    cases MarkerWord.ofToken? t with
    | some word => exact within_goto (by simp [Phase.locations])
    | none =>
      cases site with
      | aggregate head => exact within_stepHead (by simp [Phase.locations, MarkerSite.locations])
      | field body type name =>
        refine within_ite (within_goto ?_) (within_unexpected _)
        intro l hl
        simp only [Phase.locations, MarkerSite.locations, StructBody.locations, FieldDecl.locations,
          List.flatMap_append, List.flatMap_singleton, List.mem_cons, List.mem_append,
          List.not_mem_nil, or_false] at hl ⊢
        tauto
  | markerOpen site found word =>
    simp only [step]
    cases Marker.ofToken? word t with
    | none => exact within_unexpected _
    | some marker => exact within_goto (by simp [Phase.locations])
  | members body =>
    simp only [step]
    refine within_ite (within_declare ?_) ?_
    · simp [Phase.locations, Declaration.locations, StructBody.locations]
    refine within_ite (within_goto (by simp [Phase.locations])) ?_
    refine within_ite (within_goto (by simp [Phase.locations, TypeSite.locations])) ?_
    exact within_ite (within_goto (by simp [Phase.locations, TypeSite.locations]))
      (within_unexpected _)

end

/-! ## All tokens -/

theorem location_atEnd? {r : Reader} {stop : Token} {e : ParseError} (h : r.atEnd? stop = some e) :
    e.location ∈ stop.location :: r.locations := by
  unfold atEnd? at h
  split at h
  · split_ifs at h
    cases h
    exact List.mem_cons_self
  · cases h
    exact List.mem_cons_self
  · next head found hphase =>
    split at h
    · cases h
      simp [locations, hphase, Phase.locations, MarkerSite.locations]
    · cases h
      exact List.mem_cons_self
  · cases h
    exact List.mem_cons_self

/-- What comes out of a run stays within the locations `ls`. -/
def ResultWithin (ls : List Location) : Except ParseError (List Declaration) → Prop
  | .ok ds => ds.flatMap Declaration.locations ⊆ ls
  | .error e => e.location ∈ ls

/-- All locations that come out of a run are those of its tokens, or the reader held them before. -/
theorem within_run {ls : List Location} {stop : Token} (hstop : stop.location ∈ ls) :
    ∀ {ts : List Token} {r : Reader}, (∀ t ∈ ts, t.location ∈ ls) → r.locations ⊆ ls →
      ResultWithin ls (r.run stop ts).result
  | [], r, _, hr => by
    unfold run
    split
    · exact List.Subset.trans (List.subset_append_right _ _) hr
    · next e hend =>
      exact List.cons_subset.2 ⟨hstop, hr⟩ (location_atEnd? hend)
  | t :: ts, r, hts, hr => by
    have hstep := within_step r t
    have hall : t.location :: r.locations ⊆ ls :=
      List.cons_subset.2 ⟨hts t List.mem_cons_self, hr⟩
    unfold run
    cases hnext : r.step t with
    | ok r' =>
      rw [hnext] at hstep
      exact within_run hstop (fun u hu => hts u (List.mem_cons_of_mem t hu))
        (List.Subset.trans hstep hall)
    | error refusal =>
      rw [hnext] at hstep
      exact hall hstep

end Reader

/-! ## Faults of a text -/

/-- The pieces of a scan start the text, also when the scan stops early. -/
theorem LexicalRules.prefix_scan {rules : LexicalRules} (wf : rules.WellFormed) (text : List Char) :
    pieceChars (rules.scan text).pieces <+: text := by
  induction text using scan_induction wf with
  | nil => exact List.nil_prefix
  | stuck c cs u _ hscan =>
    rw [hscan]
    exact List.nil_prefix
  | piece c cs p rest _ htext _ hscan ih =>
    rw [hscan, htext]
    exact (List.prefix_append_right_inj p.chars).2 ih

/-- The check of groups stays within the offsets `offsets`. -/
def NestingWithin (offsets : List Nat) : Except UnexpectedClose (List OpenGroup) → Prop
  | .ok stack => ∀ group ∈ stack, group.offset ∈ offsets
  | .error e => e.offset ∈ offsets

theorem within_checkNesting {offsets : List Nat} {ps : List PlacedPiece} {stack : List OpenGroup}
    (hps : ∀ p ∈ ps, p.start ∈ offsets) (hstack : ∀ group ∈ stack, group.offset ∈ offsets) :
    NestingWithin offsets (checkNesting stack ps) := by
  induction ps generalizing stack with
  | nil => exact hstack
  | cons p ps ih =>
    obtain ⟨hp, hrest⟩ := List.forall_mem_cons.1 hps
    obtain ⟨start, ⟨kind, chars⟩⟩ := p
    cases kind with
    | token shape =>
      cases shape with
      | groupOpen opener closer => exact ih hrest (List.forall_mem_cons.2 ⟨hp, hstack⟩)
      | groupClose closer =>
        cases stack with
        | nil => exact hp
        | cons group outer =>
          simp only [checkNesting]
          split_ifs
          · exact ih hrest (List.forall_mem_cons.1 hstack).2
          · exact hp
      | word | punctuator | terminator | literal => exact ih hrest hstack
    | skipped | delimiter | danglingEscape => exact ih hrest hstack

/-- A fault is found in front of a piece, or behind all pieces. -/
theorem Scan.offset_of_fault? {s : Scan} {fault : LexFault} {offset : Nat}
    (h : s.fault? = some (fault, offset)) :
    ∃ first behind, s.pieces = first ++ behind ∧ offset = piecesLength first := by
  have hnesting : NestingWithin ((placePieces 0 s.pieces).map PlacedPiece.start)
      (checkNesting [] (placePieces 0 s.pieces)) :=
    within_checkNesting (fun p hp => List.mem_map_of_mem hp) (by simp)
  have hstart (h : offset ∈ (placePieces 0 s.pieces).map PlacedPiece.start) :
      ∃ first behind, s.pieces = first ++ behind ∧ offset = piecesLength first := by
    obtain ⟨q, hq, rfl⟩ := List.mem_map.1 h
    obtain ⟨first, behind, hpieces, hoffset⟩ := mem_placePieces.1 hq
    exact ⟨first, q.piece :: behind, hpieces, by rw [hoffset, Nat.zero_add]⟩
  unfold fault? at h
  cases hcheck : checkNesting [] (placePieces 0 s.pieces) with
  | error e =>
    simp only [hcheck] at h hnesting
    cases h
    exact hstart hnesting
  | ok stack =>
    simp only [hcheck] at h hnesting
    cases hunended : s.unended with
    | some u =>
      simp only [hunended] at h
      cases h
      exact ⟨s.pieces, [], by simp, rfl⟩
    | none =>
      simp only [hunended] at h
      cases stack with
      | nil => cases h
      | cons group outer =>
        cases h
        exact hstart (hnesting group List.mem_cons_self)

theorem LexicalRules.liesIn_of_tokenize {rules : LexicalRules} (wf : rules.WellFormed)
    {source : String} {e : LexError} (h : rules.tokenize source = .error e) :
    e.location.LiesIn source := by
  simp only [tokenize] at h
  split at h
  · next fault offset hfault =>
    cases h
    obtain ⟨first, behind, hpieces, rfl⟩ := Scan.offset_of_fault? hfault
    obtain ⟨rest, htext⟩ := prefix_scan wf source.toList
    refine ⟨pieceChars first, pieceChars behind ++ rest, ?_, by rw [piecesLength_eq]⟩
    rw [← htext, hpieces, pieceChars_append, List.append_assoc]
  · cases h

/-! ## Headers -/

theorem liesIn_endToken (source : String) : (endToken source.toList).location.LiesIn source :=
  ⟨source.toList, [], by simp, rfl⟩

theorem liesIn_classified {source : String} {found : Tokenized}
    (h : LexicalRules.headers.tokenize source = .ok found) :
    ∀ t ∈ found.tokens.map (RawToken.classified .headers source.toList),
      t.location.LiesIn source := by
  intro t ht
  obtain ⟨raw, hraw, rfl⟩ := List.mem_map.1 ht
  obtain ⟨before, behind, hsource, hstart⟩ :=
    LexicalRules.start_of_tokenize LexicalRules.wellFormed_headers h hraw
  exact ⟨before, behind, hsource, by rw [RawToken.classified, hstart]⟩

theorem stop_ofTokens_classified (rules : LexicalRules) (text : List Char) (ts : List RawToken) :
    (TokenStream.ofTokens (ts.map (RawToken.classified rules text) ++ [endToken text])).stop =
      endToken text := by
  have hnone : (ts.map (RawToken.classified rules text)).find?
      (fun t : Token => decide (t.kind = .eof)) = none := by
    refine List.find?_eq_none.2 fun t ht => ?_
    obtain ⟨raw, -, rfl⟩ := List.mem_map.1 ht
    exact fun heof => raw.kind_ne_eof rules (of_decide_eq_true heof)
  simp only [TokenStream.ofTokens]
  rw [List.find?_append, hnone]
  rfl

/-- What reading the tokens of a header gives lies in the header. -/
theorem liesIn_of_read {source : String} {found : Tokenized}
    (h : LexicalRules.headers.tokenize source = .ok found) :
    ∃ ls : List Location, (∀ l ∈ ls, l.LiesIn source) ∧
      Reader.ResultWithin ls (TokenStream.ofTokens (found.tokens.map
        (RawToken.classified .headers source.toList) ++ [endToken source.toList])).read.1 := by
  refine ⟨(endToken source.toList).location ::
    (found.tokens.map (RawToken.classified .headers source.toList)).map Token.location, ?_, ?_⟩
  · refine List.forall_mem_cons.2 ⟨liesIn_endToken source, fun l hl => ?_⟩
    obtain ⟨t, ht, rfl⟩ := List.mem_map.1 hl
    exact liesIn_classified h t ht
  · refine Reader.within_run ?_ ?_ (by simp [Reader.start, Reader.locations, Phase.locations])
    · rw [stop_ofTokens_classified]
      exact List.mem_cons_self
    · intro t ht
      rw [ahead_ofTokens_classified] at ht
      exact List.mem_cons_of_mem _ (List.mem_map_of_mem ht)

/-- The error stands in the header that is being added. -/
def CompileError.StandsIn (source : String) (e : CompileError) : Prop :=
  e.sourceIndex? = none ∧ ∃ l, e.location? = some l ∧ l.LiesIn source

theorem liesIn_of_readHeader {source : String} {ds : List Declaration}
    (h : readHeader source = .ok ds) : ∀ d ∈ ds, ∀ l ∈ d.locations, l.LiesIn source := by
  obtain ⟨found, htokenize, -⟩ := readHeader_eq_ok_iff.1 h
  obtain ⟨ls, hls, hwithin⟩ := liesIn_of_read htokenize
  rw [readHeader_of_tokenize htokenize] at h
  intro d hd l hl
  cases hread : (TokenStream.ofTokens (found.tokens.map
      (RawToken.classified .headers source.toList) ++ [endToken source.toList])).read.1 with
  | error e => simp [hread, Except.mapError] at h
  | ok ds' =>
    obtain rfl : ds' = ds := by simpa [hread, Except.mapError] using h
    rw [hread] at hwithin
    exact hls l (hwithin (List.mem_flatMap.2 ⟨d, hd, hl⟩))

theorem standsIn_of_readHeader {source : String} {e : CompileError}
    (h : readHeader source = .error e) : e.StandsIn source := by
  cases htokenize : LexicalRules.headers.tokenize source with
  | error lexError =>
    obtain rfl : .lex lexError = e := by
      simpa [readHeader, LexicalRules.lex, htokenize] using h
    exact ⟨rfl, _, rfl, LexicalRules.liesIn_of_tokenize LexicalRules.wellFormed_headers htokenize⟩
  | ok found =>
    obtain ⟨ls, hls, hwithin⟩ := liesIn_of_read htokenize
    rw [readHeader_of_tokenize htokenize] at h
    cases hread : (TokenStream.ofTokens (found.tokens.map
        (RawToken.classified .headers source.toList) ++ [endToken source.toList])).read.1 with
    | ok ds => simp [hread, Except.mapError] at h
    | error parseError =>
      obtain rfl : .parse parseError = e := by simpa [hread, Except.mapError] using h
      rw [hread] at hwithin
      exact ⟨rfl, _, rfl, hls _ hwithin⟩

end ShaderInterface
