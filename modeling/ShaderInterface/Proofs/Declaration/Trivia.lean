import ShaderInterface.Proofs.Declaration.Relocation
import ShaderInterface.Proofs.Lexical.Insertion

/-!
# Comments, directives and blank lines in a header

The declarations of a header follow from its tokens, and a token is classified by its shape and text.
So two headers whose tokens differ in their starts alone have the same declarations at other places
(`readHeader_toOption_of_moved`). A text without tokens that is put on lines of its own into a header
moves the tokens behind it and changes nothing else (`insert_trivia`).
-/
namespace ShaderInterface

/-! ## Headers with moved tokens -/

/-- The place in `text` that an offset moves to. -/
def Location.moved (text : String) (f : Nat → Nat) (l : Location) : Location :=
  locate text.toList (f l.offset)

theorem RawToken.classified_moved (rules : LexicalRules) (source text : String) (f : Nat → Nat)
    (t : RawToken) :
    (t.move f).classified rules text.toList =
      (t.classified rules source.toList).relocate (Location.moved text f) := by
  simp only [classified, Token.relocate, Location.moved, locate_offset]
  rfl

section Moved

variable {source text : String} {found moved : Tokenized} {f : Nat → Nat}

/-- Headers whose tokens differ in their starts alone have the same declarations. -/
theorem readHeader_of_moved (hsource : LexicalRules.headers.tokenize source = .ok found)
    (htext : LexicalRules.headers.tokenize text = .ok moved)
    (htokens : moved.tokens = found.tokens.map (RawToken.move f)) {ds : List Declaration}
    (h : readHeader source = .ok ds) :
    readHeader text = .ok (ds.map (Declaration.relocate (Location.moved text f))) := by
  obtain ⟨found', hfound, hitems⟩ := readHeader_eq_ok_iff.1 h
  obtain rfl := Except.ok.inj (hsource.symm.trans hfound)
  refine readHeader_eq_ok_iff.2 ⟨moved, htext, ?_⟩
  have hclassified : moved.tokens.map (RawToken.classified .headers text.toList) =
      (found.tokens.map (RawToken.classified .headers source.toList)).map
        (Token.relocate (Location.moved text f)) := by
    rw [htokens, List.map_map, List.map_map]
    exact List.map_congr_left fun t _ => t.classified_moved .headers source text f
  rw [hclassified]
  exact hitems.relocate _

/-- Where starts stay apart, tokens can be moved back, so a header with the moved tokens is read exactly
if the other one is. -/
theorem readHeader_toOption_of_moved (hsource : LexicalRules.headers.tokenize source = .ok found)
    (htext : LexicalRules.headers.tokenize text = .ok moved)
    (htokens : moved.tokens = found.tokens.map (RawToken.move f)) (hf : Function.Injective f) :
    (readHeader text).toOption = (readHeader source).toOption.map
      (List.map (Declaration.relocate (Location.moved text f))) := by
  cases hds : readHeader source with
  | ok ds =>
    rw [readHeader_of_moved hsource htext htokens hds]
    rfl
  | error e =>
    obtain ⟨back, hback⟩ := hf.hasLeftInverse
    have htokens' : found.tokens = moved.tokens.map (RawToken.move back) := by
      rw [htokens, List.map_map]
      refine ((List.map_congr_left fun t _ => ?_).trans (List.map_id _)).symm
      simp only [Function.comp_apply, RawToken.move, hback t.start, id]
    cases hes : readHeader text with
    | error _ => rfl
    | ok es =>
      rw [readHeader_of_moved htext hsource htokens' hes] at hds
      cases hds

end Moved

/-! ## Room in a header -/

theorem makeRoom_injective (offset bytes : Nat) : Function.Injective (makeRoom offset bytes) := by
  intro a b hab
  unfold makeRoom at hab
  split_ifs at hab <;> omega

/-- Comments, directives and blank lines, on lines of their own, can be put into a header wherever no
token and no region is cut and no escape takes the newline. The tokens stay the same, those behind the
place move by the bytes that were put there, and the declarations are the same ones at the places of
their tokens. -/
theorem insert_trivia {before behind trivia : String} {found blank : Tokenized}
    (hsource : LexicalRules.headers.tokenize (before ++ behind) = .ok found)
    (hseam : found.SeamAt before.utf8ByteSize)
    (hescape : behind = "" → ¬found.EndsInEscape '\\' before.toList)
    (htrivia : LexicalRules.headers.tokenize trivia = .ok blank) (hblank : blank.tokens = [])
    (hlast : trivia.toList.getLast? ≠ some '\\') :
    let lines := "\n" ++ trivia ++ "\n"
    let text := before ++ lines ++ behind
    let move := makeRoom before.utf8ByteSize lines.utf8ByteSize
    (∃ wider, LexicalRules.headers.tokenize text = .ok wider ∧
        wider.tokens = found.tokens.map (RawToken.move move)) ∧
      (readHeader text).toOption = (readHeader (before ++ behind)).toOption.map
        (List.map (Declaration.relocate (Location.moved text move))) := by
  intro lines text move
  obtain ⟨wider, hwider, htokens⟩ := LexicalRules.tokenize_insert LexicalRules.wellFormed_headers
    LexicalRules.lineBound_headers LexicalRules.escapeApart_headers hsource hseam hescape htrivia hblank
    hlast
  refine ⟨⟨wider, hwider, htokens⟩, ?_⟩
  exact readHeader_toOption_of_moved hsource hwider htokens (makeRoom_injective _ _)

/-- A comment and a directive behind a line comment that ends in an escape, between the name of a
struct and its body. -/
theorem insert_trivia_behind_comment :
    let before := "using A = int; struct S //\\"
    let behind := "\n{ A b; };"
    let trivia := "/* ü */ #if x"
    let declarations (b : Location) : List Declaration :=
      [.typeAlias ⟨"A", [], ⟨["int"], ⟨10, 1, 11⟩⟩, ⟨6, 1, 7⟩⟩,
        .aggregate ⟨"S", [], none, none,
          [⟨"b", ⟨["A"], b⟩, [], ⟨b.offset + 2, b.line, b.column + 2⟩⟩], ⟨22, 1, 23⟩⟩]
    readHeader (before ++ behind) = .ok (declarations ⟨30, 2, 3⟩) ∧
      readHeader (before ++ ("\n" ++ trivia ++ "\n") ++ behind) = .ok (declarations ⟨46, 4, 3⟩) := by
  intro before behind trivia declarations
  let tokenized (text : String) : Tokenized :=
    .ofPieces '\\' (placePieces 0 (LexicalRules.headers.scan text.toList).pieces)
  have hsource : LexicalRules.headers.tokenize (before ++ behind) =
      .ok (tokenized (before ++ behind)) := by decide +kernel
  have htrivia : LexicalRules.headers.tokenize trivia = .ok (tokenized trivia) := by decide +kernel
  have hseam : (tokenized (before ++ behind)).SeamAt before.utf8ByteSize := by
    unfold Tokenized.SeamAt
    decide +kernel
  have hread : readHeader (before ++ behind) = .ok (declarations ⟨30, 2, 3⟩) := by decide +kernel
  obtain ⟨-, hdeclarations⟩ := insert_trivia hsource hseam (by simp [behind]) htrivia
    (by decide +kernel) (by decide)
  have hmoved : (declarations ⟨30, 2, 3⟩).map (Declaration.relocate (Location.moved
      (before ++ ("\n" ++ trivia ++ "\n") ++ behind)
      (makeRoom before.utf8ByteSize ("\n" ++ trivia ++ "\n").utf8ByteSize))) =
      declarations ⟨46, 4, 3⟩ := by decide +kernel
  rw [hread, Except.toOption, Option.map_some, hmoved] at hdeclarations
  refine ⟨hread, ?_⟩
  cases htext : readHeader (before ++ ("\n" ++ trivia ++ "\n") ++ behind) with
  | error e => cases htext ▸ hdeclarations
  | ok ds =>
    rw [htext] at hdeclarations
    exact congrArg Except.ok (Option.some.inj hdeclarations)

end ShaderInterface
