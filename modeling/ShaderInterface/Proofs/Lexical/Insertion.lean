import ShaderInterface.Proofs.Lexical.Cuts

/-!
# Texts between the pieces of a text

A place that no token and no region has strictly inside is between two pieces
(`Tiling.split_at_seam`). A text without tokens, on lines of its own, can be put there, and the tokens
behind it move by its length (`LexicalRules.tokenize_insert`), unless an escape at the end takes the
newline.
-/
namespace ShaderInterface

/-! ## Places between tokens -/

/-- No token and no region has the place strictly inside. -/
def Tokenized.SeamAt (found : Tokenized) (offset : Nat) : Prop :=
  ∀ s ∈ found.spans, ¬(s.start < offset ∧ offset < s.start + s.length)

/-- The text ends in an unpaired escape that is not part of a region. -/
def Tokenized.EndsInEscape (escape : Char) (text : List Char) (found : Tokenized) : Prop :=
  EndsUnpaired escape text ∧ ∀ r ∈ found.skipped, r.start + r.length ≠ Text.byteLength text

/-- A placed piece lies within the bytes of all pieces. -/
theorem bounds_of_mem_placePieces {start : Nat} {ps : List Piece} {q : PlacedPiece}
    (hq : q ∈ placePieces start ps) :
    start ≤ q.start ∧ q.start + q.length ≤ start + piecesLength ps := by
  obtain ⟨first, behind, rfl, hstart⟩ := mem_placePieces.1 hq
  rw [piecesLength_append, piecesLength, PlacedPiece.length]
  omega

theorem Tiling.chars_ne_nil {rules : LexicalRules} {text : List Char} {ps : List Piece}
    (h : Tiling rules text ps) {p : Piece} (hp : p ∈ ps) : p.chars ≠ [] := by
  obtain ⟨first, behind, rfl⟩ := List.append_of_mem hp
  exact h.cut.chars_ne_nil

/-- A place that is in no token and no region is between two pieces. -/
theorem Tiling.split_at_seam {rules : LexicalRules} {ps : List Piece} {before behind : List Char}
    (h : Tiling rules (before ++ behind) ps)
    (hseam : (Tokenized.ofPieces rules.escape (placePieces 0 ps)).SeamAt (Text.byteLength before)) :
    ∃ first rest, ps = first ++ rest ∧ pieceChars first = before ∧ pieceChars rest = behind := by
  have htext := h.text_eq
  obtain _ | ⟨c, behind⟩ := behind
  · exact ⟨ps, [], by simp, by simpa using htext.symm, rfl⟩
  obtain ⟨first, p, rest, front, back, rfl, hp, rfl, rfl⟩ := exists_piece_of_char htext.symm
  -- The character in front of which the text is cut is the first one of its piece.
  have hfront : front = [] := by
    rcases h.cut.kept_or with hkept | ⟨d, -, hchars⟩ | ⟨hchars, -⟩
    · by_contra hne
      have hmem : ⟨piecesLength first, p⟩ ∈ placePieces 0 (first ++ p :: rest) :=
        mem_placePieces.2 ⟨first, rest, rfl, (Nat.zero_add _).symm⟩
      refine hseam _ (Tokenized.mem_spans.2 ⟨_, hmem, hkept, rfl⟩) ⟨?_, ?_⟩
      · have := Text.byteLength_pos hne
        simp only [PlacedPiece.range, piecesLength_eq, Text.byteLength_append]
        omega
      · have := c.utf8Size_pos
        simp only [PlacedPiece.range, PlacedPiece.length, piecesLength_eq, hp,
          Text.byteLength_append, Text.byteLength_cons]
        omega
    · have hsingle : front = [] ∧ c = d ∧ back = [] := by
        simpa [hp, List.append_eq_singleton_iff] using hchars
      exact hsingle.1
    · have hsingle : front = [] ∧ c = rules.escape ∧ back = [] := by
        simpa [hp, List.append_eq_singleton_iff] using hchars
      exact hsingle.1
  subst hfront
  exact ⟨first, p :: rest, rfl, by simp, by simp [hp]⟩

namespace LexicalRules

variable {rules : LexicalRules}

/-- A piece with an unpaired escape at its end is the last one, and no region ends behind it. -/
theorem endsInEscape_of_piece (wf : rules.WellFormed) (lb : rules.LineBound)
    (ea : rules.EscapeApart) {text : List Char} {first behind : List Piece} {p : Piece}
    (h : rules.scan text = ⟨first ++ p :: behind, none⟩) (hend : p.EndsInEscape rules.escape) :
    behind = [] ∧ (Tokenized.ofPieces rules.escape
      (placePieces 0 (first ++ p :: behind))).EndsInEscape rules.escape text := by
  obtain ⟨rfl, htext⟩ := last_of_endsInEscape wf (congrArg Scan.pieces h) hend
  refine ⟨rfl, endsUnpaired_of_endsInEscape wf lb ea h hend, fun r hr hlast => ?_⟩
  obtain ⟨q, hq, hregion⟩ := Tokenized.mem_skipped.1 hr
  obtain ⟨hkind, hspan⟩ := PlacedPiece.skipped?_eq_some.1 hregion
  rw [placePieces_append, List.mem_append] at hq
  rcases hq with hq | hq
  · -- The word behind the region has a character.
    have hregion_end : r.start + r.length = q.start + q.length :=
      congrArg₂ (· + ·) (congrArg ByteRange.start hspan) (congrArg ByteRange.length hspan)
    have hfirst := (bounds_of_mem_placePieces hq).2
    have hword : 0 < Text.byteLength p.chars := by
      refine Text.byteLength_pos fun hnil => ?_
      rw [Piece.EndsInEscape, hnil] at hend
      cases hend.2
    rw [htext, Text.byteLength_append, ← piecesLength_eq] at hlast
    omega
  · -- The region would be the word.
    obtain rfl := List.mem_singleton.1 hq
    rcases hend.1 with hword | hdangling
    · cases hkind.symm.trans hword
    · cases hkind.symm.trans hdangling

end LexicalRules

/-! ## Texts without tokens -/

/-- The piece is no token. -/
def Piece.Silent (p : Piece) : Prop := ∀ shape, p.kind ≠ .token shape

theorem pieceTokens_eq_nil_iff {escape : Char} {start : Nat} {ps : List Piece} :
    pieceTokens escape start ps = [] ↔ ∀ p ∈ ps, p.Silent := by
  induction ps generalizing start with
  | nil => simp [pieceTokens, Tokenized.ofPieces, placePieces]
  | cons p ps ih =>
    rw [List.forall_mem_cons]
    obtain ⟨kind, chars⟩ := p
    cases kind with
    | token shape =>
      refine iff_of_false ?_ fun h => h.1 shape rfl
      simp [pieceTokens, Tokenized.ofPieces, placePieces, PlacedPiece.token?]
    | skipped | delimiter | danglingEscape =>
      exact ih.trans ⟨fun h => ⟨by simp [Piece.Silent], h⟩, And.right⟩

/-- Groups stay as they are where no token is. -/
theorem nestAll_of_silent {ps : List Piece} (h : ∀ p ∈ ps, p.Silent) (expected : List Char) :
    nestAll expected ps = some expected := by
  induction ps with
  | nil => rfl
  | cons p ps ih =>
    obtain ⟨hp, hps⟩ := List.forall_mem_cons.1 h
    obtain ⟨kind, chars⟩ := p
    cases kind with
    | token shape => exact absurd rfl (hp shape)
    | skipped | delimiter | danglingEscape => exact ih hps

/-! ## Room for a text -/

/-- The start of a token when there are `bytes` more bytes at `offset`. -/
def makeRoom (offset bytes start : Nat) : Nat := if start < offset then start else bytes + start

theorem bounds_of_mem_pieceTokens {escape : Char} {start : Nat} {ps : List Piece} {t : RawToken}
    (ht : t ∈ pieceTokens escape start ps) :
    start ≤ t.start ∧ ∃ p ∈ ps, t.start + Text.byteLength p.chars ≤ start + piecesLength ps := by
  obtain ⟨q, hq, htoken⟩ := Tokenized.mem_tokens.1 ht
  obtain ⟨-, -, hspan⟩ := PlacedPiece.token?_eq_some.1 htoken
  have hstart : t.start = q.start := congrArg ByteRange.start hspan
  obtain ⟨hle, hend⟩ := bounds_of_mem_placePieces hq
  obtain ⟨first, behind, rfl, -⟩ := mem_placePieces.1 hq
  rw [hstart]
  exact ⟨hle, q.piece, by simp, hend⟩

/-- Tokens in front of pieces that are no tokens stay, and those behind them move. -/
theorem pieceTokens_insert (escape : Char) {first blank : List Piece} (rest : List Piece)
    (hfirst : ∀ p ∈ first, p.chars ≠ []) (hblank : ∀ p ∈ blank, p.Silent) :
    pieceTokens escape 0 (first ++ blank ++ rest) =
      (pieceTokens escape 0 (first ++ rest)).map
        (RawToken.move (makeRoom (piecesLength first) (piecesLength blank))) := by
  have hplace : 0 + piecesLength (first ++ blank) = piecesLength blank + piecesLength first := by
    rw [piecesLength_append]
    omega
  rw [pieceTokens_append, pieceTokens_append, pieceTokens_append, pieceTokens_eq_nil_iff.2 hblank,
    List.append_nil, hplace, Nat.zero_add, pieceTokens_add escape (piecesLength blank),
    List.map_append]
  refine congrArg₂ (· ++ ·) ?_ (List.map_congr_left fun t ht => ?_)
  · refine ((List.map_congr_left fun t ht => ?_).trans (List.map_id _)).symm
    obtain ⟨-, p, hp, hend⟩ := bounds_of_mem_pieceTokens ht
    have hpos := Text.byteLength_pos (hfirst p hp)
    have hstays : makeRoom (piecesLength first) (piecesLength blank) t.start = t.start :=
      if_pos (by omega)
    simp only [RawToken.move, hstays, id]
  · have hmoves : makeRoom (piecesLength first) (piecesLength blank) t.start =
        piecesLength blank + t.start :=
      if_neg (Nat.not_lt.2 (bounds_of_mem_pieceTokens ht).1)
    simp only [RawToken.move, hmoves]

theorem nestAll_insert {first blank : List Piece} (rest : List Piece) (expected : List Char)
    (hblank : ∀ p ∈ blank, p.Silent) :
    nestAll expected (first ++ blank ++ rest) = nestAll expected (first ++ rest) := by
  simp only [nestAll_append, nestAll_of_silent hblank]
  cases nestAll expected first <;> rfl

/-- Pieces with a newline on both sides. -/
def ownLines (ps : List Piece) : List Piece :=
  ⟨.delimiter, ['\n']⟩ :: (ps ++ [⟨.delimiter, ['\n']⟩])

theorem silent_ownLines {ps : List Piece} (h : ∀ p ∈ ps, p.Silent) : ∀ p ∈ ownLines ps, p.Silent := by
  have hnewline : Piece.Silent ⟨.delimiter, ['\n']⟩ := fun _ => by simp
  refine List.forall_mem_cons.2 ⟨hnewline, List.forall_mem_append.2 ⟨h, ?_⟩⟩
  simpa using hnewline

namespace LexicalRules

variable {rules : LexicalRules}

theorem piecesLength_ownLines (wf : rules.WellFormed) {filler : String}
    (hended : (rules.scan filler.toList).unended = none) :
    piecesLength (ownLines (rules.scan filler.toList).pieces) =
      ("\n" ++ filler ++ "\n").utf8ByteSize := by
  have hnewline : '\n'.utf8Size = 1 ∧ "\n".utf8ByteSize = 1 := ⟨rfl, rfl⟩
  rw [ownLines, piecesLength, piecesLength_append, piecesLength_scan wf hended]
  simp only [piecesLength, Text.byteLength_cons, Text.byteLength_nil, String.utf8ByteSize_append]
  omega

/-- The pieces of a text that is put on lines of its own between two texts. -/
theorem scan_insert (wf : rules.WellFormed) (lb : rules.LineBound) {before filler behind : List Char}
    {first blank rest : List Piece} (hbefore : rules.scan before = ⟨first, none⟩)
    (hpaired : ∀ p ∈ first, ¬p.EndsInEscape rules.escape)
    (hfiller : rules.scan filler = ⟨blank, none⟩) (hlast : filler.getLast? ≠ some rules.escape)
    (hbehind : rules.scan behind = ⟨rest, none⟩) :
    rules.scan (before ++ '\n' :: (filler ++ '\n' :: behind)) =
      ⟨first ++ ownLines blank ++ rest, none⟩ := by
  have hsecond := scan_append_newline wf lb filler behind (by rw [hfiller])
    (not_endsInEscape_of_getLast? wf hlast)
  rw [scan_append_newline wf lb before _ (by rw [hbefore]) (by rwa [hbefore]), hsecond, hbefore,
    hfiller, hbehind]
  simp [ownLines]

/-- A text without tokens, on lines of its own, can be put wherever no token and no region is cut and
no escape takes the newline: the tokens stay the same, and those behind the place move. -/
theorem tokenize_insert (wf : rules.WellFormed) (lb : rules.LineBound) (ea : rules.EscapeApart)
    {before behind filler : String} {found blank : Tokenized}
    (hsource : rules.tokenize (before ++ behind) = .ok found)
    (hseam : found.SeamAt before.utf8ByteSize)
    (hescape : behind = "" → ¬found.EndsInEscape rules.escape before.toList)
    (hfiller : rules.tokenize filler = .ok blank) (hblank : blank.tokens = [])
    (hlast : filler.toList.getLast? ≠ some rules.escape) :
    ∃ wider, rules.tokenize (before ++ ("\n" ++ filler ++ "\n") ++ behind) = .ok wider ∧
      wider.tokens = found.tokens.map (RawToken.move
        (makeRoom before.utf8ByteSize ("\n" ++ filler ++ "\n").utf8ByteSize)) := by
  obtain ⟨hended, hnest, rfl⟩ := tokenize_eq_ok_iff.1 hsource
  obtain ⟨hendedFiller, -, rfl⟩ := tokenize_eq_ok_iff.1 hfiller
  rw [String.toList_append] at hended hnest hseam hescape ⊢
  have htiling := tiling_scan wf _ hended
  rw [← Text.byteLength_toList] at hseam ⊢
  obtain ⟨first, rest, hpieces, hfirst, hrest⟩ := htiling.split_at_seam hseam
  have hscan : rules.scan (before.toList ++ behind.toList) = ⟨first ++ rest, none⟩ :=
    congrArg₂ Scan.mk hpieces hended
  obtain ⟨hbefore, hbehind⟩ := scan_of_pieces wf hscan
  rw [hpieces] at hnest hescape ⊢
  rw [hfirst] at hbefore
  rw [hrest] at hbehind
  have hpaired (p : Piece) (hp : p ∈ first) : ¬p.EndsInEscape rules.escape := by
    intro hend
    obtain ⟨front, back, rfl⟩ := List.append_of_mem hp
    rw [List.append_assoc, List.cons_append] at hscan hescape
    obtain ⟨hbehind, hends⟩ := endsInEscape_of_piece wf lb ea hscan hend
    rw [(List.append_eq_nil_iff.1 hbehind).2, pieceChars_nil, eq_comm, String.toList_eq_nil_iff]
      at hrest
    rw [hrest, String.toList_empty, List.append_nil] at hends
    exact hescape hrest hends
  have hwide := scan_insert wf lb hbefore hpaired (congrArg₂ Scan.mk rfl hendedFiller) hlast hbehind
  have hsilent := silent_ownLines (pieceTokens_eq_nil_iff.1 hblank)
  have hchars : (before ++ ("\n" ++ filler ++ "\n") ++ behind).toList =
      before.toList ++ '\n' :: (filler.toList ++ '\n' :: behind.toList) := by
    simp
  have hnonempty (p : Piece) (hp : p ∈ first) : p.chars ≠ [] := by
    rw [hpieces] at htiling
    exact htiling.chars_ne_nil (List.mem_append_left rest hp)
  refine ⟨_, tokenize_eq_ok_iff.2 ⟨?_, ?_, rfl⟩, ?_⟩
  · rw [hchars, hwide]
  · rw [hchars, hwide]
    exact (nestAll_insert rest [] hsilent).trans hnest
  · rw [hchars, hwide, ← piecesLength_ownLines wf hendedFiller, ← hfirst, ← piecesLength_eq]
    exact pieceTokens_insert rules.escape rest hnonempty hsilent

end LexicalRules

end ShaderInterface
