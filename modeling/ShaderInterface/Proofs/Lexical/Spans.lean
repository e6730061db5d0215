import ShaderInterface.Lexical.Tokenize
import ShaderInterface.Proofs.Lexical.Tiling

/-!
# Spans of tokens and skipped regions

`Tokenized.Tiles` says what the byte spans of a tokenized text are worth: they stand on characters
of the text, do not overlap, leave out nothing but delimiters, keep words apart, and each one gives
the text of its token. It is said of the tokens and regions alone; the proof goes through the
pieces, which tile the text, and their offsets.
-/
namespace ShaderInterface

/-! ## What spans say -/

/-- A range of bytes of a text. -/
structure ByteRange where
  start : Nat
  length : Nat
deriving DecidableEq, Repr

namespace ByteRange

/-- `a` ends before `b` starts, or where it starts. -/
def Before (a b : ByteRange) : Prop := a.start + a.length ≤ b.start

/-- The range holds exactly the characters `chars` of the text. -/
def Shows (s : ByteRange) (text chars : List Char) : Prop :=
  ∃ before behind, text = before ++ chars ++ behind ∧
    s = ⟨Text.byteLength before, Text.byteLength chars⟩

end ByteRange

def RawToken.span (t : RawToken) : ByteRange := ⟨t.start, t.length⟩

def SkippedRegion.span (r : SkippedRegion) : ByteRange := ⟨r.start, r.length⟩

/-- The spans of all tokens and all skipped regions. -/
def Tokenized.spans (found : Tokenized) : List ByteRange :=
  found.tokens.map RawToken.span ++ found.skipped.map SkippedRegion.span

/-- `text` is `chars` without its escape characters, each character behind one kept as it is. -/
inductive Unescaped (escape : Char) : (chars text : List Char) → Prop where
  | nil : Unescaped escape [] []
  /-- Nothing is behind the last escape. -/
  | last : Unescaped escape [escape] []
  | pair {chars text : List Char} (c : Char) : Unescaped escape chars text →
      Unescaped escape (escape :: c :: chars) (c :: text)
  | plain {c : Char} {chars text : List Char} : c ≠ escape → Unescaped escape chars text →
      Unescaped escape (c :: chars) (c :: text)

/-- The characters of a token of some shape spell its text. -/
def LexicalRules.Spells (rules : LexicalRules) (chars text : List Char) : TokenShape → Prop
  | .word => Unescaped rules.escape chars text
  | .literal => ∃ quote ∈ rules.quotes, ∃ body,
      chars = quote :: body ++ [quote] ∧ Unescaped rules.escape body text
  | .punctuator | .terminator | .groupOpen _ _ | .groupClose _ => text = chars

/-- The tokens and regions are laid out over the text without overlap, and nothing is lost. -/
structure Tokenized.Tiles (rules : LexicalRules) (text : List Char) (found : Tokenized) : Prop where
  inside : ∀ s ∈ found.spans, 0 < s.length ∧ ∃ chars, s.Shows text chars
  disjoint : found.spans.Pairwise fun a b => a.Before b ∨ b.Before a
  tokens_ordered : found.tokens.Pairwise fun t u => t.span.Before u.span
  regions_ordered : found.skipped.Pairwise fun r s => r.span.Before s.span
  /-- Between the spans are delimiters only, and at most an escape character at the very end. -/
  gaps : ∀ before c behind, text = before ++ c :: behind →
    (∃ s ∈ found.spans, s.start ≤ Text.byteLength before ∧
      Text.byteLength before + c.utf8Size ≤ s.start + s.length) ∨
    c ∈ rules.delimiters ∨ c = rules.escape ∧ behind = []
  /-- A delimiter, a region or another token is between two words. -/
  words_apart : found.tokens.Pairwise fun t u => t.shape = .word → u.shape = .word →
    ∃ s : ByteRange, t.span.Before s ∧ s.Before u.span ∧
      (s ∈ found.spans ∨ ∃ d ∈ rules.delimiters, s.Shows text [d])
  spelled : ∀ t ∈ found.tokens, ∃ chars, t.span.Shows text chars ∧
    rules.Spells chars t.text.toList t.shape

/-! ## Texts of pieces -/

theorem unescaped_unescape (escape : Char) (chars : List Char) :
    Unescaped escape chars (unescape escape chars) := by
  fun_induction unescape escape chars with
  | case1 => exact .nil
  | case2 => exact .last
  | case3 d ds ih => exact .pair d ih
  | case4 c cs hne ih => exact .plain hne ih

/-- The text of a token piece is what its characters spell. -/
theorem Cut.spells {rules : LexicalRules} {p : Piece} {rest : List Char} {shape : TokenShape}
    (h : Cut rules p rest) (hshape : p.kind = .token shape) :
    rules.Spells p.chars (p.text rules.escape) shape := by
  cases h with
  | word =>
    obtain rfl := PieceKind.token.inj hshape
    exact unescaped_unescape _ _
  | @literal quote body _ hquote =>
    obtain rfl := PieceKind.token.inj hshape
    refine ⟨quote, hquote, body, rfl, ?_⟩
    simpa [Piece.text] using unescaped_unescape rules.escape body
  | @symbol shape _ _ hword hliteral =>
    obtain rfl := PieceKind.token.inj hshape
    cases shape <;> simp_all [LexicalRules.Spells, Piece.text]
  | skipped => cases hshape
  | delimiter => cases hshape
  | danglingEscape => cases hshape

/-- A piece that becomes a token or a region. -/
def Piece.Kept (p : Piece) : Prop := (∃ shape, p.kind = .token shape) ∨ ∃ tag, p.kind = .skipped tag

/-- What is not kept is a delimiter, or an escape character with nothing behind it. -/
theorem Cut.kept_or {rules : LexicalRules} {p : Piece} {rest : List Char} (h : Cut rules p rest) :
    p.Kept ∨ (∃ d ∈ rules.delimiters, p.chars = [d]) ∨ p.chars = [rules.escape] ∧ rest = [] := by
  cases h with
  | word | literal | symbol => exact .inl (.inl ⟨_, rfl⟩)
  | skipped => exact .inl (.inr ⟨_, rfl⟩)
  | delimiter hmem => exact .inr (.inl ⟨_, hmem, rfl⟩)
  | danglingEscape => exact .inr (.inr ⟨rfl, rfl⟩)

/-! ## Pieces behind each other -/

/-- The characters of pieces, one piece after the other. -/
def pieceChars (ps : List Piece) : List Char := ps.flatMap Piece.chars

@[simp] theorem pieceChars_nil : pieceChars [] = [] := rfl

@[simp] theorem pieceChars_cons (p : Piece) (ps : List Piece) :
    pieceChars (p :: ps) = p.chars ++ pieceChars ps := rfl

@[simp] theorem pieceChars_append (ps qs : List Piece) :
    pieceChars (ps ++ qs) = pieceChars ps ++ pieceChars qs := List.flatMap_append

theorem piecesLength_eq (ps : List Piece) : piecesLength ps = Text.byteLength (pieceChars ps) := by
  induction ps with
  | nil => rfl
  | cons p ps ih => simp [piecesLength, ih]

namespace Tiling

variable {rules : LexicalRules} {text : List Char}

theorem text_eq {ps : List Piece} (h : Tiling rules text ps) : text = pieceChars ps := by
  induction h with
  | nil => rfl
  | cons _ _ ih => rw [pieceChars_cons, ← ih]

/-- Every piece is cut off in front of the pieces behind it. -/
theorem cut {first behind : List Piece} {p : Piece} (h : Tiling rules text (first ++ p :: behind)) :
    Cut rules p (pieceChars behind) := by
  induction first generalizing text with
  | nil =>
    cases h with
    | cons hcut hrest => exact hrest.text_eq ▸ hcut
  | cons q first ih =>
    cases h with
    | cons _ hrest => exact ih hrest

/-- Words do not touch. -/
theorem not_word_word {first behind : List Piece} {p q : Piece}
    (h : Tiling rules text (first ++ p :: q :: behind)) (hp : p.kind = .token .word) :
    q.kind ≠ .token .word := by
  intro hq
  have hnext : Tiling rules text ((first ++ [p]) ++ q :: behind) := by simpa using h
  have hends := (h.cut.startsWord hp).2
  have hstarts := (hnext.cut.startsWord hq).1
  exact hends hstarts

end Tiling

/-! ## Offsets -/

theorem piecesLength_append (ps qs : List Piece) :
    piecesLength (ps ++ qs) = piecesLength ps + piecesLength qs := by
  simp [piecesLength_eq]

theorem placePieces_append (start : Nat) (ps qs : List Piece) :
    placePieces start (ps ++ qs) =
      placePieces start ps ++ placePieces (start + piecesLength ps) qs := by
  induction ps generalizing start with
  | nil => rfl
  | cons p ps ih => simp [placePieces, piecesLength, ih, Nat.add_assoc]

/-- A placed piece starts behind the pieces in front of it. -/
theorem mem_placePieces {start : Nat} {ps : List Piece} {q : PlacedPiece} :
    q ∈ placePieces start ps ↔
      ∃ first behind, ps = first ++ q.piece :: behind ∧ q.start = start + piecesLength first := by
  constructor
  · intro hq
    induction ps generalizing start with
    | nil => cases hq
    | cons p ps ih =>
      rcases List.mem_cons.1 hq with rfl | hq
      · exact ⟨[], ps, rfl, rfl⟩
      · obtain ⟨first, behind, rfl, hstart⟩ := ih hq
        exact ⟨p :: first, behind, rfl, by rw [hstart, piecesLength, Nat.add_assoc]⟩
  · rintro ⟨first, behind, rfl, hstart⟩
    rw [placePieces_append, placePieces, ← hstart]
    exact List.mem_append_right _ List.mem_cons_self

/-- What holds of any two pieces with the pieces between them holds along the placed pieces. -/
theorem pairwise_placePieces {start : Nat} {ps : List Piece} {R : PlacedPiece → PlacedPiece → Prop}
    (h : ∀ first p between q behind, ps = first ++ p :: (between ++ q :: behind) →
      R ⟨start + piecesLength first, p⟩ ⟨start + piecesLength (first ++ p :: between), q⟩) :
    (placePieces start ps).Pairwise R := by
  induction ps generalizing start with
  | nil => exact .nil
  | cons p ps ih =>
    refine List.pairwise_cons.2 ⟨fun q hq => ?_, ih fun first p' between q behind hps => ?_⟩
    · obtain ⟨between, behind, rfl, hstart⟩ := mem_placePieces.1 hq
      have hfirst := h [] p between q.piece behind rfl
      rwa [List.nil_append, piecesLength.eq_2, ← Nat.add_assoc, ← hstart] at hfirst
    · have hlater := h (p :: first) p' between q behind (by rw [hps]; rfl)
      rwa [List.cons_append, piecesLength, piecesLength, ← Nat.add_assoc, ← Nat.add_assoc] at hlater

namespace PlacedPiece

def range (q : PlacedPiece) : ByteRange := ⟨q.start, q.length⟩

theorem token?_eq_some {escape : Char} {q : PlacedPiece} {t : RawToken} :
    q.token? escape = some t ↔ q.piece.kind = .token t.shape ∧
      t.text = String.ofList (q.piece.text escape) ∧ t.span = q.range := by
  unfold token? range RawToken.span
  cases t
  split <;> simp_all [eq_comm]

theorem skipped?_eq_some {q : PlacedPiece} {r : SkippedRegion} :
    q.skipped? = some r ↔ q.piece.kind = .skipped r.tag ∧ r.span = q.range := by
  unfold skipped? range SkippedRegion.span
  cases r
  split <;> simp_all [eq_comm]

end PlacedPiece

/-! ## Spans of the pieces of a tiling -/

namespace Tiling

variable {rules : LexicalRules} {text : List Char} {ps : List Piece}

/-- A placed piece of a tiling shows its own characters. -/
theorem shows_range (h : Tiling rules text ps) {q : PlacedPiece} (hq : q ∈ placePieces 0 ps) :
    q.range.Shows text q.piece.chars := by
  obtain ⟨first, behind, rfl, hstart⟩ := mem_placePieces.1 hq
  refine ⟨pieceChars first, pieceChars behind, ?_, ?_⟩
  · simpa using h.text_eq
  · rw [PlacedPiece.range, hstart, piecesLength_eq, Nat.zero_add, PlacedPiece.length]

theorem cut_of_mem (h : Tiling rules text ps) {q : PlacedPiece} (hq : q ∈ placePieces 0 ps) :
    ∃ rest, Cut rules q.piece rest := by
  obtain ⟨first, behind, rfl, -⟩ := mem_placePieces.1 hq
  exact ⟨_, h.cut⟩

end Tiling

/-- A piece ends before every piece behind it. -/
theorem PlacedPiece.range_before (start : Nat) (first between : List Piece) (p q : Piece) :
    (range ⟨start + piecesLength first, p⟩).Before
      (range ⟨start + piecesLength (first ++ p :: between), q⟩) := by
  simp only [ByteRange.Before, range, length, piecesLength_append, piecesLength]
  omega

theorem PlacedPiece.before_placePieces (start : Nat) (ps : List Piece) :
    (placePieces start ps).Pairwise fun p q => p.range.Before q.range :=
  pairwise_placePieces fun first p between q _ _ => range_before start first between p q

/-- Of two placed pieces, one is behind the other. -/
theorem PlacedPiece.before_or_before {start : Nat} {ps : List Piece} {p q : PlacedPiece}
    (hp : p ∈ placePieces start ps) (hq : q ∈ placePieces start ps) (hne : p ≠ q) :
    p.range.Before q.range ∨ q.range.Before p.range := by
  have hpairs : (placePieces start ps).Pairwise fun a b =>
      a.range.Before b.range ∨ b.range.Before a.range :=
    (before_placePieces start ps).imp .inl
  have hsymm : Std.Symm fun a b : PlacedPiece => a.range.Before b.range ∨ b.range.Before a.range :=
    ⟨fun _ _ => Or.symm⟩
  exact hpairs.forall hp hq hne

/-- Every character of the text is in one of the pieces. -/
theorem exists_piece_of_char {ps : List Piece} {before behind : List Char} {c : Char}
    (h : pieceChars ps = before ++ c :: behind) :
    ∃ first p rest front back, ps = first ++ p :: rest ∧ p.chars = front ++ c :: back ∧
      before = pieceChars first ++ front ∧ behind = back ++ pieceChars rest := by
  induction ps generalizing before with
  | nil => simp at h
  | cons p ps ih =>
    -- A character behind `p` is found in the pieces behind `p`.
    have later (front : List Char) (hps : pieceChars ps = front ++ c :: behind)
        (hbefore : before = p.chars ++ front) :
        ∃ first q rest front back, p :: ps = first ++ q :: rest ∧ q.chars = front ++ c :: back ∧
          before = pieceChars first ++ front ∧ behind = back ++ pieceChars rest := by
      obtain ⟨first, q, rest, front, back, rfl, hq, rfl, rfl⟩ := ih hps
      exact ⟨p :: first, q, rest, front, back, rfl, hq, by simp [hbefore], rfl⟩
    rw [pieceChars_cons] at h
    rcases List.append_eq_append_iff.1 h with ⟨front, hbefore, hps⟩ | ⟨back, hchars, hbehind⟩
    · exact later front hps hbefore
    · cases back with
      | nil => exact later [] hbehind.symm (by simp [hchars])
      | cons d back =>
        obtain ⟨rfl, rfl⟩ := List.cons.inj hbehind
        exact ⟨[], p, ps, before, back, rfl, hchars, rfl, rfl⟩

/-! ## Spans of the tokens and regions -/

namespace Tokenized

variable {escape : Char} {ps : List PlacedPiece}

theorem mem_tokens {t : RawToken} :
    t ∈ (ofPieces escape ps).tokens ↔ ∃ q ∈ ps, q.token? escape = some t :=
  List.mem_filterMap

theorem mem_skipped {r : SkippedRegion} :
    r ∈ (ofPieces escape ps).skipped ↔ ∃ q ∈ ps, q.skipped? = some r :=
  List.mem_filterMap

/-- The spans are the ranges of the pieces that are kept. -/
theorem mem_spans {s : ByteRange} :
    s ∈ (ofPieces escape ps).spans ↔ ∃ q ∈ ps, q.piece.Kept ∧ q.range = s := by
  simp only [spans, List.mem_append, List.mem_map, mem_tokens, mem_skipped,
    PlacedPiece.token?_eq_some, PlacedPiece.skipped?_eq_some]
  constructor
  · rintro (⟨t, ⟨q, hq, hkind, -, hspan⟩, rfl⟩ | ⟨r, ⟨q, hq, hkind, hspan⟩, rfl⟩)
    · exact ⟨q, hq, .inl ⟨_, hkind⟩, hspan.symm⟩
    · exact ⟨q, hq, .inr ⟨_, hkind⟩, hspan.symm⟩
  · rintro ⟨q, hq, ⟨shape, hkind⟩ | ⟨tag, hkind⟩, rfl⟩
    · exact .inl ⟨⟨shape, _, q.start, q.length⟩, ⟨q, hq, hkind, rfl, rfl⟩, rfl⟩
    · exact .inr ⟨⟨tag, q.start, q.length⟩, ⟨q, hq, hkind, rfl⟩, rfl⟩

theorem tokens_ordered (escape : Char) (ps : List Piece) :
    (ofPieces escape (placePieces 0 ps)).tokens.Pairwise fun t u => t.span.Before u.span := by
  refine List.pairwise_filterMap.2 ((PlacedPiece.before_placePieces 0 ps).imp ?_)
  intro p q hpq t ht u hu
  rwa [(PlacedPiece.token?_eq_some.1 ht).2.2, (PlacedPiece.token?_eq_some.1 hu).2.2]

theorem regions_ordered (escape : Char) (ps : List Piece) :
    (ofPieces escape (placePieces 0 ps)).skipped.Pairwise fun r s => r.span.Before s.span := by
  refine List.pairwise_filterMap.2 ((PlacedPiece.before_placePieces 0 ps).imp ?_)
  intro p q hpq r hr s hs
  rwa [(PlacedPiece.skipped?_eq_some.1 hr).2, (PlacedPiece.skipped?_eq_some.1 hs).2]

theorem disjoint_spans (escape : Char) (ps : List Piece) :
    (ofPieces escape (placePieces 0 ps)).spans.Pairwise fun a b => a.Before b ∨ b.Before a := by
  refine List.pairwise_append.2 ⟨?_, ?_, ?_⟩
  · exact List.pairwise_map.2 ((tokens_ordered escape ps).imp .inl)
  · exact List.pairwise_map.2 ((regions_ordered escape ps).imp .inl)
  · intro a ha b hb
    obtain ⟨t, ht, rfl⟩ := List.mem_map.1 ha
    obtain ⟨r, hr, rfl⟩ := List.mem_map.1 hb
    obtain ⟨p, hp, htoken⟩ := mem_tokens.1 ht
    obtain ⟨q, hq, hregion⟩ := mem_skipped.1 hr
    obtain ⟨hpkind, -, hpspan⟩ := PlacedPiece.token?_eq_some.1 htoken
    obtain ⟨hqkind, hqspan⟩ := PlacedPiece.skipped?_eq_some.1 hregion
    -- No piece is both a token and a region.
    have hne : p ≠ q := by
      rintro rfl
      simp [hpkind] at hqkind
    rw [hpspan, hqspan]
    exact PlacedPiece.before_or_before hp hq hne

end Tokenized

namespace Tiling

variable {rules : LexicalRules} {text : List Char} {ps : List Piece}

theorem inside (h : Tiling rules text ps) {s : ByteRange}
    (hs : s ∈ (Tokenized.ofPieces rules.escape (placePieces 0 ps)).spans) :
    0 < s.length ∧ ∃ chars, s.Shows text chars := by
  obtain ⟨q, hq, -, rfl⟩ := Tokenized.mem_spans.1 hs
  obtain ⟨rest, hcut⟩ := h.cut_of_mem hq
  exact ⟨Text.byteLength_pos hcut.chars_ne_nil, _, h.shows_range hq⟩

theorem gaps (h : Tiling rules text ps) {before behind : List Char} {c : Char}
    (htext : text = before ++ c :: behind) :
    (∃ s ∈ (Tokenized.ofPieces rules.escape (placePieces 0 ps)).spans,
      s.start ≤ Text.byteLength before ∧
      Text.byteLength before + c.utf8Size ≤ s.start + s.length) ∨
    c ∈ rules.delimiters ∨ c = rules.escape ∧ behind = [] := by
  obtain ⟨first, p, rest, front, back, rfl, hp, rfl, rfl⟩ :=
    exists_piece_of_char (h.text_eq.symm.trans htext)
  rcases h.cut.kept_or with hkept | ⟨d, hd, hchars⟩ | ⟨hchars, hrest⟩
  · have hmem : ⟨piecesLength first, p⟩ ∈ placePieces 0 (first ++ p :: rest) :=
      mem_placePieces.2 ⟨first, rest, rfl, (Nat.zero_add _).symm⟩
    refine .inl ⟨_, Tokenized.mem_spans.2 ⟨_, hmem, hkept, rfl⟩, ?_, ?_⟩
    · simp [PlacedPiece.range, piecesLength_eq]
    · simp [PlacedPiece.range, PlacedPiece.length, piecesLength_eq, hp]
      omega
  · obtain ⟨-, rfl, -⟩ : front = [] ∧ c = d ∧ back = [] := by
      simpa [hp, List.append_eq_singleton_iff] using hchars
    exact .inr (.inl hd)
  · obtain ⟨-, rfl, rfl⟩ : front = [] ∧ c = rules.escape ∧ back = [] := by
      simpa [hp, List.append_eq_singleton_iff] using hchars
    exact .inr (.inr ⟨rfl, by simpa using hrest⟩)

/-- Something is between two words: the piece behind the first one. -/
theorem between_words {first between behind : List Piece} {p q : Piece}
    (h : Tiling rules text (first ++ p :: (between ++ q :: behind)))
    (hp : p.kind = .token .word) (hq : q.kind = .token .word) :
    ∃ m rest, between = m :: rest ∧ (m.Kept ∨ ∃ d ∈ rules.delimiters, m.chars = [d]) := by
  cases between with
  | nil => exact absurd hq (h.not_word_word hp)
  | cons m rest =>
    refine ⟨m, rest, rfl, ?_⟩
    have hm : Tiling rules text ((first ++ [p]) ++ m :: (rest ++ q :: behind)) := by simpa using h
    have hq : Tiling rules text ((first ++ p :: m :: rest) ++ q :: behind) := by simpa using h
    rcases hm.cut.kept_or with hkept | hdelimiter | ⟨-, hend⟩
    · exact .inl hkept
    · exact .inr hdelimiter
    · -- Nothing would be behind `m`, but `q` is.
      simp [hq.cut.chars_ne_nil] at hend

theorem words_apart (h : Tiling rules text ps) :
    (placePieces 0 ps).Pairwise fun p q =>
      p.piece.kind = .token .word → q.piece.kind = .token .word →
      ∃ s : ByteRange, p.range.Before s ∧ s.Before q.range ∧
        (s ∈ (Tokenized.ofPieces rules.escape (placePieces 0 ps)).spans ∨
          ∃ d ∈ rules.delimiters, s.Shows text [d]) := by
  refine pairwise_placePieces fun first p between q behind hps hp hq => ?_
  subst hps
  obtain ⟨m, rest, rfl, hm⟩ := h.between_words hp hq
  have hmem : ⟨0 + piecesLength (first ++ [p]), m⟩ ∈
      placePieces 0 (first ++ p :: (m :: rest ++ q :: behind)) :=
    mem_placePieces.2 ⟨first ++ [p], rest ++ q :: behind, by simp, rfl⟩
  refine ⟨PlacedPiece.range ⟨0 + piecesLength (first ++ [p]), m⟩, ?_, ?_, ?_⟩
  · exact PlacedPiece.range_before 0 first [] p m
  · simpa using PlacedPiece.range_before 0 (first ++ [p]) rest m q
  · rcases hm with hkept | ⟨d, hd, hchars⟩
    · exact .inl (Tokenized.mem_spans.2 ⟨_, hmem, hkept, rfl⟩)
    · exact .inr ⟨d, hd, hchars ▸ h.shows_range hmem⟩

/-- The tokens and regions of the pieces of a tiling tile the text. -/
theorem tiles (h : Tiling rules text ps) :
    (Tokenized.ofPieces rules.escape (placePieces 0 ps)).Tiles rules text where
  inside s hs := h.inside hs
  disjoint := Tokenized.disjoint_spans rules.escape ps
  tokens_ordered := Tokenized.tokens_ordered rules.escape ps
  regions_ordered := Tokenized.regions_ordered rules.escape ps
  gaps before c behind htext := h.gaps htext
  words_apart := by
    refine List.pairwise_filterMap.2 (h.words_apart.imp ?_)
    intro p q hpq t ht u hu htword huword
    obtain ⟨htkind, -, htspan⟩ := PlacedPiece.token?_eq_some.1 ht
    obtain ⟨hukind, -, huspan⟩ := PlacedPiece.token?_eq_some.1 hu
    rw [htspan, huspan]
    exact hpq (htword ▸ htkind) (huword ▸ hukind)
  spelled t ht := by
    obtain ⟨q, hq, htoken⟩ := Tokenized.mem_tokens.1 ht
    obtain ⟨hkind, htext, hspan⟩ := PlacedPiece.token?_eq_some.1 htoken
    obtain ⟨rest, hcut⟩ := h.cut_of_mem hq
    refine ⟨q.piece.chars, hspan ▸ h.shows_range hq, ?_⟩
    rw [htext, String.toList_ofList]
    exact hcut.spells hkind

end Tiling

/-! ## Tokenizing -/

/-- A scan without a fault has found an end for everything. -/
theorem Scan.unended_of_fault? {s : Scan} (h : s.fault? = none) : s.unended = none := by
  unfold fault? at h
  split at h
  · cases h
  · split at h <;> simp_all

theorem LexicalRules.scan_of_tokenize {rules : LexicalRules} {source : String} {found : Tokenized}
    (h : rules.tokenize source = .ok found) :
    (rules.scan source.toList).fault? = none ∧
      found = .ofPieces rules.escape (placePieces 0 (rules.scan source.toList).pieces) := by
  simp only [tokenize] at h
  split at h
  · cases h
  · next hfault => exact ⟨hfault, (Except.ok.inj h).symm⟩

/-- Whatever the rules, the spans that tokenizing finds tile the text. -/
theorem LexicalRules.tiles_of_tokenize {rules : LexicalRules} (wf : rules.WellFormed)
    {source : String} {found : Tokenized} (h : rules.tokenize source = .ok found) :
    found.Tiles rules source.toList := by
  obtain ⟨hfault, rfl⟩ := scan_of_tokenize h
  exact (tiling_scan wf source.toList (Scan.unended_of_fault? hfault)).tiles

theorem LexicalRules.wellFormed_headers : headers.WellFormed where
  marker_ne_nil := by decide
  opener_ne_nil := by decide
  punctuator_ne_nil := by decide

/-- Escapes in a word, in a literal and at the end, and a comment that ends a word, with characters
of two bytes. -/
theorem LexicalRules.tiles_of_tokenize_escapes :
    headers.tokenize "ü\\ x/*é*/y='a\\'b' \\" = .ok
      ⟨[⟨.word, "ü x", 0, 5⟩, ⟨.word, "y", 11, 1⟩, ⟨.punctuator, "=", 12, 1⟩,
        ⟨.literal, "a'b", 13, 6⟩], [⟨.comment, 5, 6⟩]⟩ ∧
    Tokenized.Tiles headers "ü\\ x/*é*/y='a\\'b' \\".toList
      ⟨[⟨.word, "ü x", 0, 5⟩, ⟨.word, "y", 11, 1⟩, ⟨.punctuator, "=", 12, 1⟩,
        ⟨.literal, "a'b", 13, 6⟩], [⟨.comment, 5, 6⟩]⟩ := by
  refine ⟨by decide +kernel, tiles_of_tokenize wellFormed_headers ?_⟩
  decide +kernel

end ShaderInterface
