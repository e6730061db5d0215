import ShaderInterface.Proofs.Lexical.Balance

/-!
# The longest punctuator

Punctuators can be added in any order, and one may start another. The table is kept in order of
length (`LexicalRules.longestFirst_addPunctuators`), so the first punctuator that a text starts with
is the longest one (`LexicalRules.punctuatorAt_eq_some_iff`), and so is every punctuator that a text
is cut into.
-/
namespace ShaderInterface

/-- `p` is the longest of the texts `ps` that `text` starts with, measured in bytes. -/
def LongestAt (ps : List String) (text : List Char) (p : String) : Prop :=
  p ∈ ps ∧ p.toList <+: text ∧ ∀ q ∈ ps, q.toList <+: text → q.utf8ByteSize ≤ p.utf8ByteSize

/-- Texts in order of their number of bytes, the greatest first. -/
def LongestFirst (table : List (List Char)) : Prop :=
  table.Pairwise fun p q => Text.byteLength q ≤ Text.byteLength p

namespace LexicalRules

/-! ## The table -/

theorem byteLength_le_of_triedBefore {p q : List Char} (h : triedBefore p q = true) :
    Text.byteLength q ≤ Text.byteLength p := by
  simp only [triedBefore, Bool.or_eq_true, Bool.and_eq_true, decide_eq_true_eq, beq_iff_eq] at h
  omega

theorem byteLength_le_of_not_triedBefore {p q : List Char} (h : ¬triedBefore p q = true) :
    Text.byteLength p ≤ Text.byteLength q := by
  simp only [triedBefore, Bool.or_eq_true, Bool.and_eq_true, decide_eq_true_eq, beq_iff_eq] at h
  omega

theorem insertPunctuator_perm (p : List Char) (table : List (List Char)) :
    (insertPunctuator p table).Perm (p :: table) := by
  induction table with
  | nil => exact .refl _
  | cons q table ih =>
    rw [insertPunctuator]
    split
    · exact .refl _
    · exact (ih.cons q).trans (.swap p q table)

theorem longestFirst_insertPunctuator (p : List Char) {table : List (List Char)}
    (h : LongestFirst table) : LongestFirst (insertPunctuator p table) := by
  induction table with
  | nil => exact List.pairwise_singleton _ p
  | cons q table ih =>
    obtain ⟨hq, htable⟩ := List.pairwise_cons.1 h
    rw [insertPunctuator]
    split
    · next hbefore =>
      have hqp := byteLength_le_of_triedBefore hbefore
      refine List.pairwise_cons.2 ⟨fun r hr => ?_, h⟩
      rcases List.mem_cons.1 hr with rfl | hr
      · exact hqp
      · exact (hq r hr).trans hqp
    · next hbefore =>
      refine List.pairwise_cons.2 ⟨fun r hr => ?_, ih htable⟩
      rcases List.mem_cons.1 ((insertPunctuator_perm p table).mem_iff.1 hr) with rfl | hr
      · exact byteLength_le_of_not_triedBefore hbefore
      · exact hq r hr

theorem mem_addPunctuators (ps : List String) (rules : LexicalRules) (p : List Char) :
    p ∈ (rules.addPunctuators ps).punctuators ↔
      p ∈ ps.map String.toList ∨ p ∈ rules.punctuators := by
  induction ps generalizing rules with
  | nil => simp [addPunctuators]
  | cons q ps ih =>
    have hstep : p ∈ (rules.addPunctuator q).punctuators ↔ p = q.toList ∨ p ∈ rules.punctuators := by
      rw [addPunctuator, (insertPunctuator_perm q.toList rules.punctuators).mem_iff, List.mem_cons]
    rw [addPunctuators, List.foldl_cons, ← addPunctuators, ih, hstep, List.map_cons, List.mem_cons]
    tauto

theorem longestFirst_addPunctuators (ps : List String) {rules : LexicalRules}
    (h : LongestFirst rules.punctuators) : LongestFirst (rules.addPunctuators ps).punctuators := by
  induction ps generalizing rules with
  | nil => exact h
  | cons p ps ih => exact ih (longestFirst_insertPunctuator p.toList h)

/-! ## The first match -/

/-- In a table with the longest text first, the first match is the longest. -/
theorem longest_of_punctuatorAt {rules : LexicalRules} (hsorted : LongestFirst rules.punctuators)
    {text p : List Char} (h : rules.punctuatorAt text = some p) :
    p ∈ rules.punctuators ∧ p <+: text ∧
      ∀ q ∈ rules.punctuators, q <+: text → Text.byteLength q ≤ Text.byteLength p := by
  obtain ⟨hmem, hstarts⟩ := prefix_of_punctuatorAt h
  refine ⟨hmem, hstarts, fun q hq hqtext => ?_⟩
  obtain ⟨-, before, behind, htable, hbefore⟩ := List.find?_eq_some_iff_append.1 h
  rw [LongestFirst, htable, List.pairwise_append, List.pairwise_cons] at hsorted
  rw [htable, List.mem_append, List.mem_cons] at hq
  rcases hq with hq | rfl | hq
  · -- What stands before the match was tried and is no start of the text.
    have hnot := hbefore q hq
    rw [List.isPrefixOf_iff_prefix.2 hqtext] at hnot
    cases hnot
  · exact Nat.le_refl _
  · exact hsorted.2.1.1 q hq

/-- The rules with the punctuators `ps`, added one after the other, and no others. -/
def withPunctuators (rules : LexicalRules) (ps : List String) : LexicalRules :=
  { rules with punctuators := [] }.addPunctuators ps

theorem mem_withPunctuators {rules : LexicalRules} {ps : List String} {p : String} :
    p.toList ∈ (rules.withPunctuators ps).punctuators ↔ p ∈ ps := by
  simp [withPunctuators, mem_addPunctuators, String.toList_inj]

theorem isSome_punctuatorAt_iff (rules : LexicalRules) (ps : List String) (text : List Char) :
    ((rules.withPunctuators ps).punctuatorAt text).isSome = true ↔
      ∃ p ∈ ps, p.toList <+: text := by
  simp [punctuatorAt, withPunctuators, mem_addPunctuators]

theorem longestAt_of_punctuatorAt {rules : LexicalRules} {ps : List String} {text : List Char}
    {p : String} (h : (rules.withPunctuators ps).punctuatorAt text = some p.toList) :
    LongestAt ps text p := by
  have hsorted : LongestFirst (rules.withPunctuators ps).punctuators :=
    longestFirst_addPunctuators ps .nil
  obtain ⟨hmem, hstarts, hlongest⟩ := longest_of_punctuatorAt hsorted h
  refine ⟨mem_withPunctuators.1 hmem, hstarts, fun q hq hqtext => ?_⟩
  have hle := hlongest q.toList (mem_withPunctuators.2 hq) hqtext
  rwa [Text.byteLength_toList, Text.byteLength_toList] at hle

theorem punctuatorAt_eq_some_iff (rules : LexicalRules) (ps : List String) (text : List Char)
    (p : String) :
    (rules.withPunctuators ps).punctuatorAt text = some p.toList ↔ LongestAt ps text p := by
  refine ⟨longestAt_of_punctuatorAt, fun h => ?_⟩
  obtain ⟨hmem, hstarts, hlongest⟩ := h
  obtain ⟨q, hq⟩ := Option.isSome_iff_exists.1
    ((isSome_punctuatorAt_iff rules ps text).2 ⟨p, hmem, hstarts⟩)
  rw [← String.toList_ofList (l := q)] at hq
  obtain ⟨hqmem, hqstarts, hqlongest⟩ := longestAt_of_punctuatorAt hq
  -- Each of the two is at least as long as the other.
  have hsize : p.utf8ByteSize = (String.ofList q).utf8ByteSize :=
    Nat.le_antisymm (hqlongest p hmem hstarts) (hlongest _ hqmem hqstarts)
  rw [← Text.byteLength_toList, ← Text.byteLength_toList] at hsize
  rw [hq, Text.eq_of_prefix_of_byteLength hstarts hqstarts hsize]

/-- What a text starts with does not depend on the order in which punctuators were added. -/
theorem punctuatorAt_of_perm (rules : LexicalRules) {ps qs : List String} (h : qs.Perm ps)
    (text : List Char) :
    (rules.withPunctuators qs).punctuatorAt text = (rules.withPunctuators ps).punctuatorAt text := by
  refine Option.ext fun p => ?_
  rw [← String.toList_ofList (l := p), punctuatorAt_eq_some_iff, punctuatorAt_eq_some_iff]
  simp only [LongestAt, h.mem_iff]

/-! ## Punctuators of a text -/

/-- A text that starts with a punctuator starts with no region. -/
theorem tables_of_lead {rules : LexicalRules} {c : Char} {cs chars : List Char}
    (h : rules.lead c cs = .punctuator chars) :
    rules.blockSkipAt (c :: cs) = none ∧ rules.lineSkipAt (c :: cs) = none ∧
      rules.punctuatorAt (c :: cs) = some chars := by
  unfold lead at h
  cases hblock : rules.blockSkipAt (c :: cs) with
  | some skip => simp [hblock] at h
  | none =>
  cases hline : rules.lineSkipAt (c :: cs) with
  | some skip => simp [hblock, hline] at h
  | none =>
  cases hopener : rules.closerOf c with
  | some closer =>
    simp only [hblock, hline, hopener] at h
    split_ifs at h
  | none =>
  cases hpunctuator : rules.punctuatorAt (c :: cs) with
  | none =>
    simp only [hblock, hline, hopener, hpunctuator] at h
    split_ifs at h
  | some p =>
    simp only [hblock, hline, hopener, hpunctuator] at h
    split_ifs at h
    exact ⟨rfl, rfl, congrArg some (Lead.punctuator.inj h)⟩

theorem lead_of_pieceAt {rules : LexicalRules} {c : Char} {cs : List Char} {p : Piece}
    (h : rules.pieceAt c cs = .ok p) (hkind : p.kind = .token .punctuator) :
    rules.lead c cs = .punctuator p.chars := by
  unfold pieceAt at h
  cases hcase : rules.lead c cs with
  | punctuator chars =>
    simp only [hcase] at h
    obtain rfl := Except.ok.inj h
    rfl
  | block | quote =>
    simp only [hcase] at h
    split at h
    · obtain rfl := Except.ok.inj h
      cases hkind
    · cases h
  | line | delimiter | opener | closer | terminator =>
    simp only [hcase] at h
    obtain rfl := Except.ok.inj h
    cases hkind
  | escape | plain =>
    simp only [hcase] at h
    obtain rfl := Except.ok.inj h
    dsimp only at hkind
    split at hkind <;> cases hkind

/-- An empty marker would start every text, so a text that starts with a punctuator shows that the
table has none. -/
theorem wellFormed_of_lead {rules : LexicalRules} (hne : ∀ p ∈ rules.punctuators, p ≠ [])
    {c : Char} {cs chars : List Char} (h : rules.lead c cs = .punctuator chars) :
    rules.WellFormed := by
  obtain ⟨hblock, hline, -⟩ := tables_of_lead h
  refine ⟨fun skip hskip hnil => ?_, fun skip hskip hnil => ?_, hne⟩
  · have hnot := List.find?_eq_none.1 hline skip hskip
    simp [hnil] at hnot
  · have hnot := List.find?_eq_none.1 hblock skip hskip
    simp [hnil] at hnot

theorem punctuator_of_tokenize {rules : LexicalRules} (hne : ∀ p ∈ rules.punctuators, p ≠ [])
    {source : String} {found : Tokenized} (h : rules.tokenize source = .ok found) {t : RawToken}
    (ht : t ∈ found.tokens) (hshape : t.shape = .punctuator) :
    ∃ before rest, source.toList = before ++ rest ∧ t.start = Text.byteLength before ∧
      rules.punctuatorAt rest = some t.text.toList ∧ t.length = t.text.utf8ByteSize := by
  obtain ⟨hended, -, rfl⟩ := tokenize_eq_ok_iff.1 h
  obtain ⟨q, hq, htoken⟩ := Tokenized.mem_tokens.1 ht
  obtain ⟨hkind, htext, hspan⟩ := PlacedPiece.token?_eq_some.1 htoken
  rw [hshape] at hkind
  obtain ⟨first, behind, hpieces, hstart⟩ := mem_placePieces.1 hq
  -- The piece was cut off some text, so the table has no empty marker.
  obtain ⟨d, ds, hsome⟩ := pieceAt_of_mem_scan 0 source.toList
    (hpieces ▸ List.mem_append_right _ List.mem_cons_self :
      q.piece ∈ (rules.scan source.toList).pieces)
  have wf := wellFormed_of_lead hne (lead_of_pieceAt hsome hkind)
  have hscan : rules.scan source.toList = ⟨first ++ q.piece :: behind, none⟩ := by
    rw [← hpieces, ← hended]
  obtain ⟨c, cs, rest, hrest, -, hpiece, -⟩ := of_scan_cons wf (scan_of_pieces wf hscan).2
  have hchars : t.text.toList = q.piece.chars := by
    rw [htext, String.toList_ofList, Piece.text, hkind]
  refine ⟨pieceChars first, pieceChars (q.piece :: behind), ?_, ?_, ?_, ?_⟩
  · rw [text_of_scan wf hscan, pieceChars_append]
  · have hoffset : t.start = q.start := congrArg ByteRange.start hspan
    rw [hoffset, hstart, Nat.zero_add, piecesLength_eq]
  · rw [hrest, hchars]
    exact (tables_of_lead (lead_of_pieceAt hpiece hkind)).2.2
  · have hlength : t.length = q.length := congrArg ByteRange.length hspan
    rw [hlength, PlacedPiece.length, ← hchars, Text.byteLength_toList]

/-- Whatever the other rules are and in whichever order punctuators were added, the longest one counts,
for a text that starts with some of them and for every punctuator that a text is cut into. -/
theorem withPunctuators_longest (rules : LexicalRules) (ps : List String) :
    (∀ text, ((rules.withPunctuators ps).punctuatorAt text).isSome = true ↔
      ∃ p ∈ ps, p.toList <+: text) ∧
    (∀ text p, (rules.withPunctuators ps).punctuatorAt text = some p.toList ↔
      LongestAt ps text p) ∧
    (∀ qs, qs.Perm ps → ∀ text,
      (rules.withPunctuators qs).punctuatorAt text = (rules.withPunctuators ps).punctuatorAt text) ∧
    ((∀ p ∈ ps, p ≠ "") → ∀ source found, (rules.withPunctuators ps).tokenize source = .ok found →
      ∀ t ∈ found.tokens, t.shape = .punctuator →
        ∃ before rest, source.toList = before ++ rest ∧ t.start = Text.byteLength before ∧
          LongestAt ps rest t.text ∧ t.length = t.text.utf8ByteSize) := by
  refine ⟨isSome_punctuatorAt_iff rules ps, punctuatorAt_eq_some_iff rules ps,
    fun qs h => punctuatorAt_of_perm rules h, ?_⟩
  intro hne source found h t ht hshape
  have hchars : ∀ p ∈ (rules.withPunctuators ps).punctuators, p ≠ [] := by
    intro p hp
    rw [← String.toList_ofList (l := p), mem_withPunctuators] at hp
    simpa using hne _ hp
  obtain ⟨before, rest, hsource, hstart, hat, hlength⟩ := punctuator_of_tokenize hchars h ht hshape
  exact ⟨before, rest, hsource, hstart, longestAt_of_punctuatorAt hat, hlength⟩

/-- A punctuator that starts another one, one that is added twice, and one of several bytes that is
longer than another one with more characters. -/
theorem withPunctuators_longest_arrow :
    (headers.withPunctuators [":", "→", "::", "--", "→=", ":"]).tokenize "a→=b:::" = .ok
      ⟨[⟨.word, "a", 0, 1⟩, ⟨.punctuator, "→=", 1, 4⟩, ⟨.word, "b", 5, 1⟩,
        ⟨.punctuator, "::", 6, 2⟩, ⟨.punctuator, ":", 8, 1⟩], []⟩ ∧
    (headers.withPunctuators ["→=", "::", "→", ":", "--", ":"]).punctuatorAt "→=b".toList =
      some "→=".toList ∧
    ∃ before rest, "a→=b:::".toList = before ++ rest ∧ 1 = Text.byteLength before ∧
      LongestAt [":", "→", "::", "--", "→=", ":"] rest "→=" ∧ 4 = "→=".utf8ByteSize := by
  obtain ⟨-, hlongest, hperm, htokens⟩ :=
    withPunctuators_longest headers [":", "→", "::", "--", "→=", ":"]
  have hfound : (headers.withPunctuators [":", "→", "::", "--", "→=", ":"]).tokenize "a→=b:::" = .ok
      ⟨[⟨.word, "a", 0, 1⟩, ⟨.punctuator, "→=", 1, 4⟩, ⟨.word, "b", 5, 1⟩,
        ⟨.punctuator, "::", 6, 2⟩, ⟨.punctuator, ":", 8, 1⟩], []⟩ := by
    decide +kernel
  refine ⟨hfound, ?_, ?_⟩
  · rw [hperm _ (by decide)]
    exact (hlongest _ _).2 ⟨by decide, by decide, by decide⟩
  · exact htokens (by decide) _ _ hfound ⟨.punctuator, "→=", 1, 4⟩ (by decide) rfl

end LexicalRules

end ShaderInterface
