import ShaderInterface.Proofs.Lexical.Spans
import ShaderInterface.Proofs.Text.Places

/-!
# Texts with a newline between them

A newline ends a word, a line comment and a directive, and it is part of no marker or punctuator. So a
text with everything ended, a newline and another text are scanned one by one
(`LexicalRules.scan_append_newline`), unless the first text ends in an unpaired escape, which would
take the newline into a word. Whether groups nest depends on the pieces alone (`nestAll`), not on their
places, and tokens keep everything but their start when the pieces move (`pieceTokens_add`).
-/
namespace ShaderInterface

/-! ## Unpaired escapes -/

/-- The last character is an escape with nothing behind it, where every escape before it takes the
character behind itself. -/
inductive EndsUnpaired (escape : Char) : List Char → Prop where
  | last : EndsUnpaired escape [escape]
  | pair {cs : List Char} (c : Char) : EndsUnpaired escape cs →
      EndsUnpaired escape (escape :: c :: cs)
  | plain {c : Char} {cs : List Char} : c ≠ escape → EndsUnpaired escape cs →
      EndsUnpaired escape (c :: cs)

theorem EndsUnpaired.getLast? {escape : Char} {cs : List Char} (h : EndsUnpaired escape cs) :
    cs.getLast? = some escape := by
  induction h with
  | last => rfl
  | pair c _ ih => simp [List.getLast?_cons, ih]
  | plain _ _ ih => simp [List.getLast?_cons, ih]

theorem EndsUnpaired.of_plain {escape c : Char} {cs : List Char} (h : EndsUnpaired escape (c :: cs))
    (hc : c ≠ escape) : EndsUnpaired escape cs := by
  cases h with
  | last | pair => exact absurd rfl hc
  | plain _ h => exact h

theorem EndsUnpaired.of_pair {escape d : Char} {cs : List Char}
    (h : EndsUnpaired escape (escape :: d :: cs)) : EndsUnpaired escape cs := by
  cases h with
  | pair _ h => exact h
  | plain hne _ => exact absurd rfl hne

/-- The piece is a word, with or without a text. -/
def Piece.IsWord (p : Piece) : Prop := p.kind = .token .word ∨ p.kind = .danglingEscape

/-- The piece is a word that ends in an unpaired escape. -/
def Piece.EndsInEscape (escape : Char) (p : Piece) : Prop :=
  p.IsWord ∧ EndsUnpaired escape p.chars

namespace LexicalRules

/-- A word that ends in an unpaired escape has nothing behind it. -/
theorem wordChars_eq_of_endsUnpaired {rules : LexicalRules} {text : List Char}
    (h : EndsUnpaired rules.escape (rules.wordChars text)) : rules.wordChars text = text := by
  fun_induction wordChars rules text with
  | case1 => cases h
  | case2 c cs hlead ih =>
    rw [ih (h.of_plain (ne_escape_of_lead hlead))]
  | case3 c hlead => rfl
  | case4 c d ds hlead ih =>
    obtain rfl := eq_escape_of_lead hlead
    rw [ih h.of_pair]
  | case5 c cs hplain hescape => cases h

/-- A text that starts with a word has this word as its first piece. -/
theorem isWord_of_pieceAt {rules : LexicalRules} {c : Char} {cs : List Char} {p : Piece}
    (h : rules.pieceAt c cs = .ok p) :
    (p.IsWord ↔ rules.StartsWord (c :: cs)) ∧ (p.IsWord → p.chars = rules.wordChars (c :: cs)) := by
  unfold pieceAt at h
  cases hcase : rules.lead c cs with
  | escape | plain =>
    simp only [hcase] at h
    cases h
    refine ⟨iff_of_true ?_ (by simp [StartsWord, hcase]), fun _ => rfl⟩
    unfold Piece.IsWord
    split <;> simp
  | block | quote =>
    simp only [hcase] at h
    split at h
    · cases h
      simp [Piece.IsWord, StartsWord, hcase]
    · cases h
  | line | delimiter | opener | closer | terminator | punctuator =>
    simp only [hcase] at h
    cases h
    simp [Piece.IsWord, StartsWord, hcase]

/-- Nothing is behind a piece that ends in an unpaired escape. -/
theorem eq_nil_of_endsInEscape {rules : LexicalRules} {c : Char} {cs rest : List Char} {p : Piece}
    (hpiece : rules.pieceAt c cs = .ok p) (htext : c :: cs = p.chars ++ rest)
    (hend : p.EndsInEscape rules.escape) : rest = [] := by
  have hchars := (isWord_of_pieceAt hpiece).2 hend.1
  have hall : rules.wordChars (c :: cs) = c :: cs :=
    wordChars_eq_of_endsUnpaired (hchars ▸ hend.2)
  rw [hchars, hall] at htext
  simpa using htext

/-- Only the last piece can end in an unpaired escape. -/
theorem last_of_endsInEscape {rules : LexicalRules} (wf : rules.WellFormed) {text : List Char}
    {first behind : List Piece} {p : Piece} (hpieces : (rules.scan text).pieces = first ++ p :: behind)
    (hend : p.EndsInEscape rules.escape) : behind = [] ∧ text = pieceChars first ++ p.chars := by
  induction text using scan_induction wf generalizing first with
  | nil => simp [scan, Scan.ofChars] at hpieces
  | stuck c cs u _ hscan => simp [hscan] at hpieces
  | piece c cs q rest hpiece htext _ hscan ih =>
    rw [hscan] at hpieces
    obtain _ | ⟨q', first⟩ := first
    · obtain ⟨rfl, rfl⟩ := List.cons.inj hpieces
      obtain rfl := eq_nil_of_endsInEscape hpiece htext hend
      exact ⟨rfl, by simpa using htext⟩
    · obtain ⟨rfl, hrest⟩ := List.cons.inj hpieces
      obtain ⟨hbehind, rfl⟩ := ih hrest
      exact ⟨hbehind, by simpa using htext⟩

/-- A text whose last character is no escape has no piece that ends in an unpaired one. -/
theorem not_endsInEscape_of_getLast? {rules : LexicalRules} (wf : rules.WellFormed)
    {text : List Char} (hlast : text.getLast? ≠ some rules.escape) :
    ∀ p ∈ (rules.scan text).pieces, ¬p.EndsInEscape rules.escape := by
  intro p hp hend
  obtain ⟨first, behind, hpieces⟩ := List.append_of_mem hp
  obtain ⟨-, htext⟩ := last_of_endsInEscape wf hpieces hend
  rw [htext, List.getLast?_append, hend.2.getLast?] at hlast
  exact hlast rfl

/-- A newline separates words, and no fixed text of the table has one. -/
structure LineBound (rules : LexicalRules) : Prop where
  newline_mem : '\n' ∈ rules.delimiters
  escape_ne : '\n' ≠ rules.escape
  not_mem_marker : ∀ skip ∈ rules.lineSkips, '\n' ∉ skip.marker
  not_mem_opener : ∀ skip ∈ rules.blockSkips, '\n' ∉ skip.opener
  not_mem_closer : ∀ skip ∈ rules.blockSkips, '\n' ∉ skip.closer
  not_mem_punctuator : ∀ p ∈ rules.punctuators, '\n' ∉ p

theorem lineBound_headers : headers.LineBound where
  newline_mem := by decide
  escape_ne := by decide
  not_mem_marker := by decide
  not_mem_opener := by decide
  not_mem_closer := by decide
  not_mem_punctuator := by decide

/-! ## The first piece -/

theorem isPrefixOf_append_newline {p : List Char} (hp : '\n' ∉ p) (text rest : List Char) :
    p.isPrefixOf (text ++ '\n' :: rest) = p.isPrefixOf text := by
  induction p generalizing text with
  | nil => simp
  | cons c p ih =>
    have hc : c ≠ '\n' := fun h => hp (by simp [h])
    cases text with
    | nil => simp [List.isPrefixOf, hc]
    | cons d text => simp [List.isPrefixOf, ih (fun h => hp (List.mem_cons_of_mem c h))]

theorem find?_isPrefixOf_append_newline {α : Type} {table : List α} {chars : α → List Char}
    (h : ∀ a ∈ table, '\n' ∉ chars a) (text rest : List Char) :
    (table.find? fun a => (chars a).isPrefixOf (text ++ '\n' :: rest)) =
      table.find? fun a => (chars a).isPrefixOf text := by
  induction table with
  | nil => rfl
  | cons a table ih =>
    rw [List.find?_cons, List.find?_cons, isPrefixOf_append_newline (h a List.mem_cons_self),
      ih fun b hb => h b (List.mem_cons_of_mem a hb)]

variable {rules : LexicalRules}

theorem lead_append_newline (lb : rules.LineBound) (c : Char) (cs rest : List Char) :
    rules.lead c (cs ++ '\n' :: rest) = rules.lead c cs := by
  have hblock : rules.blockSkipAt (c :: (cs ++ '\n' :: rest)) = rules.blockSkipAt (c :: cs) :=
    find?_isPrefixOf_append_newline lb.not_mem_opener (c :: cs) rest
  have hline : rules.lineSkipAt (c :: (cs ++ '\n' :: rest)) = rules.lineSkipAt (c :: cs) :=
    find?_isPrefixOf_append_newline lb.not_mem_marker (c :: cs) rest
  have hpunctuator : rules.punctuatorAt (c :: (cs ++ '\n' :: rest)) =
      rules.punctuatorAt (c :: cs) :=
    find?_isPrefixOf_append_newline lb.not_mem_punctuator (c :: cs) rest
  rw [lead, hblock, hline, hpunctuator, lead]

theorem lead_newline (wf : rules.WellFormed) (lb : rules.LineBound) (rest : List Char) :
    rules.lead '\n' rest = .delimiter := by
  have hfree {p : List Char} (hne : p ≠ []) (hp : '\n' ∉ p) :
      p.isPrefixOf ('\n' :: rest) = false := by
    have := isPrefixOf_append_newline hp [] rest
    rw [List.nil_append] at this
    rw [this]
    cases p <;> simp_all
  have hblock : rules.blockSkipAt ('\n' :: rest) = none := by
    refine List.find?_eq_none.2 fun skip hskip => ?_
    simp [hfree (wf.opener_ne_nil skip hskip) (lb.not_mem_opener skip hskip)]
  have hline : rules.lineSkipAt ('\n' :: rest) = none := by
    refine List.find?_eq_none.2 fun skip hskip => ?_
    simp [hfree (wf.marker_ne_nil skip hskip) (lb.not_mem_marker skip hskip)]
  simp [lead, hblock, hline, lb.escape_ne, lb.newline_mem]

theorem wordChars_append_newline (wf : rules.WellFormed) (lb : rules.LineBound) (text rest : List Char)
    (hpaired : ¬EndsUnpaired rules.escape (rules.wordChars text)) :
    rules.wordChars (text ++ '\n' :: rest) = rules.wordChars text := by
  fun_induction wordChars rules text with
  | case1 =>
    rw [List.nil_append, wordChars.eq_def]
    simp only [lead_newline wf lb]
  | case2 c cs hlead ih =>
    rw [List.cons_append, wordChars_plain (by rw [lead_append_newline lb, hlead]),
      ih fun h => hpaired (.plain (ne_escape_of_lead hlead) h)]
  | case3 c hlead =>
    obtain rfl := eq_escape_of_lead hlead
    exact absurd .last hpaired
  | case4 c d ds hlead ih =>
    obtain rfl := eq_escape_of_lead hlead
    rw [List.cons_append, wordChars_escape (by rw [lead_append_newline lb, hlead])]
    simpa using ih fun h => hpaired (.pair d h)
  | case5 c cs hplain hescape =>
    rw [List.cons_append, wordChars.eq_def]
    simp only [lead_append_newline lb]

theorem literalChars_append {escape quote : Char} {text chars : List Char}
    (h : literalChars escape quote text = some chars) (rest : List Char) :
    literalChars escape quote (text ++ rest) = some chars := by
  fun_induction literalChars escape quote text generalizing chars with
  | case1 => simp at h
  | case2 => simp at h
  | case3 d ds ih =>
    obtain ⟨inner, hinner, rfl⟩ := Option.map_eq_some_iff.1 h
    simp [literalChars, ih hinner]
  | case4 cs hne =>
    rw [List.cons_append, literalChars.eq_def]
    simpa [hne] using h
  | case5 c cs hne hquote ih =>
    obtain ⟨inner, hinner, rfl⟩ := Option.map_eq_some_iff.1 h
    rw [List.cons_append, literalChars.eq_def]
    simp [hne, hquote, ih hinner]

theorem blockChars_append_newline {closer : List Char} (hcloser : '\n' ∉ closer)
    {text chars : List Char} (h : blockChars closer text = some chars) (rest : List Char) :
    blockChars closer (text ++ '\n' :: rest) = some chars := by
  fun_induction blockChars closer text generalizing chars with
  | case1 => simp_all [blockChars]
  | case2 => simp at h
  | case3 c cs hfound =>
    have hstill := isPrefixOf_append_newline hcloser (c :: cs) rest
    rw [hfound, List.cons_append] at hstill
    rw [List.cons_append, blockChars, if_pos hstill, h]
  | case4 c cs hmissing ih =>
    have hstill := isPrefixOf_append_newline hcloser (c :: cs) rest
    rw [List.cons_append] at hstill
    obtain ⟨inner, hinner, rfl⟩ := Option.map_eq_some_iff.1 h
    rw [List.cons_append, blockChars, if_neg (by rwa [hstill]), ih hinner, Option.map_some]

theorem lineChars_append_newline (text rest : List Char) :
    lineChars (text ++ '\n' :: rest) = lineChars text := by
  unfold lineChars
  induction text with
  | nil => simp
  | cons c text ih => rw [List.cons_append, List.takeWhile_cons, List.takeWhile_cons, ih]

/-- A newline behind a text does not change its first piece. -/
theorem pieceAt_append_newline (wf : rules.WellFormed) (lb : rules.LineBound) {c : Char}
    {cs : List Char} {p : Piece} (h : rules.pieceAt c cs = .ok p)
    (hpaired : ¬p.EndsInEscape rules.escape) (rest : List Char) :
    rules.pieceAt c (cs ++ '\n' :: rest) = .ok p := by
  have hlead := rules.lead_cases c cs
  have hisWord := (isWord_of_pieceAt h).1
  have hword := wordChars_append_newline wf lb (c :: cs) rest
  rw [List.cons_append] at hword
  unfold pieceAt at h ⊢
  rw [lead_append_newline lb]
  cases hcase : rules.lead c cs with
  | block skip =>
    simp only [hcase] at h hlead ⊢
    obtain ⟨hmem, hopener⟩ := hlead
    split at h
    · next chars hchars =>
      have := blockChars_append_newline (lb.not_mem_closer skip hmem) hchars rest
      rw [← List.drop_append_of_le_length hopener.length_le, List.cons_append] at this
      rw [this]
      exact h
    · cases h
  | line skip =>
    simp only [hcase] at h hlead ⊢
    rw [← List.cons_append, List.drop_append_of_le_length hlead.2.length_le,
      lineChars_append_newline]
    exact h
  | quote =>
    simp only [hcase] at h ⊢
    split at h
    · next chars hchars =>
      rw [literalChars_append hchars]
      exact h
    · cases h
  | escape | plain =>
    simp only [hcase] at h ⊢
    cases h
    rw [hword fun hend => hpaired ⟨hisWord.2 (by simp [StartsWord, hcase]), hend⟩]
  | delimiter | opener | closer | terminator | punctuator =>
    simp only [hcase] at h ⊢
    exact h

/-! ## Scans -/

theorem pieceAt_newline (wf : rules.WellFormed) (lb : rules.LineBound) (rest : List Char) :
    rules.pieceAt '\n' rest = .ok ⟨.delimiter, ['\n']⟩ := by
  simp only [pieceAt, lead_newline wf lb]

/-- Two texts with a newline between them are scanned one by one. -/
theorem scan_append_newline (wf : rules.WellFormed) (lb : rules.LineBound) (text rest : List Char)
    (hended : (rules.scan text).unended = none)
    (hpaired : ∀ p ∈ (rules.scan text).pieces, ¬p.EndsInEscape rules.escape) :
    rules.scan (text ++ '\n' :: rest) =
      ⟨(rules.scan text).pieces ++ ⟨.delimiter, ['\n']⟩ :: (rules.scan rest).pieces,
        (rules.scan rest).unended⟩ := by
  induction text using scan_induction wf with
  | nil => exact scan_cut (pieceAt_newline wf lb rest) rfl (by simp)
  | stuck c cs u _ hscan => simp [hscan] at hended
  | piece c cs p behind hpiece htext hcut hscan ih =>
    rw [hscan] at hended hpaired
    obtain ⟨hfirst, hrest⟩ := List.forall_mem_cons.1 hpaired
    have hlong : c :: (cs ++ '\n' :: rest) = p.chars ++ (behind ++ '\n' :: rest) := by
      rw [← List.append_assoc, ← htext, List.cons_append]
    rw [List.cons_append, scan_cut (pieceAt_append_newline wf lb hpiece hfirst rest) hlong
      hcut.chars_ne_nil, ih hended hrest, hscan]
    rfl

end LexicalRules

/-! ## Groups -/

/-- The closers that are expected behind a piece, the innermost first; `none` if the piece closes
another group. -/
def Piece.nest (expected : List Char) (p : Piece) : Option (List Char) :=
  match p.kind with
  | .token (.groupOpen _ closer) => some (closer :: expected)
  | .token (.groupClose closer) =>
    match expected with
    | [] => none
    | c :: outer => if c = closer then some outer else none
  | _ => some expected

/-- The closers that are expected behind some pieces. -/
def nestAll (expected : List Char) (ps : List Piece) : Option (List Char) :=
  ps.foldlM Piece.nest expected

theorem nestAll_append (expected : List Char) (ps qs : List Piece) :
    nestAll expected (ps ++ qs) = (nestAll expected ps).bind fun inner => nestAll inner qs :=
  List.foldlM_append

/-- The check of groups goes by the closers that are expected, wherever the pieces are placed. -/
theorem nestAll_eq (start : Nat) (stack : List OpenGroup) (ps : List Piece) :
    nestAll (stack.map OpenGroup.expected) ps =
      (checkNesting stack (placePieces start ps)).toOption.map (List.map OpenGroup.expected) := by
  induction ps generalizing start stack with
  | nil => rfl
  | cons p ps ih =>
    obtain ⟨kind, chars⟩ := p
    -- Only grouping characters change what is expected.
    cases kind with
    | token shape =>
      cases shape with
      | groupOpen opener closer => exact ih _ (⟨opener, closer, start⟩ :: stack)
      | groupClose closer =>
        cases stack with
        | nil => rfl
        | cons group outer =>
          rw [nestAll, List.foldlM_cons, placePieces, checkNesting]
          simp only [Piece.nest, List.map_cons]
          split_ifs
          · exact ih _ outer
          · rfl
      | word | punctuator | terminator | literal => exact ih _ stack
    | skipped | delimiter | danglingEscape => exact ih _ stack

/-- A text is cut into tokens if everything in it has an end and its groups nest. -/
theorem LexicalRules.tokenize_eq_ok_iff {rules : LexicalRules} {source : String} {found : Tokenized} :
    rules.tokenize source = .ok found ↔ (rules.scan source.toList).unended = none ∧
      nestAll [] (rules.scan source.toList).pieces = some [] ∧
      found = .ofPieces rules.escape (placePieces 0 (rules.scan source.toList).pieces) := by
  have hnest := nestAll_eq 0 [] (rules.scan source.toList).pieces
  rw [List.map_nil] at hnest
  simp only [tokenize, Scan.fault?]
  rw [hnest]
  cases hcheck : checkNesting [] (placePieces 0 (rules.scan source.toList).pieces) with
  | error e => simp [Except.toOption]
  | ok stack =>
    cases hunended : (rules.scan source.toList).unended with
    | some u => simp
    | none =>
      cases stack with
      | nil => simpa [Except.toOption] using eq_comm
      | cons group outer => simp [Except.toOption]

/-! ## Tokens -/

/-- The token with its start moved. -/
def RawToken.move (f : Nat → Nat) (t : RawToken) : RawToken := { t with start := f t.start }

/-- The tokens among some pieces, of which the first one starts at `start`. -/
def pieceTokens (escape : Char) (start : Nat) (ps : List Piece) : List RawToken :=
  (Tokenized.ofPieces escape (placePieces start ps)).tokens

theorem pieceTokens_append (escape : Char) (start : Nat) (ps qs : List Piece) :
    pieceTokens escape start (ps ++ qs) =
      pieceTokens escape start ps ++ pieceTokens escape (start + piecesLength ps) qs := by
  simp only [pieceTokens, Tokenized.ofPieces, placePieces_append, List.filterMap_append]

/-- Pieces that start further on have the same tokens further on. -/
theorem pieceTokens_add (escape : Char) (bytes start : Nat) (ps : List Piece) :
    pieceTokens escape (bytes + start) ps =
      (pieceTokens escape start ps).map (RawToken.move (bytes + ·)) := by
  simp only [pieceTokens, Tokenized.ofPieces]
  induction ps generalizing start with
  | nil => rfl
  | cons p ps ih =>
    obtain ⟨kind, chars⟩ := p
    rw [placePieces, placePieces, Nat.add_assoc]
    cases kind with
    | token => exact congrArg (List.cons _) (ih _)
    | skipped | delimiter | danglingEscape => exact ih _

namespace LexicalRules

variable {rules : LexicalRules}

/-- The pieces of a text take up its bytes. -/
theorem piecesLength_scan (wf : rules.WellFormed) {source : String}
    (hended : (rules.scan source.toList).unended = none) :
    piecesLength (rules.scan source.toList).pieces = source.utf8ByteSize := by
  rw [piecesLength_eq, ← (tiling_scan wf _ hended).text_eq, Text.byteLength_toList]

/-- The tokens of two texts with a newline between them. -/
theorem tokenize_append_newline (wf : rules.WellFormed) (lb : rules.LineBound)
    {first second : String} {found later : Tokenized} (hfirst : rules.tokenize first = .ok found)
    (hsecond : rules.tokenize second = .ok later)
    (hlast : first.toList.getLast? ≠ some rules.escape) :
    ∃ joined, rules.tokenize (first ++ "\n" ++ second) = .ok joined ∧
      joined.tokens =
        found.tokens ++ later.tokens.map (RawToken.move (first.utf8ByteSize + 1 + ·)) := by
  obtain ⟨hended₁, hnest₁, rfl⟩ := tokenize_eq_ok_iff.1 hfirst
  obtain ⟨hended₂, hnest₂, rfl⟩ := tokenize_eq_ok_iff.1 hsecond
  have hchars : (first ++ "\n" ++ second).toList = first.toList ++ '\n' :: second.toList := by
    simp
  have hscan := scan_append_newline wf lb first.toList second.toList hended₁
    (not_endsInEscape_of_getLast? wf hlast)
  refine ⟨_, tokenize_eq_ok_iff.2 ⟨?_, ?_, rfl⟩, ?_⟩
  · rw [hchars, hscan]
    exact hended₂
  · rw [hchars, hscan, nestAll_append, hnest₁]
    exact hnest₂
  · rw [hchars, hscan]
    change pieceTokens _ 0 (_ ++ _) = pieceTokens _ 0 _ ++ (pieceTokens _ 0 _).map _
    rw [pieceTokens_append, piecesLength_scan wf hended₁, Nat.zero_add, ← pieceTokens_add]
    rfl

end LexicalRules

end ShaderInterface
