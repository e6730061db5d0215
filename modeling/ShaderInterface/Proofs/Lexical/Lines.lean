import ShaderInterface.Proofs.Declaration.Headers
import ShaderInterface.Proofs.Lexical.Seams
import ShaderInterface.Text.Lines
import Mathlib.Data.List.TakeWhile

/-!
# Lines of words

What header rules find on lines made of words, blanks, braces and semicolons, and on comment lines. A
text is scanned line by line (`LexicalRules.scan_unlines`). Of a token, the grammar sees its kind and
its text, its `key`; `LinesRead` says which keys some lines give and which groups they open or close,
so that what is known of single lines can be put together.
-/
namespace ShaderInterface

namespace LexicalRules

/-! ## Words -/

/-- The characters with a meaning of their own, or that start a text with one. -/
def specials (rules : LexicalRules) : List Char :=
  rules.escape :: rules.terminator :: rules.delimiters ++ rules.quotes ++
    rules.groups.flatMap (fun g => [g.opener, g.closer]) ++
    (rules.lineSkips.map LineSkip.marker ++ rules.blockSkips.map BlockSkip.opener ++
      rules.punctuators).flatMap (List.take 1)

variable {rules : LexicalRules}

theorem find?_isPrefixOf_eq_none {α : Type} {table : List α} {chars : α → List Char} {c : Char}
    (hne : ∀ a ∈ table, chars a ≠ []) (hc : c ∉ (table.map chars).flatMap (List.take 1))
    (cs : List Char) : (table.find? fun a => (chars a).isPrefixOf (c :: cs)) = none := by
  refine List.find?_eq_none.2 fun a ha => ?_
  obtain ⟨d, ds, hd⟩ := List.exists_cons_of_ne_nil (hne a ha)
  have hdc : d ≠ c := by
    rintro rfl
    exact hc (List.mem_flatMap.2 ⟨chars a, List.mem_map_of_mem ha, by simp [hd]⟩)
  simp [hd, List.isPrefixOf, hdc]

/-- A character without a meaning of its own belongs to a word, whatever is behind it. -/
theorem lead_of_not_special (wf : rules.WellFormed) {c : Char} (h : c ∉ rules.specials)
    (cs : List Char) : rules.lead c cs = .plain := by
  simp only [specials, List.cons_append, List.mem_cons, List.mem_append, List.flatMap_append,
    not_or] at h
  obtain ⟨hescape, hterminator, ⟨⟨hdelimiter, hquote⟩, hgroup⟩, ⟨hline, hblock⟩, hpunctuator⟩ := h
  have hnoblock : rules.blockSkipAt (c :: cs) = none :=
    find?_isPrefixOf_eq_none wf.opener_ne_nil hblock cs
  have hnoline : rules.lineSkipAt (c :: cs) = none :=
    find?_isPrefixOf_eq_none wf.marker_ne_nil hline cs
  have hnopunctuator : rules.punctuatorAt (c :: cs) = none :=
    find?_isPrefixOf_eq_none wf.punctuator_ne_nil (by simpa using hpunctuator) cs
  have hnoopener : rules.closerOf c = none := by
    refine Option.map_eq_none_iff.2 (List.find?_eq_none.2 fun g hg hopen => ?_)
    refine hgroup (List.mem_flatMap.2 ⟨g, hg, ?_⟩)
    simp_all
  have hnocloser : rules.isCloser c = false := by
    refine List.any_eq_false.2 fun g hg hclose => ?_
    refine hgroup (List.mem_flatMap.2 ⟨g, hg, ?_⟩)
    simp_all
  simp [lead, hnoblock, hnoline, hescape, hdelimiter, hquote, hnoopener, hnocloser, hterminator,
    hnopunctuator]

theorem not_special_of_isWordChar {c : Char} (h : Text.isWordChar c = true) :
    c ∉ headers.specials := by
  intro hc
  have hspecials : (headers.specials.all fun d => !Text.isWordChar d) = true := by decide +kernel
  have hnot := List.all_eq_true.1 hspecials c hc
  simp [h] at hnot

theorem wordChars_append (wf : rules.WellFormed) {word rest : List Char}
    (hword : ∀ c ∈ word, c ∉ rules.specials) (hrest : ¬rules.StartsWord rest) :
    rules.wordChars (word ++ rest) = word := by
  induction word with
  | nil =>
    cases rest with
    | nil => rfl
    | cons c rest =>
      obtain ⟨hplain, hescape⟩ := not_or.1 hrest
      rw [List.nil_append, wordChars.eq_def]
      dsimp only
      split
      · contradiction
      · contradiction
      · rfl
  | cons c word ih =>
    rw [List.cons_append, wordChars_plain (lead_of_not_special wf (hword c List.mem_cons_self) _),
      ih fun d hd => hword d (List.mem_cons_of_mem c hd)]

theorem unescape_of_not_mem {escape : Char} {cs : List Char} (h : escape ∉ cs) :
    unescape escape cs = cs := by
  induction cs with
  | nil => rfl
  | cons c cs ih =>
    have hc : c ≠ escape := fun heq => h (by simp [heq])
    rw [unescape_cons_of_ne hc, ih fun hmem => h (List.mem_cons_of_mem c hmem)]

/-- A word is scanned as a whole if what is behind it is no part of a word. -/
theorem scan_word (wf : rules.WellFormed) {word rest : List Char} (hne : word ≠ [])
    (hword : ∀ c ∈ word, c ∉ rules.specials) (hrest : ¬rules.StartsWord rest) :
    rules.scan (word ++ rest) = .cons ⟨.token .word, word⟩ (rules.scan rest) := by
  obtain ⟨c, cs, rfl⟩ := List.exists_cons_of_ne_nil hne
  have hescape : rules.escape ∉ c :: cs := fun hmem => hword _ hmem (by simp [specials])
  have hlead := lead_of_not_special wf (hword c List.mem_cons_self) (cs ++ rest)
  have hchars := wordChars_append wf hword hrest
  rw [List.cons_append] at hchars ⊢
  refine scan_cut (p := ⟨.token .word, c :: cs⟩) ?_ rfl hne
  simp only [pieceAt, hlead, hchars, unescape_of_not_mem hescape]
  rfl

/-! ## Single characters and comments of headers -/

theorem scan_blank (rest : List Char) :
    headers.scan (' ' :: rest) = .cons ⟨.delimiter, [' ']⟩ (headers.scan rest) :=
  scan_cut rfl rfl (by simp)

theorem scan_semicolon (rest : List Char) :
    headers.scan (';' :: rest) = .cons ⟨.token .terminator, [';']⟩ (headers.scan rest) :=
  scan_cut rfl rfl (by simp)

theorem scan_openBrace (rest : List Char) :
    headers.scan ('{' :: rest) =
      .cons ⟨.token (.groupOpen '{' '}'), ['{']⟩ (headers.scan rest) :=
  scan_cut rfl rfl (by simp)

theorem scan_closeBrace (rest : List Char) :
    headers.scan ('}' :: rest) =
      .cons ⟨.token (.groupClose '}'), ['}']⟩ (headers.scan rest) :=
  scan_cut rfl rfl (by simp)

theorem scan_blanks (n : Nat) (rest : List Char) :
    headers.scan (List.replicate n ' ' ++ rest) =
      ⟨List.replicate n ⟨.delimiter, [' ']⟩ ++ (headers.scan rest).pieces,
        (headers.scan rest).unended⟩ := by
  induction n with
  | zero => rfl
  | succ n ih =>
    rw [List.replicate_succ, List.cons_append, scan_blank, ih]
    rfl

/-- A comment goes on to the end of the line. -/
theorem scan_comment {cs : List Char} (h : '\n' ∉ cs) :
    headers.scan ('/' :: '/' :: cs) = ⟨[⟨.skipped .comment, '/' :: '/' :: cs⟩], none⟩ := by
  have hline : lineChars cs = cs := by
    refine List.takeWhile_eq_self_iff.2 fun c hc => ?_
    have hne : c ≠ '\n' := by
      rintro rfl
      exact h hc
    simpa using hne
  have hpiece : headers.pieceAt '/' ('/' :: cs) =
      .ok ⟨.skipped .comment, ['/', '/'] ++ lineChars cs⟩ := rfl
  rw [hline] at hpiece
  exact scan_cut hpiece (List.append_nil _).symm (by simp)

theorem not_startsWord_blank (rest : List Char) : ¬headers.StartsWord (' ' :: rest) :=
  not_or.2 ⟨by rintro ⟨⟩, by rintro ⟨⟩⟩

theorem not_startsWord_semicolon (rest : List Char) : ¬headers.StartsWord (';' :: rest) :=
  not_or.2 ⟨by rintro ⟨⟩, by rintro ⟨⟩⟩

/-! ## Texts line by line -/

/-- The pieces of lines, each with its newline. -/
def linePieces (rules : LexicalRules) (ls : List String) : List Piece :=
  ls.flatMap fun l => (rules.scan l.toList).pieces ++ [⟨.delimiter, ['\n']⟩]

/-- The line can be scanned on its own. -/
def Closed (rules : LexicalRules) (line : String) : Prop :=
  (rules.scan line.toList).unended = none ∧ line.toList.getLast? ≠ some rules.escape

theorem scan_unlines (wf : rules.WellFormed) (lb : rules.LineBound) {ls : List String}
    (h : ∀ l ∈ ls, rules.Closed l) :
    rules.scan (Text.unlines ls).toList = ⟨rules.linePieces ls, none⟩ := by
  induction ls with
  | nil => rfl
  | cons l ls ih =>
    obtain ⟨hended, hlast⟩ := h l List.mem_cons_self
    have hrest := ih fun l' hl' => h l' (List.mem_cons_of_mem l hl')
    have htext : (Text.unlines (l :: ls)).toList = l.toList ++ '\n' :: (Text.unlines ls).toList := by
      simp
    rw [htext, scan_append_newline wf lb l.toList _ hended (not_endsInEscape_of_getLast? wf hlast),
      hrest, linePieces, linePieces, List.flatMap_cons, List.append_assoc]
    rfl

end LexicalRules

/-! ## Keys -/

/-- What the grammar sees of a token. -/
def Token.key (t : Token) : TokenKind × String := (t.kind, t.text)

/-- The key of the token that a piece is. -/
def Piece.key? (rules : LexicalRules) (p : Piece) : Option (TokenKind × String) :=
  (PlacedPiece.token? rules.escape ⟨0, p⟩).map fun t => (t.kind rules, t.text)

theorem Piece.key?_delimiter (rules : LexicalRules) (chars : List Char) :
    Piece.key? rules ⟨.delimiter, chars⟩ = none := rfl

theorem Piece.key?_semicolon :
    Piece.key? .headers ⟨.token .terminator, [';']⟩ = some (.punctuator, ";") := rfl

/-- Keys do not depend on the places of tokens. -/
theorem keys_placePieces (rules : LexicalRules) (text : List Char) (start : Nat)
    (ps : List Piece) :
    (((placePieces start ps).filterMap (PlacedPiece.token? rules.escape)).map
      (RawToken.classified rules text)).map Token.key = ps.filterMap (Piece.key? rules) := by
  induction ps generalizing start with
  | nil => rfl
  | cons p ps ih =>
    obtain ⟨kind, chars⟩ := p
    rw [placePieces]
    cases kind with
    | token shape => exact congrArg _ (ih _)
    | skipped | delimiter | danglingEscape => exact ih _

theorem keys_of_tokenize {rules : LexicalRules} {source : String} {found : Tokenized}
    (h : rules.tokenize source = .ok found) :
    (found.tokens.map (RawToken.classified rules source.toList)).map Token.key =
      (rules.scan source.toList).pieces.filterMap (Piece.key? rules) := by
  obtain ⟨-, -, rfl⟩ := LexicalRules.tokenize_eq_ok_iff.1 h
  exact keys_placePieces rules source.toList 0 _

/-- Lines that can be scanned on their own, lead from the groups `outer` to the groups `inner` and
have tokens with these keys. -/
structure LinesRead (ls : List String) (outer inner : List Char) (keys : List (TokenKind × String)) :
    Prop where
  closed : ∀ l ∈ ls, LexicalRules.headers.Closed l
  nest : nestAll outer (LexicalRules.headers.linePieces ls) = some inner
  keys : (LexicalRules.headers.linePieces ls).filterMap (Piece.key? .headers) = keys

namespace LinesRead

theorem nil (expected : List Char) : LinesRead [] expected expected [] := ⟨by simp, rfl, rfl⟩

theorem append {ls ms : List String} {outer mid inner : List Char}
    {keys more : List (TokenKind × String)} (h : LinesRead ls outer mid keys)
    (hmore : LinesRead ms mid inner more) : LinesRead (ls ++ ms) outer inner (keys ++ more) := by
  have hpieces : LexicalRules.headers.linePieces (ls ++ ms) =
      LexicalRules.headers.linePieces ls ++ LexicalRules.headers.linePieces ms :=
    List.flatMap_append
  refine ⟨?_, ?_, ?_⟩
  · intro l hl
    rcases List.mem_append.1 hl with hl | hl
    · exact h.closed l hl
    · exact hmore.closed l hl
  · rw [hpieces, nestAll_append, h.nest]
    exact hmore.nest
  · rw [hpieces, List.filterMap_append, h.keys, hmore.keys]

/-- A single line, from its scan. -/
theorem single {l : String} {ps : List Piece} {outer inner : List Char}
    {keys : List (TokenKind × String)} (hscan : LexicalRules.headers.scan l.toList = ⟨ps, none⟩)
    (hescape : '\\' ∉ l.toList) (hnest : nestAll outer ps = some inner)
    (hkeys : ps.filterMap (Piece.key? .headers) = keys) : LinesRead [l] outer inner keys := by
  have hpieces : LexicalRules.headers.linePieces [l] = ps ++ [⟨.delimiter, ['\n']⟩] := by
    simp [LexicalRules.linePieces, hscan]
  refine ⟨?_, ?_, ?_⟩
  · intro l' hl'
    obtain rfl := List.mem_singleton.1 hl'
    exact ⟨by rw [hscan], fun hlast => hescape (List.mem_of_getLast? hlast)⟩
  · rw [hpieces, nestAll_append, hnest]
    rfl
  · rw [hpieces, List.filterMap_append, hkeys]
    simp [Piece.key?_delimiter]

/-- Lines without open groups can be cut into tokens, with the keys of the lines. -/
theorem tokenize {ls : List String} {keys : List (TokenKind × String)} (h : LinesRead ls [] [] keys) :
    ∃ found, LexicalRules.headers.tokenize (Text.unlines ls) = .ok found ∧
      (found.tokens.map (RawToken.classified .headers (Text.unlines ls).toList)).map Token.key =
        keys := by
  have hscan := LexicalRules.scan_unlines LexicalRules.wellFormed_headers
    LexicalRules.lineBound_headers h.closed
  obtain ⟨found, htokens⟩ : ∃ found, LexicalRules.headers.tokenize (Text.unlines ls) = .ok found := by
    refine ⟨_, LexicalRules.tokenize_eq_ok_iff.2 ⟨?_, ?_, rfl⟩⟩
    · rw [hscan]
    · rw [hscan]
      exact h.nest
  refine ⟨found, htokens, ?_⟩
  rw [keys_of_tokenize htokens, hscan]
  exact h.keys

end LinesRead

/-! ## Names -/

/-- A name that is no keyword. -/
def IsIdentifier (name : String) : Prop :=
  isName name.toList = true ∧ name ∉ LexicalRules.headers.keywords

theorem Text.inRanges_of_lt {n first last : Nat} (h : n < first) (rest : List (Nat × Nat)) :
    inRanges n ((first, last) :: rest) = false := by
  simp [inRanges]
  omega

namespace IsIdentifier

variable {name : String}

theorem not_special (h : IsIdentifier name) {c : Char} (hc : c ∈ name.toList) :
    c ∉ LexicalRules.headers.specials :=
  LexicalRules.not_special_of_isWordChar (isWordChar_of_isName h.1 c hc)

theorem ne_nil (h : IsIdentifier name) : name.toList ≠ [] := by
  intro hnil
  have := h.1
  simp [hnil, isName] at this

/-- A name is classified as an identifier: no letter is a digit. -/
theorem classify (h : IsIdentifier name) : LexicalRules.headers.classify name = .identifier := by
  obtain ⟨hname, hkeyword⟩ := h
  unfold LexicalRules.classify
  rw [if_neg (by simpa using hkeyword)]
  cases hchars : name.toList with
  | nil => simp [hchars, isName] at hname
  | cons c cs =>
    rw [hchars] at hname
    have hdigit : ¬('0' ≤ c ∧ c ≤ '9') := by
      rintro ⟨-, hle⟩
      have hle : c.toNat ≤ 57 := hle
      have hletter : Text.isLetter c = false := Text.inRanges_of_lt (by omega) _
      have hunderscore : c ≠ '_' := by
        rintro rfl
        exact absurd hle (by decide)
      simp [isName, hletter, hunderscore] at hname
    simp only [if_neg hdigit, hname, if_true]

end IsIdentifier

/-- The piece of a word without escapes. -/
def wordPiece (word : String) : Piece := ⟨.token .word, word.toList⟩

theorem scan_identifier {name : String} (h : IsIdentifier name) {rest : List Char}
    (hrest : ¬LexicalRules.headers.StartsWord rest) :
    LexicalRules.headers.scan (name.toList ++ rest) =
      .cons (wordPiece name) (LexicalRules.headers.scan rest) :=
  LexicalRules.scan_word LexicalRules.wellFormed_headers h.ne_nil
    (fun _ hc => h.not_special hc) hrest

theorem key?_wordPiece {name : String} (h : IsIdentifier name) :
    (wordPiece name).key? .headers = some (.identifier, name) := by
  have htext : unescape LexicalRules.headers.escape name.toList = name.toList :=
    LexicalRules.unescape_of_not_mem fun hmem => h.not_special hmem (by decide)
  simp [Piece.key?, PlacedPiece.token?, wordPiece, Piece.text, htext, RawToken.kind, h.classify]

end ShaderInterface
