import ShaderInterface.Lexical.Piece
import Mathlib.Tactic

/-!
# Pieces tile the text

`Cut` says what a piece in front of the rest of the text can be, `Tiling` that pieces follow each
other without a gap up to the end. A scan that finds an end for everything is a tiling
(`LexicalRules.tiling_scan`), for every table in which nothing starts with the empty text.
-/
namespace ShaderInterface

/-- Every text that starts a region or a punctuator has a character. -/
structure LexicalRules.WellFormed (rules : LexicalRules) : Prop where
  marker_ne_nil : ∀ skip ∈ rules.lineSkips, skip.marker ≠ []
  opener_ne_nil : ∀ skip ∈ rules.blockSkips, skip.opener ≠ []
  punctuator_ne_nil : ∀ p ∈ rules.punctuators, p ≠ []

/-- The text starts with a character of a word. -/
def LexicalRules.StartsWord (rules : LexicalRules) : List Char → Prop
  | [] => False
  | c :: cs => rules.lead c cs = .plain ∨ rules.lead c cs = .escape

/-- A piece in front of the rest of a text. -/
inductive Cut (rules : LexicalRules) : Piece → List Char → Prop where
  /-- A word goes on as far as it can. -/
  | word {chars rest : List Char} : chars ≠ [] → rules.StartsWord (chars ++ rest) →
      ¬rules.StartsWord rest → Cut rules ⟨.token .word, chars⟩ rest
  | literal {quote : Char} {body rest : List Char} : quote ∈ rules.quotes →
      Cut rules ⟨.token .literal, quote :: body ++ [quote]⟩ rest
  | symbol {shape : TokenShape} {chars rest : List Char} : shape ≠ .word → shape ≠ .literal →
      chars ≠ [] → Cut rules ⟨.token shape, chars⟩ rest
  | skipped {tag : SkipTag} {chars rest : List Char} : chars ≠ [] →
      Cut rules ⟨.skipped tag, chars⟩ rest
  | delimiter {c : Char} {rest : List Char} : c ∈ rules.delimiters →
      Cut rules ⟨.delimiter, [c]⟩ rest
  | danglingEscape : Cut rules ⟨.danglingEscape, [rules.escape]⟩ []

/-- Pieces one behind the other, up to the end of the text. -/
inductive Tiling (rules : LexicalRules) : List Char → List Piece → Prop where
  | nil : Tiling rules [] []
  | cons {p : Piece} {ps : List Piece} {rest : List Char} : Cut rules p rest →
      Tiling rules rest ps → Tiling rules (p.chars ++ rest) (p :: ps)

theorem Cut.chars_ne_nil {rules : LexicalRules} {p : Piece} {rest : List Char}
    (h : Cut rules p rest) : p.chars ≠ [] := by
  cases h <;> simp_all

theorem Cut.startsWord {rules : LexicalRules} {p : Piece} {rest : List Char} (h : Cut rules p rest)
    (hword : p.kind = .token .word) :
    rules.StartsWord (p.chars ++ rest) ∧ ¬rules.StartsWord rest := by
  cases h with
  | word _ hstarts hends => exact ⟨hstarts, hends⟩
  | symbol hne => exact absurd (PieceKind.token.inj hword) hne
  | literal | skipped | delimiter | danglingEscape => cases hword

/-! ## Escapes -/

theorem unescape_cons_of_ne {escape c : Char} (h : c ≠ escape) (cs : List Char) :
    unescape escape (c :: cs) = c :: unescape escape cs := by
  rw [unescape.eq_def]
  simp only [h, if_false]

theorem unescape_cons_escape (escape : Char) (cs : List Char) :
    unescape escape (escape :: cs) = cs.take 1 ++ unescape escape (cs.drop 1) := by
  rw [unescape.eq_def]
  cases cs <;> simp [unescape]

/-! ## The characters of one piece -/

namespace LexicalRules

theorem prefix_of_blockSkipAt {rules : LexicalRules} {text : List Char} {skip : BlockSkip}
    (h : rules.blockSkipAt text = some skip) : skip ∈ rules.blockSkips ∧ skip.opener <+: text :=
  ⟨List.mem_of_find?_eq_some h, by simpa using List.find?_some h⟩

theorem prefix_of_lineSkipAt {rules : LexicalRules} {text : List Char} {skip : LineSkip}
    (h : rules.lineSkipAt text = some skip) : skip ∈ rules.lineSkips ∧ skip.marker <+: text :=
  ⟨List.mem_of_find?_eq_some h, by simpa using List.find?_some h⟩

theorem prefix_of_punctuatorAt {rules : LexicalRules} {text p : List Char}
    (h : rules.punctuatorAt text = some p) : p ∈ rules.punctuators ∧ p <+: text :=
  ⟨List.mem_of_find?_eq_some h, by simpa using List.find?_some h⟩

theorem wordChars_split (rules : LexicalRules) (text : List Char) :
    ∃ rest, text = rules.wordChars text ++ rest ∧ ¬rules.StartsWord rest := by
  fun_induction wordChars rules text with
  | case1 => exact ⟨[], rfl, id⟩
  | case2 c cs hlead ih =>
    obtain ⟨rest, htext, hrest⟩ := ih
    exact ⟨rest, by simpa using htext, hrest⟩
  | case3 c hlead => exact ⟨[], rfl, id⟩
  | case4 c d ds hlead ih =>
    obtain ⟨rest, htext, hrest⟩ := ih
    exact ⟨rest, by simpa using htext, hrest⟩
  | case5 c cs hplain hescape => exact ⟨c :: cs, rfl, not_or.2 ⟨hplain, hescape⟩⟩

theorem literalChars_split {escape quote : Char} {text chars : List Char}
    (h : literalChars escape quote text = some chars) :
    ∃ body rest, chars = body ++ [quote] ∧ text = chars ++ rest := by
  fun_induction literalChars escape quote text generalizing chars with
  | case1 => simp at h
  | case2 => simp at h
  | case3 d ds ih =>
    obtain ⟨inner, hinner, rfl⟩ := Option.map_eq_some_iff.1 h
    obtain ⟨body, rest, rfl, rfl⟩ := ih hinner
    exact ⟨_ :: d :: body, rest, rfl, rfl⟩
  | case4 cs hne =>
    obtain rfl := Option.some.inj h
    exact ⟨[], cs, rfl, rfl⟩
  | case5 c cs hne hquote ih =>
    obtain ⟨inner, hinner, rfl⟩ := Option.map_eq_some_iff.1 h
    obtain ⟨body, rest, rfl, rfl⟩ := ih hinner
    exact ⟨c :: body, rest, rfl, rfl⟩

theorem prefix_of_blockChars {closer text chars : List Char}
    (h : blockChars closer text = some chars) : chars <+: text := by
  fun_induction blockChars closer text generalizing chars with
  | case1 => simp_all
  | case2 => simp at h
  | case3 c cs hcloser =>
    obtain rfl := Option.some.inj h
    exact List.isPrefixOf_iff_prefix.1 hcloser
  | case4 c cs hcloser ih =>
    obtain ⟨inner, hinner, rfl⟩ := Option.map_eq_some_iff.1 h
    exact List.prefix_cons_inj c |>.2 (ih hinner)

/-- A first part and a part of what is behind it. -/
theorem append_prefix_of_drop {first chars text : List Char} (hfirst : first <+: text)
    (hchars : chars <+: text.drop first.length) : first ++ chars <+: text := by
  obtain ⟨rest, rfl⟩ := hfirst
  simpa using hchars

/-- What the text starts with, and what follows from the table for it. -/
theorem lead_cases (rules : LexicalRules) (c : Char) (cs : List Char) :
    match rules.lead c cs with
    | .block skip => skip ∈ rules.blockSkips ∧ skip.opener <+: c :: cs
    | .line skip => skip ∈ rules.lineSkips ∧ skip.marker <+: c :: cs
    | .escape => c = rules.escape
    | .delimiter => c ∈ rules.delimiters
    | .quote => c ∈ rules.quotes
    | .opener closer => rules.closerOf c = some closer
    | .punctuator chars => chars ∈ rules.punctuators ∧ chars <+: c :: cs
    | .plain => c ≠ rules.escape
    | _ => True := by
  -- The tests in the order in which they are made.
  unfold lead
  cases hblock : rules.blockSkipAt (c :: cs) with
  | some skip => exact prefix_of_blockSkipAt hblock
  | none =>
  cases hline : rules.lineSkipAt (c :: cs) with
  | some skip => exact prefix_of_lineSkipAt hline
  | none =>
  by_cases hescape : c = rules.escape
  · simp [hescape]
  by_cases hdelimiter : c ∈ rules.delimiters
  · simp [hescape, hdelimiter]
  by_cases hquote : c ∈ rules.quotes
  · simp [hescape, hdelimiter, hquote]
  cases hopener : rules.closerOf c with
  | some closer => simp [hescape, hdelimiter, hquote]
  | none =>
  by_cases hcloser : rules.isCloser c
  · simp [hescape, hdelimiter, hquote, hcloser]
  by_cases hterminator : c = rules.terminator
  · simp_all
  cases hpunctuator : rules.punctuatorAt (c :: cs) with
  | some chars =>
    simpa [hescape, hdelimiter, hquote, hcloser, hterminator]
      using prefix_of_punctuatorAt hpunctuator
  | none => simp [hescape, hdelimiter, hquote, hcloser, hterminator]

theorem eq_escape_of_lead {rules : LexicalRules} {c : Char} {cs : List Char}
    (h : rules.lead c cs = .escape) : c = rules.escape := by
  have hcase := rules.lead_cases c cs
  rwa [h] at hcase

theorem ne_escape_of_lead {rules : LexicalRules} {c : Char} {cs : List Char}
    (h : rules.lead c cs = .plain) : c ≠ rules.escape := by
  have hcase := rules.lead_cases c cs
  rwa [h] at hcase

theorem wordChars_plain {rules : LexicalRules} {c : Char} {cs : List Char}
    (h : rules.lead c cs = .plain) : rules.wordChars (c :: cs) = c :: rules.wordChars cs := by
  rw [wordChars.eq_def]
  simp only [h]

theorem wordChars_escape {rules : LexicalRules} {c : Char} {cs : List Char}
    (h : rules.lead c cs = .escape) :
    rules.wordChars (c :: cs) = c :: (cs.take 1 ++ rules.wordChars (cs.drop 1)) := by
  rw [wordChars.eq_def]
  simp only [h]
  cases cs with
  | nil => simp [wordChars]
  | cons d ds => rfl

theorem wordChars_ne_nil {rules : LexicalRules} {c : Char} {cs : List Char}
    (hstart : rules.StartsWord (c :: cs)) : rules.wordChars (c :: cs) ≠ [] := by
  rcases hstart with hplain | hescape
  · simp [wordChars_plain hplain]
  · simp [wordChars_escape hescape]

/-- A word without a text is an escape character at the very end. -/
theorem wordChars_dangling {rules : LexicalRules} {c : Char} {cs : List Char}
    (hstart : rules.StartsWord (c :: cs))
    (htext : unescape rules.escape (rules.wordChars (c :: cs)) = []) :
    rules.wordChars (c :: cs) = [rules.escape] ∧ cs = [] := by
  rcases hstart with hplain | hescape
  · -- A plain character is part of the text, so the text is not empty.
    rw [wordChars_plain hplain, unescape_cons_of_ne (ne_escape_of_lead hplain)] at htext
    cases htext
  · rw [wordChars_escape hescape] at htext ⊢
    cases cs with
    | nil => simpa [wordChars] using eq_escape_of_lead hescape
    | cons d ds => simp [eq_escape_of_lead hescape, unescape_cons_escape] at htext

theorem pieceAt_word {rules : LexicalRules} {c : Char} {cs : List Char}
    (hstart : rules.StartsWord (c :: cs)) : rules.pieceAt c cs = .ok
      ⟨if (unescape rules.escape (rules.wordChars (c :: cs))).isEmpty then .danglingEscape
        else .token .word, rules.wordChars (c :: cs)⟩ := by
  rcases hstart with hplain | hescape
  · simp only [pieceAt, hplain]
  · simp only [pieceAt, hescape]

/-- The piece at the start of a text that starts with a word. -/
theorem cut_word {rules : LexicalRules} {c : Char} {cs : List Char}
    (hstart : rules.StartsWord (c :: cs)) :
    ∃ rest, c :: cs = rules.wordChars (c :: cs) ++ rest ∧
      Cut rules
        ⟨if (unescape rules.escape (rules.wordChars (c :: cs))).isEmpty then .danglingEscape
          else .token .word, rules.wordChars (c :: cs)⟩ rest := by
  obtain ⟨rest, htext, hrest⟩ := rules.wordChars_split (c :: cs)
  refine ⟨rest, htext, ?_⟩
  by_cases hempty : unescape rules.escape (rules.wordChars (c :: cs)) = []
  · obtain ⟨hchars, rfl⟩ := wordChars_dangling hstart hempty
    rw [hchars] at htext
    obtain rfl : rest = [] := (List.cons.inj htext).2.symm
    rw [if_pos (by simpa using hempty), hchars]
    exact .danglingEscape
  · rw [if_neg (by simpa using hempty)]
    exact .word (wordChars_ne_nil hstart) (htext ▸ hstart) hrest

/-- A piece is cut off the front of the text. -/
theorem cut_of_pieceAt {rules : LexicalRules} (wf : rules.WellFormed) {c : Char} {cs : List Char}
    {p : Piece} (h : rules.pieceAt c cs = .ok p) :
    ∃ rest, c :: cs = p.chars ++ rest ∧ Cut rules p rest := by
  have hlead := rules.lead_cases c cs
  unfold pieceAt at h
  cases hcase : rules.lead c cs with
  | block skip =>
    simp only [hcase] at h hlead
    obtain ⟨hmem, hopener⟩ := hlead
    split at h
    · next chars hchars =>
      obtain rfl := Except.ok.inj h
      obtain ⟨rest, htext⟩ := append_prefix_of_drop hopener (prefix_of_blockChars hchars)
      exact ⟨rest, htext.symm, .skipped (by simp [wf.opener_ne_nil skip hmem])⟩
    · cases h
  | line skip =>
    simp only [hcase] at h hlead
    obtain ⟨hmem, hmarker⟩ := hlead
    obtain rfl := Except.ok.inj h
    obtain ⟨rest, htext⟩ := append_prefix_of_drop hmarker (List.takeWhile_prefix (· != '\n'))
    exact ⟨rest, htext.symm, .skipped (by simp [wf.marker_ne_nil skip hmem])⟩
  | escape =>
    simp only [hcase] at h
    obtain rfl := Except.ok.inj h
    exact cut_word (.inr hcase)
  | delimiter =>
    simp only [hcase] at h hlead
    obtain rfl := Except.ok.inj h
    exact ⟨cs, rfl, .delimiter hlead⟩
  | quote =>
    simp only [hcase] at h hlead
    split at h
    · next chars hchars =>
      obtain rfl := Except.ok.inj h
      obtain ⟨body, rest, rfl, rfl⟩ := literalChars_split hchars
      exact ⟨rest, rfl, .literal hlead⟩
    · cases h
  | opener | closer | terminator =>
    simp only [hcase] at h
    obtain rfl := Except.ok.inj h
    exact ⟨cs, rfl, .symbol (by simp) (by simp) (by simp)⟩
  | punctuator chars =>
    simp only [hcase] at h hlead
    obtain ⟨hmem, rest, htext⟩ := hlead
    obtain rfl := Except.ok.inj h
    exact ⟨rest, htext.symm, .symbol (by simp) (by simp) (wf.punctuator_ne_nil chars hmem)⟩
  | plain =>
    simp only [hcase] at h
    obtain rfl := Except.ok.inj h
    exact cut_word (.inl hcase)

end LexicalRules

/-! ## Scanning -/

theorem Scan.ofChars_skip (rules : LexicalRules) (skip : Nat) (cs : List Char) :
    Scan.ofChars rules skip cs = rules.scan (cs.drop skip) := by
  induction cs generalizing skip with
  | nil => simp [LexicalRules.scan, Scan.ofChars]
  | cons c cs ih =>
    cases skip with
    | zero => rfl
    | succ skip => simpa [Scan.ofChars] using ih skip

/-- The scan goes on behind the piece it has found. -/
theorem LexicalRules.scan_cut {rules : LexicalRules} {c : Char} {cs rest : List Char} {p : Piece}
    (hpiece : rules.pieceAt c cs = .ok p) (htext : c :: cs = p.chars ++ rest) (hne : p.chars ≠ []) :
    rules.scan (c :: cs) = .cons p (rules.scan rest) := by
  have hdrop : cs.drop (p.chars.length - 1) = rest := by
    obtain ⟨d, ds, hchars⟩ := List.exists_cons_of_ne_nil hne
    rw [hchars, List.cons_append] at htext
    rw [(List.cons.inj htext).2, hchars]
    simp
  simp only [scan, Scan.ofChars, hpiece]
  rw [Scan.ofChars_skip, hdrop, scan]

/-- Induction along a scan, which stops at something without an end or goes on behind a piece. -/
theorem LexicalRules.scan_induction {rules : LexicalRules} (wf : rules.WellFormed)
    {P : List Char → Prop} (nil : P [])
    (stuck : ∀ c cs u, rules.pieceAt c cs = .error u → rules.scan (c :: cs) = ⟨[], some u⟩ →
      P (c :: cs))
    (piece : ∀ c cs p rest, rules.pieceAt c cs = .ok p → c :: cs = p.chars ++ rest →
      Cut rules p rest → rules.scan (c :: cs) = .cons p (rules.scan rest) → P rest → P (c :: cs))
    (text : List Char) : P text := by
  match text with
  | [] => exact nil
  | c :: cs =>
    cases hpiece : rules.pieceAt c cs with
    | error u => exact stuck c cs u hpiece (by simp [scan, Scan.ofChars, hpiece])
    | ok p =>
      obtain ⟨rest, htext, hcut⟩ := cut_of_pieceAt wf hpiece
      -- The piece has a character, so what is left is shorter.
      have hshorter : rest.length < (c :: cs).length := by
        have := List.length_pos_iff.2 hcut.chars_ne_nil
        rw [htext, List.length_append]
        omega
      exact piece c cs p rest hpiece htext hcut (scan_cut hpiece htext hcut.chars_ne_nil)
        (scan_induction wf nil stuck piece rest)
termination_by text.length
decreasing_by simpa using hshorter

/-- The pieces of a scan that finds an end for everything tile the text. -/
theorem LexicalRules.tiling_scan {rules : LexicalRules} (wf : rules.WellFormed) (text : List Char)
    (hended : (rules.scan text).unended = none) : Tiling rules text (rules.scan text).pieces := by
  induction text using scan_induction wf with
  | nil => exact .nil
  | stuck c cs u _ hscan => simp [hscan] at hended
  | piece c cs p rest _ htext hcut hscan ih =>
    rw [hscan] at hended ⊢
    rw [htext]
    exact .cons hcut (ih hended)

end ShaderInterface
