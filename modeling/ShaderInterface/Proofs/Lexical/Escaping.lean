import ShaderInterface.Proofs.Lexical.Cuts
import ShaderInterface.Token.Basic

/-!
# Escaping

Any text can be written as a literal, with an escape character before its quotes and its escape
characters (`LexicalRules.quoted`), and any text but the empty one as a word, with an escape
character before every character (`LexicalRules.escaped`). Either way of writing is read back as one
token with the text that was written, whatever the characters mean elsewhere.
-/
namespace ShaderInterface

/-- The characters `cs` with `escape` before every one that is marked. -/
def escapeWhere (escape : Char) (marked : Char → Bool) (cs : List Char) : List Char :=
  cs.flatMap fun c => if marked c then [escape, c] else [c]

section EscapeWhere

variable {escape : Char} {marked : Char → Bool}

@[simp] theorem escapeWhere_nil : escapeWhere escape marked [] = [] := rfl

theorem escapeWhere_cons_marked {c : Char} (h : marked c = true) (cs : List Char) :
    escapeWhere escape marked (c :: cs) = escape :: c :: escapeWhere escape marked cs := by
  simp [escapeWhere, h]

theorem escapeWhere_cons_unmarked {c : Char} (h : ¬marked c = true) (cs : List Char) :
    escapeWhere escape marked (c :: cs) = c :: escapeWhere escape marked cs := by
  simp [escapeWhere, h]

/-- Escapes can be dropped again if escape characters are among the marked ones. -/
theorem unescape_escapeWhere (hescape : marked escape = true) (cs : List Char) :
    unescape escape (escapeWhere escape marked cs) = cs := by
  induction cs with
  | nil => rfl
  | cons c cs ih =>
    by_cases hc : marked c = true
    · rw [escapeWhere_cons_marked hc, unescape_cons_escape]
      simp [ih]
    · have hne : c ≠ escape := by
        rintro rfl
        exact hc hescape
      rw [escapeWhere_cons_unmarked hc, unescape_cons_of_ne hne, ih]

/-- A literal ends at the first quote without an escape, which is the one behind the text. -/
theorem LexicalRules.literalChars_escapeWhere {quote : Char} (hne : quote ≠ escape)
    (hescape : marked escape = true) (hquote : marked quote = true) (cs rest : List Char) :
    literalChars escape quote (escapeWhere escape marked cs ++ quote :: rest) =
      some (escapeWhere escape marked cs ++ [quote]) := by
  induction cs with
  | nil =>
    rw [escapeWhere_nil, List.nil_append, literalChars.eq_def]
    simp [hne]
  | cons c cs ih =>
    by_cases hc : marked c = true
    · rw [escapeWhere_cons_marked hc, List.cons_append, List.cons_append, literalChars.eq_def]
      simp [ih]
    · have hcescape : c ≠ escape := by
        rintro rfl
        exact hc hescape
      have hcquote : c ≠ quote := by
        rintro rfl
        exact hc hquote
      rw [escapeWhere_cons_unmarked hc, List.cons_append, literalChars.eq_def]
      simp [hcescape, hcquote, ih]

end EscapeWhere

namespace LexicalRules

variable {rules : LexicalRules}

/-- `text` between two `quote` characters, with an escape character before every quote and every
escape character of it. -/
def quoted (rules : LexicalRules) (quote : Char) (text : String) : String :=
  String.ofList
    (quote :: (escapeWhere rules.escape (fun c => c == quote || c == rules.escape) text.toList ++
      [quote]))

/-- `text` with an escape character before every character. -/
def escaped (rules : LexicalRules) (text : String) : String :=
  String.ofList (escapeWhere rules.escape (fun _ => true) text.toList)

theorem toList_quoted (rules : LexicalRules) (quote : Char) (text : String) :
    (rules.quoted quote text).toList =
      quote :: (escapeWhere rules.escape (fun c => c == quote || c == rules.escape) text.toList ++
        [quote]) :=
  String.toList_ofList

theorem toList_escaped (rules : LexicalRules) (text : String) :
    (rules.escaped text).toList = escapeWhere rules.escape (fun _ => true) text.toList :=
  String.toList_ofList

/-! ## One piece -/

/-- Where a quote opens a literal whatever is behind it, a quoted text is one literal. -/
theorem scan_quoted {quote : Char} (hlead : ∀ cs, rules.lead quote cs = .quote) (text : String) :
    rules.scan (rules.quoted quote text).toList =
      ⟨[⟨.token .literal, (rules.quoted quote text).toList⟩], none⟩ := by
  have hne : quote ≠ rules.escape := by
    have hcases := rules.lead_escape_cases quote []
    simpa [hlead] using hcases
  have hpiece : rules.pieceAt quote
        (escapeWhere rules.escape (fun c => c == quote || c == rules.escape) text.toList ++ [quote]) =
      .ok ⟨.token .literal, (rules.quoted quote text).toList⟩ := by
    simp only [pieceAt, hlead, toList_quoted]
    rw [literalChars_escapeWhere hne (by simp) (by simp)]
  rw [toList_quoted] at hpiece ⊢
  exact scan_cut hpiece (List.append_nil _).symm (by simp)

/-- Each escape character brings the character behind it into the word. -/
theorem wordChars_escapeWhere (hlead : ∀ cs, rules.lead rules.escape cs = .escape)
    (cs : List Char) :
    rules.wordChars (escapeWhere rules.escape (fun _ => true) cs) =
      escapeWhere rules.escape (fun _ => true) cs := by
  induction cs with
  | nil => rfl
  | cons c cs ih =>
    rw [escapeWhere_cons_marked rfl, wordChars_escape (hlead _)]
    simp [ih]

/-- Where an escape character counts as one whatever is behind it, a text with an escape before each
character is one word. -/
theorem scan_escaped (hlead : ∀ cs, rules.lead rules.escape cs = .escape) {text : String}
    (hne : text ≠ "") :
    rules.scan (rules.escaped text).toList =
      ⟨[⟨.token .word, (rules.escaped text).toList⟩], none⟩ := by
  have hchars := wordChars_escapeWhere hlead text.toList
  have htext : unescape rules.escape (escapeWhere rules.escape (fun _ => true) text.toList) =
      text.toList := unescape_escapeWhere rfl _
  rw [toList_escaped]
  cases hcs : text.toList with
  | nil => exact absurd (String.toList_eq_nil_iff.1 hcs) hne
  | cons c cs =>
    rw [hcs, escapeWhere_cons_marked rfl] at hchars htext
    rw [escapeWhere_cons_marked rfl]
    have hpiece : rules.pieceAt rules.escape (c :: escapeWhere rules.escape (fun _ => true) cs) =
        .ok ⟨.token .word,
          rules.escape :: c :: escapeWhere rules.escape (fun _ => true) cs⟩ := by
      simp only [pieceAt, hlead, hchars, htext]
      rfl
    exact scan_cut hpiece (List.append_nil _).symm (by simp)

/-! ## One token -/

/-- A text that is scanned as one word or one literal has one token, which spans all of it. -/
theorem tokenize_of_scan {source : String} {shape : TokenShape}
    (hshape : shape = .word ∨ shape = .literal)
    (hscan : rules.scan source.toList = ⟨[⟨.token shape, source.toList⟩], none⟩) :
    rules.tokenize source = .ok
      ⟨[⟨shape, String.ofList (Piece.text rules.escape ⟨.token shape, source.toList⟩), 0,
        source.utf8ByteSize⟩], []⟩ := by
  refine tokenize_eq_ok_iff.2 ⟨by rw [hscan], ?_, ?_⟩
  · rw [hscan]
    rcases hshape with rfl | rfl <;> rfl
  · rw [hscan, ← Text.byteLength_toList]
    rfl

theorem tokenize_quoted {quote : Char} (hlead : ∀ cs, rules.lead quote cs = .quote)
    (text : String) :
    rules.tokenize (rules.quoted quote text) = .ok
      ⟨[⟨.literal, text, 0, (rules.quoted quote text).utf8ByteSize⟩], []⟩ := by
  have htext : Piece.text rules.escape ⟨.token .literal, (rules.quoted quote text).toList⟩ =
      text.toList := by
    simp [Piece.text, toList_quoted, unescape_escapeWhere]
  rw [tokenize_of_scan (.inr rfl) (scan_quoted hlead text), htext, String.ofList_toList]

theorem tokenize_escaped (hlead : ∀ cs, rules.lead rules.escape cs = .escape) {text : String}
    (hne : text ≠ "") :
    rules.tokenize (rules.escaped text) = .ok
      ⟨[⟨.word, text, 0, (rules.escaped text).utf8ByteSize⟩], []⟩ := by
  have htext : Piece.text rules.escape ⟨.token .word, (rules.escaped text).toList⟩ =
      text.toList := by
    simp [Piece.text, toList_escaped, unescape_escapeWhere]
  rw [tokenize_of_scan (.inl rfl) (scan_escaped hlead hne), htext, String.ofList_toList]

/-- In headers, every text can be written as a literal with either quote, and every text but the empty
one as a word. -/
theorem lex_quoted_and_tokenize_escaped (text : String) :
    (∀ quote ∈ ['"', '\''],
      headers.lex (headers.quoted quote text) = .ok
        ⟨[⟨.stringLiteral, text, ⟨0, 1, 1⟩, (headers.quoted quote text).utf8ByteSize⟩,
          endToken (headers.quoted quote text).toList], []⟩) ∧
    (text ≠ "" →
      headers.tokenize (headers.escaped text) = .ok
        ⟨[⟨.word, text, 0, (headers.escaped text).utf8ByteSize⟩], []⟩) := by
  refine ⟨fun quote hquote => ?_, fun hne => tokenize_escaped (fun _ => rfl) hne⟩
  have hlead : ∀ cs, headers.lead quote cs = .quote := by
    simp only [List.mem_cons, List.not_mem_nil, or_false] at hquote
    rcases hquote with rfl | rfl
    · exact fun _ => rfl
    · exact fun _ => rfl
  have hstart : locate (headers.quoted quote text).toList 0 = ⟨0, 1, 1⟩ := by
    rw [toList_quoted]
    rfl
  simp [lex, tokenize_quoted hlead, RawToken.kind, hstart]

/-- A text with a quote, an escape character, the start of a comment, a newline and a character of
two bytes. -/
theorem lex_quoted_and_tokenize_escaped_comment :
    headers.quoted '"' "é\"\\/*\n" = "\"é\\\"\\\\/*\n\"" ∧
    headers.lex "\"é\\\"\\\\/*\n\"" = .ok
      ⟨[⟨.stringLiteral, "é\"\\/*\n", ⟨0, 1, 1⟩, 11⟩, ⟨.eof, "", ⟨11, 2, 2⟩, 0⟩], []⟩ ∧
    headers.escaped "é\"\\/*\n" = "\\é\\\"\\\\\\/\\*\\\n" ∧
    headers.tokenize "\\é\\\"\\\\\\/\\*\\\n" = .ok ⟨[⟨.word, "é\"\\/*\n", 0, 13⟩], []⟩ := by
  obtain ⟨hliteral, hword⟩ := lex_quoted_and_tokenize_escaped "é\"\\/*\n"
  have hquoted : headers.quoted '"' "é\"\\/*\n" = "\"é\\\"\\\\/*\n\"" := by decide +kernel
  have hescaped : headers.escaped "é\"\\/*\n" = "\\é\\\"\\\\\\/\\*\\\n" := by decide +kernel
  have hlex := hliteral '"' (by decide)
  have htokenize := hword (by decide)
  rw [hquoted] at hlex
  rw [hescaped] at htokenize
  exact ⟨hquoted, hlex, hescaped, htokenize⟩

end LexicalRules

end ShaderInterface
