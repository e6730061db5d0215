import ShaderInterface.Proofs.Lexical.Seams

/-!
# Texts that are cut between two pieces

What a piece is depends on its own characters, and for a word on what the next piece starts with. So a
text that is cut between two of its pieces is scanned into the pieces on each side
(`LexicalRules.scan_of_pieces`). A word that ends in an unpaired escape is the last piece, and the
escape is unpaired in the whole text (`LexicalRules.endsUnpaired_of_endsInEscape`).
-/
namespace ShaderInterface

/-- The characters that a text which starts with `c` is told by. -/
def Lead.chars (c : Char) : Lead → List Char
  | .block skip => skip.opener
  | .line skip => skip.marker
  | .punctuator chars => chars
  | _ => [c]

/-- Pairs of escapes do not reach over a character that is none. -/
theorem EndsUnpaired.append {escape : Char} {cs : List Char} (h : EndsUnpaired escape cs) :
    ∀ before : List Char, before.getLast? ≠ some escape → EndsUnpaired escape (before ++ cs)
  | [], _ => h
  | [c], hlast => .plain (by simpa using hlast) h
  | c :: d :: before, hlast => by
    by_cases hc : c = escape
    · subst hc
      refine .pair d (EndsUnpaired.append h before ?_)
      intro hbefore
      simp [List.getLast?_cons, hbefore] at hlast
    · exact .plain hc (EndsUnpaired.append h (d :: before) (by simpa using hlast))

/-- No word starts behind a word. -/
theorem Cut.not_startsWord {rules : LexicalRules} {p : Piece} {rest : List Char}
    (h : Cut rules p rest) (hword : p.IsWord) : ¬rules.StartsWord rest := by
  rcases hword with hword | hdangling
  · exact (h.startsWord hword).2
  · cases h with
    | danglingEscape => exact id
    | word | literal | symbol | skipped | delimiter => cases hdangling

namespace LexicalRules

variable {rules : LexicalRules}

/-! ## The first piece of a shorter text -/

/-- An entry of a table that a text starts with is found in every shorter text that holds it. -/
theorem find?_isPrefixOf_of_append {α : Type} {table : List α} {chars : α → List Char}
    (text rest : List Char)
    (h : ∀ a, (table.find? fun a => (chars a).isPrefixOf (text ++ rest)) = some a →
      chars a <+: text) :
    (table.find? fun a => (chars a).isPrefixOf text) =
      table.find? fun a => (chars a).isPrefixOf (text ++ rest) := by
  induction table with
  | nil => rfl
  | cons a table ih =>
    rw [List.find?_cons, List.find?_cons]
    by_cases ha : (chars a).isPrefixOf (text ++ rest)
    · have hfits := List.isPrefixOf_iff_prefix.2 (h a (by simp [ha]))
      simp [ha, hfits]
    · have hshort : ¬(chars a).isPrefixOf text := by
        simp only [List.isPrefixOf_iff_prefix] at ha ⊢
        exact fun hp => ha (hp.trans (List.prefix_append text rest))
      simp only [ha, hshort]
      exact ih fun b hb => h b (by simp [ha, hb])

theorem lead_of_append {c : Char} {cs rest : List Char}
    (h : (rules.lead c (cs ++ rest)).chars c <+: c :: cs) :
    rules.lead c cs = rules.lead c (cs ++ rest) := by
  -- The tests in the order in which they are made; each one finds the same in both texts.
  have hblock : rules.blockSkipAt (c :: cs) = rules.blockSkipAt (c :: (cs ++ rest)) := by
    refine find?_isPrefixOf_of_append (c :: cs) rest fun skip hskip => ?_
    have hlead : rules.lead c (cs ++ rest) = .block skip := by
      unfold lead blockSkipAt
      rw [← List.cons_append, hskip]
    rwa [hlead] at h
  cases hb : rules.blockSkipAt (c :: (cs ++ rest)) with
  | some skip => simp only [lead, hblock, hb]
  | none =>
  have hline : rules.lineSkipAt (c :: cs) = rules.lineSkipAt (c :: (cs ++ rest)) := by
    refine find?_isPrefixOf_of_append (c :: cs) rest fun skip hskip => ?_
    have hlead : rules.lead c (cs ++ rest) = .line skip := by
      unfold lead
      rw [hb, lineSkipAt, ← List.cons_append, hskip]
    rwa [hlead] at h
  cases hl : rules.lineSkipAt (c :: (cs ++ rest)) with
  | some skip => simp only [lead, hblock, hb, hline, hl]
  | none =>
  simp only [lead, hblock, hb, hline, hl] at h ⊢
  refine ite_congr rfl (fun _ => rfl) fun hescape => ?_
  refine ite_congr rfl (fun _ => rfl) fun hdelimiter => ?_
  refine ite_congr rfl (fun _ => rfl) fun hquote => ?_
  cases hopener : rules.closerOf c with
  | some closer => rfl
  | none =>
  refine ite_congr rfl (fun _ => rfl) fun hcloser => ?_
  refine ite_congr rfl (fun _ => rfl) fun hterminator => ?_
  have hpunctuator : rules.punctuatorAt (c :: cs) = rules.punctuatorAt (c :: (cs ++ rest)) := by
    refine find?_isPrefixOf_of_append (c :: cs) rest fun chars hchars => ?_
    rw [if_neg hescape, if_neg hdelimiter, if_neg hquote, hopener] at h
    simp only [if_neg hcloser, if_neg hterminator] at h
    rw [punctuatorAt, ← List.cons_append, hchars] at h
    exact h
  rw [hpunctuator]

theorem wordChars_of_not_startsWord {text : List Char} (h : ¬rules.StartsWord text) :
    rules.wordChars text = [] := by
  obtain _ | ⟨c, cs⟩ := text
  · rfl
  · obtain ⟨hplain, hescape⟩ := not_or.1 h
    rw [wordChars.eq_def]
    simp only

theorem wordChars_of_append (text : List Char) {tail rest : List Char}
    (htext : text = rules.wordChars (text ++ rest) ++ tail) (hends : ¬rules.StartsWord tail) :
    rules.wordChars text = rules.wordChars (text ++ rest) := by
  generalize hlong : text ++ rest = long at htext ⊢
  fun_induction wordChars rules long generalizing text with
  | case1 =>
    rw [(List.append_eq_nil_iff.1 hlong).1]
    rfl
  | case2 c cs hlead ih =>
    obtain _ | ⟨d, text⟩ := text
    · cases htext
    rw [List.cons_append, List.cons.injEq] at hlong htext
    obtain ⟨rfl, rfl⟩ := hlong
    have hshort : rules.lead d text = rules.lead d (text ++ rest) :=
      lead_of_append (by simp [hlead, Lead.chars])
    rw [wordChars_plain (hshort.trans hlead), ih text rfl htext.2]
  | case3 c hlead =>
    obtain _ | ⟨d, text⟩ := text
    · cases htext
    rw [List.cons_append, List.cons.injEq, List.append_eq_nil_iff] at hlong
    obtain ⟨rfl, rfl, -⟩ := hlong
    rw [wordChars_escape hlead]
    rfl
  | case4 c d ds hlead ih =>
    obtain _ | ⟨c', _ | ⟨d', text⟩⟩ := text
    · cases htext
    · cases htext
    simp only [List.cons_append, List.cons.injEq] at hlong htext
    obtain ⟨rfl, rfl, rfl⟩ := hlong
    have hshort : rules.lead c' (d' :: text) = rules.lead c' (d' :: text ++ rest) :=
      lead_of_append (by simp [hlead, Lead.chars])
    rw [wordChars_escape (hshort.trans hlead)]
    simpa using ih text rfl htext.2.2
  | case5 c cs hplain hescape =>
    rw [htext, List.nil_append]
    exact wordChars_of_not_startsWord hends

theorem blockChars_of_append {closer text rest chars : List Char}
    (h : blockChars closer (text ++ rest) = some chars) (hfits : chars <+: text) :
    blockChars closer text = some chars := by
  induction text generalizing chars with
  | nil =>
    obtain rfl := List.prefix_nil.1 hfits
    -- A closer that ends at the start of a text is empty.
    cases rest with
    | nil => exact h
    | cons c rest =>
      rw [List.nil_append, blockChars] at h
      split_ifs at h
      · obtain rfl := Option.some.inj h
        rfl
      · simp at h
  | cons c text ih =>
    rw [List.cons_append, blockChars] at h
    rw [blockChars]
    split_ifs at h with hcloser
    · obtain rfl := Option.some.inj h
      rw [if_pos (List.isPrefixOf_iff_prefix.2 hfits)]
    · have hshort : ¬closer.isPrefixOf (c :: text) := by
        simp only [List.isPrefixOf_iff_prefix] at hcloser ⊢
        exact fun hp => hcloser (hp.trans (List.prefix_append (c :: text) rest))
      obtain ⟨inner, hinner, rfl⟩ := Option.map_eq_some_iff.1 h
      rw [if_neg hshort, ih hinner ((List.prefix_cons_inj c).1 hfits), Option.map_some]

theorem lineChars_of_append {text rest : List Char} (hfits : lineChars (text ++ rest) <+: text) :
    lineChars text = lineChars (text ++ rest) := by
  induction text with
  | nil => exact (List.prefix_nil.1 hfits).symm
  | cons c text ih =>
    simp only [lineChars, List.cons_append, List.takeWhile_cons] at hfits ih ⊢
    split_ifs at hfits ⊢ with hc
    · rw [ih ((List.prefix_cons_inj c).1 hfits)]
    · rfl

/-- A literal is found from its own characters. -/
theorem literalChars_self {escape quote : Char} {text chars : List Char}
    (h : literalChars escape quote text = some chars) :
    literalChars escape quote chars = some chars := by
  fun_induction literalChars escape quote text generalizing chars with
  | case1 => simp at h
  | case2 => simp at h
  | case3 d ds ih =>
    obtain ⟨inner, hinner, rfl⟩ := Option.map_eq_some_iff.1 h
    simp [literalChars, ih hinner]
  | case4 cs hne =>
    obtain rfl := Option.some.inj h
    simp [literalChars, hne]
  | case5 c cs hne hquote ih =>
    obtain ⟨inner, hinner, rfl⟩ := Option.map_eq_some_iff.1 h
    rw [literalChars.eq_def]
    simp [hne, hquote, ih hinner]

/-- A piece is told by its own characters, and a word by what is behind it. -/
theorem pieceAt_of_append {c : Char} {cs tail rest : List Char} {p : Piece}
    (h : rules.pieceAt c (cs ++ rest) = .ok p) (htext : c :: cs = p.chars ++ tail)
    (hends : p.IsWord → ¬rules.StartsWord tail) :
    rules.pieceAt c cs = .ok p := by
  have hfits : p.chars <+: c :: cs := ⟨tail, htext.symm⟩
  have hisWord := (isWord_of_pieceAt h).1
  have hshort : (rules.lead c (cs ++ rest)).chars c <+: c :: cs →
      rules.lead c cs = rules.lead c (cs ++ rest) := lead_of_append
  unfold pieceAt at h ⊢
  cases hcase : rules.lead c (cs ++ rest) with
  | block skip =>
    simp only [hcase] at h hshort
    split at h
    · next chars hchars =>
      obtain rfl := Except.ok.inj h
      have hopener : skip.opener <+: c :: cs := (List.prefix_append _ _).trans hfits
      rw [hshort hopener]
      rw [← List.cons_append, List.drop_append_of_le_length hopener.length_le] at hchars
      have hinner : chars <+: (c :: cs).drop skip.opener.length := by
        rw [htext, List.append_assoc, List.drop_left]
        exact List.prefix_append _ _
      simp only [blockChars_of_append hchars hinner]
    · cases h
  | line skip =>
    simp only [hcase] at h hshort
    obtain rfl := Except.ok.inj h
    have hmarker : skip.marker <+: c :: cs := (List.prefix_append _ _).trans hfits
    rw [hshort hmarker]
    simp only [← List.cons_append, List.drop_append_of_le_length hmarker.length_le] at htext ⊢
    rw [lineChars_of_append]
    conv_rhs => rw [htext, List.append_assoc, List.drop_left]
    exact List.prefix_append _ _
  | quote =>
    simp only [hcase] at h hshort
    rw [hshort (by simp [Lead.chars])]
    split at h
    · next chars hchars =>
      obtain rfl := Except.ok.inj h
      simp only [List.cons_append, List.cons.injEq, true_and] at htext
      rw [htext, literalChars_append (literalChars_self hchars)]
    · cases h
  | escape | plain =>
    simp only [hcase] at h hshort
    obtain rfl := Except.ok.inj h
    rw [hshort (by simp [Lead.chars])]
    have hword := wordChars_of_append (c :: cs) htext
      (hends (hisWord.2 (by simp [StartsWord, hcase])))
    rw [List.cons_append] at hword
    simp only [hword]
  | delimiter | opener | closer | terminator | punctuator =>
    simp only [hcase] at h hshort
    obtain rfl := Except.ok.inj h
    rw [hshort hfits]

/-! ## The pieces on both sides of a cut -/

/-- A scan without a rest has all characters of the text in its pieces. -/
theorem text_of_scan (wf : rules.WellFormed) {text : List Char} {ps : List Piece}
    (h : rules.scan text = ⟨ps, none⟩) : text = pieceChars ps := by
  have htiling := tiling_scan wf text (by rw [h])
  rw [h] at htiling
  exact htiling.text_eq

/-- What is behind the first piece is scanned into the other ones. -/
theorem of_scan_cons (wf : rules.WellFormed) {text : List Char} {p : Piece} {ps : List Piece}
    {u : Option Unended} (h : rules.scan text = ⟨p :: ps, u⟩) :
    ∃ c cs rest, text = c :: cs ∧ c :: cs = p.chars ++ rest ∧ rules.pieceAt c cs = .ok p ∧
      Cut rules p rest ∧ rules.scan rest = ⟨ps, u⟩ := by
  induction text using scan_induction wf with
  | nil => simp [scan, Scan.ofChars] at h
  | stuck c cs u _ hscan => simp [hscan] at h
  | piece c cs q rest hpiece htext hcut hscan =>
    rw [hscan] at h
    obtain ⟨rfl, hpieces⟩ := List.cons.inj (congrArg Scan.pieces h)
    exact ⟨c, cs, rest, rfl, htext, hpiece, hcut, congrArg₂ Scan.mk hpieces (congrArg Scan.unended h)⟩

theorem startsWord_iff_isWord (wf : rules.WellFormed) {text : List Char} {p : Piece}
    {ps : List Piece} {u : Option Unended} (h : rules.scan text = ⟨p :: ps, u⟩) :
    rules.StartsWord text ↔ p.IsWord := by
  obtain ⟨c, cs, _, rfl, -, hpiece, -⟩ := of_scan_cons wf h
  exact (isWord_of_pieceAt hpiece).1.symm

/-- A text that is cut between two pieces is scanned into the pieces on each side. -/
theorem scan_of_pieces (wf : rules.WellFormed) {text : List Char} {first rest : List Piece}
    (h : rules.scan text = ⟨first ++ rest, none⟩) :
    rules.scan (pieceChars first) = ⟨first, none⟩ ∧ rules.scan (pieceChars rest) = ⟨rest, none⟩ := by
  induction first generalizing text with
  | nil =>
    rw [text_of_scan wf h] at h
    exact ⟨rfl, h⟩
  | cons p first ih =>
    rw [List.cons_append] at h
    obtain ⟨c, cs, behind, -, htext, hpiece, hcut, hbehind⟩ := of_scan_cons wf h
    obtain ⟨hfirst, hrest⟩ := ih hbehind
    refine ⟨?_, hrest⟩
    -- The piece behind a word is the same one in the shorter text, so no word starts there.
    have hends (hword : p.IsWord) : ¬rules.StartsWord (pieceChars first) := by
      obtain _ | ⟨q, first⟩ := first
      · exact id
      · rw [startsWord_iff_isWord wf hfirst, ← startsWord_iff_isWord wf hbehind]
        exact hcut.not_startsWord hword
    rw [text_of_scan wf hbehind, pieceChars_append] at htext
    obtain ⟨d, ds, hchars⟩ := List.exists_cons_of_ne_nil hcut.chars_ne_nil
    rw [hchars, List.cons_append, List.cons.injEq, ← List.append_assoc] at htext
    obtain ⟨rfl, rfl⟩ := htext
    have hshort := pieceAt_of_append hpiece (by rw [hchars]; rfl) hends
    rw [pieceChars_cons, hchars, List.cons_append,
      scan_cut hshort (by rw [hchars]; rfl) hcut.chars_ne_nil, hfirst]
    rfl

/-! ## An escape at the end -/

/-- No fixed text of the table that can end a piece has the escape character. -/
structure EscapeApart (rules : LexicalRules) : Prop where
  not_mem_quotes : rules.escape ∉ rules.quotes
  not_mem_punctuator : ∀ p ∈ rules.punctuators, rules.escape ∉ p
  closer_ne_nil : ∀ skip ∈ rules.blockSkips, skip.closer ≠ []
  not_mem_closer : ∀ skip ∈ rules.blockSkips, rules.escape ∉ skip.closer

theorem escapeApart_headers : headers.EscapeApart where
  not_mem_quotes := by decide
  not_mem_punctuator := by decide
  closer_ne_nil := by decide
  not_mem_closer := by decide

theorem suffix_of_blockChars {closer text chars : List Char}
    (h : blockChars closer text = some chars) : closer <:+ chars := by
  fun_induction blockChars closer text generalizing chars with
  | case1 => simp_all
  | case2 => simp at h
  | case3 => exact Option.some.inj h ▸ List.suffix_rfl
  | case4 c cs hcloser ih =>
    obtain ⟨inner, hinner, rfl⟩ := Option.map_eq_some_iff.1 h
    exact (ih hinner).trans (List.suffix_cons c inner)

/-- A line goes on to a newline or to the end. -/
theorem not_startsWord_of_lineChars (wf : rules.WellFormed) (lb : rules.LineBound)
    (text : List Char) {rest : List Char} (h : text = lineChars text ++ rest) :
    ¬rules.StartsWord rest := by
  have hrest : rest = text.dropWhile (· != '\n') := by
    refine List.append_cancel_left (h.symm.trans ?_)
    exact List.takeWhile_append_dropWhile.symm
  have hhead := List.head?_dropWhile_not (· != '\n') text
  rw [← hrest] at hhead
  obtain _ | ⟨c, rest⟩ := rest
  · exact id
  · obtain rfl : c = '\n' := by simpa using hhead
    simp [StartsWord, lead_newline wf lb]

/-- Only a region or a word starts with an escape character. -/
theorem lead_escape_cases (rules : LexicalRules) (c : Char) (cs : List Char) :
    (∃ skip, rules.lead c cs = .block skip) ∨ (∃ skip, rules.lead c cs = .line skip) ∨
      rules.lead c cs = .escape ∨ c ≠ rules.escape := by
  unfold lead
  cases rules.blockSkipAt (c :: cs) with
  | some skip => exact .inl ⟨skip, rfl⟩
  | none =>
  cases rules.lineSkipAt (c :: cs) with
  | some skip => exact .inr (.inl ⟨skip, rfl⟩)
  | none =>
  by_cases hescape : c = rules.escape
  · exact .inr (.inr (.inl (if_pos hescape)))
  · exact .inr (.inr (.inr hescape))

/-- A piece that a word follows does not end in an escape character. -/
theorem getLast?_ne_escape (wf : rules.WellFormed) (lb : rules.LineBound) (ea : rules.EscapeApart)
    {c : Char} {cs rest : List Char} {p : Piece} (hpiece : rules.pieceAt c cs = .ok p)
    (htext : c :: cs = p.chars ++ rest) (hcut : Cut rules p rest) (hrest : rules.StartsWord rest) :
    p.chars.getLast? ≠ some rules.escape := by
  have hword : ¬rules.StartsWord (c :: cs) := fun h =>
    hcut.not_startsWord ((isWord_of_pieceAt hpiece).1.2 h) hrest
  have hlead := rules.lead_cases c cs
  have hescape := rules.lead_escape_cases c cs
  unfold pieceAt at hpiece
  cases hcase : rules.lead c cs with
  | escape | plain => exact absurd (by simp [StartsWord, hcase]) hword
  | block skip =>
    simp only [hcase] at hpiece hlead
    split at hpiece
    · next chars hchars =>
      obtain rfl := Except.ok.inj hpiece
      -- The last character of the closer ends the region.
      obtain ⟨inner, rfl⟩ := suffix_of_blockChars hchars
      rw [← List.append_assoc, List.getLast?_append_of_ne_nil _ (ea.closer_ne_nil skip hlead.1)]
      exact fun h => ea.not_mem_closer skip hlead.1 (List.mem_of_getLast? h)
    · cases hpiece
  | line skip =>
    simp only [hcase] at hpiece
    obtain rfl := Except.ok.inj hpiece
    have hline : (c :: cs).drop skip.marker.length =
        lineChars ((c :: cs).drop skip.marker.length) ++ rest := by
      conv_lhs => rw [htext, List.append_assoc, List.drop_left]
    exact absurd hrest (not_startsWord_of_lineChars wf lb _ hline)
  | quote =>
    simp only [hcase] at hpiece hlead
    split at hpiece
    · next chars hchars =>
      obtain rfl := Except.ok.inj hpiece
      obtain ⟨body, _, rfl, -⟩ := literalChars_split hchars
      rw [← List.cons_append, List.getLast?_concat]
      exact fun h => ea.not_mem_quotes (Option.some.inj h ▸ hlead)
    · cases hpiece
  | punctuator chars =>
    simp only [hcase] at hpiece hlead
    obtain rfl := Except.ok.inj hpiece
    exact fun h => ea.not_mem_punctuator chars hlead.1 (List.mem_of_getLast? h)
  | delimiter | opener | closer | terminator =>
    simp only [hcase] at hpiece hescape
    obtain rfl := Except.ok.inj hpiece
    simpa using hescape

/-- A word at the end of a text that ends in an unpaired escape makes the text end in one. -/
theorem endsUnpaired_of_endsInEscape (wf : rules.WellFormed) (lb : rules.LineBound)
    (ea : rules.EscapeApart) {text : List Char} {first : List Piece} {p : Piece}
    (h : rules.scan text = ⟨first ++ [p], none⟩) (hend : p.EndsInEscape rules.escape) :
    EndsUnpaired rules.escape text := by
  rw [text_of_scan wf h, pieceChars_append]
  simp only [pieceChars_cons, pieceChars_nil, List.append_nil]
  refine hend.2.append _ ?_
  obtain rfl | ⟨before, q, rfl⟩ := first.eq_nil_or_concat
  · simp
  rw [List.concat_eq_append, List.append_assoc] at h
  obtain ⟨c, cs, rest, -, htext, hpiece, hcut, hrest⟩ := of_scan_cons wf (scan_of_pieces wf h).2
  have hlast := getLast?_ne_escape wf lb ea hpiece htext hcut
    ((startsWord_iff_isWord wf hrest).2 hend.1)
  rw [List.concat_eq_append, pieceChars_append, pieceChars_cons, pieceChars_nil, List.append_nil,
    List.getLast?_append_of_ne_nil _ hcut.chars_ne_nil]
  exact hlast

end LexicalRules

end ShaderInterface
