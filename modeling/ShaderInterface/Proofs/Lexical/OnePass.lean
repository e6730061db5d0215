import ShaderInterface.Lexical.Tokenize
import ShaderInterface.Proofs.Lexical.Tiling

/-!
# Cutting and checking in one pass

`LexicalRules.tokenize` cuts a text into pieces and then checks whether their groups nest. `Pass.run`
does both in one loop, with the open groups and the word it is reading in its state: it takes a word
character by character, checks a close when it meets it and stops at the first fault.
`LexicalRules.tokenize_eq_run` says that the two agree, faults and offsets included, for every table.

What the loop still has to give is a function of its state and of the scan of the rest of the text
(`Pass.resume`). A piece that the loop takes leaves it unchanged (`Pass.resume_take`), and so does a
word (`Pass.resume_word`).
-/
namespace ShaderInterface

/-- What is found in two parts of a text that follow each other. -/
def Tokenized.append (a b : Tokenized) : Tokenized :=
  ⟨a.tokens ++ b.tokens, a.skipped ++ b.skipped⟩

theorem Tokenized.append_assoc (a b c : Tokenized) :
    (a.append b).append c = a.append (b.append c) := by
  simp [append]

theorem Tokenized.append_nothing (a : Tokenized) : a.append ⟨[], []⟩ = a := by
  simp [append]

theorem Tokenized.nothing_append (a : Tokenized) : append ⟨[], []⟩ a = a := rfl

theorem Tokenized.ofPieces_append (escape : Char) (ps qs : List PlacedPiece) :
    ofPieces escape (ps ++ qs) = (ofPieces escape ps).append (ofPieces escape qs) := by
  simp [ofPieces, append]

/-- What a loop over a text has behind it. -/
structure Pass where
  position : Nat
  /-- The open groups, the innermost first. -/
  groups : List OpenGroup
  /-- The text of the word that is being read; empty outside words. -/
  word : List Char
  /-- Where that word starts; without a meaning outside words. -/
  wordStart : Nat
  found : Tokenized

namespace Pass

def start : Pass := ⟨0, [], [], 0, ⟨[], []⟩⟩

/-- Reads the characters `chars`, which give the word that is being read the text `text`. -/
def join (chars text : List Char) (s : Pass) : Pass :=
  { s with
    position := s.position + Text.byteLength chars
    word := s.word ++ text
    wordStart := if s.word = [] then s.position else s.wordStart }

/-- Ends the word that is being read. -/
def flush (s : Pass) : Pass :=
  if s.word = [] then s
  else
    { s with
      word := []
      found := s.found.append
        ⟨[⟨.word, String.ofList s.word, s.wordStart, s.position - s.wordStart⟩], []⟩ }

/-- Reads a piece and keeps what it is. -/
def keep (escape : Char) (p : Piece) (s : Pass) : Pass :=
  { s with
    position := s.position + Text.byteLength p.chars
    found := s.found.append (.ofPieces escape [⟨s.position, p⟩]) }

/-- Reads a piece, unless it closes a group that is not the innermost one. -/
def take (escape : Char) (p : Piece) (s : Pass) : Except (LexFault × Nat) Pass :=
  match p.kind with
  | .token (.groupOpen opener closer) =>
    .ok { s.keep escape p with groups := ⟨opener, closer, s.position⟩ :: s.groups }
  | .token (.groupClose closer) =>
    match s.groups with
    | [] => .error (.unexpectedClose closer none, s.position)
    | group :: outer =>
      if group.expected = closer then .ok { s.keep escape p with groups := outer }
      else .error (.unexpectedClose closer (some group.expected), s.position)
  | _ => .ok (s.keep escape p)

/-- What has been found at the end of the text. -/
def finish (s : Pass) : Except (LexFault × Nat) Tokenized :=
  match s.groups with
  | group :: _ => .error (.unclosedGroup group.opener, group.offset)
  | [] => .ok s.flush.found

/-- Goes on with a text whose first `skip` characters have been read. -/
def run (rules : LexicalRules) : (skip : Nat) → Pass → List Char →
    Except (LexFault × Nat) Tokenized
  | _, s, [] => s.finish
  | skip + 1, s, _ :: cs => run rules skip s cs
  | 0, s, c :: cs =>
    match rules.lead c cs with
    | .plain => run rules 0 (s.join [c] [c]) cs
    | .escape => run rules 1 (s.join (c :: cs.take 1) (cs.take 1)) cs
    | _ =>
      match rules.pieceAt c cs with
      | .error u => .error (u.fault, s.position)
      | .ok p =>
        match s.flush.take rules.escape p with
        | .error e => .error e
        | .ok s' => run rules (p.chars.length - 1) s' cs

/-! ## Words -/

section
variable {rules : LexicalRules} {s : Pass}

theorem flush_of_word_eq_nil (h : s.word = []) : s.flush = s := if_pos h

theorem word_flush (s : Pass) : s.flush.word = [] := by
  unfold flush
  split_ifs with h
  · exact h
  · rfl

theorem flush_flush (s : Pass) : s.flush.flush = s.flush := flush_of_word_eq_nil s.word_flush

theorem groups_flush (s : Pass) : s.flush.groups = s.groups := by
  unfold flush
  split_ifs <;> rfl

theorem position_flush (s : Pass) : s.flush.position = s.position := by
  unfold flush
  split_ifs <;> rfl

theorem finish_flush (s : Pass) : s.flush.finish = s.finish := by
  rw [finish, finish, groups_flush, flush_flush]

theorem join_nil (h : s.word ≠ []) : s.join [] [] = s := by
  simp [join, h, Text.byteLength]

theorem join_join {text : List Char} (htext : text ≠ []) (chars chars' text' : List Char) :
    (s.join chars text).join chars' text' = s.join (chars ++ chars') (text ++ text') := by
  simp [join, htext, Text.byteLength_append, Nat.add_assoc]

theorem run_skip (rules : LexicalRules) (skip : Nat) (s : Pass) (cs : List Char) :
    run rules skip s cs = run rules 0 s (cs.drop skip) := by
  induction cs generalizing skip with
  | nil => simp [run]
  | cons c cs ih =>
    cases skip with
    | zero => rfl
    | succ skip => simpa [run] using ih skip

theorem run_plain {c : Char} {cs : List Char} (h : rules.lead c cs = .plain) (s : Pass) :
    run rules 0 s (c :: cs) = run rules 0 (s.join [c] [c]) cs := by
  simp only [run, h]

theorem run_escape {c : Char} {cs : List Char} (h : rules.lead c cs = .escape) (s : Pass) :
    run rules 0 s (c :: cs) =
      run rules 0 (s.join (c :: cs.take 1) (cs.take 1)) (cs.drop 1) := by
  simp only [run, h]
  exact run_skip rules 1 _ cs

theorem run_piece {c : Char} {cs : List Char} (h : ¬rules.StartsWord (c :: cs)) (s : Pass) :
    run rules 0 s (c :: cs) =
      match rules.pieceAt c cs with
      | .error u => .error (u.fault, s.position)
      | .ok p =>
        match s.flush.take rules.escape p with
        | .error e => .error e
        | .ok s' => run rules (p.chars.length - 1) s' cs := by
  obtain ⟨hplain, hescape⟩ := not_or.1 h
  rw [run]
  split
  · contradiction
  · contradiction
  · rfl

/-- A word ends in front of what is not part of one. -/
theorem run_flush {text : List Char} (h : ¬rules.StartsWord text) (s : Pass) :
    run rules 0 s.flush text = run rules 0 s text := by
  cases text with
  | nil => exact s.finish_flush
  | cons c cs => rw [run_piece h, run_piece h, flush_flush, position_flush]

/-- Where a word is being read or starts, the loop reads it to its end. -/
theorem run_word {text : List Char} (h : s.word ≠ [] ∨ rules.StartsWord text) :
    run rules 0 s text =
      run rules 0 (s.join (rules.wordChars text) (unescape rules.escape (rules.wordChars text))).flush
        (text.drop (rules.wordChars text).length) := by
  -- A word has a text as soon as a character has joined it, so only its first character can set
  -- where it starts. An escape at the very end joins nothing, but nothing comes behind it either.
  fun_induction LexicalRules.wordChars rules text generalizing s with
  | case1 =>
    have hword : s.word ≠ [] := h.resolve_right id
    rw [unescape, join_nil hword]
    exact s.finish_flush.symm
  | case2 c cs hlead ih =>
    have hword : (s.join [c] [c]).word ≠ [] := by simp [join]
    rw [run_plain hlead, ih (.inl hword), join_join (by simp),
      unescape_cons_of_ne (LexicalRules.ne_escape_of_lead hlead)]
    rfl
  | case3 c hlead =>
    obtain rfl := LexicalRules.eq_escape_of_lead hlead
    rw [run_escape hlead, unescape_cons_escape]
    exact (finish_flush _).symm
  | case4 c d ds hlead ih =>
    have hword : (s.join [c, d] [d]).word ≠ [] := by simp [join]
    obtain rfl := LexicalRules.eq_escape_of_lead hlead
    rw [run_escape hlead, unescape_cons_escape]
    change run rules 0 (s.join [rules.escape, d] [d]) ds = _
    rw [ih (.inl hword), join_join (by simp)]
    rfl
  | case5 c cs hplain hescape =>
    have hends : ¬rules.StartsWord (c :: cs) := not_or.2 ⟨hplain, hescape⟩
    have hword : s.word ≠ [] := h.resolve_right hends
    rw [unescape, join_nil hword]
    exact (run_flush hends s).symm

end

/-! ## What is still to come -/

/-- What the loop gives in the end if the rest of the text is cut as `rest` says. -/
def resume (escape : Char) (s : Pass) (rest : Scan) : Except (LexFault × Nat) Tokenized :=
  let placed := placePieces s.position rest.pieces
  match checkNesting s.groups placed with
  | .error e => .error (.unexpectedClose e.found e.expected, e.offset)
  | .ok groups =>
    match rest.unended, groups with
    | some u, _ => .error (u.fault, s.position + piecesLength rest.pieces)
    | none, group :: _ => .error (.unclosedGroup group.opener, group.offset)
    | none, [] => .ok (s.found.append (.ofPieces escape placed))

section
variable {escape : Char} {s s' : Pass} {p : Piece}

/-- Behind a piece the loop gives what it gave in front of it. -/
theorem resume_cons {rest : Scan} (hposition : s'.position = s.position + Text.byteLength p.chars)
    (hfound : s'.found = s.found.append (.ofPieces escape [⟨s.position, p⟩]))
    (hgroups : checkNesting s.groups (placePieces s.position (p :: rest.pieces)) =
      checkNesting s'.groups (placePieces s'.position rest.pieces)) :
    s.resume escape (rest.cons p) = s'.resume escape rest := by
  have hlength : s.position + piecesLength (p :: rest.pieces) =
      s'.position + piecesLength rest.pieces := by
    rw [hposition, piecesLength, Nat.add_assoc]
  have hall : s.found.append (.ofPieces escape (placePieces s.position (p :: rest.pieces))) =
      s'.found.append (.ofPieces escape (placePieces s'.position rest.pieces)) := by
    rw [hfound, Tokenized.append_assoc, ← Tokenized.ofPieces_append, hposition]
    rfl
  simp only [resume, Scan.cons, hgroups, hlength, hall]

theorem word_take (h : s.take escape p = .ok s') : s'.word = s.word := by
  unfold take at h
  split at h
  · cases h
    rfl
  · split at h
    · cases h
    · split_ifs at h
      cases h
      rfl
  · cases h
    rfl

/-- To take a piece is to go on behind it, or to find that it closes the wrong group. -/
theorem resume_take (escape : Char) (s : Pass) (p : Piece) (rest : Scan) :
    s.resume escape (rest.cons p) =
      match s.take escape p with
      | .error e => .error e
      | .ok s' => s'.resume escape rest := by
  obtain ⟨kind, chars⟩ := p
  cases kind with
  | token shape =>
    cases shape with
    | groupOpen opener closer => exact resume_cons rfl rfl rfl
    | groupClose closer =>
      cases hgroups : s.groups with
      | nil => simp only [resume, take, Scan.cons, placePieces, checkNesting, hgroups]
      | cons group outer =>
        by_cases hfits : group.expected = closer
        · simp only [take, hgroups, if_pos hfits]
          refine resume_cons rfl rfl ?_
          simp only [placePieces, checkNesting, hgroups, if_pos hfits]
          rfl
        · simp only [resume, take, Scan.cons, placePieces, checkNesting, hgroups, if_neg hfits]
    | word | punctuator | terminator | literal => exact resume_cons rfl rfl rfl
  | skipped | delimiter | danglingEscape => exact resume_cons rfl rfl rfl

/-- A word that has been read and ended is a piece, with a text or without. -/
theorem resume_word (h : s.word = []) (chars : List Char) (rest : Scan) :
    s.resume escape (rest.cons
        ⟨if (unescape escape chars).isEmpty then .danglingEscape else .token .word, chars⟩) =
      (s.join chars (unescape escape chars)).flush.resume escape rest := by
  by_cases htext : unescape escape chars = []
  · have hflush : (s.join chars (unescape escape chars)).flush = s.join chars [] := by
      rw [htext]
      exact flush_of_word_eq_nil (by simp [join, h])
    rw [hflush, htext]
    exact resume_cons rfl s.found.append_nothing.symm rfl
  · have hfound : Tokenized.ofPieces escape [⟨s.position, ⟨.token .word, chars⟩⟩] =
        ⟨[⟨.word, String.ofList (unescape escape chars), s.position, Text.byteLength chars⟩], []⟩ :=
      rfl
    have hflush : (s.join chars (unescape escape chars)).flush =
        { s.keep escape ⟨.token .word, chars⟩ with wordStart := s.position } := by
      simp [flush, join, keep, h, htext, hfound]
    rw [hflush, if_neg (by simpa using htext)]
    exact resume_cons rfl rfl rfl

end

/-- From a state outside words, the loop gives what the scan of the rest says. -/
theorem run_eq_resume {rules : LexicalRules} (skip : Nat) (cs : List Char) {s : Pass}
    (h : s.word = []) : run rules skip s cs = s.resume rules.escape (.ofChars rules skip cs) := by
  fun_induction Scan.ofChars rules skip cs generalizing s with
  | case1 =>
    rw [run, finish, flush_of_word_eq_nil h]
    simp only [resume, placePieces, checkNesting]
    cases s.groups with
    | nil => exact congrArg Except.ok s.found.append_nothing.symm
    | cons group outer => rfl
  | case2 skip c cs ih => exact ih h
  | case3 c cs p hpiece ih =>
    by_cases hstart : rules.StartsWord (c :: cs)
    · obtain rfl := Except.ok.inj (hpiece.symm.trans (LexicalRules.pieceAt_word hstart))
      obtain ⟨d, ds, hchars⟩ := List.exists_cons_of_ne_nil (LexicalRules.wordChars_ne_nil hstart)
      rw [resume_word h, ← ih (word_flush _), run_word (.inr hstart), hchars]
      exact (run_skip rules ds.length _ cs).symm
    · rw [run_piece hstart, hpiece, resume_take, flush_of_word_eq_nil h]
      dsimp only
      cases htake : s.take rules.escape p with
      | error e => rfl
      | ok s' => exact ih ((word_take htake).trans h)
  | case4 c cs u hpiece =>
    have hstart : ¬rules.StartsWord (c :: cs) := fun hstart => by
      rw [LexicalRules.pieceAt_word hstart] at hpiece
      cases hpiece
    rw [run_piece hstart, hpiece]
    rfl

/-- At the start nothing is found or open, so what is to come is the result of the scan. -/
theorem resume_start (escape : Char) (scan : Scan) :
    resume escape start scan =
      match scan.fault? with
      | some fault => .error fault
      | none => .ok (.ofPieces escape (placePieces 0 scan.pieces)) := by
  simp only [resume, start, Scan.fault?, Nat.zero_add, Tokenized.nothing_append]
  cases checkNesting [] (placePieces 0 scan.pieces) with
  | error e => rfl
  | ok groups =>
    cases scan.unended with
    | some u => rfl
    | none => cases groups <;> rfl

end Pass

/-- **One pass and two agree.** Cutting a text and then checking its groups gives what the loop gives
that checks every close when it meets it: the same tokens and skipped regions, or the same fault at the
same place. -/
theorem LexicalRules.tokenize_eq_run (rules : LexicalRules) (source : String) :
    rules.tokenize source = (Pass.run rules 0 .start source.toList).mapError fun e =>
      ⟨e.1, locate source.toList e.2⟩ := by
  have hrun : Pass.run rules 0 .start source.toList =
      Pass.resume rules.escape .start (rules.scan source.toList) :=
    Pass.run_eq_resume 0 source.toList rfl
  rw [hrun, Pass.resume_start, tokenize]
  cases (rules.scan source.toList).fault? <;> rfl

end ShaderInterface
