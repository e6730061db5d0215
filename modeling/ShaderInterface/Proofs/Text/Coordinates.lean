import ShaderInterface.Proofs.Text.Places
import Mathlib.Data.List.DropRight

/-!
# Lines and columns of byte offsets

`Text.Coordinates` says what lines and columns are worth: the line counts the newline bytes before an
offset, the column the characters since the last of them, and both together put the places between
characters in the order of the text. For an offset of any kind, `Text.Splits` names the characters in
front of it; the places that `locate` gives are told by them (`locate_of_splits`).
-/
namespace ShaderInterface

namespace Text

/-! ## The last line -/

/-- The characters behind the last newline. -/
def lastLine (cs : List Char) : List Char := cs.rtakeWhile (· != '\n')

/-- The characters up to the last newline and with it. -/
def finishedLines (cs : List Char) : List Char := cs.rdropWhile (· != '\n')

theorem finishedLines_append_lastLine (cs : List Char) : finishedLines cs ++ lastLine cs = cs :=
  List.rdropWhile_append_rtakeWhile

theorem byteLength_finishedLines (cs : List Char) :
    byteLength (finishedLines cs) + byteLength (lastLine cs) = byteLength cs := by
  rw [← byteLength_append, finishedLines_append_lastLine]

theorem lastLine_newline (cs : List Char) : lastLine (cs ++ ['\n']) = [] :=
  List.rtakeWhile_concat_neg _ _ _ (by decide)

theorem lastLine_append {ds : List Char} (h : '\n' ∉ ds) (cs : List Char) :
    lastLine (cs ++ ds) = lastLine cs ++ ds := by
  have hds : ∀ c ∈ ds.reverse, (c != '\n') = true := by
    intro c hc
    have hne : c ≠ '\n' := by
      rintro rfl
      exact h (List.mem_reverse.1 hc)
    simpa using hne
  rw [lastLine, List.rtakeWhile, List.reverse_append, List.takeWhile_append_of_pos hds,
    List.reverse_append, List.reverse_reverse]
  rfl

theorem finishedLines_newline (cs : List Char) : finishedLines (cs ++ ['\n']) = cs ++ ['\n'] :=
  List.rdropWhile_concat_neg _ _ _ (by decide)

theorem finishedLines_concat {c : Char} (h : c ≠ '\n') (cs : List Char) :
    finishedLines (cs ++ [c]) = finishedLines cs :=
  List.rdropWhile_concat_pos _ _ _ (by simpa using h)

/-! ## The characters before an offset -/

/-- `before` are the characters of the text that end at the byte `offset` or before it, and `rest` are
the others. -/
structure Splits (cs : List Char) (offset : Nat) (before rest : List Char) : Prop where
  text_eq : cs = before ++ rest
  le_offset : byteLength before ≤ offset
  offset_lt : ∀ c ∈ rest.head?, offset < byteLength before + c.utf8Size

theorem exists_splits (cs : List Char) (offset : Nat) : ∃ before rest, Splits cs offset before rest := by
  induction cs generalizing offset with
  | nil => exact ⟨[], [], rfl, Nat.zero_le _, by simp⟩
  | cons c cs ih =>
    by_cases hc : c.utf8Size ≤ offset
    · obtain ⟨before, rest, rfl, hle, hlt⟩ := ih (offset - c.utf8Size)
      refine ⟨c :: before, rest, rfl, ?_, fun d hd => ?_⟩
      · rw [byteLength_cons]
        omega
      · have := hlt d hd
        rw [byteLength_cons]
        omega
    · refine ⟨[], c :: cs, rfl, Nat.zero_le _, fun d hd => ?_⟩
      obtain rfl : c = d := by simpa using hd
      simpa using hc

/-- An offset between two characters splits the text there. -/
theorem splits_append (before rest : List Char) :
    Splits (before ++ rest) (byteLength before) before rest :=
  ⟨rfl, Nat.le_refl _, fun c _ => Nat.lt_add_of_pos_right c.utf8Size_pos⟩

/-- An offset behind the end has all characters before it. -/
theorem splits_of_le {cs : List Char} {offset : Nat} (h : byteLength cs ≤ offset) :
    Splits cs offset cs [] :=
  ⟨(List.append_nil cs).symm, h, by simp⟩

/-- If a first part of the text ends at the offset, it has all characters before the offset. -/
theorem Splits.eq_of_prefix {cs before rest chars : List Char} {offset : Nat}
    (h : Splits cs offset before rest) (hchars : chars <+: cs) (hlength : byteLength chars = offset) :
    chars = before := by
  obtain ⟨rfl, hle, hlt⟩ := h
  have hbefore := List.prefix_append before rest
  rcases List.prefix_or_prefix_of_prefix hchars hbefore with hshort | hlong
  · refine eq_of_prefix_of_byteLength hchars hbefore ?_
    obtain ⟨tail, rfl⟩ := hshort
    rw [byteLength_append] at hle ⊢
    omega
  · obtain ⟨tail, rfl⟩ := hlong
    cases tail with
    | nil => simp
    | cons c tail =>
      -- The character behind `before` would end at the offset or before it.
      obtain ⟨behind, rfl⟩ := (List.prefix_append_right_inj before).1 hchars
      have hinside := hlt c rfl
      rw [byteLength_append, byteLength_cons] at hlength
      omega

/-- The newline bytes before an offset are those of the characters before it. -/
theorem Splits.count_take {s : String} {before rest : List Char} {offset : Nat}
    (h : Splits s.toList offset before rest) :
    ((bytes s).take offset).count 10 = before.count '\n' := by
  obtain ⟨htext, hle, hlt⟩ := h
  obtain ⟨k, rfl⟩ := Nat.exists_eq_add_of_le hle
  rw [bytes_eq, htext, List.flatMap_append, ← length_flatMap_utf8EncodeChar, List.take_length_add_append,
    List.count_append, count_flatMap_utf8EncodeChar, Nat.add_eq_left]
  cases rest with
  | nil => simp
  | cons c rest =>
    -- The offset cuts at most one character, of which it leaves the last byte out.
    have hk : k < c.utf8Size := by
      have := hlt c rfl
      omega
    rw [List.flatMap_cons, List.take_append_of_le_length (by simp; omega), List.count_eq_zero]
    intro hmem
    obtain rfl := newline_mem_utf8EncodeChar (List.mem_of_mem_take hmem)
    obtain rfl : k = 0 := Nat.lt_one_iff.1 hk
    simp at hmem

end Text

/-! ## Walking to an offset -/

namespace Location

@[simp] theorem Walk.through_position (cs : List Char) (w : Walk) :
    (w.through cs).position = w.position + Text.byteLength cs := by
  induction cs generalizing w with
  | nil => rfl
  | cons c cs ih =>
    rw [Walk.through_cons, ih, Walk.step_position, Text.byteLength_cons, Nat.add_assoc]

/-- The column counts the characters of the last line. -/
theorem Walk.start_through_column (cs : List Char) :
    (Walk.start.through cs).column = (Text.lastLine cs).length + 1 := by
  induction cs using List.reverseRecOn with
  | nil => rfl
  | append_singleton cs c ih =>
    rw [Walk.through_append, Walk.through_cons, Walk.through_nil, Walk.step]
    by_cases hc : c = '\n'
    · rw [if_pos hc, hc, Text.lastLine_newline]
      rfl
    · rw [if_neg hc, Text.lastLine_append (by simpa using Ne.symm hc)]
      simp [ih]

/-- The last line starts behind the finished ones. -/
theorem Walk.start_through_lineStart (cs : List Char) :
    (Walk.start.through cs).lineStart = Text.byteLength (Text.finishedLines cs) := by
  induction cs using List.reverseRecOn with
  | nil => rfl
  | append_singleton cs c ih =>
    rw [Walk.through_append, Walk.through_cons, Walk.through_nil, Walk.step]
    by_cases hc : c = '\n'
    · rw [if_pos hc, hc, Text.finishedLines_newline]
      simp [Walk.start]
    · rw [if_neg hc, Text.finishedLines_concat hc]
      exact ih

theorem locateFrom_through {before : List Char} (rest : List Char) {offset : Nat} {w : Walk}
    (h : w.position + Text.byteLength before ≤ offset) :
    locateFrom offset w (before ++ rest) = locateFrom offset (w.through before) rest := by
  induction before generalizing w with
  | nil => rfl
  | cons c before ih =>
    rw [Text.byteLength_cons] at h
    have hpos := c.utf8Size_pos
    rw [List.cons_append, locateFrom, if_neg (by omega), if_neg (by omega), Walk.through_cons]
    refine ih ?_
    rw [Walk.step_position]
    omega

end Location

open Location

/-- The place of an offset, from the characters before it. Inside a character the column counts bytes. -/
theorem locate_of_splits {cs before rest : List Char} {offset : Nat}
    (h : Text.Splits cs offset before rest) :
    locate cs offset = ⟨offset, before.count '\n' + 1,
      if rest = [] ∨ offset = Text.byteLength before then (Text.lastLine before).length + 1
      else offset - Text.byteLength (Text.finishedLines before) + 1⟩ := by
  obtain ⟨rfl, hle, hlt⟩ := h
  have hline : (Walk.start.through before).line = before.count '\n' + 1 := by
    rw [Walk.through_line, Walk.start, Nat.add_comm]
  rw [locate, locateFrom_through rest (by simpa [Walk.start] using hle)]
  cases rest with
  | nil => simp [locateFrom, hline, Walk.start_through_column]
  | cons c rest =>
    have hinside := hlt c rfl
    have hposition : (Walk.start.through before).position = Text.byteLength before := by
      simp [Walk.start]
    rw [locateFrom, hposition, hline, Walk.start_through_column, Walk.start_through_lineStart]
    by_cases hend : offset = Text.byteLength before
    · rw [if_pos hend.le, if_pos (.inr hend)]
    · rw [if_neg (by omega), if_pos hinside, if_neg (by simp [hend])]

/-! ## Coordinates -/

/-- The place is on an earlier line, or on the same line in an earlier column. -/
def Location.Precedes (a b : Location) : Prop :=
  a.line < b.line ∨ a.line = b.line ∧ a.column < b.column

namespace Text

/-- The byte `offset` of the text is the first one of a character, or the end. -/
def IsBoundary (s : String) (offset : Nat) : Prop :=
  ∃ before behind, s.toList = before ++ behind ∧ offset = byteLength before

/-- `place` gives every byte offset of the text its line and its column. -/
structure Coordinates (s : String) (place : Nat → Location) : Prop where
  /-- One more than the newline bytes before the offset, whatever the offset is. -/
  line : ∀ offset, (place offset).line = ((bytes s).take offset).count 10 + 1
  /-- One more than the characters since the last newline, or since the start. -/
  column : ∀ before behind, s.toList = before ++ behind →
    (place (byteLength before)).column = (lastLine before).length + 1
  /-- Behind the end, the column is that of the end. -/
  column_of_le : ∀ offset, s.utf8ByteSize ≤ offset →
    (place offset).column = (place s.utf8ByteSize).column
  /-- Places between characters are in the order of the text. -/
  increasing : ∀ a b, IsBoundary s a → IsBoundary s b → a < b → (place a).Precedes (place b)
  injective : ∀ a b, IsBoundary s a → IsBoundary s b → (place a).line = (place b).line →
    (place a).column = (place b).column → a = b

end Text

/-- The place behind some characters. -/
theorem locate_byteLength (before behind : List Char) :
    locate (before ++ behind) (Text.byteLength before) =
      ⟨Text.byteLength before, before.count '\n' + 1, (Text.lastLine before).length + 1⟩ := by
  rw [locate_of_splits (Text.splits_append before behind), if_pos (.inr rfl)]

/-- Characters without a newline move a place to the right, others move it to a later line. -/
theorem precedes_append (before : List Char) {between : List Char} (hne : between ≠ [])
    (behind : List Char) :
    (locate (before ++ between ++ behind) (Text.byteLength before)).Precedes
      (locate (before ++ between ++ behind) (Text.byteLength (before ++ between))) := by
  rw [locate_byteLength (before ++ between), List.append_assoc, locate_byteLength before]
  by_cases hnewline : '\n' ∈ between
  · refine .inl ?_
    show before.count '\n' + 1 < (before ++ between).count '\n' + 1
    have hcount := List.count_pos_iff.2 hnewline
    rw [List.count_append]
    omega
  · refine .inr ⟨?_, ?_⟩
    · rw [List.count_append, List.count_eq_zero_of_not_mem hnewline, Nat.add_zero]
    · show (Text.lastLine before).length + 1 < (Text.lastLine (before ++ between)).length + 1
      have hlength := List.length_pos_iff.2 hne
      rw [Text.lastLine_append hnewline, List.length_append]
      omega

theorem precedes_of_lt {s : String} {a b : Nat} (ha : Text.IsBoundary s a) (hb : Text.IsBoundary s b)
    (hlt : a < b) : (locate s.toList a).Precedes (locate s.toList b) := by
  obtain ⟨before, rest, htext, rfl⟩ := ha
  obtain ⟨longer, behind, htext', rfl⟩ := hb
  have hbefore : before <+: s.toList := ⟨rest, htext.symm⟩
  have hlonger : longer <+: s.toList := ⟨behind, htext'.symm⟩
  rcases List.prefix_or_prefix_of_prefix hbefore hlonger with ⟨between, rfl⟩ | ⟨between, rfl⟩
  · rw [htext']
    refine precedes_append before ?_ behind
    rintro rfl
    simp at hlt
  · rw [Text.byteLength_append] at hlt
    omega

theorem coordinates_locate (s : String) : Text.Coordinates s (locate s.toList) where
  line offset := by
    obtain ⟨before, rest, h⟩ := Text.exists_splits s.toList offset
    rw [locate_of_splits h, h.count_take]
  column before behind htext := by rw [htext, locate_byteLength]
  column_of_le offset hle := by
    rw [← Text.byteLength_toList] at hle ⊢
    rw [locate_of_splits (Text.splits_of_le hle), locate_of_splits (Text.splits_of_le (Nat.le_refl _)),
      if_pos (.inl rfl), if_pos (.inl rfl)]
  increasing a b ha hb := precedes_of_lt ha hb
  injective a b ha hb hline hcolumn := by
    rcases Nat.lt_trichotomy a b with hlt | heq | hlt
    · rcases precedes_of_lt ha hb hlt with h | h <;> omega
    · exact heq
    · rcases precedes_of_lt hb ha hlt with h | h <;> omega

end ShaderInterface
