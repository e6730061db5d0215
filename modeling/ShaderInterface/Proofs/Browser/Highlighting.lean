import ShaderInterface.Browser.Highlight
import Mathlib.Tactic

/-!
# How a line is cut into spans

A note is a comment or a directive. The first one of a line takes the rest of it; before it stand
words, which go on at neither end, and single other characters.

`Covers` says this of spans, and that put together they are the line. The rules leave no choice
(`Covers.unique`), and scanning with a pending word follows them (`covers_spansFrom`). So the spans of
a line are the only ones that do (`covers_iff_eq_spans`).
-/
namespace ShaderInterface

/-- The characters that spans show. -/
def spanChars (ss : List Span) : List Char := ss.flatMap Span.chars

@[simp] theorem Span.chars_ofText (text : String) (style : Style) :
    (Span.ofText text style).chars = text.toList := rfl

@[simp] theorem spanChars_nil : spanChars [] = [] := rfl

@[simp] theorem spanChars_cons (s : Span) (ss : List Span) :
    spanChars (s :: ss) = s.chars ++ spanChars ss := List.flatMap_cons

@[simp] theorem spanChars_append (left right : List Span) :
    spanChars (left ++ right) = spanChars left ++ spanChars right := List.flatMap_append

theorem eq_nil_of_spanChars {ss : List Span} (hne : ∀ s ∈ ss, s.chars ≠ [])
    (h : spanChars ss = []) : ss = [] := by
  cases ss with
  | nil => rfl
  | cons s ss => exact absurd (List.append_eq_nil_iff.1 h).1 (hne s List.mem_cons_self)

namespace Highlight

/-! ## Notes -/

/-- A comment or a directive starts behind `before`. -/
inductive NoteAt (before : List Char) : List Char → Prop where
  | comment (cs : List Char) : NoteAt before ('/' :: '/' :: cs)
  | directive (cs : List Char) : (∀ c ∈ before, Text.isBlank c = true) → NoteAt before ('#' :: cs)

/-- No note of the line `before ++ rest` starts in `before`. -/
def NoNoteIn (before rest : List Char) : Prop :=
  ∀ earlier later, earlier ++ later = before ++ rest → NoteAt earlier later →
    before.length ≤ earlier.length

/-- What is behind `before` is a note, and the first one of the line. -/
structure FirstNote (before note : List Char) : Prop where
  starts : NoteAt before note
  first : NoNoteIn before note

theorem startsNote_iff (before rest : List Char) :
    startsNote (before.all Text.isBlank) rest = true ↔ NoteAt before rest := by
  constructor
  · intro h
    rcases Bool.or_eq_true_iff.1 h with hdirective | hcomment
    · obtain ⟨hblank, hhead⟩ := Bool.and_eq_true_iff.1 hdirective
      obtain ⟨cs, rfl⟩ := List.head?_eq_some_iff.1 (beq_iff_eq.1 hhead)
      exact .directive cs (List.all_eq_true.1 hblank)
    · obtain ⟨cs, rfl⟩ := List.isPrefixOf_iff_prefix.1 hcomment
      exact .comment cs
  · intro h
    cases h with
    | comment cs => simp [startsNote]
    | directive cs hblank => simpa [startsNote] using hblank

section
variable {before rest : List Char} {c : Char}

/-- No note starts inside a word. -/
theorem NoteAt.not_isWordChar (h : NoteAt before (c :: rest)) : Text.isWordChar c = false := by
  cases h with
  | comment => decide +kernel
  | directive => decide +kernel

theorem noNoteIn_nil (rest : List Char) : NoNoteIn [] rest := fun _ _ _ _ => Nat.zero_le _

theorem NoNoteIn.snoc (h : NoNoteIn before (c :: rest)) (hnot : ¬NoteAt before (c :: rest)) :
    NoNoteIn (before ++ [c]) rest := by
  intro earlier later htext hnote
  rw [List.append_assoc, List.singleton_append] at htext
  have hle : before.length ≤ earlier.length := h earlier later htext hnote
  have hne : earlier.length ≠ before.length := by
    intro hlength
    obtain ⟨rfl, rfl⟩ := List.append_inj htext hlength
    exact hnot hnote
  rw [List.length_append, List.length_singleton]
  omega

theorem NoNoteIn.append {run : List Char} (h : NoNoteIn before (run ++ rest))
    (hrun : ∀ c ∈ run, Text.isWordChar c = true) : NoNoteIn (before ++ run) rest := by
  induction run generalizing before with
  | nil => simpa using h
  | cons c run ih =>
    obtain ⟨hc, hrun⟩ := List.forall_mem_cons.1 hrun
    have hnot : ¬NoteAt before (c :: (run ++ rest)) := by
      intro hnote
      simp [hnote.not_isWordChar] at hc
    simpa using ih (h.snoc hnot) hrun

/-- A line has one first note. -/
theorem FirstNote.unique {first note : List Char} (h : FirstNote before rest)
    (h' : FirstNote first note) (htext : first ++ note = before ++ rest) :
    first = before ∧ note = rest :=
  List.append_inj htext
    (Nat.le_antisymm (h'.first before rest htext.symm h.starts) (h.first first note htext h'.starts))

end

/-! ## The rules -/

/-- Word characters between `before` and `behind` that are a whole word. -/
structure MaximalRun (before run behind : List Char) : Prop where
  word : ∀ c ∈ run, Text.isWordChar c = true
  left : ∀ c ∈ before.getLast?, Text.isWordChar c = false
  right : ∀ c ∈ behind.head?, Text.isWordChar c = false

/-- What a span between `before` and `behind` can be. -/
inductive SpanAt (before : List Char) : Span → List Char → Prop where
  | word {run behind : List Char} : MaximalRun before run behind →
      SpanAt before ⟨run, wordStyle (String.ofList run)⟩ behind
  | other {c : Char} {behind : List Char} : Text.isWordChar c = false →
      SpanAt before ⟨[c], charStyle c⟩ behind
  /-- A note goes on to the end of the line. -/
  | note {note : List Char} : FirstNote before note →
      SpanAt before ⟨note, Palette.ink Palette.comment⟩ []

/-- The rules for the spans of `rest`, the part of a line behind `before`. -/
structure Covers (before rest : List Char) (ss : List Span) : Prop where
  text : spanChars ss = rest
  chars_ne_nil : ∀ s ∈ ss, s.chars ≠ []
  placed : ∀ left s right, ss = left ++ s :: right →
    SpanAt (before ++ spanChars left) s (spanChars right)
  /-- If the line has a note, the first one is the last span. -/
  note : ∀ first note, first ++ note = before ++ rest → FirstNote first note →
    ∃ left, ss = left ++ [⟨note, Palette.ink Palette.comment⟩]

section
variable {before rest : List Char} {ss : List Span} {s : Span}

theorem Covers.nil (h : NoNoteIn before []) : Covers before [] [] where
  text := rfl
  chars_ne_nil := by simp
  placed := by simp
  note := by
    intro first note htext hnote
    have hle : before.length ≤ first.length := h first note htext hnote.starts
    have hlength := congrArg List.length htext
    simp only [List.length_append, List.length_nil] at hlength
    obtain rfl : note = [] := List.length_eq_zero_iff.1 (by omega)
    cases hnote.starts

theorem Covers.ofNote (h : FirstNote before rest) :
    Covers before rest [⟨rest, Palette.ink Palette.comment⟩] where
  text := by simp
  chars_ne_nil := by
    cases h.starts <;> simp
  placed := by
    intro left s right hsplit
    obtain ⟨rfl, rfl, rfl⟩ : left = [] ∧ s = ⟨rest, Palette.ink Palette.comment⟩ ∧ right = [] := by
      cases left <;> simp_all
    simpa using SpanAt.note h
  note := by
    intro first note htext hnote
    obtain ⟨-, rfl⟩ := h.unique hnote htext
    exact ⟨[], rfl⟩

theorem Covers.cons (hne : s.chars ≠ []) (hplaced : SpanAt before s rest)
    (h : Covers (before ++ s.chars) rest ss) : Covers before (s.chars ++ rest) (s :: ss) where
  text := by rw [spanChars_cons, h.text]
  chars_ne_nil := List.forall_mem_cons.2 ⟨hne, h.chars_ne_nil⟩
  placed := by
    intro left t right hsplit
    cases left with
    | nil =>
      obtain ⟨rfl, rfl⟩ := List.cons.inj hsplit
      simpa [h.text] using hplaced
    | cons u left =>
      obtain ⟨rfl, rfl⟩ := List.cons.inj hsplit
      simpa using h.placed left t right rfl
  note := by
    intro first note htext hnote
    obtain ⟨left, rfl⟩ := h.note first note (by simpa using htext) hnote
    exact ⟨s :: left, rfl⟩

/-! ## No choice -/

/-- A note that starts where the spans start is their only one. -/
theorem Covers.eq_note (h : Covers before rest ss) (hnote : FirstNote before rest) :
    ss = [⟨rest, Palette.ink Palette.comment⟩] := by
  obtain ⟨left, rfl⟩ := h.note before rest rfl hnote
  have hleft : spanChars left = [] := by simpa using h.text
  have hne : ∀ s ∈ left, s.chars ≠ [] := fun s hs => h.chars_ne_nil s (List.mem_append_left _ hs)
  rw [eq_nil_of_spanChars hne hleft, List.nil_append]

theorem Covers.head (h : Covers before rest (s :: ss)) : SpanAt before s (spanChars ss) := by
  simpa using h.placed [] s ss rfl

theorem Covers.tail (h : Covers before rest (s :: ss)) (hnot : ¬NoteAt before rest) :
    Covers (before ++ s.chars) (spanChars ss) ss where
  text := rfl
  chars_ne_nil := (List.forall_mem_cons.1 h.chars_ne_nil).2
  placed := by
    intro left t right hsplit
    simpa using h.placed (s :: left) t right (by rw [hsplit, List.cons_append])
  note := by
    intro first note htext hnote
    rw [List.append_assoc, ← spanChars_cons, h.text] at htext
    obtain ⟨left, hsplit⟩ := h.note first note htext hnote
    cases left with
    | nil =>
      -- The note would be all that is left, and so start here.
      obtain rfl : note = rest := by
        rw [← h.text, hsplit]
        simp
      obtain rfl := List.append_cancel_right htext
      exact absurd hnote.starts hnot
    | cons t left => exact ⟨left, (List.cons.inj hsplit).2⟩

/-- A whole word is the longest one at its place. -/
theorem MaximalRun.takeWhile_eq {run behind : List Char} (h : MaximalRun before run behind) :
    (run ++ behind).takeWhile Text.isWordChar = run := by
  have hbehind : behind.takeWhile Text.isWordChar = [] := by
    cases behind with
    | nil => rfl
    | cons c behind => simp [h.right c rfl]
  rw [List.takeWhile_append_of_pos h.word, hbehind, List.append_nil]

/-- The span of the word or of the other character that a text starts with. -/
def firstSpan (c : Char) (cs : List Char) : Span :=
  let word := (c :: cs).takeWhile Text.isWordChar
  if Text.isWordChar c then ⟨word, wordStyle (String.ofList word)⟩ else ⟨[c], charStyle c⟩

/-- Where no note starts, the text determines its first span. -/
theorem SpanAt.eq_firstSpan {behind cs : List Char} {c : Char} (h : SpanAt before s behind)
    (hne : s.chars ≠ []) (htext : s.chars ++ behind = c :: cs) (hnot : ¬NoteAt before (c :: cs)) :
    s = firstSpan c cs := by
  rw [firstSpan, ← htext]
  cases h with
  | word hrun =>
    obtain ⟨d, ds, rfl⟩ := List.exists_cons_of_ne_nil hne
    obtain ⟨rfl, -⟩ := List.cons.inj htext
    rw [hrun.takeWhile_eq, if_pos (hrun.word d List.mem_cons_self)]
  | other hc =>
    obtain ⟨rfl, -⟩ := List.cons.inj htext
    rw [if_neg (by simp [hc])]
  | note hnote =>
    rw [List.append_nil] at htext
    exact absurd (htext ▸ hnote.starts) hnot

theorem SpanAt.noNoteIn {behind : List Char} (h : SpanAt before s behind)
    (hnone : NoNoteIn before (s.chars ++ behind)) (hnot : ¬NoteAt before (s.chars ++ behind)) :
    NoNoteIn (before ++ s.chars) behind := by
  cases h with
  | word hrun => exact hnone.append hrun.word
  | other => exact hnone.snoc hnot
  | note hnote => exact absurd (by simpa using hnote.starts) hnot

/-- **The rules leave no choice.** -/
theorem Covers.unique {ts : List Span} (hnone : NoNoteIn before rest)
    (h : Covers before rest ss) (h' : Covers before rest ts) : ss = ts := by
  induction ss generalizing before rest ts with
  | nil => exact (eq_nil_of_spanChars h'.chars_ne_nil (h'.text.trans h.text.symm)).symm
  | cons s ss ih =>
    by_cases hnote : NoteAt before rest
    · rw [h.eq_note ⟨hnote, hnone⟩, h'.eq_note ⟨hnote, hnone⟩]
    have htext : s.chars ++ spanChars ss = rest := h.text
    have hne : s.chars ≠ [] := h.chars_ne_nil s List.mem_cons_self
    obtain ⟨c, cs, rfl⟩ : ∃ c cs, rest = c :: cs := by
      refine List.exists_cons_of_ne_nil ?_
      rw [← htext]
      simp [hne]
    cases ts with
    | nil => cases h'.text
    | cons t ts =>
      have htext' : t.chars ++ spanChars ts = c :: cs := h'.text
      -- Both lists start with the same span, so the same text is left behind it.
      obtain rfl : s = t := by
        rw [h.head.eq_firstSpan hne htext hnote,
          h'.head.eq_firstSpan (h'.chars_ne_nil t List.mem_cons_self) htext' hnote]
      have hrest : spanChars ts = spanChars ss :=
        List.append_cancel_left (htext'.trans htext.symm)
      have hnone' : NoNoteIn (before ++ s.chars) (spanChars ss) :=
        h.head.noNoteIn (htext ▸ hnone) (htext ▸ hnote)
      rw [ih hnone' (h.tail hnote) (hrest ▸ h'.tail hnote)]

end

/-! ## Scanning a line -/

section
variable {before rest : List Char} {ss : List Span}

/-- Wherever a pending word ends, it becomes a span, if there is one. -/
theorem Covers.flush {rev : List Char} (hbefore : ∀ c ∈ before.getLast?, Text.isWordChar c = false)
    (hrev : ∀ c ∈ rev, Text.isWordChar c = true)
    (hrest : ∀ c ∈ rest.head?, Text.isWordChar c = false)
    (h : Covers (before ++ rev.reverse) rest ss) :
    Covers before (rev.reverse ++ rest) (wordSpans rev ++ ss) := by
  unfold wordSpans
  split_ifs with hempty
  · obtain rfl := List.isEmpty_iff.1 hempty
    simpa using h
  · have hrun : MaximalRun before rev.reverse rest := ⟨by simpa using hrev, hbefore, hrest⟩
    exact .cons (by simpa using hempty) (.word hrun) h

/-- The spans of the rest of a line, when `before` has its spans and the word `rev` is pending. -/
theorem covers_spansFrom (before rev cs : List Char) (hnone : NoNoteIn (before ++ rev.reverse) cs)
    (hbefore : ∀ c ∈ before.getLast?, Text.isWordChar c = false)
    (hrev : ∀ c ∈ rev, Text.isWordChar c = true) :
    Covers before (rev.reverse ++ cs)
      (spansFrom rev ((before ++ rev.reverse).all Text.isBlank) cs) := by
  induction cs generalizing before rev with
  | nil => simpa [spansFrom] using (Covers.nil hnone).flush hbefore hrev (by simp)
  | cons c cs ih =>
    rw [spansFrom]
    by_cases hnote : NoteAt (before ++ rev.reverse) (c :: cs)
    · rw [if_pos ((startsNote_iff _ _).2 hnote)]
      exact (Covers.ofNote ⟨hnote, hnone⟩).flush hbefore hrev (by simp [hnote.not_isWordChar])
    · have hblank : ((before ++ rev.reverse).all Text.isBlank && Text.isBlank c) =
          (before ++ rev.reverse ++ [c]).all Text.isBlank := by simp [Bool.and_assoc]
      have hnone' : NoNoteIn (before ++ rev.reverse ++ [c]) cs := hnone.snoc hnote
      rw [if_neg (mt (startsNote_iff _ _).1 hnote)]
      dsimp only
      rw [hblank]
      split_ifs with hword
      · -- The character joins the pending word.
        have hpending := ih before (c :: rev) (by simpa using hnone') hbefore
          (List.forall_mem_cons.2 ⟨hword, hrev⟩)
        simpa using hpending
      · have hother : Text.isWordChar c = false := by simpa using hword
        have hbehind := ih (before ++ rev.reverse ++ [c]) [] (by simpa using hnone')
          (by simp [hother]) (by simp)
        rw [List.reverse_nil, List.append_nil, List.nil_append] at hbehind
        have hcons := hbehind.cons (s := ⟨[c], charStyle c⟩) (by simp) (.other hother)
        exact hcons.flush hbefore hrev (by simp [hother])

end

theorem covers_spans (line : String) : Covers [] line.toList (spans line) :=
  covers_spansFrom [] [] line.toList (noNoteIn_nil _) (by simp) (by simp)

/-- **Highlighting never alters the source.** Put together, the spans of a line are the line. None is
empty, and each is a whole word, a single other character or the first note of the line, which takes
all that is left of it. No other spans are like that. -/
theorem covers_iff_eq_spans (line : String) (ss : List Span) :
    Covers [] line.toList ss ↔ ss = spans line := by
  constructor
  · intro h
    exact h.unique (noNoteIn_nil _) (covers_spans line)
  · rintro rfl
    exact covers_spans line

example : (spans "\ta#/é_1 //b#").map Span.chars =
    [['\t'], ['a'], ['#'], ['/'], ['é', '_', '1'], [' '], ['/', '/', 'b', '#']] := by
  decide +kernel

end Highlight

end ShaderInterface
