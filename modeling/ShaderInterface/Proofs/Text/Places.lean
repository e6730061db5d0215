import ShaderInterface.Text.Basic
import ShaderInterface.Text.Location
import Mathlib.Tactic

/-!
# Lines and places of longer texts

A place in front of a character is found by walking through the characters before it
(`locate_append`), so its line counts the newlines among them. When a text is moved behind another
one that ends in a newline, its places move by whole lines and keep their columns
(`locate_append_newline`). `Text.lineAt` counts the newline bytes of the UTF-8 form of a text, which
are its newline characters (`Text.lineAt_append`).
-/
namespace ShaderInterface

/-! ## Walking -/

namespace Location

/-- The walk behind the characters `cs`. -/
def Walk.through (w : Walk) (cs : List Char) : Walk := cs.foldl Walk.step w

@[simp] theorem Walk.through_nil (w : Walk) : w.through [] = w := rfl

@[simp] theorem Walk.through_cons (w : Walk) (c : Char) (cs : List Char) :
    w.through (c :: cs) = (w.step c).through cs := rfl

@[simp] theorem Walk.through_append (w : Walk) (cs ds : List Char) :
    w.through (cs ++ ds) = (w.through cs).through ds := List.foldl_append

@[simp] theorem Walk.step_position (w : Walk) (c : Char) :
    (w.step c).position = w.position + c.utf8Size := by
  unfold Walk.step
  split <;> rfl

theorem Walk.through_line (cs : List Char) (w : Walk) :
    (w.through cs).line = w.line + cs.count '\n' := by
  induction cs generalizing w with
  | nil => rfl
  | cons c cs ih =>
    rw [through_cons, ih]
    by_cases hc : c = '\n'
    · simp [Walk.step, hc]
      omega
    · simp [Walk.step, hc]

/-- A column depends on the column before and on the characters since then. -/
theorem Walk.through_column (cs : List Char) {v w : Walk} (h : v.column = w.column) :
    (v.through cs).column = (w.through cs).column := by
  induction cs generalizing v w with
  | nil => exact h
  | cons c cs ih =>
    refine ih ?_
    unfold Walk.step
    split
    · rfl
    · simp [h]

theorem locateFrom_append (before behind : List Char) (w : Walk) :
    locateFrom (w.position + Text.byteLength before) w (before ++ behind) =
      ⟨w.position + Text.byteLength before, (w.through before).line, (w.through before).column⟩ := by
  induction before generalizing w with
  | nil => cases behind <;> simp [locateFrom]
  | cons c before ih =>
    have hpos := c.utf8Size_pos
    have hnext := ih (w.step c)
    rw [Walk.step_position, Nat.add_assoc] at hnext
    rw [List.cons_append, locateFrom, Text.byteLength_cons, if_neg (by omega), if_neg (by omega),
      hnext, Walk.through_cons]

theorem locateFrom_offset (offset : Nat) (w : Walk) (cs : List Char) :
    (locateFrom offset w cs).offset = offset := by
  induction cs generalizing w with
  | nil => rfl
  | cons c cs ih =>
    rw [locateFrom]
    split_ifs
    · rfl
    · rfl
    · exact ih _

/-- The place that lies `bytes` bytes and `lines` lines further on, in the same column. -/
def shift (bytes lines : Nat) (l : Location) : Location :=
  ⟨bytes + l.offset, lines + l.line, l.column⟩

end Location

open Location

@[simp] theorem locate_offset (cs : List Char) (offset : Nat) : (locate cs offset).offset = offset :=
  locateFrom_offset offset .start cs

/-- The place in front of the characters `behind`. -/
theorem locate_append (before behind : List Char) :
    locate (before ++ behind) (Text.byteLength before) =
      ⟨Text.byteLength before, before.count '\n' + 1, (Walk.start.through before).column⟩ := by
  have h := locateFrom_append before behind .start
  simp only [Walk.start, Nat.zero_add, Walk.through_line] at h
  rw [locate, Walk.start, h, Nat.add_comm 1]

/-- Places of a text behind `front` and a newline. -/
theorem locate_append_newline (front before behind : List Char) :
    locate (front ++ '\n' :: (before ++ behind))
        (Text.byteLength front + 1 + Text.byteLength before) =
      (locate (before ++ behind) (Text.byteLength before)).shift (Text.byteLength front + 1)
        (front.count '\n' + 1) := by
  have hlong := locate_append (front ++ '\n' :: before) behind
  have hcolumn : (Walk.start.through (front ++ '\n' :: before)).column =
      (Walk.start.through before).column := by
    rw [Walk.through_append, Walk.through_cons]
    exact Walk.through_column before rfl
  have hbytes : Text.byteLength (front ++ '\n' :: before) =
      Text.byteLength front + 1 + Text.byteLength before := by
    rw [Text.byteLength_append, Text.byteLength_cons, Nat.add_assoc]
    rfl
  rw [hbytes, hcolumn, List.append_assoc, List.cons_append] at hlong
  rw [hlong, locate_append]
  simp [Location.shift]
  omega

/-! ## Newline bytes -/

namespace Text

/-- The bytes of the UTF-8 form of a text. -/
def bytes (s : String) : List UInt8 := s.toByteArray.data.toList

/-- The line that a byte of a text lies on, counted from one: one more than the newline bytes before
it. -/
def lineAt (s : String) (byte : Nat) : Nat := ((bytes s).take byte).count 10 + 1

theorem bytes_eq (s : String) : bytes s = s.toList.flatMap String.utf8EncodeChar := by
  rw [bytes, ← String.utf8Encode_toList]
  simp [List.utf8Encode]

theorem length_flatMap_utf8EncodeChar (cs : List Char) :
    (cs.flatMap String.utf8EncodeChar).length = byteLength cs := by
  induction cs with
  | nil => rfl
  | cons c cs ih => simp [ih]

theorem eq_newline_of_ofNat {n : Nat} (hn : n < 256) (h : 10 = UInt8.ofNat n) : n = 10 := by
  have hnat : UInt8.toNat 10 = n % 256 := by
    rw [h, UInt8.toNat_ofNat']
  rw [Nat.mod_eq_of_lt hn] at hnat
  exact hnat.symm

theorem newline_mem_utf8EncodeChar {c : Char} (h : 10 ∈ String.utf8EncodeChar c) : c = '\n' := by
  refine Char.ext (UInt32.toNat_inj.1 ?_)
  change c.val.toNat = 10
  simp only [String.utf8EncodeChar] at h
  split_ifs at h
  all_goals simp only [List.mem_cons, List.not_mem_nil, or_false] at h
  · exact eq_newline_of_ofNat (by omega) h
  · -- Every byte of a longer form is above all bytes of the shorter ones.
    rcases h with h | h <;> have := eq_newline_of_ofNat (by omega) h <;> omega
  · rcases h with h | h | h <;> have := eq_newline_of_ofNat (by omega) h <;> omega
  · rcases h with h | h | h | h <;> have := eq_newline_of_ofNat (by omega) h <;> omega

/-- A newline has one byte, and no other character has this byte. -/
theorem count_utf8EncodeChar (c : Char) :
    (String.utf8EncodeChar c).count 10 = if c = '\n' then 1 else 0 := by
  split_ifs with hc
  · subst hc
    rfl
  · exact List.count_eq_zero.2 fun h => hc (newline_mem_utf8EncodeChar h)

theorem count_flatMap_utf8EncodeChar (cs : List Char) :
    (cs.flatMap String.utf8EncodeChar).count 10 = cs.count '\n' := by
  induction cs with
  | nil => rfl
  | cons c cs ih =>
    rw [List.flatMap_cons, List.count_append, ih, count_utf8EncodeChar, List.count_cons]
    simp [Nat.add_comm]

/-- The line of the first byte behind `before`. -/
theorem lineAt_append {s : String} {before behind : List Char} (h : s.toList = before ++ behind) :
    lineAt s (byteLength before) = before.count '\n' + 1 := by
  rw [lineAt, bytes_eq, h, List.flatMap_append, ← length_flatMap_utf8EncodeChar, List.take_left,
    count_flatMap_utf8EncodeChar]

end Text

end ShaderInterface
