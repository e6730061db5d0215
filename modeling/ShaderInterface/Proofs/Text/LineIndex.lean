import ShaderInterface.Proofs.Text.Coordinates
import Mathlib.Data.Nat.PSub

/-!
# Places from a table of lines

`LineIndex` keeps the byte offsets at which the lines of a text start, and finds the line of an offset
by binary search. Its arithmetic is checked: `LineIndex.location?` gives nothing where a difference
would be negative or an index outside the table. Neither can happen, for offsets inside a character
as little as for others, and the place is the one that a walk through the text finds
(`LineIndex.location?_eq_locate`).
-/
namespace ShaderInterface

/-! ## Parts of a text by bytes -/

namespace Text

/-- The characters of the first `count` bytes, if no character lies on both sides of their end. -/
def takeBytes? : (count : Nat) → List Char → Option (List Char)
  | 0, _ => some []
  | _ + 1, [] => none
  | count + 1, c :: cs =>
    if c.utf8Size ≤ count + 1 then (takeBytes? (count + 1 - c.utf8Size) cs).map (c :: ·) else none

/-- The characters from the byte `start` to the byte `stop`. -/
def slice? (cs : List Char) (start stop : Nat) : Option (List Char) := do
  let front ← takeBytes? start cs
  let count ← stop.psub start
  takeBytes? count (cs.drop front.length)

theorem takeBytes?_eq_some_iff {count : Nat} {cs chars : List Char} :
    takeBytes? count cs = some chars ↔ chars <+: cs ∧ byteLength chars = count := by
  fun_induction takeBytes? count cs generalizing chars with
  | case1 cs =>
    constructor
    · intro h
      obtain rfl := Option.some.inj h
      exact ⟨List.nil_prefix, rfl⟩
    · rintro ⟨-, hlength⟩
      by_contra hne
      have hpos : 0 < byteLength chars := byteLength_pos fun hnil => hne (by rw [hnil])
      omega
  | case2 count =>
    constructor
    · rintro ⟨⟩
    · rintro ⟨hnil, hlength⟩
      rw [List.prefix_nil.1 hnil] at hlength
      simp at hlength
  | case3 count c cs hfits ih =>
    rw [Option.map_eq_some_iff]
    constructor
    · rintro ⟨tail, htail, rfl⟩
      obtain ⟨hstarts, hlength⟩ := ih.1 htail
      refine ⟨(List.prefix_cons_inj c).2 hstarts, ?_⟩
      rw [byteLength_cons]
      omega
    · rintro ⟨hstarts, hlength⟩
      cases chars with
      | nil => simp at hlength
      | cons d tail =>
        obtain ⟨rfl, htail⟩ := List.cons_prefix_cons.1 hstarts
        rw [byteLength_cons] at hlength
        exact ⟨tail, ih.2 ⟨htail, by omega⟩, rfl⟩
  | case4 count c cs hfits =>
    constructor
    · rintro ⟨⟩
    · rintro ⟨hstarts, hlength⟩
      cases chars with
      | nil => simp at hlength
      | cons d tail =>
        obtain ⟨rfl, -⟩ := List.cons_prefix_cons.1 hstarts
        rw [byteLength_cons] at hlength
        omega

theorem slice?_eq_some_iff {cs chars : List Char} {start stop : Nat} :
    slice? cs start stop = some chars ↔ ∃ front, front ++ chars <+: cs ∧
      byteLength front = start ∧ byteLength (front ++ chars) = stop := by
  simp only [slice?, Option.bind_eq_bind, Option.bind_eq_some_iff, takeBytes?_eq_some_iff,
    Nat.psub_eq_some]
  constructor
  · rintro ⟨front, ⟨⟨rest, rfl⟩, rfl⟩, count, hcount, hchars, rfl⟩
    rw [List.drop_left] at hchars
    refine ⟨front, (List.prefix_append_right_inj front).2 hchars, rfl, ?_⟩
    rw [byteLength_append]
    omega
  · rintro ⟨front, hchars, rfl, rfl⟩
    obtain ⟨rest, rfl⟩ := (List.prefix_append front chars).trans hchars
    refine ⟨front, ⟨List.prefix_append front rest, rfl⟩, byteLength chars, ?_, ?_, rfl⟩
    · rw [byteLength_append, Nat.add_comm]
    · rw [List.drop_left]
      exact (List.prefix_append_right_inj front).1 hchars

end Text

/-! ## The table -/

/-- A text and the byte offsets at which its lines start. -/
structure LineIndex where
  text : String
  starts : Array Nat

namespace LineIndex

/-- The first line starts at the start of the text, every other one behind a newline byte. -/
def ofText (s : String) : LineIndex :=
  ⟨s, (0 :: ((Text.bytes s).zipIdx.filter (·.1 == 10)).map (·.2 + 1)).toArray⟩

/-- Looks for `offset` in the places `lo` to `hi` of the table: the place it stands at, or else the
place that it would have to be put at. -/
def searchFrom (starts : Array Nat) (offset lo hi : Nat) (hhi : hi ≤ starts.size) : Except Nat Nat :=
  if hlo : lo < hi then
    let mid := lo + (hi - lo) / 2
    have hmid : mid < starts.size := by omega
    if starts[mid] = offset then .ok mid
    else if starts[mid] < offset then searchFrom starts offset (mid + 1) hi hhi
    else searchFrom starts offset lo mid hmid.le
  else .error lo
termination_by hi - lo

/-- Looks for `offset` in the whole table. -/
def search (starts : Array Nat) (offset : Nat) : Except Nat Nat :=
  searchFrom starts offset 0 starts.size (Nat.le_refl _)

/-- The number of the line, counted from zero, that `offset` lies on. -/
def line? (starts : Array Nat) (offset : Nat) : Option Nat :=
  match search starts offset with
  | .ok place => some place
  | .error place => place.psub 1

/-- The place of a byte offset, if all differences on the way to it can be taken. The column counts
characters, or bytes if the offset lies inside a character. -/
def location? (index : LineIndex) (offset : Nat) : Option Location := do
  let line ← line? index.starts offset
  let start ← index.starts[line]?
  let stop := min offset index.text.utf8ByteSize
  let bytes ← stop.psub start
  let column := ((Text.slice? index.text.toList start stop).map List.length).getD bytes + 1
  some ⟨offset, line + 1, column⟩

/-! ## Binary search -/

/-- The table is in increasing order, and its first `k` entries are those up to `offset`. -/
structure DividedAt (starts : Array Nat) (offset k : Nat) : Prop where
  sorted : ∀ i j (hj : j < starts.size) (hij : i < j), starts[i] < starts[j]
  below : ∀ i (hi : i < starts.size), i < k → starts[i] ≤ offset
  above : ∀ i (hi : i < starts.size), k ≤ i → offset < starts[i]

/-- The search ends behind the last entry up to `offset`, or finds this entry. -/
theorem DividedAt.searchFrom_cases {starts : Array Nat} {offset k : Nat}
    (h : DividedAt starts offset k) {lo hi : Nat} {hhi : hi ≤ starts.size} (hlok : lo ≤ k)
    (hkhi : k ≤ hi) :
    searchFrom starts offset lo hi hhi = .error k ∨
      ∃ i, k = i + 1 ∧ searchFrom starts offset lo hi hhi = .ok i := by
  -- The first entry above `offset` stays between the two ends.
  fun_induction searchFrom starts offset lo hi hhi with
  | case1 lo hi hhi hlo mid hmid hfound =>
    have hlt : mid < k := by
      by_contra hle
      have habove := h.above mid hmid (by omega)
      omega
    refine .inr ⟨mid, ?_, rfl⟩
    -- An entry behind the found one that is also up to `offset` would be equal to it.
    by_contra hne
    have hnext := h.sorted mid (mid + 1) (by omega) (by omega)
    have hbelow := h.below (mid + 1) (by omega) (by omega)
    omega
  | case2 lo hi hhi hlo mid hmid hne hless ih =>
    refine ih ?_ hkhi
    by_contra hle
    have habove := h.above mid hmid (by omega)
    omega
  | case3 lo hi hhi hlo mid hmid hne hless ih =>
    refine ih hlok ?_
    by_contra hlt
    have hbelow := h.below mid hmid (by omega)
    omega
  | case4 lo hi hhi hlo =>
    obtain rfl : lo = k := by omega
    exact .inl rfl

/-- The line of an offset is the number of the last entry up to it. -/
theorem DividedAt.line?_eq {starts : Array Nat} {offset k : Nat}
    (h : DividedAt starts offset (k + 1)) (hk : k < starts.size) : line? starts offset = some k := by
  have hcases : search starts offset = .error (k + 1) ∨
      ∃ i, k + 1 = i + 1 ∧ search starts offset = .ok i :=
    h.searchFrom_cases (Nat.zero_le _) hk
  rw [line?]
  rcases hcases with herror | ⟨i, hi, hok⟩
  · rw [herror]
    rfl
  · rw [hok, Nat.succ_inj.1 hi]

theorem dividedAt_append {low high : List Nat} {offset : Nat}
    (hsorted : (low ++ high).Pairwise (· < ·)) (hlow : ∀ start ∈ low, start ≤ offset)
    (hhigh : ∀ start ∈ high, offset < start) :
    DividedAt (low ++ high).toArray offset low.length where
  sorted i j hj hij := by
    have hj' : j < (low ++ high).length := by simpa using hj
    simpa using List.pairwise_iff_getElem.1 hsorted i j (hij.trans hj') hj' hij
  below i hi hk := by
    rw [List.getElem_toArray, List.getElem_append_left hk]
    exact hlow _ (List.getElem_mem hk)
  above i hi hk := by
    rw [List.getElem_toArray, List.getElem_append_right hk]
    exact hhigh _ (List.getElem_mem _)

end LineIndex

/-! ## Starts of lines -/

namespace Text

/-- The offsets behind the newlines of a text whose first byte has the offset `start`. -/
def newlineEnds (start : Nat) : List Char → List Nat
  | [] => []
  | c :: cs =>
    (if c = '\n' then [start + c.utf8Size] else []) ++ newlineEnds (start + c.utf8Size) cs

/-- Newlines are found by their bytes. -/
theorem newlineEnds_eq (start : Nat) (cs : List Char) :
    (((cs.flatMap String.utf8EncodeChar).zipIdx start).filter (·.1 == 10)).map (·.2 + 1) =
      newlineEnds start cs := by
  induction cs generalizing start with
  | nil => rfl
  | cons c cs ih =>
    have hfirst : (((String.utf8EncodeChar c).zipIdx start).filter (·.1 == 10)).map (·.2 + 1) =
        if c = '\n' then [start + c.utf8Size] else [] := by
      split_ifs with hc
      · subst hc
        rfl
      · rw [List.map_eq_nil_iff, List.filter_eq_nil_iff]
        intro b hb hten
        have hbyte : b.1 ∈ String.utf8EncodeChar c := List.fst_mem_of_mem_zipIdx hb
        rw [eq_of_beq hten] at hbyte
        exact hc (newline_mem_utf8EncodeChar hbyte)
    rw [List.flatMap_cons, List.zipIdx_append, List.filter_append, List.map_append, hfirst,
      String.length_utf8EncodeChar, ih, newlineEnds]

theorem newlineEnds_append (start : Nat) (cs ds : List Char) :
    newlineEnds start (cs ++ ds) = newlineEnds start cs ++ newlineEnds (start + byteLength cs) ds := by
  induction cs generalizing start with
  | nil => rfl
  | cons c cs ih => simp [newlineEnds, ih, Nat.add_assoc]

theorem length_newlineEnds (start : Nat) (cs : List Char) :
    (newlineEnds start cs).length = cs.count '\n' := by
  induction cs generalizing start with
  | nil => rfl
  | cons c cs ih =>
    by_cases hc : c = '\n'
    · simp [newlineEnds, ih, hc]
    · simp [newlineEnds, ih, hc]

theorem mem_newlineEnds_cons {start place : Nat} {c : Char} {cs : List Char} :
    place ∈ newlineEnds start (c :: cs) ↔
      c = '\n' ∧ place = start + c.utf8Size ∨ place ∈ newlineEnds (start + c.utf8Size) cs := by
  rw [newlineEnds, List.mem_append]
  split_ifs with hc <;> simp [hc]

theorem bounds_of_mem_newlineEnds {start place : Nat} {cs : List Char}
    (h : place ∈ newlineEnds start cs) : start < place ∧ place ≤ start + byteLength cs := by
  induction cs generalizing start with
  | nil => cases h
  | cons c cs ih =>
    have hpos := c.utf8Size_pos
    rw [byteLength_cons]
    rcases mem_newlineEnds_cons.1 h with ⟨-, rfl⟩ | hlater
    · omega
    · have hbounds := ih hlater
      omega

theorem pairwise_newlineEnds (start : Nat) (cs : List Char) :
    (newlineEnds start cs).Pairwise (· < ·) := by
  induction cs generalizing start with
  | nil => exact .nil
  | cons c cs ih =>
    rw [newlineEnds, List.pairwise_append]
    refine ⟨?_, ih _, fun place hplace later hlater => ?_⟩
    · split_ifs <;> simp
    · have hbounds := bounds_of_mem_newlineEnds hlater
      split_ifs at hplace
      · rw [List.mem_singleton.1 hplace]
        exact hbounds.1
      · cases hplace

/-- The last line starts behind the finished ones. -/
theorem getLast?_newlineEnds (cs : List Char) :
    (0 :: newlineEnds 0 cs).getLast? = some (byteLength (finishedLines cs)) := by
  induction cs using List.reverseRecOn with
  | nil => rfl
  | append_singleton cs c ih =>
    rw [newlineEnds_append, Nat.zero_add]
    by_cases hc : c = '\n'
    · subst hc
      rw [finishedLines_newline, byteLength_append]
      simp [newlineEnds, List.getLast?_cons]
    · rw [finishedLines_concat hc, ← ih]
      simp [newlineEnds, hc]

/-- The starts of lines up to an offset are those of the characters before it. -/
theorem Splits.newlineEnds_eq {cs before rest : List Char} {offset : Nat}
    (h : Splits cs offset before rest) :
    newlineEnds 0 cs = newlineEnds 0 before ++ newlineEnds (byteLength before) rest := by
  rw [h.text_eq, newlineEnds_append, Nat.zero_add]

/-- Lines that start behind the characters before an offset start behind the offset. -/
theorem Splits.lt_of_mem_newlineEnds {cs before rest : List Char} {offset place : Nat}
    (h : Splits cs offset before rest) (hplace : place ∈ newlineEnds (byteLength before) rest) :
    offset < place := by
  cases rest with
  | nil => cases hplace
  | cons c rest =>
    have hlt := h.offset_lt c rfl
    rcases mem_newlineEnds_cons.1 hplace with ⟨-, rfl⟩ | hlater
    · exact hlt
    · exact hlt.trans (bounds_of_mem_newlineEnds hlater).1

end Text

namespace LineIndex

/-! ## Places -/

variable {s : String} {before rest : List Char} {offset : Nat}

theorem starts_ofText (h : Text.Splits s.toList offset before rest) :
    (ofText s).starts = ((0 :: Text.newlineEnds 0 before) ++
      Text.newlineEnds (Text.byteLength before) rest).toArray := by
  rw [ofText, Text.bytes_eq, Text.newlineEnds_eq, h.newlineEnds_eq]
  rfl

theorem dividedAt_starts (h : Text.Splits s.toList offset before rest) :
    DividedAt (ofText s).starts offset (before.count '\n' + 1) := by
  have hdivided : DividedAt ((0 :: Text.newlineEnds 0 before) ++
      Text.newlineEnds (Text.byteLength before) rest).toArray offset
      (0 :: Text.newlineEnds 0 before).length := by
    refine dividedAt_append ?_ ?_ fun start => h.lt_of_mem_newlineEnds
    · rw [List.cons_append, ← h.newlineEnds_eq, List.pairwise_cons]
      exact ⟨fun start hstart => (Text.bounds_of_mem_newlineEnds hstart).1,
        Text.pairwise_newlineEnds 0 _⟩
    · intro start hstart
      rcases List.mem_cons.1 hstart with rfl | hstart
      · exact Nat.zero_le _
      · have hbounds := Text.bounds_of_mem_newlineEnds hstart
        have hle := h.le_offset
        omega
  rwa [← starts_ofText h, List.length_cons, Text.length_newlineEnds] at hdivided

/-- The entry of the line of an offset is the start of the last line before it. -/
theorem getElem?_starts (h : Text.Splits s.toList offset before rest) :
    (ofText s).starts[before.count '\n']? =
      some (Text.byteLength (Text.finishedLines before)) := by
  rw [starts_ofText h, ← Text.getLast?_newlineEnds, List.getLast?_eq_getElem?, List.length_cons,
    Nat.add_sub_cancel, Text.length_newlineEnds, List.getElem?_toArray, List.getElem?_append_left]
  simp [Text.length_newlineEnds]

/-- The part of the text between the start of the line and the offset, if the offset does not cut a
character. -/
theorem slice?_lastLine (h : Text.Splits s.toList offset before rest) :
    Text.slice? s.toList (Text.byteLength (Text.finishedLines before)) (Text.byteLength before) =
      some (Text.lastLine before) := by
  refine Text.slice?_eq_some_iff.2 ⟨Text.finishedLines before, ?_, rfl, ?_⟩
  · rw [Text.finishedLines_append_lastLine, h.text_eq]
    exact List.prefix_append before rest
  · rw [Text.finishedLines_append_lastLine]

theorem slice?_of_inside (h : Text.Splits s.toList offset before rest)
    (hne : offset ≠ Text.byteLength before) (start : Nat) :
    Text.slice? s.toList start offset = none := by
  rw [Option.eq_none_iff_forall_ne_some]
  intro chars hchars
  obtain ⟨front, hstarts, -, hlength⟩ := Text.slice?_eq_some_iff.1 hchars
  rw [h.eq_of_prefix hstarts hlength] at hlength
  exact hne hlength.symm

/-- The place of an offset, from the line and the differences that are found for it. -/
theorem location?_of_line {line start stop bytes : Nat} (hline : line? (ofText s).starts offset = some line)
    (hstart : (ofText s).starts[line]? = some start) (hstop : min offset s.utf8ByteSize = stop)
    (hbytes : bytes + start = stop) :
    (ofText s).location? offset =
      some ⟨offset, line + 1, ((Text.slice? s.toList start stop).map List.length).getD bytes + 1⟩ := by
  have htext : (ofText s).text = s := rfl
  simp only [location?, hline, hstart, htext, hstop, Nat.psub_eq_some.2 hbytes, Option.bind_eq_bind,
    Option.bind_some]

/-- No difference on the way to a place is negative, no index outside the table, and the place is the one
that a walk through the text finds. -/
theorem location?_eq_locate (s : String) (offset : Nat) :
    (ofText s).location? offset = some (locate s.toList offset) := by
  obtain ⟨before, rest, h⟩ := Text.exists_splits s.toList offset
  have hstart := getElem?_starts h
  have hline : line? (ofText s).starts offset = some (before.count '\n') :=
    (dividedAt_starts h).line?_eq (Array.getElem?_eq_some_iff.1 hstart).1
  have hle := h.le_offset
  have hlines := Text.byteLength_finishedLines before
  have hsize : s.utf8ByteSize = Text.byteLength before + Text.byteLength rest := by
    rw [← Text.byteLength_toList, h.text_eq, Text.byteLength_append]
  rw [locate_of_splits h]
  by_cases hend : rest = [] ∨ offset = Text.byteLength before
  · -- What is before the offset, or before the end of the text, ends between characters.
    have hstop : min offset s.utf8ByteSize = Text.byteLength before := by
      rcases hend with rfl | hend
      · rw [Text.byteLength_nil] at hsize
        omega
      · omega
    have hbytes : Text.byteLength (Text.lastLine before) +
        Text.byteLength (Text.finishedLines before) = Text.byteLength before := by omega
    rw [location?_of_line hline hstart hstop hbytes, slice?_lastLine h, if_pos hend]
    rfl
  · obtain ⟨hrest, hne⟩ := not_or.1 hend
    obtain ⟨c, behind, rfl⟩ := List.exists_cons_of_ne_nil hrest
    have hlt := h.offset_lt c rfl
    have hstop : min offset s.utf8ByteSize = offset := by
      rw [Text.byteLength_cons] at hsize
      omega
    have hbytes : offset - Text.byteLength (Text.finishedLines before) +
        Text.byteLength (Text.finishedLines before) = offset := by omega
    rw [location?_of_line hline hstart hstop hbytes, slice?_of_inside h hne, if_neg hend]
    rfl

/-- The table of lines gives every offset of every text its place, and the places are the lines and
columns of the offsets. -/
theorem location?_coordinates (s : String) :
    (∀ offset, (ofText s).location? offset = some (locate s.toList offset)) ∧
      Text.Coordinates s (locate s.toList) :=
  ⟨location?_eq_locate s, coordinates_locate s⟩

end LineIndex

end ShaderInterface
