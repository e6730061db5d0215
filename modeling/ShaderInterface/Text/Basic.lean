/-!
# Characters and their bytes

A text is handled as its list of characters. Offsets and lengths that the program reports count
the bytes of the UTF-8 form, so `byteLength` is the measure that ties the two together.
-/
namespace ShaderInterface.Text

/-- Number of bytes in the UTF-8 form of `cs`. -/
def byteLength : List Char → Nat
  | [] => 0
  | c :: cs => c.utf8Size + byteLength cs

@[simp] theorem byteLength_nil : byteLength [] = 0 := rfl

@[simp] theorem byteLength_cons (c : Char) (cs : List Char) :
    byteLength (c :: cs) = c.utf8Size + byteLength cs := rfl

@[simp] theorem byteLength_append (cs ds : List Char) :
    byteLength (cs ++ ds) = byteLength cs + byteLength ds := by
  induction cs with
  | nil => simp
  | cons c cs ih => simp [ih, Nat.add_assoc]

theorem byteLength_pos {cs : List Char} (h : cs ≠ []) : 0 < byteLength cs := by
  obtain ⟨c, cs, rfl⟩ := List.exists_cons_of_ne_nil h
  exact Nat.add_pos_left c.utf8Size_pos _

/-- Of two first parts of a text with equally many bytes, none goes on behind the other. -/
theorem eq_of_prefix_of_byteLength {cs ds text : List Char} (hcs : cs <+: text) (hds : ds <+: text)
    (h : byteLength cs = byteLength ds) : cs = ds := by
  have heq {as bs : List Char} (hstarts : as <+: bs) (hlength : byteLength as = byteLength bs) :
      as = bs := by
    obtain ⟨rest, rfl⟩ := hstarts
    cases rest with
    | nil => simp
    | cons c rest =>
      have hpos := byteLength_pos (List.cons_ne_nil c rest)
      rw [byteLength_append] at hlength
      omega
  rcases List.prefix_or_prefix_of_prefix hcs hds with hshort | hlong
  · exact heq hshort h
  · exact (heq hlong h.symm).symm

/-- The characters of a text have as many bytes as the text. -/
theorem byteLength_toList (s : String) : byteLength s.toList = s.utf8ByteSize := by
  have size_ofList (cs : List Char) : (String.ofList cs).utf8ByteSize = byteLength cs := by
    induction cs with
    | nil => simp
    | cons c cs ih =>
      rw [String.ofList_cons, String.utf8ByteSize_append, ih]
      simp
  rw [← size_ofList, String.ofList_toList]

/-- The decimal text of `n`, filled with blanks on the left up to `width` characters. -/
def decimalRight (width n : Nat) : String :=
  let digits := toString n
  String.ofList (List.replicate (width - digits.length) ' ') ++ digits

/-- `s` filled with blanks on the right up to `width` characters. -/
def padRight (width : Nat) (s : String) : String :=
  s ++ String.ofList (List.replicate (width - s.length) ' ')

end ShaderInterface.Text
