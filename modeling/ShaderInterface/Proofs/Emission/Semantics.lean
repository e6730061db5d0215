import ShaderInterface.Proofs.Emission.RoundTrip
import Mathlib.Data.List.DropRight

/-!
# Semantics in the text and in the input elements

The semantic of a vertex input field is written into the text as it is, and split into a name and an
index for the input elements. Both tell the same as long as the index stays below `2 ^ 32`; the digits
of a greater number count as no index (`Session.semantics_agree`).
-/
namespace ShaderInterface

/-! ## The digits of an index -/

namespace Integer

/-- Decimal digits by their code points. -/
theorem isDigit_iff {c : Char} : c.isDigit = true ↔ 48 ≤ c.toNat ∧ c.toNat ≤ 57 :=
  Bool.and_eq_true_iff.trans (and_congr decide_eq_true_iff decide_eq_true_iff)

theorem digit?_of_isDigit {c : Char} (h : c.isDigit = true) :
    digit? c = some (c.toNat - '0'.toNat) := by
  have hrange : '0' ≤ c ∧ c ≤ '9' := isDigit_iff.1 h
  rw [digit?, if_pos hrange]

theorem value_lt_of_isDigit {c : Char} (h : c.isDigit = true) : c.toNat - '0'.toNat < 10 := by
  have hrange := (isDigit_iff.1 h).2
  have hzero : '0'.toNat = 48 := rfl
  omega

/-- Decimal digits have a value, which counts every one of them. -/
theorem digitsFrom?_of_isDigit {cs : List Char} (h : ∀ c ∈ cs, c.isDigit = true) (acc : Nat) :
    digitsFrom? 10 acc cs = some (Nat.ofDigitChars 10 cs acc) := by
  induction cs generalizing acc with
  | nil => rfl
  | cons c cs ih =>
    have hc : c.isDigit = true := h c List.mem_cons_self
    have hcs : ∀ d ∈ cs, d.isDigit = true := fun d hd => h d (List.mem_cons_of_mem c hd)
    simp only [digitsFrom?, digit?_of_isDigit hc]
    rw [if_pos (value_lt_of_isDigit hc), ih hcs, Nat.ofDigitChars_cons, Nat.mul_comm]

theorem digits?_of_isDigit {cs : List Char} (h : ∀ c ∈ cs, c.isDigit = true) :
    (digits? 10 cs).getD 0 =
      if Nat.ofDigitChars 10 cs 0 < limit then Nat.ofDigitChars 10 cs 0 else 0 := by
  cases cs with
  | nil => rfl
  | cons c cs =>
    rw [digits?, digitsFrom?_of_isDigit h]
    simp only [Option.filter_some, decide_eq_true_eq]
    split_ifs <;> rfl

end Integer

namespace Semantic

/-- `name` and `digits` make up a semantic: it starts like a name, and the digits are all of those at
its end. -/
structure Parts (name digits : List Char) : Prop where
  start : ∃ c ∈ name.head?, c.isAlpha = true ∨ c = '_'
  isDigit : ∀ c ∈ digits, c.isDigit = true
  last : ∀ c ∈ name.getLast?, c.isDigit = false

/-- The index that digits stand for. -/
def index (digits : List Char) : Nat := Nat.ofDigitChars 10 digits 0

/-- Letters by their code points. -/
theorem isAlpha_iff {c : Char} : c.isAlpha = true ↔
    (65 ≤ c.toNat ∧ c.toNat ≤ 90) ∨ (97 ≤ c.toNat ∧ c.toNat ≤ 122) := by
  have hupper : c.isUpper = true ↔ 65 ≤ c.toNat ∧ c.toNat ≤ 90 := decide_eq_true_iff
  have hlower : c.isLower = true ↔ 97 ≤ c.toNat ∧ c.toNat ≤ 122 :=
    Bool.and_eq_true_iff.trans (and_congr decide_eq_true_iff decide_eq_true_iff)
  exact Bool.or_eq_true_iff.trans (or_congr hupper hlower)

theorem not_isDigit_of_start {c : Char} (h : c.isAlpha = true ∨ c = '_') : c.isDigit = false := by
  rcases h with h | rfl
  · refine Bool.eq_false_iff.2 fun hdigit => ?_
    rw [isAlpha_iff] at h
    rw [Integer.isDigit_iff] at hdigit
    omega
  · rfl

theorem start_of_isUsable {s : String} (h : isUsable s = true) :
    ∃ c cs, s.toList = c :: cs ∧ (c.isAlpha = true ∨ c = '_') := by
  unfold isUsable at h
  split at h
  · cases h
  · next c cs hchars => exact ⟨c, cs, hchars, by simpa using h⟩

/-- A usable semantic is split into its parts; its index is that of the digits if it is below the
limit. -/
theorem split_of_isUsable {s : String} (h : isUsable s = true) : ∃ name digits,
    s.toList = name ++ digits ∧ Parts name digits ∧
      split s = (String.ofList name, if index digits < Integer.limit then index digits else 0) := by
  obtain ⟨c, cs, hchars, hc⟩ := start_of_isUsable h
  generalize hname : s.toList.rdropWhile Char.isDigit = name
  generalize hdigits : indexDigits s.toList = digits
  have happend : s.toList = name ++ digits := by
    rw [← hname, ← hdigits]
    exact List.rdropWhile_append_rtakeWhile.symm
  have hisDigit : ∀ d ∈ digits, d.isDigit = true := by
    intro d hd
    rw [← hdigits] at hd
    exact List.mem_rtakeWhile_imp hd
  refine ⟨name, digits, happend, ⟨?_, hisDigit, ?_⟩, ?_⟩
  · -- The first character is no digit, so it is one of the name.
    cases name with
    | nil =>
      rw [List.nil_append] at happend
      have hmem : c ∈ digits := by simp [← happend, hchars]
      exact absurd (hisDigit c hmem) (by simp [not_isDigit_of_start hc])
    | cons d ds =>
      obtain rfl : c = d := by simpa [hchars] using congrArg List.head? happend
      exact ⟨c, rfl, hc⟩
  · intro d hd
    obtain ⟨hne, rfl⟩ := List.mem_getLast?_eq_getLast hd
    subst hname
    simpa using List.rdropWhile_last_not Char.isDigit s.toList hne
  · have htake : s.toList.take (s.toList.length - digits.length) = name := by
      rw [happend, List.length_append, Nat.add_sub_cancel, List.take_left]
    unfold split
    simp only [hdigits, htake, Integer.digits?_of_isDigit hisDigit]
    rfl

end Semantic

/-! ## Fields of a catalog -/

/-- The semantics of the aggregate can be written: those in markers are names, and those of a vertex
input are usable. -/
structure Aggregate.Sayable (a : Aggregate) : Prop where
  annotation : ∀ m ∈ a.members, ∀ s ∈ m.annotation, IsIdentifier s
  usable : a.kind = .vertexInput → ∀ m ∈ a.members, Semantic.isUsable m.semantic = true

theorem Catalog.sayable_of_resolve {source : String} {ds : List Declaration} {d : StructDecl}
    (hread : readHeader source = .ok ds) (hd : .aggregate d ∈ ds) {c : Catalog} {kind : Kind}
    {a : Aggregate} (h : c.resolve kind d = .ok a) : a.Sayable := by
  have hkind : a.kind = kind := by
    obtain ⟨members, -, rfl⟩ := resolve_eq_ok_iff.1 h
    rfl
  constructor
  · intro m hm s hs
    obtain ⟨f, hf, m', p, hres, rfl⟩ := field_of_resolve h hm
    obtain ⟨_, _, -, -, rfl, -⟩ := FieldDecl.resolve_cases hres
    obtain ⟨location, hat⟩ := identifierAt_semantic hread hd hf hs
    exact hat.isIdentifier
  · intro hvertex m hm
    obtain ⟨f, hf, m', p, hres, rfl⟩ := field_of_resolve h hm
    obtain ⟨_, _, -, -, -, husable⟩ := FieldDecl.resolve_cases hres
    exact husable (hkind.symm.trans hvertex)

theorem Session.sayable_after {options : EmitOptions} {actions : List Action} {c : Catalog}
    (hc : (after options actions).catalog? = some c) : ∀ a ∈ c.entries, a.Sayable := by
  refine catalog_induction (P := fun c => ∀ a ∈ c.entries, a.Sayable) (by simp [Catalog.empty]) ?_ hc
  intro source kind c ds c' _ ih hread hext a ha
  have hc' : (c.extend kind ds).1 = c' := by rw [hext]
  rw [← hc'] at ha
  rcases Catalog.mem_extend ha with ha | ⟨d, base, hd, hres⟩
  · exact ih a ha
  · exact Catalog.sayable_of_resolve hread hd hres

/-! ## Lines of vertex inputs -/

theorem Semantic.isAlphanum_toUpper {c : Char} (h : c.isAlphanum = true) :
    c.toUpper.isAlphanum = true := by
  by_cases hsmall : 'a'.val ≤ c.val ∧ c.val ≤ 'z'.val
  · -- The capital of a small letter lies 32 characters before it.
    have hupper : c.toUpper.val = c.val + ('A'.val - 'a'.val) := by
      unfold Char.toUpper
      rw [dif_pos hsmall]
    have hrange : 97 ≤ c.toNat ∧ c.toNat ≤ 122 := hsmall
    have hval : c.toUpper.toNat = (c.toNat + 4294967264) % 2 ^ 32 := by
      rw [← Char.toNat_val, hupper, UInt32.toNat_add]
      rfl
    have hletter : c.toUpper.isAlpha = true := isAlpha_iff.2 (by omega)
    exact Bool.or_eq_true_iff.2 (.inl hletter)
  · have hsame : c.toUpper = c := by
      unfold Char.toUpper
      exact dif_neg hsmall
    rw [hsame, h]

/-- A derived semantic has letters and digits only. -/
theorem Semantic.not_mem_derive {c : Char} (h : c.isAlphanum = false) (name : String) :
    c ∉ (derive name).toList := by
  intro hmem
  simp only [derive, String.toList_ofList, List.mem_map, List.mem_filter] at hmem
  obtain ⟨d, ⟨-, hd⟩, rfl⟩ := hmem
  rw [isAlphanum_toUpper hd] at h
  cases h

theorem Member.not_mem_semantic {m : Member} (h : ∀ s ∈ m.annotation, IsIdentifier s) {c : Char}
    (hc : c ∈ LexicalRules.headers.specials) (hother : c.isAlphanum = false) :
    c ∉ m.semantic.toList := by
  unfold Member.semantic
  cases hannotation : m.annotation with
  | none => exact Semantic.not_mem_derive hother m.name
  | some s => exact fun hmem => (h s hannotation).not_special hmem hc

namespace Emission

theorem toList_memberLine_vertexInput (indent : Nat) (m : Member) :
    (memberLine .vertexInput indent m).toList =
      List.replicate indent ' ' ++ (m.type.text.toList ++ ' ' :: m.name.toList) ++ " : ".toList ++
        m.semantic.toList ++ [';'] := by
  have hline : memberLine .vertexInput indent m =
      String.ofList (List.replicate indent ' ') ++ (m.type.text ++ " " ++ m.name) ++
        (" : " ++ m.semantic ++ ";") := rfl
  rw [hline]
  simp

theorem block_vertexInput (indent : Nat) (a : Aggregate) : block .vertexInput indent a =
    ("struct " ++ a.name) :: openLine :: a.members.map (memberLine .vertexInput indent) ++
      [closeLine] := by
  have htitle : titleLine .vertexInput a = "struct " ++ a.name := rfl
  have hstride : strideLines .vertexInput a = [] := rfl
  simp [block, htitle, hstride]

theorem oneLine_block_vertexInput (indent : Nat) {a : Aggregate} (hnames : a.Nameable)
    (hsayable : a.Sayable) : ∀ l ∈ block .vertexInput indent a, Text.OneLine l := by
  have htitle {c : Char} (hc : c ∈ LexicalRules.headers.specials) (hblank : c ≠ ' ') :
      c ∉ ("struct " ++ a.name).toList := not_mem_titleLine hnames.name hc hblank
  have hmember {m : Member} (hm : m ∈ a.members) {c : Char}
      (hc : c ∈ LexicalRules.headers.specials) (hother : c.isAlphanum = false)
      (hpunctuation : c ∉ [' ', ':', ';']) : c ∉ (memberLine .vertexInput indent m).toList := by
    have hfield := not_mem_field indent (hnames.member m hm) hc fun h => hpunctuation (by simp [h])
    have hsemantic := Member.not_mem_semantic (hsayable.annotation m hm) hc hother
    rw [toList_memberLine_vertexInput, List.mem_append, List.mem_append, List.mem_append]
    rintro (((hmem | hmem) | hmem) | hmem)
    · exact hfield hmem
    · have hcases : c = ' ' ∨ c = ':' := by simpa [or_comm] using hmem
      exact hpunctuation (by rcases hcases with rfl | rfl <;> simp)
    · exact hsemantic hmem
    · exact hpunctuation (by simp [List.mem_singleton.1 hmem])
  intro l hl
  simp only [block_vertexInput, List.mem_append, List.mem_cons, List.mem_map, List.not_mem_nil,
    or_false] at hl
  rcases hl with (rfl | rfl | ⟨m, hm, rfl⟩) | rfl
  · exact ⟨htitle (by decide) (by decide), htitle (by decide) (by decide)⟩
  · exact ⟨by decide, by decide⟩
  · exact ⟨hmember hm (by decide) (by decide) (by decide),
      hmember hm (by decide) (by decide) (by decide)⟩
  · exact ⟨by decide, by decide⟩

theorem infix_joinBlocks {b : List String} : ∀ {bs : List (List String)}, b ∈ bs →
    b <:+: joinBlocks bs
  | [b'], h => by simp [joinBlocks, List.mem_singleton.1 h]
  | b' :: b'' :: bs, h => by
    rw [joinBlocks_cons_cons]
    rcases List.mem_cons.1 h with rfl | h
    · exact ⟨[], [""] ++ joinBlocks (b'' :: bs), by simp⟩
    · exact (infix_joinBlocks h).trans (List.suffix_append _ _).isInfix

end Emission

/-! ## Elements of fields -/

/-- The line of a field in the text and the elements of the field name one semantic, whose parts are
`name` and `digits`. The elements are counted up from the index, if it is below the limit; otherwise
from zero. -/
structure Member.Agrees (m : Member) (line : String) (elements : List InputElement)
    (name digits : List Char) : Prop where
  line : ∃ front, line.toList = front ++ " : ".toList ++ (name ++ digits) ++ [';'] ∧ ':' ∉ front ∧
    m.name.toList <:+ front
  parts : Semantic.Parts name digits
  rows : elements.length = max m.type.rows 1
  named : ∀ e ∈ elements, e.semanticName = String.ofList name
  counted : ∀ r e, elements[r]? = some e → Semantic.index digits + r < 2 ^ 32 →
    InputElement.semanticIndex e = Semantic.index digits + r
  restarted : 2 ^ 32 ≤ Semantic.index digits →
    ∀ r e, elements[r]? = some e → InputElement.semanticIndex e = r

theorem Member.agrees_rows {m : Member} (hname : IsIdentifier m.name)
    (husable : Semantic.isUsable m.semantic = true) (indent offset : Nat) :
    ∃ name digits, m.Agrees (Emission.memberLine .vertexInput indent m) (InputLayout.rows m offset)
      name digits := by
  obtain ⟨name, digits, hchars, hparts, hsplit⟩ := Semantic.split_of_isUsable husable
  have hlimit : Integer.limit = 2 ^ 32 := rfl
  have hget {r : Nat} {e : InputElement} (h : (InputLayout.rows m offset)[r]? = some e) :
      e.semanticName = String.ofList name ∧ e.semanticIndex =
        (if Semantic.index digits < 2 ^ 32 then Semantic.index digits else 0) + r := by
    simp only [InputLayout.rows, hsplit, List.getElem?_map, Option.map_eq_some_iff] at h
    obtain ⟨row, hrow, rfl⟩ := h
    obtain ⟨-, rfl⟩ := List.getElem?_eq_some_iff.1 hrow
    simp [hlimit]
  refine ⟨name, digits, ⟨?_, hparts, ?_, ?_, ?_, ?_⟩⟩
  · refine ⟨List.replicate indent ' ' ++ (m.type.text.toList ++ ' ' :: m.name.toList), ?_, ?_, ?_⟩
    · rw [Emission.toList_memberLine_vertexInput, hchars]
    · exact Emission.not_mem_field indent hname (by decide) (by decide)
    · exact ⟨List.replicate indent ' ' ++ (m.type.text.toList ++ [' ']), by simp⟩
  · cases hrows : m.type <;> simp [InputLayout.rows, hrows, ShaderType.rows]
  · intro e he
    obtain ⟨r, hr⟩ := List.mem_iff_getElem?.1 he
    exact (hget hr).1
  · intro r e he hlt
    rw [(hget he).2, if_pos (by omega)]
  · intro hle r e he
    rw [(hget he).2, if_neg (by omega), Nat.zero_add]

/-- The lines of fields and their elements, side by side. -/
theorem Member.agrees_all (indent : Nat) {ms : List Member} (hnames : ∀ m ∈ ms, IsIdentifier m.name)
    (husable : ∀ m ∈ ms, Semantic.isUsable m.semantic = true) (free : Nat → Nat) :
    ∃ shown : List (String × List InputElement),
      shown.map Prod.fst = ms.map (Emission.memberLine .vertexInput indent) ∧
      shown.map Prod.snd = List.zipWith InputLayout.rows ms (InputLayout.offsets free ms) ∧
      List.Forall₂ (fun m p => ∃ name digits, Member.Agrees m p.1 p.2 name digits) ms shown := by
  induction ms generalizing free with
  | nil => exact ⟨[], rfl, rfl, .nil⟩
  | cons m ms ih =>
    have hname := hnames m List.mem_cons_self
    have hsemantic := husable m List.mem_cons_self
    let offset := Layout.start .vertexInput (free m.slot) m.extent
    obtain ⟨shown, hlines, hrows, hagree⟩ := ih (fun n hn => hnames n (List.mem_cons_of_mem m hn))
      (fun n hn => husable n (List.mem_cons_of_mem m hn)) _
    refine ⟨(Emission.memberLine .vertexInput indent m, InputLayout.rows m offset) :: shown, ?_, ?_,
      .cons (agrees_rows hname hsemantic indent offset) hagree⟩
    · rw [List.map_cons, List.map_cons, hlines]
    · rw [List.map_cons, hrows]
      rfl

/-! ## Sessions -/

namespace Session

theorem generate_vertexInput {options : EmitOptions} {actions : List Action} {c : Catalog}
    (hc : (after options actions).catalog? = some c) :
    ((after options actions).generate .vertexInput).2 =
      .ok (emit .vertexInput (c.ofKind .vertexInput) options) := by
  have hcoherent : Coherent options (after options actions) :=
    after_induction (coherent_new options) fun s a _ hs => hs.perform a
  rw [hcoherent.generate_eq_fresh, fresh_of_catalog hc, hcoherent.options_eq]
  rfl

theorem infix_lines_emit {options : EmitOptions} {actions : List Action} {c : Catalog}
    (hc : (after options actions).catalog? = some c) {a : Aggregate}
    (ha : a ∈ c.ofKind .vertexInput) : Emission.block .vertexInput options.indent a <:+:
      Text.lines (emit .vertexInput (c.ofKind .vertexInput) options) := by
  have hentries := (entries_after hc).2
  have hsayable := sayable_after hc
  have htypes : (c.ofKind .vertexInput).filter (fun b => b.kind == .vertexInput) =
      c.ofKind .vertexInput := by
    simp [Catalog.ofKind]
  rw [emit, htypes, Text.lines_unlines]
  · have hblock := Emission.infix_joinBlocks
      (List.mem_map_of_mem (f := Emission.block .vertexInput options.indent) ha)
    exact hblock.trans (List.suffix_append _ _).isInfix
  · refine Emission.oneLine_joinBlocks options ?_
    intro block hblock
    obtain ⟨b, hb, rfl⟩ := List.mem_map.1 hblock
    have hmem : b ∈ c.entries := List.mem_of_mem_filter hb
    exact Emission.oneLine_block_vertexInput options.indent (hentries b hmem).1 (hsayable b hmem)

theorem inputElements_of_mem {s : Session} {c : Catalog} (hc : s.catalog? = some c) (hkept : c.Kept)
    {a : Aggregate} (ha : a ∈ c.ofKind .vertexInput) :
    s.inputElements a.name = .ok (some a.inputElements) := by
  obtain ⟨hmem, hkind⟩ : a ∈ c.entries ∧ a.kind = .vertexInput := by
    simpa [Catalog.ofKind] using ha
  have hfind : c.find? a.name = some a := hkept.find?_eq_some_iff.2 ⟨hmem, .inl rfl⟩
  simp [inputElements, catalog, hc, Except.map, hfind, hkind]

/-- **The text and the input elements name the same semantics.** For every vertex input of every
session the text can be generated. The lines of its block and the elements of its fields go together,
line by line: the semantic on the line is a name with digits behind it, and the elements of the field
have this name and are counted up from the number that the digits spell. From `2 ^ 32` on that number
is lost, and the elements are counted from zero. -/
theorem semantics_agree {options : EmitOptions} {actions : List Action} {c : Catalog}
    (hc : (after options actions).catalog? = some c) {a : Aggregate}
    (ha : a ∈ c.ofKind .vertexInput) :
    ∃ text before behind, ∃ shown : List (String × List InputElement),
      ((after options actions).generate .vertexInput).2 = .ok text ∧
      Text.lines text = before ++ ("struct " ++ a.name) :: Emission.openLine :: shown.map Prod.fst ++
        Emission.closeLine :: behind ∧
      (after options actions).inputElements a.name = .ok (some (shown.flatMap Prod.snd)) ∧
      List.Forall₂ (fun m p => ∃ name digits, Member.Agrees m p.1 p.2 name digits) a.members
        shown := by
  obtain ⟨hmem, hkind⟩ := List.mem_filter.1 ha
  obtain ⟨hkept, hentries⟩ := entries_after hc
  have husable := (sayable_after hc a hmem).usable (by simpa using hkind)
  obtain ⟨shown, hlines, helements, hagree⟩ :=
    Member.agrees_all options.indent (hentries a hmem).1.member husable fun _ => 0
  obtain ⟨before, behind, hinfix⟩ := infix_lines_emit hc ha
  refine ⟨_, before, behind, shown, generate_vertexInput hc, ?_, ?_, hagree⟩
  · rw [← hinfix, Emission.block_vertexInput, hlines]
    simp
  · rw [inputElements_of_mem hc hkept ha, Aggregate.inputElements, ← helements, List.flatMap_def]

/-- A matrix whose rows count up, and an index that is lost. -/
theorem semantics_agree_matrix :
    let s := after ⟨false, 2⟩ [.append
      "struct V { matrix w SEMANTIC(W7); float p SEMANTIC(UV4294967296); };" .vertexInput]
    let text := Text.unlines ["struct V", Emission.openLine, "  float4x4 w : W7;",
      "  float p : UV4294967296;", Emission.closeLine]
    (s.generate .vertexInput).2 = .ok text ∧
    (s.inputElements "V").map (Option.map (List.map fun e => (e.semanticName, e.semanticIndex))) =
      .ok (some [("W", 7), ("W", 8), ("W", 9), ("W", 10), ("UV", 0)]) ∧
    ∃ a before behind, ∃ shown : List (String × List InputElement), s.find? "V" = some a ∧
      Text.lines text = before ++ ("struct " ++ a.name) :: Emission.openLine :: shown.map Prod.fst ++
        Emission.closeLine :: behind ∧
      s.inputElements "V" = .ok (some (shown.flatMap Prod.snd)) ∧
      List.Forall₂ (fun m p => ∃ name digits, Member.Agrees m p.1 p.2 name digits) a.members
        shown := by
  intro s text
  obtain ⟨htext, hindices, hname, htypes⟩ :
      (s.generate .vertexInput).2 = .ok text ∧
      (s.inputElements "V").map (Option.map (List.map fun e => (e.semanticName, e.semanticIndex))) =
        .ok (some [("W", 7), ("W", 8), ("W", 9), ("W", 10), ("UV", 0)]) ∧
      (s.find? "V").map Aggregate.name = some "V" ∧
      (s.catalog?.map fun c => (c.ofKind .vertexInput).head?) = some (s.find? "V") := by
    decide +kernel
  obtain ⟨a, hfind, haname⟩ := Option.map_eq_some_iff.1 hname
  obtain ⟨c, hc, hhead⟩ := Option.map_eq_some_iff.1 htypes
  have ha : a ∈ c.ofKind .vertexInput := List.mem_of_mem_head? (hhead.trans hfind)
  obtain ⟨text', before, behind, shown, htext', hlines, helements, hagree⟩ := semantics_agree hc ha
  obtain rfl : text = text' := Except.ok.inj (htext.symm.trans htext')
  exact ⟨htext, hindices, a, before, behind, shown, hfind, hlines, haname ▸ helements, hagree⟩

end Session

end ShaderInterface
