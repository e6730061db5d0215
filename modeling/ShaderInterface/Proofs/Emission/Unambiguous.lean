import ShaderInterface.Proofs.Emission.Semantics

/-!
# Generated text is unambiguous

The text of a kind tells everything that it was written from: two lists of aggregates have the same
text if and only if they agree on all that is written (`emit_eq_emit_iff`). A line is cut at blanks,
which no name and no type has in it, and the lines of an aggregate at the closing brace, which is no
line of a field.
-/
namespace ShaderInterface

/-- Two texts with the same mark are the same if they are so before its first place and behind it. -/
theorem append_cons_inj_of_first {α : Type} {x : α} {s t u v : List α} (hs : x ∉ s) (ht : x ∉ t)
    (h : s ++ x :: u = t ++ x :: v) : s = t ∧ u = v := by
  rcases List.append_eq_append_iff.1 h with ⟨between, rfl, hrest⟩ | ⟨between, rfl, hrest⟩
  all_goals
    cases between with
    | nil => simpa [eq_comm] using hrest
    | cons y between =>
      obtain ⟨rfl, -⟩ : x = y ∧ _ := by simpa using hrest
      simp at hs ht

/-- Lists with the same texts agree position by position on what a text tells. -/
theorem forall₂_of_map_eq {α β : Type} {f : α → β} {P : α → Prop} {R : α → α → Prop}
    (htells : ∀ x y, P x → P y → f x = f y → R x y) {xs ys : List α} (hxs : ∀ x ∈ xs, P x)
    (hys : ∀ y ∈ ys, P y) (h : xs.map f = ys.map f) : List.Forall₂ R xs ys := by
  induction xs generalizing ys with
  | nil =>
    obtain rfl : ys = [] := by simpa [eq_comm] using h
    exact .nil
  | cons x xs ih =>
    cases ys with
    | nil => simp at h
    | cons y ys =>
      obtain ⟨hxy, hrest⟩ := List.cons.inj h
      rw [List.forall_mem_cons] at hxs hys
      exact .cons (htells x y hxs.1 hys.1 hxy) (ih hxs.2 hys.2 hrest)

theorem map_eq_of_forall₂ {α β : Type} {f : α → β} {xs ys : List α}
    (h : List.Forall₂ (fun x y => f x = f y) xs ys) : xs.map f = ys.map f := by
  rwa [← List.forall₂_eq_eq_eq, List.forall₂_map_left_iff, List.forall₂_map_right_iff]

theorem ShaderType.text_injective {t u : ShaderType} (h : t.text = u.text) : t = u := by
  have hname := ofName?_text t
  rw [h, ofName?_text u] at hname
  exact (Option.some.inj hname).symm

theorem Text.toDigits_injective {m n : Nat} (h : Nat.toDigits 10 m = Nat.toDigits 10 n) : m = n := by
  rw [← Nat.ofDigitChars_ten_toDigits (n := m), h, Nat.ofDigitChars_ten_toDigits]

/-! ## Lines -/

namespace Emission

theorem blank_not_mem {name : String} (h : IsIdentifier name) : ' ' ∉ name.toList :=
  fun hmem => h.not_special hmem (by decide)

/-- What stands behind the name of a constant buffer. -/
def bindingChars : Option Nat → List Char
  | none => []
  | some slot => ' ' :: (": register(b".toList ++ Nat.toDigits 10 slot ++ [')'])

theorem toList_titleLine_constantBuffer (a : Aggregate) : (titleLine .constantBuffer a).toList =
    "cbuffer ".toList ++ (a.name.toList ++ bindingChars a.register) := by
  cases hregister : a.register with
  | none =>
    have hline : titleLine .constantBuffer a = "cbuffer " ++ a.name := by
      simp only [titleLine, hregister]
      rfl
    rw [hline, String.toList_append, bindingChars, List.append_nil]
  | some slot =>
    have hline : titleLine .constantBuffer a =
        "cbuffer " ++ a.name ++ " : register(b" ++ toString slot ++ ")" := by
      simp only [titleLine, hregister]
      rfl
    rw [hline]
    simp only [String.toList_append, Nat.toString_eq_repr, Nat.toList_repr, bindingChars,
      List.append_assoc]
    rfl

theorem bindingChars_inj {r r' : Option Nat} {s t : List Char} (hs : ' ' ∉ s) (ht : ' ' ∉ t)
    (h : s ++ bindingChars r = t ++ bindingChars r') : s = t ∧ r = r' := by
  match r, r' with
  | none, none => exact ⟨by simpa [bindingChars] using h, rfl⟩
  | none, some slot =>
    -- The clause would be part of the other name, and it starts with a blank.
    refine absurd ?_ hs
    rw [bindingChars, List.append_nil] at h
    simp [h, bindingChars]
  | some slot, none =>
    refine absurd ?_ ht
    rw [bindingChars, bindingChars, List.append_nil] at h
    simp [← h]
  | some slot, some slot' =>
    obtain ⟨hname, hrest⟩ := append_cons_inj_of_first hs ht h
    have hdigits := List.append_cancel_left (List.append_cancel_right hrest)
    exact ⟨hname, congrArg some (Text.toDigits_injective hdigits)⟩

theorem titleLine_of_ne {kind : Kind} (hkind : kind ≠ .constantBuffer) (a : Aggregate) :
    titleLine kind a = titleLine .structuredBuffer a := by
  cases kind with
  | constantBuffer => exact absurd rfl hkind
  | vertexInput => rfl
  | structuredBuffer => rfl

/-- A title tells the name, and that of a constant buffer the register. -/
theorem titleLine_inj {kind : Kind} {a b : Aggregate} (ha : IsIdentifier a.name)
    (hb : IsIdentifier b.name) (h : titleLine kind a = titleLine kind b) :
    a.name = b.name ∧ (kind = .constantBuffer → a.register = b.register) := by
  by_cases hkind : kind = .constantBuffer
  · subst hkind
    have hchars := congrArg String.toList h
    rw [toList_titleLine_constantBuffer, toList_titleLine_constantBuffer] at hchars
    obtain ⟨hname, hregister⟩ :=
      bindingChars_inj (blank_not_mem ha) (blank_not_mem hb) (List.append_cancel_left hchars)
    exact ⟨String.toList_inj.1 hname, fun _ => hregister⟩
  · rw [titleLine_of_ne hkind, titleLine_of_ne hkind] at h
    have hchars := congrArg String.toList h
    rw [toList_titleLine, toList_titleLine] at hchars
    obtain ⟨-, hname⟩ := List.cons.inj (List.append_cancel_left hchars)
    exact ⟨String.toList_inj.1 hname, fun heq => absurd heq hkind⟩

/-- What stands behind the name of a field. -/
def fieldEnd (kind : Kind) (m : Member) : List Char :=
  match kind with
  | .vertexInput => " : ".toList ++ m.semantic.toList ++ [';']
  | _ => [';']

theorem fieldEnd_vertexInput (m : Member) :
    fieldEnd .vertexInput m = " : ".toList ++ m.semantic.toList ++ [';'] := rfl

theorem toList_memberLine_fieldEnd (kind : Kind) (indent : Nat) (m : Member) :
    (memberLine kind indent m).toList = List.replicate indent ' ' ++
      (m.type.text.toList ++ ' ' :: (m.name.toList ++ fieldEnd kind m)) := by
  cases kind with
  | vertexInput =>
    rw [toList_memberLine_vertexInput, fieldEnd_vertexInput]
    simp only [List.append_assoc, List.cons_append]
  | constantBuffer => exact toList_memberLine indent m
  | structuredBuffer => exact toList_memberLine indent m

theorem fieldEnd_inj {kind : Kind} {m n : Member} (hm : IsIdentifier m.name)
    (hn : IsIdentifier n.name)
    (h : m.name.toList ++ fieldEnd kind m = n.name.toList ++ fieldEnd kind n) :
    m.name = n.name ∧ (kind = .vertexInput → m.semantic = n.semantic) := by
  by_cases hkind : kind = .vertexInput
  · subst hkind
    obtain ⟨hname, hrest⟩ := append_cons_inj_of_first (blank_not_mem hm) (blank_not_mem hn) h
    have hsemantic : ": ".toList ++ (m.semantic.toList ++ [';']) =
        ": ".toList ++ (n.semantic.toList ++ [';']) := hrest
    have hchars := List.append_cancel_right (List.append_cancel_left hsemantic)
    exact ⟨String.toList_inj.1 hname, fun _ => String.toList_inj.1 hchars⟩
  · have hend (m : Member) : fieldEnd kind m = [';'] := by
      cases kind with
      | vertexInput => exact absurd rfl hkind
      | constantBuffer => rfl
      | structuredBuffer => rfl
    rw [hend, hend] at h
    exact ⟨String.toList_inj.1 (List.append_cancel_right h), fun heq => absurd heq hkind⟩

end Emission

/-- The fields are written alike. -/
structure Member.Alike (kind : Kind) (m n : Member) : Prop where
  type : m.type = n.type
  name : m.name = n.name
  semantic : kind = .vertexInput → m.semantic = n.semantic

/-- The aggregates are written alike. A constant buffer shows its register; an element of a structured
buffer shows its register and, with it, its size. -/
structure Aggregate.Alike (kind : Kind) (a b : Aggregate) : Prop where
  name : a.name = b.name
  members : List.Forall₂ (Member.Alike kind) a.members b.members
  register : kind ≠ .vertexInput → a.register = b.register
  size : kind = .structuredBuffer → a.register.isSome → a.size = b.size

namespace Emission

/-- The line of a field tells what is written about it. -/
theorem alike_of_memberLine {kind : Kind} {indent : Nat} {m n : Member} (hm : IsIdentifier m.name)
    (hn : IsIdentifier n.name) (h : memberLine kind indent m = memberLine kind indent n) :
    m.Alike kind n := by
  have hchars := congrArg String.toList h
  rw [toList_memberLine_fieldEnd, toList_memberLine_fieldEnd] at hchars
  obtain ⟨htype, hrest⟩ := append_cons_inj_of_first (blank_not_mem m.type.isIdentifier_text)
    (blank_not_mem n.type.isIdentifier_text) (List.append_cancel_left hchars)
  obtain ⟨hname, hsemantic⟩ := fieldEnd_inj hm hn hrest
  exact ⟨ShaderType.text_injective (String.toList_inj.1 htype), hname, hsemantic⟩

theorem memberLine_of_alike {kind : Kind} (indent : Nat) {m n : Member} (h : m.Alike kind n) :
    memberLine kind indent m = memberLine kind indent n := by
  have hend : fieldEnd kind m = fieldEnd kind n := by
    cases kind with
    | vertexInput => rw [fieldEnd_vertexInput, fieldEnd_vertexInput, h.semantic rfl]
    | constantBuffer => rfl
    | structuredBuffer => rfl
  refine String.toList_inj.1 ?_
  rw [toList_memberLine_fieldEnd, toList_memberLine_fieldEnd, h.type, h.name, hend]

theorem strideLine_inj {slot size slot' size' : Nat}
    (h : strideLine slot size = strideLine slot' size') : slot = slot' ∧ size = size' := by
  have hchars := congrArg String.toList h
  rw [toList_strideLine, toList_strideLine] at hchars
  simp only [List.append_assoc] at hchars
  have hbracket (n : Nat) : ')' ∉ Nat.toDigits 10 n := Text.not_mem_toDigits (by decide) n
  obtain ⟨hslot, hrest⟩ := append_cons_inj_of_first (hbracket slot) (hbracket slot')
    (List.append_cancel_left hchars)
  have hstride : ", stride ".toList ++ Nat.toDigits 10 size =
      ", stride ".toList ++ Nat.toDigits 10 size' := hrest
  exact ⟨Text.toDigits_injective hslot, Text.toDigits_injective (List.append_cancel_left hstride)⟩

/-! ## Blocks -/

/-- Below its title a block opens, and it closes behind the lines of the fields. -/
theorem block_cons (kind : Kind) (indent : Nat) (a : Aggregate) : block kind indent a =
    titleLine kind a :: openLine :: (a.members.map (memberLine kind indent) ++
      closeLine :: strideLines kind a) := by
  simp [block]

/-- A line of a field has a blank in it, which a closing line has not. -/
theorem closing_not_mem (kind : Kind) (indent : Nat) (ms : List Member) :
    closeLine ∉ ms.map (memberLine kind indent) := by
  intro hmem
  obtain ⟨m, -, hline⟩ := List.mem_map.1 hmem
  have hblank : ' ' ∈ (memberLine kind indent m).toList := by
    rw [toList_memberLine_fieldEnd]
    simp
  rw [hline] at hblank
  exact absurd hblank (by decide)

theorem strideLines_of_ne {kind : Kind} (hkind : kind ≠ .structuredBuffer) (a : Aggregate) :
    strideLines kind a = [] := by
  cases kind with
  | structuredBuffer => exact absurd rfl hkind
  | vertexInput => rfl
  | constantBuffer => rfl

theorem strideLine_ne_empty (slot size : Nat) : strideLine slot size ≠ "" := by
  intro h
  have hchars := congrArg String.toList h
  rw [toList_strideLine] at hchars
  simp at hchars

/-- What follows a block: nothing, or an empty line and the other blocks. -/
def following : List (List String) → List String
  | [] => []
  | b :: bs => "" :: joinBlocks (b :: bs)

theorem joinBlocks_cons (b : List String) (bs : List (List String)) :
    joinBlocks (b :: bs) = b ++ following bs := by
  cases bs with
  | nil => simp [joinBlocks, following]
  | cons b' bs => simp [joinBlocks_cons_cons, following]

theorem joinBlocks_of_following : ∀ {bs bs' : List (List String)}, following bs = following bs' →
    joinBlocks bs = joinBlocks bs'
  | [], [], _ => rfl
  | [], _ :: _, h => by cases h
  | _ :: _, [], h => by cases h
  | _ :: _, _ :: _, h => (List.cons.inj h).2

/-- The comment behind a block, if there is one, is no empty line, so it can be told from what follows
the block. -/
theorem strideLines_inj {kind : Kind} {a b : Aggregate} {bs bs' : List (List String)}
    (h : strideLines kind a ++ following bs = strideLines kind b ++ following bs') :
    following bs = following bs' ∧ (kind = .structuredBuffer →
      a.register = b.register ∧ (a.register.isSome → a.size = b.size)) := by
  have hne {slot size : Nat} {rest : List String} (bs : List (List String)) :
      following bs ≠ strideLine slot size :: rest := by
    intro heq
    cases bs with
    | nil => cases heq
    | cons b bs => exact strideLine_ne_empty slot size (List.cons.inj heq).1.symm
  by_cases hkind : kind = .structuredBuffer
  · subst hkind
    rw [strideLines_eq, strideLines_eq] at h
    cases ha : a.register with
    | none =>
      cases hb : b.register with
      | none => simpa [ha, hb] using h
      | some slot => exact absurd (by simpa [ha, hb] using h) (hne bs)
    | some slot =>
      cases hb : b.register with
      | none => exact absurd (by simpa [ha, hb] using h.symm) (hne bs')
      | some slot' =>
        obtain ⟨hline, hrest⟩ : strideLine slot a.size = strideLine slot' b.size ∧
            following bs = following bs' := by
          simpa [ha, hb] using h
        obtain ⟨rfl, hsize⟩ := strideLine_inj hline
        exact ⟨hrest, fun _ => ⟨rfl, fun _ => hsize⟩⟩
  · rw [strideLines_of_ne hkind, strideLines_of_ne hkind] at h
    exact ⟨h, fun heq => absurd heq hkind⟩

/-- A block tells what is written about its aggregate, and where it ends. -/
theorem alike_of_block {kind : Kind} {indent : Nat} {a b : Aggregate} (ha : a.Nameable)
    (hb : b.Nameable) {bs bs' : List (List String)}
    (h : block kind indent a ++ following bs = block kind indent b ++ following bs') :
    a.Alike kind b ∧ following bs = following bs' := by
  rw [block_cons, block_cons] at h
  simp only [List.cons_append, List.append_assoc] at h
  obtain ⟨htitle, hrest⟩ := List.cons.inj h
  -- The first closing line ends the fields of both.
  obtain ⟨hmembers, hrest⟩ := append_cons_inj_of_first (closing_not_mem kind indent a.members)
    (closing_not_mem kind indent b.members) (List.cons.inj hrest).2
  obtain ⟨hname, hbuffer⟩ := titleLine_inj ha.name hb.name htitle
  obtain ⟨hfollowing, helement⟩ := strideLines_inj hrest
  refine ⟨⟨hname, ?_, ?_, fun hkind => (helement hkind).2⟩, hfollowing⟩
  · exact forall₂_of_map_eq (f := memberLine kind indent) (P := fun m => IsIdentifier m.name)
      (fun m n hm hn hline => alike_of_memberLine hm hn hline) ha.member hb.member hmembers
  · intro hkind
    cases kind with
    | vertexInput => exact absurd rfl hkind
    | constantBuffer => exact hbuffer rfl
    | structuredBuffer => exact (helement rfl).1

theorem block_of_alike {kind : Kind} (indent : Nat) {a b : Aggregate} (h : a.Alike kind b) :
    block kind indent a = block kind indent b := by
  have hmembers : a.members.map (memberLine kind indent) = b.members.map (memberLine kind indent) :=
    map_eq_of_forall₂ (h.members.imp fun _ _ => memberLine_of_alike indent)
  have htitle : titleLine kind a = titleLine kind b := by
    cases kind with
    | constantBuffer =>
      refine String.toList_inj.1 ?_
      rw [toList_titleLine_constantBuffer, toList_titleLine_constantBuffer, h.name,
        h.register (by decide)]
    | vertexInput => exact congrArg ("struct " ++ ·) h.name
    | structuredBuffer => exact congrArg ("struct " ++ ·) h.name
  have hstride : strideLines kind a = strideLines kind b := by
    by_cases hkind : kind = .structuredBuffer
    · subst hkind
      rw [strideLines_eq, strideLines_eq, ← h.register (by decide)]
      cases hregister : a.register with
      | none => rfl
      | some slot => rw [h.size rfl (by simp [hregister])]
    · rw [strideLines_of_ne hkind, strideLines_of_ne hkind]
  rw [block_cons, block_cons, htitle, hmembers, hstride]

/-- Blocks one behind the other are the same if their aggregates are written alike. -/
theorem joinBlocks_eq_iff {kind : Kind} {indent : Nat} {as bs : List Aggregate}
    (has : ∀ a ∈ as, a.Nameable) (hbs : ∀ b ∈ bs, b.Nameable) :
    joinBlocks (as.map (block kind indent)) = joinBlocks (bs.map (block kind indent)) ↔
      List.Forall₂ (Aggregate.Alike kind) as bs := by
  constructor
  · intro h
    induction as generalizing bs with
    | nil =>
      cases bs with
      | nil => exact .nil
      | cons b bs => simp [joinBlocks_cons, block_cons, joinBlocks] at h
    | cons a as ih =>
      cases bs with
      | nil => simp [joinBlocks_cons, block_cons, joinBlocks] at h
      | cons b bs =>
        rw [List.forall_mem_cons] at has hbs
        rw [List.map_cons, List.map_cons, joinBlocks_cons, joinBlocks_cons] at h
        obtain ⟨hab, hfollowing⟩ := alike_of_block has.1 hbs.1 h
        exact .cons hab (ih has.2 hbs.2 (joinBlocks_of_following hfollowing))
  · intro h
    rw [map_eq_of_forall₂ (h.imp fun _ _ => block_of_alike indent)]

/-! ## Texts -/

theorem oneLine_titleLine (kind : Kind) {a : Aggregate} (h : IsIdentifier a.name) :
    Text.OneLine (titleLine kind a) := by
  by_cases hkind : kind = .constantBuffer
  · subst hkind
    have hbinding : '\n' ∉ bindingChars a.register ∧ '\r' ∉ bindingChars a.register := by
      cases a.register <;> simp [bindingChars, Text.not_mem_toDigits]
    have hname {c : Char} (hc : c ∈ LexicalRules.headers.specials) : c ∉ a.name.toList :=
      fun hmem => h.not_special hmem hc
    unfold Text.OneLine
    rw [toList_titleLine_constantBuffer]
    simp [hbinding, hname (show '\n' ∈ LexicalRules.headers.specials by decide),
      hname (show '\r' ∈ LexicalRules.headers.specials by decide)]
  · rw [titleLine_of_ne hkind]
    exact ⟨not_mem_titleLine h (by decide) (by decide), not_mem_titleLine h (by decide) (by decide)⟩

theorem oneLine_block_of_kind (kind : Kind) (indent : Nat) {a : Aggregate} (hnames : a.Nameable)
    (hsayable : a.Sayable) : ∀ l ∈ block kind indent a, Text.OneLine l := by
  cases kind with
  | vertexInput => exact oneLine_block_vertexInput indent hnames hsayable
  | structuredBuffer => exact oneLine_block indent hnames
  | constantBuffer =>
    intro l hl
    rw [block_cons, strideLines_of_ne (by decide)] at hl
    rcases List.mem_cons.1 hl with rfl | hl
    · exact oneLine_titleLine _ hnames.name
    · -- The lines below the title are those of an element of a structured buffer.
      have hmember : memberLine .constantBuffer indent = memberLine .structuredBuffer indent := rfl
      refine oneLine_block indent hnames l ?_
      rw [block_cons]
      rw [hmember] at hl
      simp only [List.mem_cons, List.mem_append, List.not_mem_nil, or_false] at hl ⊢
      tauto

end Emission

theorem emit_of_kind {kind : Kind} (options : EmitOptions) {types : List Aggregate}
    (hkind : ∀ a ∈ types, a.kind = kind) : emit kind types options =
      Text.unlines ((if options.header then [Emission.headerLine] else []) ++
        Emission.joinBlocks (types.map (Emission.block kind options.indent))) := by
  have hfilter : types.filter (fun a => a.kind == kind) = types :=
    List.filter_eq_self.2 fun a ha => by simp [hkind a ha]
  rw [emit, hfilter]

/-- The aggregate can be written so that every line of it is one. -/
structure Aggregate.Writable (a : Aggregate) : Prop where
  nameable : a.Nameable
  sayable : a.Sayable

theorem lines_emit {kind : Kind} (options : EmitOptions) {types : List Aggregate}
    (hkind : ∀ a ∈ types, a.kind = kind) (htypes : ∀ a ∈ types, a.Writable) :
    Text.lines (emit kind types options) =
      (if options.header then [Emission.headerLine] else []) ++
        Emission.joinBlocks (types.map (Emission.block kind options.indent)) := by
  rw [emit_of_kind options hkind, Text.lines_unlines]
  refine Emission.oneLine_joinBlocks options ?_
  intro block hblock
  obtain ⟨a, ha, rfl⟩ := List.mem_map.1 hblock
  exact Emission.oneLine_block_of_kind kind options.indent (htypes a ha).nameable (htypes a ha).sayable

/-! ## Headers and their order -/

/-- The name of a struct and those of its fields, in order. -/
def StructDecl.outline (d : StructDecl) : String × List String := (d.name, d.fields.map FieldDecl.name)

/-- The name of an aggregate and those of its fields, in order. -/
def Aggregate.outline (a : Aggregate) : String × List String := (a.name, a.members.map Member.name)

theorem Aggregate.Alike.outline {kind : Kind} {a b : Aggregate} (h : a.Alike kind b) :
    a.outline = b.outline := by
  have hmembers : a.members.map Member.name = b.members.map Member.name :=
    map_eq_of_forall₂ (h.members.imp fun _ _ hm => hm.name)
  rw [Aggregate.outline, Aggregate.outline, h.name, hmembers]

/-- What headers declare for a kind, in order. -/
def declared (kind : Kind) (headers : List (String × Kind)) : List (String × List String) :=
  (headers.filter fun header => header.2 == kind).flatMap fun header =>
    match readHeader header.1 with
    | .ok ds => (structsOf ds).map StructDecl.outline
    | .error _ => []

theorem declared_append (kind : Kind) (headers headers' : List (String × Kind)) :
    declared kind (headers ++ headers') = declared kind headers ++ declared kind headers' := by
  simp [declared]

namespace Catalog

/-- The header is read and added without an error. -/
def Adds (c : Catalog) (header : String × Kind) : Prop :=
  ∃ ds, readHeader header.1 = .ok ds ∧ (c.extend header.2 ds).2 = none

/-- All headers are added without an error, each behind those before it. -/
def AllAdded (headers : List (String × Kind)) : Prop :=
  ∀ before header, before ++ [header] <+: headers → (ofHeaders before).Adds header

theorem outline_of_resolve {c : Catalog} {kind : Kind} {d : StructDecl} {a : Aggregate}
    (h : c.resolve kind d = .ok a) : a.outline = d.outline ∧ a.kind = kind := by
  have hfields := (resolve_declared h).2
  obtain ⟨members, -, rfl⟩ := resolve_eq_ok_iff.1 h
  exact ⟨congrArg (d.name, ·) hfields, rfl⟩

/-- The new entries have the outlines of the structs. -/
theorem Reaches.outlines {kind : Kind} {c mid : Catalog} {ds : List Declaration}
    (h : Reaches kind c ds mid) : ∃ added, mid.entries = c.entries ++ added ∧
      (∀ a ∈ added, a.kind = kind) ∧
      added.map Aggregate.outline = (structsOf ds).map StructDecl.outline := by
  obtain ⟨added, hentries, hadded⟩ := h.entries_eq
  refine ⟨added, hentries, ?_⟩
  clear hentries
  generalize structsOf ds = structs at hadded ⊢
  induction hadded with
  | nil => simp
  | cons hd _ ih =>
    obtain ⟨-, base, -, -, hres⟩ := hd
    obtain ⟨houtline, hkind⟩ := outline_of_resolve hres
    exact ⟨List.forall_mem_cons.2 ⟨hkind, ih.1⟩, by rw [List.map_cons, List.map_cons, houtline, ih.2]⟩

theorem extend_outlines (c : Catalog) (kind : Kind) (ds : List Declaration) :
    ∃ added, (c.extend kind ds).1.entries = c.entries ++ added ∧ (∀ a ∈ added, a.kind = kind) ∧
      added.map Aggregate.outline <+: (structsOf ds).map StructDecl.outline ∧
      ((c.extend kind ds).2 = none →
        added.map Aggregate.outline = (structsOf ds).map StructDecl.outline) := by
  rcases extend_cases kind ds c with
    ⟨mid, hreach, hext⟩ | ⟨before, d, behind, mid, e, rfl, hreach, -, hext⟩
  · obtain ⟨added, hentries, hkind, houtlines⟩ := hreach.outlines
    rw [hext]
    exact ⟨added, hentries, hkind, houtlines ▸ List.prefix_rfl, fun _ => houtlines⟩
  · obtain ⟨added, hentries, hkind, houtlines⟩ := hreach.outlines
    rw [hext]
    refine ⟨added, hentries, hkind, ?_, by simp⟩
    rw [houtlines, structsOf, structsOf, List.filterMap_append, List.map_append]
    exact List.prefix_append _ _

/-- A header adds what it declares, or as much of it as stands before an error. -/
theorem addHeader_outlines (c : Catalog) (header : String × Kind) (kind : Kind) :
    ∃ added, (c.addHeader header).ofKind kind = c.ofKind kind ++ added ∧
      added.map Aggregate.outline <+: declared kind [header] ∧
      (c.Adds header → added.map Aggregate.outline = declared kind [header]) := by
  cases hread : readHeader header.1 with
  | error e =>
    refine ⟨[], by simp [addHeader, hread], List.nil_prefix, ?_⟩
    rintro ⟨ds, hds, -⟩
    rw [hread] at hds
    cases hds
  | ok ds =>
    obtain ⟨added, hentries, hadded, hfront, hall⟩ := extend_outlines c header.2 ds
    have hnew : (c.addHeader header).ofKind kind =
        c.ofKind kind ++ added.filter fun a => a.kind == kind := by
      simp only [addHeader, hread, ofKind, hentries, List.filter_append]
    by_cases hkind : header.2 = kind
    · have hdeclared : declared kind [header] = (structsOf ds).map StructDecl.outline := by
        simp [declared, hkind, hread]
      have hsame : added.filter (fun a => a.kind == kind) = added :=
        List.filter_eq_self.2 fun a ha => by simp [hadded a ha, hkind]
      rw [hnew, hsame, hdeclared]
      refine ⟨added, rfl, hfront, ?_⟩
      rintro ⟨ds', hds', hnone⟩
      obtain rfl : ds = ds' := Except.ok.inj (hread.symm.trans hds')
      exact hall hnone
    · have hdeclared : declared kind [header] = [] := by simp [declared, hkind]
      have hnone : added.filter (fun a => a.kind == kind) = [] :=
        List.filter_eq_nil_iff.2 fun a ha => by simp [hadded a ha, hkind]
      rw [hnew, hnone, hdeclared]
      exact ⟨[], rfl, List.nil_prefix, fun _ => rfl⟩

theorem ofHeaders_append_singleton (headers : List (String × Kind)) (header : String × Kind) :
    ofHeaders (headers ++ [header]) = (ofHeaders headers).addHeader header := by
  simp [ofHeaders]

/-- The entries of a kind stand in the order in which they are declared, and if no header fails they
are all that is declared. -/
theorem outlines_ofHeaders (kind : Kind) (headers : List (String × Kind)) :
    (((ofHeaders headers).ofKind kind).map Aggregate.outline).Sublist (declared kind headers) ∧
    (AllAdded headers →
      ((ofHeaders headers).ofKind kind).map Aggregate.outline = declared kind headers) := by
  induction headers using List.reverseRecOn with
  | nil => exact ⟨List.nil_sublist _, fun _ => rfl⟩
  | append_singleton headers header ih =>
    obtain ⟨added, hnew, hfront, hall⟩ := addHeader_outlines (ofHeaders headers) header kind
    rw [ofHeaders_append_singleton, declared_append, hnew, List.map_append]
    refine ⟨ih.1.append hfront.sublist, ?_⟩
    intro hadded
    have hbefore : AllAdded headers := fun before header' hb =>
      hadded before header' (hb.trans (List.prefix_append _ _))
    rw [ih.2 hbefore, hall (hadded headers header List.prefix_rfl)]

theorem writable_ofHeaders (headers : List (String × Kind)) :
    ∀ a ∈ (ofHeaders headers).entries, a.Writable := by
  refine List.foldlRecOn (motive := fun c => ∀ a ∈ c.entries, a.Writable) headers addHeader ?_ ?_
  · simp [empty]
  · intro c hc header _ a ha
    unfold addHeader at ha
    split at ha
    · exact hc a ha
    · next ds hread =>
      rcases mem_extend ha with ha | ⟨d, base, hd, hres⟩
      · exact hc a ha
      · exact ⟨nameable_of_resolve hread hd hres, sayable_of_resolve hread hd hres⟩

end Catalog

/-- The aggregate is an entry of a catalog that was built from headers. -/
def Aggregate.IsEntry (a : Aggregate) : Prop := ∃ headers, a ∈ (Catalog.ofHeaders headers).entries

theorem Aggregate.IsEntry.writable {a : Aggregate} (h : a.IsEntry) : a.Writable := by
  obtain ⟨headers, ha⟩ := h
  exact Catalog.writable_ofHeaders headers a ha

/-- **Generated text is unambiguous.** Two lists of entries of a kind, of any catalogs, have the same
text if and only if they agree, position by position, on the name, on the type and name of each field
and on what else the kind shows. The lines of the text are the blocks of the entries in order, and
the order is that of the headers: whatever has the text of a catalog has the outlines that the headers
of the catalog declare, in the same order, and all of them if no header failed. -/
theorem emit_eq_emit_iff (kind : Kind) (options : EmitOptions) {as bs : List Aggregate}
    (has : ∀ a ∈ as, a.kind = kind ∧ a.IsEntry) (hbs : ∀ b ∈ bs, b.kind = kind ∧ b.IsEntry) :
    (emit kind as options = emit kind bs options ↔ List.Forall₂ (Aggregate.Alike kind) as bs) ∧
    Text.lines (emit kind as options) =
      (if options.header then [Emission.headerLine] else []) ++
        Emission.joinBlocks (as.map (Emission.block kind options.indent)) ∧
    ∀ headers, bs = (Catalog.ofHeaders headers).ofKind kind →
      emit kind as options = emit kind bs options →
      (as.map Aggregate.outline).Sublist (declared kind headers) ∧
      (Catalog.AllAdded headers → as.map Aggregate.outline = declared kind headers) := by
  have haskind := fun a ha => (has a ha).1
  have hbskind := fun b hb => (hbs b hb).1
  have haswrite := fun a ha => (has a ha).2.writable
  have hbswrite := fun b hb => (hbs b hb).2.writable
  have hlines := lines_emit options haskind haswrite
  have hiff : emit kind as options = emit kind bs options ↔
      List.Forall₂ (Aggregate.Alike kind) as bs := by
    rw [← Emission.joinBlocks_eq_iff (fun a ha => (haswrite a ha).nameable)
      fun b hb => (hbswrite b hb).nameable]
    constructor
    · intro h
      have hboth := congrArg Text.lines h
      rw [hlines, lines_emit options hbskind hbswrite] at hboth
      exact List.append_cancel_left hboth
    · intro h
      rw [emit_of_kind options haskind, emit_of_kind options hbskind, h]
  refine ⟨hiff, hlines, ?_⟩
  rintro headers rfl h
  rw [map_eq_of_forall₂ ((hiff.1 h).imp fun _ _ hab => hab.outline)]
  exact Catalog.outlines_ofHeaders kind headers

/-- An alignment and a namespace do not show in the text, so they may differ; without a register the
size may, too. -/
theorem emit_eq_emit_iff_hidden :
    let headers := [("struct alignas(32) S { XMFLOAT3 p; }; " ++
      "struct T REGISTER(1) { int x; };", Kind.structuredBuffer)]
    let as := (Catalog.ofHeaders [("namespace N { struct S { float3 p; }; }",
      .structuredBuffer), ("struct T REGISTER(1) { INT x; };", .structuredBuffer)]).ofKind
        .structuredBuffer
    let bs := (Catalog.ofHeaders headers).ofKind .structuredBuffer
    as.map (fun a => (a.qualified, a.size)) = [("N::S", 12), ("T", 4)] ∧
    bs.map (fun b => (b.qualified, b.size)) = [("S", 32), ("T", 4)] ∧
    emit .structuredBuffer as ⟨false, 0⟩ = emit .structuredBuffer bs ⟨false, 0⟩ ∧
    List.Forall₂ (Aggregate.Alike .structuredBuffer) as bs ∧
    (as.map Aggregate.outline).Sublist (declared .structuredBuffer headers) := by
  intro headers as bs
  obtain ⟨hsizes, hsizes', htext⟩ :
      as.map (fun a => (a.qualified, a.size)) = [("N::S", 12), ("T", 4)] ∧
      bs.map (fun b => (b.qualified, b.size)) = [("S", 32), ("T", 4)] ∧
      emit .structuredBuffer as ⟨false, 0⟩ = emit .structuredBuffer bs ⟨false, 0⟩ := by
    decide +kernel
  have hentry {headers : List (String × Kind)} {a : Aggregate}
      (ha : a ∈ (Catalog.ofHeaders headers).ofKind .structuredBuffer) :
      a.kind = .structuredBuffer ∧ a.IsEntry := by
    obtain ⟨hmem, hkind⟩ := List.mem_filter.1 ha
    exact ⟨by simpa using hkind, headers, hmem⟩
  have has : ∀ a ∈ as, a.kind = .structuredBuffer ∧ a.IsEntry := fun _ ha => hentry ha
  have hbs : ∀ b ∈ bs, b.kind = .structuredBuffer ∧ b.IsEntry := fun _ hb => hentry hb
  obtain ⟨hiff, -, horder⟩ := emit_eq_emit_iff .structuredBuffer ⟨false, 0⟩ has hbs
  exact ⟨hsizes, hsizes', htext, hiff.1 htext, (horder headers rfl htext).1⟩

end ShaderInterface
