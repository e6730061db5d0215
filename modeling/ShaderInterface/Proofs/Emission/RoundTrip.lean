import ShaderInterface.Proofs.Catalog.Names
import ShaderInterface.Proofs.Emission.Reading
import ShaderInterface.Proofs.Layout.Aggregates
import ShaderInterface.Proofs.Session.Coherence

/-!
# Reading back the text of structured buffers

The text of the structured buffers of a session can be parsed. The catalog of the text has the same
types, with the same fields at the same offsets, and its own text is the first one without the
comments on registers (`Session.restates_of_generate`).
-/
namespace ShaderInterface

/-! ## The same type again -/

/-- `b` is `a` again: a type of the same name with the same fields in the same places. The type of a
field also gives its size, alignment, format and rows. The size of `b` is that of `a` unless `a` asks
for an alignment. -/
structure Aggregate.Restates (a b : Aggregate) : Prop where
  kind : b.kind = a.kind
  name : b.name = a.name
  members : b.members.map (fun m => (m.name, m.type, m.placement)) =
    a.members.map fun m => (m.name, m.type, m.placement)
  size : a.alignment = none → b.size = a.size

/-- A type with the same names and types of fields, both laid out, is the same type again. -/
theorem Aggregate.LaidOut.restates {a b : Aggregate} (ha : a.LaidOut) (hb : b.LaidOut)
    (hkind : b.kind = a.kind) (hname : b.name = a.name)
    (hmembers : b.members.map (fun m => (m.name, m.type)) = a.members.map fun m => (m.name, m.type))
    (halign : b.alignment = none) : a.Restates b := by
  have hextents : b.members.map Member.extent = a.members.map Member.extent := by
    have hmapped := congrArg (List.map fun p : String × ShaderType => Extent.mk p.2.size p.2.align)
      hmembers
    rw [List.map_map, List.map_map] at hmapped
    exact hmapped
  have hplacements : b.members.map Member.placement = a.members.map Member.placement := by
    rw [ha.placements, hb.placements, hkind, hextents]
  refine ⟨hkind, hname, ?_, ?_⟩
  · have htriple (ms : List Member) : ms.map (fun m => (m.name, m.type, m.placement)) =
        List.zipWith (fun p q => (p.1, p.2, q)) (ms.map fun m => (m.name, m.type))
          (ms.map Member.placement) := by
      simp [List.zipWith_map, List.zipWith_self]
    rw [htriple, htriple, hmembers, hplacements]
  · intro hnone
    rw [ha.size, hb.size, hkind, hextents, halign, hnone]

/-! ## Entries of a session -/

theorem IdentifierAt.isIdentifier {source name : String} {location : Location}
    (h : IdentifierAt source name location) : IsIdentifier name :=
  ⟨h.isName, h.not_keyword⟩

theorem Aggregate.Nameable.colon_not_mem {a : Aggregate} (h : a.Nameable) : ':' ∉ a.name.toList :=
  fun hcolon => h.name.not_special hcolon (by decide)

theorem Catalog.nameable_of_resolve {source : String} {ds : List Declaration} {d : StructDecl}
    (hread : readHeader source = .ok ds) (hd : .aggregate d ∈ ds) {c : Catalog} {kind : Kind}
    {a : Aggregate} (h : c.resolve kind d = .ok a) : a.Nameable := by
  obtain ⟨hname, hfields⟩ := identifierAt_of_readHeader hread hd
  refine ⟨(resolve_eq_ok_iff.1 h).elim fun _ hres => hres.2 ▸ hname.isIdentifier, ?_⟩
  intro m hm
  obtain ⟨f, hf, m', p, hres, rfl⟩ := field_of_resolve h hm
  obtain ⟨_, _, -, -, rfl, -⟩ := FieldDecl.resolve_cases hres
  exact (hfields f hf).isIdentifier

/-- A structured buffer that can be read back. -/
structure Aggregate.Restatable (a : Aggregate) : Prop where
  kind : a.kind = .structuredBuffer
  nameable : a.Nameable
  laidOut : a.LaidOut

/-- Entries of a session have readable names, each its own, and are laid out. -/
theorem Session.entries_after {options : EmitOptions} {actions : List Action} {c : Catalog}
    (hc : (after options actions).catalog? = some c) :
    c.Kept ∧ ∀ a ∈ c.entries, a.Nameable ∧ a.LaidOut := by
  refine catalog_induction (P := fun c => c.Kept ∧ ∀ a ∈ c.entries, a.Nameable ∧ a.LaidOut)
    ⟨Catalog.kept_empty, by simp [Catalog.empty]⟩ ?_ hc
  intro source kind c ds c' _ ih hread hext
  have hc' : (c.extend kind ds).1 = c' := by rw [hext]
  refine ⟨hc' ▸ ih.1.extend fun d hd => Catalog.colon_not_mem_name hread hd, ?_⟩
  intro a ha
  rw [← hc'] at ha
  rcases Catalog.mem_extend ha with ha | ⟨d, base, hd, hres⟩
  · exact ih.2 a ha
  · exact ⟨Catalog.nameable_of_resolve hread hd hres, Catalog.laidOut_of_resolve hres⟩

/-! ## The catalog of the text -/

theorem FieldDecl.Spells.resolve? {f : FieldDecl} {m : Member} (h : f.Spells m) :
    AliasTable.empty.resolve? f.type = some m.type.text := by
  have hqualified : f.type.qualified = m.type.text := by rw [TypeName.qualified, h.type, joinPath]
  have hnone (spelling : String) : AliasTable.empty.get? spelling = none := rfl
  simp [AliasTable.resolve?, hnone, hqualified, ShaderType.ofName?_text]

theorem FieldDecl.Spells.resolve {f : FieldDecl} {m : Member} (h : f.Spells m) (aggregate : String) :
    ∃ found, f.resolve .empty .structuredBuffer aggregate = .ok found ∧
      (found.name, found.type) = (m.name, m.type) := by
  simp only [FieldDecl.resolve, h.resolve?, ShaderType.ofName?_text]
  exact ⟨_, if_neg (by simp), by rw [h.name]⟩

/-- Fields that spell members resolve to members with the same names and types. -/
theorem resolveFields_of_spells {fs : List FieldDecl} {ms : List Member}
    (h : List.Forall₂ FieldDecl.Spells fs ms) (aggregate : String) :
    ∃ found, resolveFields .empty .structuredBuffer aggregate fs = .ok found ∧
      found.map (fun m => (m.name, m.type)) = ms.map fun m => (m.name, m.type) := by
  induction h with
  | nil => exact ⟨[], rfl, rfl⟩
  | @cons f m fs ms hf _ ih =>
    obtain ⟨m', hm', hsame⟩ := hf.resolve aggregate
    obtain ⟨found, hfound, hrest⟩ := ih
    refine ⟨m' :: found, by simp [resolveFields, hm', hfound], ?_⟩
    rw [List.map_cons, List.map_cons, hsame, hrest]

namespace Catalog

/-- Adding a struct that spells an aggregate adds the same type. -/
theorem declare_of_spells {c : Catalog} (hkept : c.Kept) (haliases : c.aliases = .empty)
    {d : StructDecl} {a : Aggregate} (hd : d.Spells a) (ha : a.Restatable)
    (hnew : a.name ∉ c.entries.map Aggregate.name) :
    ∃ b, c.declare .structuredBuffer (.aggregate d) = .ok (c.push b) ∧ a.Restates b ∧
      b.register = none := by
  obtain ⟨members, hmembers, hsame⟩ := resolveFields_of_spells hd.fields d.name
  rw [← haliases] at hmembers
  generalize hb : c.aggregateOf .structuredBuffer d members = b
  have hres : c.resolve .structuredBuffer d = .ok b :=
    resolve_eq_ok_iff.2 ⟨members, hmembers, hb.symm⟩
  have hname : b.name = a.name := hb ▸ hd.name
  have hfree : c.find? b.name = none := by
    rw [hname]
    exact hkept.find?_eq_none ha.nameable.colon_not_mem hnew
  refine ⟨b, by simp [Catalog.declare, hres, insert_of_find?_none hfree], ?_, hb ▸ hd.register⟩
  refine ha.laidOut.restates (laidOut_of_resolve hres) (hb ▸ ha.kind.symm) hname ?_ (hb ▸ hd.alignment)
  rw [← hsame, ← hb]
  refine map_placeMembers (fun m => (m.name, m.type)) (fun _ _ => rfl) ?_
  simp [Layout.ofExtents, Layout.length_place]

/-- Adding structs that spell aggregates adds the same types in the same order. -/
theorem reaches_of_spells {ds : List StructDecl} {as : List Aggregate}
    (hds : List.Forall₂ StructDecl.Spells ds as) {c : Catalog} (hkept : c.Kept)
    (haliases : c.aliases = .empty) (has : ∀ a ∈ as, a.Restatable)
    (hnodup : (as.map Aggregate.name).Nodup)
    (hnew : ∀ a ∈ as, a.name ∉ c.entries.map Aggregate.name) :
    ∃ c' bs, Reaches .structuredBuffer c (ds.map .aggregate) c' ∧ c.entries ++ bs = c'.entries ∧
      List.Forall₂ (fun a b => a.Restates b ∧ b.register = none) as bs := by
  induction hds generalizing c with
  | nil => exact ⟨c, [], .nil, by simp, .nil⟩
  | @cons d a ds as hd _ ih =>
    have ha := has a List.mem_cons_self
    obtain ⟨hother, hrest⟩ := List.nodup_cons.1 hnodup
    obtain ⟨b, hdecl, hb, hregister⟩ := declare_of_spells hkept haliases hd ha
      (hnew a List.mem_cons_self)
    have hkept' : (c.push b).Kept := by
      refine hkept.declare ?_ hdecl
      rintro decl hdecl'
      cases hdecl'
      rw [hd.name]
      exact ha.nameable.colon_not_mem
    have hnew' : ∀ a' ∈ as, a'.name ∉ (c.push b).entries.map Aggregate.name := by
      intro a' ha' hmem
      rw [Catalog.push, List.map_append, List.mem_append] at hmem
      rcases hmem with hmem | hmem
      · exact hnew a' (List.mem_cons_of_mem a ha') hmem
      · obtain hsame : a'.name = a.name := by simpa [hb.name] using hmem
        exact hother (hsame ▸ List.mem_map_of_mem ha')
    obtain ⟨c', bs, hreach, hentries, hbs⟩ := ih hkept' haliases
      (fun a' ha' => has a' (List.mem_cons_of_mem a ha')) hrest hnew'
    refine ⟨c', b :: bs, .cons hdecl hreach, ?_, .cons ⟨hb, hregister⟩ hbs⟩
    rw [← hentries, Catalog.push]
    simp

end Catalog

/-! ## Lines of the text -/

/-- The text is on one line. -/
def Text.OneLine (l : String) : Prop := '\n' ∉ l.toList ∧ '\r' ∉ l.toList

theorem Text.linesFrom_append {cs : List Char} (hcs : '\n' ∉ cs) (rest rev : List Char) :
    linesFrom rev (cs ++ '\n' :: rest) = finishLine (cs.reverse ++ rev) :: linesFrom [] rest := by
  induction cs generalizing rev with
  | nil => simp [linesFrom]
  | cons c cs ih =>
    have hc : c ≠ '\n' := fun heq => hcs (by simp [heq])
    rw [List.cons_append, linesFrom, if_neg hc, ih fun hmem => hcs (List.mem_cons_of_mem c hmem)]
    simp

theorem Text.finishLine_reverse {cs : List Char} (h : '\r' ∉ cs) : finishLine cs.reverse = cs := by
  unfold finishLine
  split
  · next rev hrev =>
    have hmem : '\r' ∈ cs.reverse := by simp [hrev]
    exact absurd (List.mem_reverse.1 hmem) h
  · simp

/-- Lines are found again. -/
theorem Text.lines_unlines {ls : List String} (h : ∀ l ∈ ls, OneLine l) : lines (unlines ls) = ls := by
  induction ls with
  | nil => rfl
  | cons l ls ih =>
    obtain ⟨hnewline, hreturn⟩ := h l List.mem_cons_self
    have hrest := ih fun l' hl' => h l' (List.mem_cons_of_mem l hl')
    have hchars : (unlines (l :: ls)).toList = l.toList ++ '\n' :: (unlines ls).toList := by simp
    unfold lines at hrest ⊢
    rw [hchars, linesFrom_append hnewline, List.append_nil, finishLine_reverse hreturn, List.map_cons,
      hrest, String.ofList_toList]

namespace Emission

/-- Whether a line is a comment on the register and the stride of an element. -/
def isStrideLine (line : String) : Bool :=
  let slot := (line.toList.drop 13).takeWhile Char.isDigit
  let stride := line.toList.drop (13 + slot.length + 10)
  line.toList == "// register(t".toList ++ slot ++ "), stride ".toList ++ stride &&
    !slot.isEmpty && !stride.isEmpty && stride.all Char.isDigit

theorem slash_mem_of_isStrideLine {l : String} (h : isStrideLine l = true) : '/' ∈ l.toList := by
  simp only [isStrideLine, Bool.and_eq_true, beq_iff_eq] at h
  rw [h.1.1.1]
  simp

theorem isStrideLine_strideLine (slot size : Nat) : isStrideLine (strideLine slot size) = true := by
  have hdigits (n : Nat) : ∀ c ∈ Nat.toDigits 10 n, c.isDigit = true := fun c hc =>
    Nat.isDigit_of_mem_toDigits (by decide) (by decide) hc
  have hchars : (strideLine slot size).toList = "// register(t".toList ++
      (Nat.toDigits 10 slot ++ ("), stride ".toList ++ Nat.toDigits 10 size)) := by
    rw [toList_strideLine]
    simp only [List.append_assoc]
  have hbehind : (strideLine slot size).toList.drop 13 =
      Nat.toDigits 10 slot ++ ("), stride ".toList ++ Nat.toDigits 10 size) := by
    rw [hchars]
    rfl
  have hslot : ((strideLine slot size).toList.drop 13).takeWhile Char.isDigit =
      Nat.toDigits 10 slot := by
    rw [hbehind, List.takeWhile_append_of_pos (hdigits slot)]
    simp
  have hstride : (strideLine slot size).toList.drop (13 + (Nat.toDigits 10 slot).length + 10) =
      Nat.toDigits 10 size := by
    rw [← List.drop_drop, ← List.drop_drop, hbehind, List.drop_left]
    rfl
  simp only [isStrideLine, hslot, hstride]
  rw [toList_strideLine]
  simp [Nat.toDigits_ne_nil]
  exact hdigits size

/-- The line stays when comments on registers are removed. -/
structure Stays (l : String) : Prop where
  oneLine : Text.OneLine l
  not_stride : isStrideLine l = false

theorem stays_of_not_mem {l : String} (hslash : '/' ∉ l.toList) (hnewline : '\n' ∉ l.toList)
    (hreturn : '\r' ∉ l.toList) : Stays l := by
  refine ⟨⟨hnewline, hreturn⟩, ?_⟩
  by_contra hstride
  exact hslash (slash_mem_of_isStrideLine (by simpa using hstride))

/-- The lines of an aggregate but for the comment on its register. -/
def stem (indent : Nat) (a : Aggregate) : List String :=
  [titleLine .structuredBuffer a, openLine] ++
    a.members.map (memberLine .structuredBuffer indent) ++ [closeLine]

theorem block_eq (indent : Nat) (a : Aggregate) : block .structuredBuffer indent a =
    stem indent a ++ a.register.toList.map fun slot => strideLine slot a.size := by
  rw [← strideLines_eq]
  rfl

theorem stays_stem (indent : Nat) {a : Aggregate} (h : a.Nameable) : ∀ l ∈ stem indent a, Stays l := by
  intro l hl
  simp only [stem, List.mem_append, List.mem_cons, List.not_mem_nil, or_false, List.mem_map] at hl
  rcases hl with ((rfl | rfl) | ⟨m, hm, rfl⟩) | rfl
  · exact stays_of_not_mem (not_mem_titleLine h.name (by decide) (by decide))
      (not_mem_titleLine h.name (by decide) (by decide))
      (not_mem_titleLine h.name (by decide) (by decide))
  · exact stays_of_not_mem (by decide) (by decide) (by decide)
  · have hname := h.member m hm
    exact stays_of_not_mem (not_mem_memberLine indent hname (by decide) (by decide) (by decide))
      (not_mem_memberLine indent hname (by decide) (by decide) (by decide))
      (not_mem_memberLine indent hname (by decide) (by decide) (by decide))
  · exact stays_of_not_mem (by decide) (by decide) (by decide)

theorem oneLine_strideLine (slot size : Nat) : Text.OneLine (strideLine slot size) := by
  unfold Text.OneLine
  rw [toList_strideLine]
  simp [Text.not_mem_toDigits]

theorem oneLine_block (indent : Nat) {a : Aggregate} (h : a.Nameable) :
    ∀ l ∈ block .structuredBuffer indent a, Text.OneLine l := by
  intro l hl
  rw [block_eq, List.mem_append] at hl
  rcases hl with hl | hl
  · exact (stays_stem indent h l hl).oneLine
  · obtain ⟨slot, -, rfl⟩ := List.mem_map.1 hl
    exact oneLine_strideLine slot a.size

theorem filter_block (indent : Nat) {a : Aggregate} (h : a.Nameable) :
    (block .structuredBuffer indent a).filter (fun l => !isStrideLine l) = stem indent a := by
  have hstem : (stem indent a).filter (fun l => !isStrideLine l) = stem indent a :=
    List.filter_eq_self.2 fun l hl => by simp [(stays_stem indent h l hl).not_stride]
  have hstride : (a.register.toList.map fun slot => strideLine slot a.size).filter
      (fun l => !isStrideLine l) = [] := by
    refine List.filter_eq_nil_iff.2 fun l hl => ?_
    obtain ⟨slot, -, rfl⟩ := List.mem_map.1 hl
    simp [isStrideLine_strideLine]
  rw [block_eq, List.filter_append, hstem, hstride, List.append_nil]

theorem joinBlocks_cons_cons (b b' : List String) (bs : List (List String)) :
    joinBlocks (b :: b' :: bs) = b ++ [""] ++ joinBlocks (b' :: bs) := rfl

theorem mem_joinBlocks {l : String} : ∀ {bs : List (List String)}, l ∈ joinBlocks bs →
    l = "" ∨ ∃ b ∈ bs, l ∈ b
  | [], h => by simp [joinBlocks] at h
  | [b], h => .inr ⟨b, by simp, h⟩
  | b :: b' :: bs, h => by
    rw [joinBlocks_cons_cons, List.mem_append, List.mem_append, List.mem_singleton] at h
    rcases h with (h | h) | h
    · exact .inr ⟨b, List.mem_cons_self, h⟩
    · exact .inl h
    · rcases mem_joinBlocks h with hempty | ⟨c, hc, hl⟩
      · exact .inl hempty
      · exact .inr ⟨c, List.mem_cons_of_mem b hc, hl⟩

/-- The empty lines between blocks stay. -/
theorem filter_joinBlocks {p : String → Bool} (hempty : p "" = true) :
    ∀ bs : List (List String), (joinBlocks bs).filter p = joinBlocks (bs.map (List.filter p))
  | [] => rfl
  | [b] => rfl
  | b :: b' :: bs => by
    have hrest := filter_joinBlocks hempty (b' :: bs)
    rw [List.map_cons] at hrest
    rw [List.map_cons, List.map_cons, joinBlocks_cons_cons, joinBlocks_cons_cons, List.filter_append,
      List.filter_append, hrest]
    simp [hempty]

/-- A text is made of lines if its blocks are. -/
theorem oneLine_joinBlocks (options : EmitOptions) {bs : List (List String)}
    (h : ∀ b ∈ bs, ∀ l ∈ b, Text.OneLine l) :
    ∀ l ∈ (if options.header then [headerLine] else []) ++ joinBlocks bs, Text.OneLine l := by
  intro l hl
  rcases List.mem_append.1 hl with hl | hl
  · split at hl
    · obtain rfl := List.mem_singleton.1 hl
      exact ⟨by decide, by decide⟩
    · simp at hl
  · rcases mem_joinBlocks hl with rfl | ⟨b, hb, hl⟩
    · exact ⟨by decide, by decide⟩
    · exact h b hb l hl

theorem oneLine_linesOf (options : EmitOptions) {types : List Aggregate}
    (h : ∀ a ∈ types, a.Nameable) : ∀ l ∈ linesOf options types, Text.OneLine l := by
  refine oneLine_joinBlocks options ?_
  intro b hb
  obtain ⟨a, ha, rfl⟩ := List.mem_map.1 hb
  exact oneLine_block options.indent (h a ha)

theorem filter_linesOf (options : EmitOptions) {types : List Aggregate}
    (h : ∀ a ∈ types, a.Nameable) :
    (linesOf options types).filter (fun l => !isStrideLine l) =
      (if options.header then [headerLine] else []) ++
        joinBlocks (types.map (stem options.indent)) := by
  have hblocks : (types.map (block .structuredBuffer options.indent)).map
      (List.filter fun l => !isStrideLine l) = types.map (stem options.indent) := by
    rw [List.map_map]
    exact List.map_congr_left fun a ha => filter_block options.indent (h a ha)
  rw [linesOf, List.filter_append, filter_joinBlocks (by decide), hblocks]
  congr 1
  split
  · decide
  · rfl

/-- The lines of a type read back are those of the type without the comment. -/
theorem block_of_restates (indent : Nat) {a b : Aggregate} (h : a.Restates b)
    (hregister : b.register = none) : block .structuredBuffer indent b = stem indent a := by
  have htitle : titleLine .structuredBuffer b = titleLine .structuredBuffer a :=
    congrArg ("struct " ++ ·) h.name
  have hmembers : b.members.map (memberLine .structuredBuffer indent) =
      a.members.map (memberLine .structuredBuffer indent) := by
    have hmapped := congrArg (List.map fun p : String × ShaderType × Placement =>
      String.ofList (List.replicate indent ' ') ++ s!"{p.2.1.text} {p.1}" ++ ";") h.members
    rw [List.map_map, List.map_map] at hmapped
    exact hmapped
  rw [block_eq, hregister, stem, stem, htitle, hmembers]
  exact List.append_nil _

theorem linesOf_of_restates (options : EmitOptions) {as bs : List Aggregate}
    (h : List.Forall₂ (fun a b => a.Restates b ∧ b.register = none) as bs)
    (hnames : ∀ a ∈ as, a.Nameable) :
    linesOf options bs = (linesOf options as).filter fun l => !isStrideLine l := by
  have hblocks : bs.map (block .structuredBuffer options.indent) = as.map (stem options.indent) := by
    induction h with
    | nil => rfl
    | @cons a b as bs hab _ ih =>
      rw [List.map_cons, List.map_cons, block_of_restates options.indent hab.1 hab.2,
        ih fun a' ha' => hnames a' (List.mem_cons_of_mem a ha')]
  rw [filter_linesOf options hnames, linesOf, hblocks]

end Emission

/-! ## The round trip -/

theorem checkClaims_of_none {kind : Kind} {letter : Char} {claimed as : List Aggregate}
    (h : ∀ a ∈ as, a.register = none) : checkClaims kind letter claimed as = .ok () := by
  induction as with
  | nil => rfl
  | cons a as ih =>
    simp only [checkClaims, h a List.mem_cons_self]
    exact ih fun b hb => h b (List.mem_cons_of_mem a hb)

theorem of_mem_restates {as bs : List Aggregate}
    (h : List.Forall₂ (fun a b => a.Restates b ∧ b.register = none) as bs)
    (hkind : ∀ a ∈ as, a.kind = .structuredBuffer) :
    ∀ b ∈ bs, b.kind = .structuredBuffer ∧ b.register = none := by
  induction h with
  | nil => simp
  | @cons a b as bs hab _ ih =>
    intro b' hb'
    rcases List.mem_cons.1 hb' with rfl | hb'
    · exact ⟨hab.1.kind.trans (hkind a List.mem_cons_self), hab.2⟩
    · exact ih (fun a' ha' => hkind a' (List.mem_cons_of_mem a ha')) b' hb'

namespace Session

/-- The text of types read back. -/
theorem textOf_of_restates (options : EmitOptions) {c : Catalog} {as : List Aggregate}
    (h : List.Forall₂ (fun a b => a.Restates b ∧ b.register = none) as c.entries)
    (has : ∀ a ∈ as, a.Restatable) :
    textOf options c .structuredBuffer =
      .ok (Text.unlines ((Emission.linesOf options as).filter fun l => !Emission.isStrideLine l)) := by
  have hentries := of_mem_restates h fun a ha => (has a ha).kind
  have hall : c.ofKind .structuredBuffer = c.entries :=
    List.filter_eq_self.2 fun b hb => by simp [(hentries b hb).1]
  have hcheck : checkRegisters .structuredBuffer c.entries = .ok () :=
    checkClaims_of_none fun b hb => (hentries b (List.mem_of_mem_filter hb)).2
  have hlines := Emission.linesOf_of_restates options h fun a ha => (has a ha).nameable
  rw [textOf, hall, hcheck, emit_eq_unlines options fun b hb => (hentries b hb).1, hlines]

/-- A text that is generated is that of the catalog. -/
theorem emit_of_generate {options : EmitOptions} {actions : List Action} {kind : Kind} {text : String}
    (h : ((after options actions).generate kind).2 = .ok text) :
    ∃ c, (after options actions).catalog? = some c ∧ text = emit kind (c.ofKind kind) options := by
  have hcoherent : Coherent options (after options actions) :=
    after_induction (coherent_new options) fun s a _ hs => hs.perform a
  rw [hcoherent.generate_eq_fresh] at h
  cases hc : (after options actions).catalog? with
  | none => simp [fresh, catalog, hc, bind, Except.bind] at h
  | some c =>
    rw [fresh_of_catalog hc, hcoherent.options_eq] at h
    exact ⟨c, rfl, (textOf_eq_ok h).2⟩

/-- **The text of structured buffers is a header that declares the same types.** Whatever a session
has been given, the text of its structured buffers is parsed by a new session, whose types are those
of the first in the same order. Its own text of them is the first text without the comments on
registers. -/
theorem restates_of_generate {options : EmitOptions} {actions : List Action} {text : String}
    (h : ((after options actions).generate .structuredBuffer).2 = .ok text) :
    ∃ c c' s, (after options actions).catalog? = some c ∧
      (new options).parse text .structuredBuffer = (s, none) ∧ s.catalog? = some c' ∧
      List.Forall₂ Aggregate.Restates (c.ofKind .structuredBuffer) c'.entries ∧
      Text.unlines (Text.lines text) = text ∧
      (s.generate .structuredBuffer).2 =
        .ok (Text.unlines ((Text.lines text).filter fun l => !Emission.isStrideLine l)) := by
  obtain ⟨c, hc, rfl⟩ := emit_of_generate h
  obtain ⟨hkept, hentries⟩ := entries_after hc
  have htypes : ∀ a ∈ c.ofKind .structuredBuffer, a.Restatable := by
    intro a ha
    obtain ⟨hmem, hkind⟩ := List.mem_filter.1 ha
    obtain ⟨hnameable, hlaid⟩ := hentries a hmem
    exact ⟨by simpa using hkind, hnameable, hlaid⟩
  have hkind := fun a ha => (htypes a ha).kind
  have hnames := fun a ha => (htypes a ha).nameable
  have hnodup : ((c.ofKind .structuredBuffer).map Aggregate.name).Nodup :=
    hkept.nodup.sublist (List.filter_sublist.map _)
  obtain ⟨ds, hread, hds⟩ := readHeader_emit options hkind hnames
  obtain ⟨mid, bs, hreach, rfl, hbs⟩ :=
    Catalog.reaches_of_spells hds Catalog.kept_empty rfl htypes hnodup (by simp [Catalog.empty])
  have hext := hreach.extend []
  rw [List.append_nil, Catalog.extend] at hext
  have hparse : (new options).parse (emit .structuredBuffer (c.ofKind .structuredBuffer) options)
      .structuredBuffer = ((new options).withCatalog { mid with sources := mid.sources + 1 }, none) := by
    simp only [parse, load, hread, hext]
  have hlines := Text.lines_unlines (Emission.oneLine_linesOf options hnames)
  rw [← emit_eq_unlines options hkind] at hlines
  refine ⟨c, _, _, hc, hparse, rfl, hbs.imp fun _ _ h => h.1, ?_, ?_⟩
  · rw [hlines, emit_eq_unlines options hkind]
  · rw [generate_withCatalog, hlines]
    exact textOf_of_restates options hbs htypes

/-- A name with an escaped letter, a field named like a marker, and an alignment, which is lost with
the register. -/
theorem restates_of_generate_escape :
    let actions := [Action.append
      "struct alignas(32) S\\é REGISTER(3) { XMFLOAT3 REGISTER; }; struct T { int x; };"
      .structuredBuffer]
    let element := ["struct Sé", Emission.openLine, "  float3 REGISTER;", Emission.closeLine]
    let other := ["struct T", Emission.openLine, "  int x;", Emission.closeLine]
    let text := Text.unlines (element ++ ["// register(t3), stride 32", ""] ++ other)
    ((after ⟨false, 2⟩ actions).generate .structuredBuffer).2 = .ok text ∧
    ∃ s, (new ⟨false, 2⟩).parse text .structuredBuffer = (s, none) ∧
      (s.generate .structuredBuffer).2 = .ok (Text.unlines (element ++ [""] ++ other)) := by
  intro actions element other text
  have htext : ((after ⟨false, 2⟩ actions).generate .structuredBuffer).2 = .ok text := by
    decide +kernel
  obtain ⟨_, _, s, -, hparse, -, -, -, hagain⟩ := restates_of_generate htext
  refine ⟨htext, s, hparse, hagain.trans (congrArg _ ?_)⟩
  decide +kernel

end Session

end ShaderInterface
