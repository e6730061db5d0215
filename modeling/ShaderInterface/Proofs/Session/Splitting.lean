import ShaderInterface.Proofs.Catalog.Entries
import ShaderInterface.Proofs.Declaration.Relocation
import ShaderInterface.Proofs.Session.Runs

/-!
# A header in two parts

Adding two headers one after the other gives the catalog of the two joined by a newline, except that
places in the second header and the numbers of headers differ (`append_append_newline`). Both catalogs
are built in step: what is resolved for a declaration does not depend on its place
(`Catalog.Joins.declare`). Generated texts have no places, and errors have them in fixed spots only.
-/
namespace ShaderInterface

/-! ## Aggregates at another place -/

def Member.relocate (f : Location → Location) (m : Member) : Member :=
  { m with location := f m.location }

/-- The aggregate, moved to another header and there to other places. -/
def Aggregate.moved (f : Location → Location) (source : Nat) (a : Aggregate) : Aggregate :=
  { a with
    sourceIndex := source
    members := a.members.map (Member.relocate f)
    location := f a.location }

@[simp] theorem Aggregate.moved_name (f : Location → Location) (source : Nat) (a : Aggregate) :
    (a.moved f source).name = a.name := rfl

@[simp] theorem Aggregate.moved_qualified (f : Location → Location) (source : Nat) (a : Aggregate) :
    (a.moved f source).qualified = a.qualified := rfl

section
variable {aliases : AliasTable} {kind : Kind} {aggregate : String} (f : Location → Location)

theorem FieldDecl.resolve_relocate {d : FieldDecl} {m : Member}
    (h : d.resolve aliases kind aggregate = .ok m) :
    (d.relocate f).resolve aliases kind aggregate = .ok (m.relocate f) := by
  obtain ⟨resolved, type, hresolved, htype, rfl, hsemantic⟩ := FieldDecl.resolve_cases h
  have hresolved' : aliases.resolve? (d.relocate f).type = some resolved := hresolved
  simp only [FieldDecl.resolve, hresolved', htype]
  rw [if_neg]
  · rfl
  · rintro ⟨hkind, hunusable⟩
    have husable := hsemantic hkind
    simp_all [Member.semantic, FieldDecl.relocate, FieldDecl.semantic?]

theorem resolveFields_relocate {ds : List FieldDecl} {ms : List Member}
    (h : resolveFields aliases kind aggregate ds = .ok ms) :
    resolveFields aliases kind aggregate (ds.map (FieldDecl.relocate f)) =
      .ok (ms.map (Member.relocate f)) := by
  induction ds generalizing ms with
  | nil =>
    cases h
    rfl
  | cons d ds ih =>
    unfold resolveFields at h
    split at h
    · cases h
    · next m hm =>
      split at h
      · cases h
      · next ms' hms =>
        cases h
        simp only [List.map_cons, resolveFields, FieldDecl.resolve_relocate f hm, ih hms]

end

theorem placeMembers_relocate (f : Location → Location) (ms : List Member) (ps : List Placement) :
    placeMembers (ms.map (Member.relocate f)) ps = (placeMembers ms ps).map (Member.relocate f) := by
  rw [placeMembers, placeMembers, List.zipWith_map_left, List.map_zipWith]
  rfl

namespace Catalog

/-- Resolving a moved struct gives the moved aggregate. -/
theorem resolve_relocate {c c' : Catalog} (haliases : c'.aliases = c.aliases)
    (hsize : c'.size = c.size) {kind : Kind} {d : StructDecl} {a : Aggregate}
    (h : c.resolve kind d = .ok a) (f : Location → Location) :
    c'.resolve kind (d.relocate f) = .ok (a.moved f c'.sources) := by
  obtain ⟨members, hmembers, rfl⟩ := resolve_eq_ok_iff.1 h
  refine resolve_eq_ok_iff.2 ⟨members.map (Member.relocate f), ?_, ?_⟩
  · rw [haliases]
    exact resolveFields_relocate f hmembers
  · have hextents : (members.map (Member.relocate f)).map Member.extent =
        members.map Member.extent := by
      rw [List.map_map]
      rfl
    simp only [aggregateOf, Aggregate.moved, hextents, placeMembers_relocate, hsize]
    rfl

/-! ## Two catalogs in step -/

/-- The catalog `joined` of a joined header and the catalog `split` of its two parts, when the second
part is being added: entries behind `first` are moved. -/
def Joins (f : Location → Location) (source : Nat) (first : List Aggregate)
    (split joined : Catalog) : Prop :=
  ∃ later, split.entries = first ++ later ∧
    joined = { split with
      entries := first ++ later.map (Aggregate.moved f source)
      sources := source }

namespace Joins

variable {f : Location → Location} {source : Nat} {first : List Aggregate} {split joined : Catalog}

theorem aliases_eq (h : Joins f source first split joined) : joined.aliases = split.aliases := by
  obtain ⟨later, -, rfl⟩ := h
  rfl

theorem sources_eq (h : Joins f source first split joined) : joined.sources = source := by
  obtain ⟨later, -, rfl⟩ := h
  rfl

theorem size_eq (h : Joins f source first split joined) : joined.size = split.size := by
  obtain ⟨later, hsplit, rfl⟩ := h
  simp [Catalog.size, hsplit]

theorem find?_eq_none (h : Joins f source first split joined) {name : String}
    (hnone : split.find? name = none) : joined.find? name = none := by
  have hsize := h.size_eq
  obtain ⟨later, hsplit, rfl⟩ := h
  simp only [Catalog.find?, Option.bind_eq_none_iff, List.getElem?_eq_none_iff] at hnone ⊢
  intro i hi
  exact le_of_eq_of_le hsize (hnone i hi)

theorem push (h : Joins f source first split joined) (a : Aggregate) :
    Joins f source first (split.push a) (joined.push (a.moved f source)) := by
  have hsize := h.size_eq
  obtain ⟨later, hsplit, rfl⟩ := h
  refine ⟨later ++ [a], by simp [Catalog.push, hsplit], ?_⟩
  simp [Catalog.push, hsize]

/-- One declaration of the second part. -/
theorem declare (h : Joins f source first split joined) {split' : Catalog} {kind : Kind}
    {d : Declaration} (hdecl : split.declare kind d = .ok split') :
    ∃ joined', joined.declare kind (d.relocate f) = .ok joined' ∧
      Joins f source first split' joined' := by
  obtain ⟨decl, name, aliases, rfl, hdef, rfl⟩ | ⟨decl, a, rfl, hres, hnone, rfl⟩ :=
    declare_cases hdecl
  · obtain ⟨later, hsplit, rfl⟩ := h
    have hdef' : split.aliases.define? (decl.relocate f).name (decl.relocate f).qualified
        (decl.relocate f).target = some (name, aliases) := hdef
    refine ⟨_, ?_, later, hsplit, rfl⟩
    simp only [Declaration.relocate, Catalog.declare, hdef']
  · have hres' := resolve_relocate h.aliases_eq h.size_eq hres f
    rw [h.sources_eq] at hres'
    refine ⟨_, ?_, h.push a⟩
    simp only [Declaration.relocate, Catalog.declare, hres', Catalog.insert, Aggregate.moved_name,
      h.find?_eq_none hnone]

/-- All declarations of the second part. -/
theorem reaches (h : Joins f source first split joined) {split' : Catalog} {kind : Kind}
    {ds : List Declaration} (hreach : Reaches kind split ds split') :
    ∃ joined', Reaches kind joined (ds.map (Declaration.relocate f)) joined' ∧
      Joins f source first split' joined' := by
  induction hreach generalizing joined with
  | nil => exact ⟨joined, .nil, h⟩
  | cons hdecl _ ih =>
    obtain ⟨mid, hmid, hjoins⟩ := h.declare hdecl
    obtain ⟨joined', hreach', hjoins'⟩ := ih hjoins
    exact ⟨joined', .cons hmid hreach', hjoins'⟩

end Joins

/-- Adding two headers, and adding both as one. -/
theorem extend_append {c c₁ c₂ : Catalog} {kind : Kind} {ds es : List Declaration}
    (hds : c.extend kind ds = (c₁, none)) (hes : c₁.extend kind es = (c₂, none))
    (f : Location → Location) :
    ∃ later, c₂.entries = c₁.entries ++ later ∧
      c.extend kind (ds ++ es.map (Declaration.relocate f)) = ({ c₂ with
        entries := c₁.entries ++ later.map (Aggregate.moved f c.sources)
        sources := c₁.sources }, none) := by
  -- Without an error, both headers are added in full.
  rcases extend_cases kind ds c with ⟨mid₁, hreach₁, hmid₁⟩ | ⟨_, _, _, _, e, -, -, -, hfail⟩
  case inr => simp [hds] at hfail
  rcases extend_cases kind es c₁ with ⟨mid₂, hreach₂, hmid₂⟩ | ⟨_, _, _, _, e, -, -, -, hfail⟩
  case inr => simp [hes] at hfail
  obtain rfl : c₁ = _ := by simpa [hds] using hmid₁
  obtain rfl : c₂ = _ := by simpa [hes] using hmid₂
  have hstart : Joins f mid₁.sources mid₁.entries { mid₁ with sources := mid₁.sources + 1 } mid₁ :=
    ⟨[], by simp, by simp⟩
  obtain ⟨joined, hreach, later, hlater, rfl⟩ := hstart.reaches hreach₂
  refine ⟨later, hlater, ?_⟩
  rw [hreach₁.extend, ← List.append_nil (es.map _), hreach.extend, ← hreach₁.sources_eq]
  rfl

end Catalog

/-! ## Texts without places -/

/-- A change of aggregates that shader text does not show. Conflicts change as `onError` says. -/
structure Aggregate.Unseen (g : Aggregate → Aggregate) (onError : CompileError → CompileError) :
    Prop where
  kind : ∀ a, (g a).kind = a.kind
  register : ∀ a, (g a).register = a.register
  block : ∀ kind indent a, Emission.block kind indent (g a) = Emission.block kind indent a
  conflict : ∀ kind register first a,
    .registerConflict kind register (g first).qualified (g a).qualified (g a).location
      (g a).sourceIndex =
    onError (.registerConflict kind register first.qualified a.qualified a.location a.sourceIndex)

namespace Aggregate.Unseen

variable {g : Aggregate → Aggregate} {onError : CompileError → CompileError}

theorem checkClaims (h : Unseen g onError) (kind : Kind) (letter : Char)
    (claimed as : List Aggregate) :
    checkClaims kind letter (claimed.map g) (as.map g) =
      (checkClaims kind letter claimed as).mapError onError := by
  induction as generalizing claimed with
  | nil => rfl
  | cons a as ih =>
    rw [List.map_cons, ShaderInterface.checkClaims, ShaderInterface.checkClaims, h.register]
    cases hslot : a.register with
    | none => exact ih claimed
    | some slot =>
      have hfind : (claimed.map g).find? (fun b => b.register == some slot) =
          (claimed.find? fun b => b.register == some slot).map g := by
        rw [List.find?_map]
        simp only [Function.comp_def, h.register]
      simp only [hfind]
      cases claimed.find? fun b => b.register == some slot with
      | none => exact ih (a :: claimed)
      | some first => exact congrArg Except.error (h.conflict kind ⟨letter, slot⟩ first a)

theorem filter_kind (h : Unseen g onError) (kind : Kind) (types : List Aggregate) :
    (types.map g).filter (fun a => a.kind == kind) =
      (types.filter fun a => a.kind == kind).map g := by
  rw [List.filter_map]
  simp only [Function.comp_def, h.kind]

theorem emit (h : Unseen g onError) (kind : Kind) (types : List Aggregate) (options : EmitOptions) :
    emit kind (types.map g) options = emit kind types options := by
  unfold ShaderInterface.emit
  rw [h.filter_kind, List.map_map]
  simp only [Function.comp_def, h.block]

theorem textOf (h : Unseen g onError) (options : EmitOptions) (c : Catalog) (kind : Kind) :
    Session.textOf options { c with entries := c.entries.map g } kind =
      (Session.textOf options c kind).mapError onError := by
  have hcheck : checkRegisters kind ((c.ofKind kind).map g) =
      (checkRegisters kind (c.ofKind kind)).mapError onError := by
    unfold checkRegisters
    cases kind.registerLetter? with
    | none => rfl
    | some letter =>
      simp only [h.filter_kind]
      exact h.checkClaims kind letter [] _
  have hkind : Catalog.ofKind { c with entries := c.entries.map g } kind =
      (c.ofKind kind).map g :=
    h.filter_kind kind c.entries
  unfold Session.textOf
  rw [hkind, hcheck, h.emit]
  cases checkRegisters kind (c.ofKind kind) with
  | error e => rfl
  | ok _ => rfl

end Aggregate.Unseen

/-- The aggregate without its place. -/
def Aggregate.unplaced (a : Aggregate) : Aggregate := a.moved (fun _ => ⟨0, 0, 0⟩) 0

/-- The error without the place of a conflict. -/
def CompileError.unplaced : CompileError → CompileError
  | .registerConflict kind register first second _ _ =>
    .registerConflict kind register first second ⟨0, 0, 0⟩ 0
  | e => e

@[simp] theorem Aggregate.unplaced_moved (f : Location → Location) (source : Nat) (a : Aggregate) :
    (a.moved f source).unplaced = a.unplaced := by
  simp only [unplaced, moved, List.map_map]
  rfl

theorem Aggregate.unseen_unplaced : Unseen unplaced CompileError.unplaced where
  kind _ := rfl
  register _ := rfl
  block kind indent a := by
    have hmembers : a.unplaced.members.map (Emission.memberLine kind indent) =
        a.members.map (Emission.memberLine kind indent) := by
      simp only [unplaced, moved, List.map_map]
      rfl
    rw [Emission.block, hmembers]
    rfl
  conflict _ _ _ _ := rfl

namespace Session

theorem textOf_congr {c c' : Catalog}
    (h : c.entries.map Aggregate.unplaced = c'.entries.map Aggregate.unplaced)
    (options : EmitOptions) (kind : Kind) :
    (textOf options c kind).mapError CompileError.unplaced =
      (textOf options c' kind).mapError CompileError.unplaced := by
  rw [← Aggregate.unseen_unplaced.textOf, ← Aggregate.unseen_unplaced.textOf, h]
  rfl

/-- **Splitting a header.** If two headers are added one after the other, then they can be added
joined by a newline, unless the first ends in an escape character. Aliases and names are the same, and
so are the entries up to the places of those of the second header and the header that they count as
one of. So every kind has the same text, or the same error up to its place. -/
theorem append_append_newline {s s₁ s₂ : Session} {kind : Kind} {first second : String}
    (hfirst : s.append first kind = (s₁, none)) (hsecond : s₁.append second kind = (s₂, none))
    (hlast : first.toList.getLast? ≠ some '\\') :
    ∃ c₁ c₂ later c, s₁.catalog? = some c₁ ∧ s₂.catalog? = some c₂ ∧
      c₂.entries = c₁.entries ++ later ∧
      c = { c₂ with
        entries := c₁.entries ++ later.map
          (Aggregate.moved (Location.behind first) (s.catalog?.getD .empty).sources)
        sources := c₁.sources } ∧
      s.append (first ++ "\n" ++ second) kind = ({ s₂ with catalog? := some c }, none) ∧
      ∀ k, (generate { s₂ with catalog? := some c } k).2.mapError CompileError.unplaced =
        (s₂.generate k).2.mapError CompileError.unplaced := by
  obtain ⟨ds, c₁, hread₁, hext₁, rfl⟩ := append_eq_ok hfirst
  obtain ⟨es, c₂, hread₂, hext₂, rfl⟩ := append_eq_ok hsecond
  obtain ⟨later, hlater, hext⟩ := Catalog.extend_append hext₁ hext₂ (Location.behind first)
  have hread := readHeader_append_newline hread₁ hread₂ hlast
  refine ⟨c₁, c₂, later, _, rfl, rfl, hlater, rfl, ?_, ?_⟩
  · simp only [append, load, hread, hext]
    rfl
  · intro k
    have hsplit := (s.withCatalog c₁).generate_withCatalog c₂ k
    have hjoined (c : Catalog) := s.generate_withCatalog c k
    rw [hsplit]
    refine (congrArg _ (hjoined _)).trans (textOf_congr ?_ s.options k)
    simp [hlater]

/-- An alias of the first header is used in the second one, which has a conflict. -/
theorem append_append_newline_alias :
    let s := new {}
    let first := "using T = float;"
    let second := "struct A REGISTER(0) { T x; }; struct B REGISTER(0) { T y; };"
    let s₁ := (s.append first .constantBuffer).1
    let s₂ := (s₁.append second .constantBuffer).1
    (s.append first .constantBuffer).2 = none ∧ (s₁.append second .constantBuffer).2 = none ∧
    (s₂.generate .constantBuffer).2 =
      .error (.registerConflict .constantBuffer ⟨'b', 0⟩ "A" "B" ⟨38, 1, 39⟩ 1) ∧
    ∃ joined, s.append (first ++ "\n" ++ second) .constantBuffer = (joined, none) ∧
      (joined.generate .constantBuffer).2.mapError CompileError.unplaced =
        .error (.registerConflict .constantBuffer ⟨'b', 0⟩ "A" "B" ⟨0, 0, 0⟩ 0) := by
  intro s first second s₁ s₂
  have hfirst : (s.append first .constantBuffer).2 = none := by decide +kernel
  have hsecond : (s₁.append second .constantBuffer).2 = none := by decide +kernel
  have hconflict : (s₂.generate .constantBuffer).2 =
      .error (.registerConflict .constantBuffer ⟨'b', 0⟩ "A" "B" ⟨38, 1, 39⟩ 1) := by
    decide +kernel
  have hadded : s.append first .constantBuffer = (s₁, none) := Prod.ext rfl hfirst
  have hboth : s₁.append second .constantBuffer = (s₂, none) := Prod.ext rfl hsecond
  obtain ⟨_, _, _, c, -, -, -, -, hjoined, hgenerate⟩ :=
    append_append_newline hadded hboth (by decide)
  refine ⟨hfirst, hsecond, hconflict, _, hjoined, ?_⟩
  rw [hgenerate, hconflict]
  rfl

end Session

end ShaderInterface
