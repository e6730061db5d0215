import ShaderInterface.Catalog
import ShaderInterface.Proofs.Declaration.Soundness

/-!
# Where the entries of a catalog come from

Adding a declaration to a catalog adds an alias or one aggregate at the end, so an entry behind a
header was there before or is resolved from a struct of the header. The members of a resolved struct
are its fields in order, and the alignment of a struct in a header is always a power of two.
-/
namespace ShaderInterface

/-- The struct of a declaration that is one. -/
def Declaration.struct? : Declaration → Option StructDecl
  | .aggregate d => some d
  | .typeAlias _ => none

/-- The structs of a header. -/
def structsOf (ds : List Declaration) : List StructDecl := ds.filterMap Declaration.struct?

namespace Catalog

theorem declare_cases {c c' : Catalog} {kind : Kind} {d : Declaration}
    (h : c.declare kind d = .ok c') :
    (∃ decl name aliases, d = .typeAlias decl ∧
      c.aliases.define? decl.name decl.qualified decl.target = some (name, aliases) ∧
      c' = { c with aliases := aliases }) ∨
    ∃ decl a, d = .aggregate decl ∧ c.resolve kind decl = .ok a ∧ c.find? a.name = none ∧
      c' = c.push a := by
  cases d with
  | typeAlias decl =>
    simp only [declare] at h
    split at h
    case h_2 => cases h
    case h_1 name aliases hdef =>
      cases h
      exact .inl ⟨decl, name, aliases, rfl, hdef, rfl⟩
  | aggregate decl =>
    simp only [declare] at h
    split at h
    case h_1 => cases h
    case h_2 a hres =>
      unfold insert at h
      split at h
      case h_1 => cases h
      case h_2 hshort =>
        cases h
        exact .inr ⟨decl, a, rfl, hres, hshort, rfl⟩

/-! ## Adding declarations one by one -/

/-- Adding the declarations, all without an error, leads from one catalog to the other. -/
inductive Reaches (kind : Kind) : Catalog → List Declaration → Catalog → Prop where
  | nil {c : Catalog} : Reaches kind c [] c
  | cons {c c' c'' : Catalog} {d : Declaration} {ds : List Declaration} :
      c.declare kind d = .ok c' → Reaches kind c' ds c'' → Reaches kind c (d :: ds) c''

theorem Reaches.extend {kind : Kind} {c mid : Catalog} {ds : List Declaration}
    (h : Reaches kind c ds mid) (es : List Declaration) :
    c.extend kind (ds ++ es) = mid.extend kind es := by
  induction h with
  | nil => rfl
  | cons hdecl _ ih => simp [Catalog.extend, hdecl, ih]

theorem Reaches.sources_eq {kind : Kind} {c mid : Catalog} {ds : List Declaration}
    (h : Reaches kind c ds mid) : mid.sources = c.sources := by
  induction h with
  | nil => rfl
  | cons hdecl _ ih =>
    rw [ih]
    obtain ⟨_, _, aliases, -, -, rfl⟩ | ⟨decl, a, rfl, -, -, rfl⟩ := declare_cases hdecl
    · rfl
    · rfl

/-- A new entry is resolved from a struct among the declarations, and counts as one of their
header. -/
theorem Reaches.mem_entries {kind : Kind} {c mid : Catalog} {ds : List Declaration} {a : Aggregate}
    (h : Reaches kind c ds mid) (ha : a ∈ mid.entries) :
    a ∈ c.entries ∨ ∃ d base, .aggregate d ∈ ds ∧ resolve base kind d = .ok a ∧
      base.sources = c.sources := by
  induction h with
  | nil => exact .inl ha
  | @cons c c' _ d ds hdecl hreach ih =>
    have hsources : c'.sources = c.sources := (Reaches.cons hdecl .nil).sources_eq
    rcases ih ha with hmem | ⟨d', base, hd', hres, hbase⟩
    · obtain ⟨_, _, aliases, -, -, rfl⟩ | ⟨decl, b, rfl, hres, -, rfl⟩ := declare_cases hdecl
      · exact .inl hmem
      · rcases List.mem_append.1 hmem with hmem | hmem
        · exact .inl hmem
        · obtain rfl : a = b := by simpa using hmem
          exact .inr ⟨decl, c, by simp, hres, rfl⟩
    · exact .inr ⟨d', base, by simp [hd'], hres, hbase.trans hsources⟩

/-- New entries stand behind the others, one for each struct and in the order of the structs. Each is
resolved in the catalog that the declarations before its struct lead to. -/
theorem Reaches.entries_eq {kind : Kind} {c mid : Catalog} {ds : List Declaration}
    (h : Reaches kind c ds mid) : ∃ added, mid.entries = c.entries ++ added ∧
      List.Forall₂ (fun d a => ∃ before base, before <+: ds ∧ Reaches kind c before base ∧
        base.resolve kind d = .ok a) (structsOf ds) added := by
  induction h with
  | nil => exact ⟨[], by simp, .nil⟩
  | @cons c c' mid d ds hdecl hreach ih =>
    obtain ⟨added, hentries, hadded⟩ := ih
    -- What is reached from `c'` is reached from `c` by `d` and the same declarations.
    have hlater : List.Forall₂ (fun s a => ∃ before base, before <+: d :: ds ∧
        Reaches kind c before base ∧ base.resolve kind s = .ok a) (structsOf ds) added := by
      refine hadded.imp ?_
      rintro s a ⟨before, base, hbefore, hbase, hres⟩
      exact ⟨d :: before, base, (List.prefix_cons_inj d).2 hbefore, .cons hdecl hbase, hres⟩
    obtain ⟨_, _, aliases, rfl, -, rfl⟩ | ⟨decl, a, rfl, hres, -, rfl⟩ := declare_cases hdecl
    · exact ⟨added, hentries, hlater⟩
    · have hfirst : ∃ before base, before <+: .aggregate decl :: ds ∧ Reaches kind c before base ∧
          base.resolve kind decl = .ok a := ⟨[], c, List.nil_prefix, .nil, hres⟩
      exact ⟨a :: added, by simp [hentries, push], .cons hfirst hlater⟩

/-- A header is added in full, or up to the first declaration that fails. -/
theorem extend_cases (kind : Kind) : ∀ (ds : List Declaration) (c : Catalog),
    (∃ mid, Reaches kind c ds mid ∧
      c.extend kind ds = ({ mid with sources := mid.sources + 1 }, none)) ∨
    ∃ before d behind mid e, ds = before ++ d :: behind ∧ Reaches kind c before mid ∧
      mid.declare kind d = .error e ∧ c.extend kind ds = (mid, some e)
  | [], c => .inl ⟨c, .nil, rfl⟩
  | d :: ds, c => by
    cases hdecl : c.declare kind d with
    | error e => exact .inr ⟨[], d, ds, c, e, rfl, .nil, hdecl, by simp [extend, hdecl]⟩
    | ok c' =>
      have hnext : c.extend kind (d :: ds) = c'.extend kind ds := by simp [extend, hdecl]
      rw [hnext]
      rcases extend_cases kind ds c' with
        ⟨mid, hmid, hext⟩ | ⟨before, d', behind, mid, e, rfl, hmid, he, hext⟩
      · exact .inl ⟨mid, .cons hdecl hmid, hext⟩
      · exact .inr ⟨d :: before, d', behind, mid, e, rfl, .cons hdecl hmid, he, hext⟩

/-- An entry behind a header was there before, or is resolved from a struct of the header. -/
theorem mem_extend {kind : Kind} {a : Aggregate} {ds : List Declaration} {c : Catalog}
    (h : a ∈ (c.extend kind ds).1.entries) :
    a ∈ c.entries ∨ ∃ d base, Declaration.aggregate d ∈ ds ∧ resolve base kind d = .ok a := by
  rcases extend_cases kind ds c with
    ⟨mid, hreach, hext⟩ | ⟨before, d, behind, mid, e, rfl, hreach, -, hext⟩
  all_goals
    rw [hext] at h
    rcases hreach.mem_entries h with hmem | ⟨d, base, hd, hres, -⟩
    · exact .inl hmem
    · exact .inr ⟨d, base, by simp [hd], hres⟩

end Catalog

/-! ## Members are fields -/

theorem FieldDecl.resolve_cases {aliases : AliasTable} {kind : Kind} {aggregate : String}
    {f : FieldDecl} {m : Member} (h : f.resolve aliases kind aggregate = .ok m) :
    ∃ resolved type, aliases.resolve? f.type = some resolved ∧
      ShaderType.ofName? resolved = some type ∧
      m = ⟨f.name, f.type.qualified, resolved, type, ⟨0, 0⟩, f.semantic?, f.register?, f.stepRate?,
        f.location⟩ ∧
      (kind = .vertexInput → Semantic.isUsable m.semantic = true) := by
  unfold FieldDecl.resolve at h
  split at h
  · cases h
  case h_2 resolved hresolved =>
  split at h
  · cases h
  case h_2 type htype =>
  dsimp only at h
  split_ifs at h with hsemantic
  cases h
  exact ⟨resolved, type, hresolved, htype, rfl, by simpa using hsemantic⟩

theorem resolveFields_names {aliases : AliasTable} {kind : Kind} {aggregate : String} :
    ∀ {fs : List FieldDecl} {ms : List Member}, resolveFields aliases kind aggregate fs = .ok ms →
      ms.map Member.name = fs.map FieldDecl.name
  | [], _, h => by cases h; rfl
  | f :: fs, ms, h => by
    unfold resolveFields at h
    split at h
    · cases h
    case h_2 m hm =>
    split at h
    · cases h
    case h_2 ms' hms =>
    cases h
    obtain ⟨_, _, -, -, rfl, -⟩ := FieldDecl.resolve_cases hm
    simp [resolveFields_names hms]

/-- The aggregate of a struct whose fields resolve to `members`. -/
def Catalog.aggregateOf (c : Catalog) (kind : Kind) (d : StructDecl) (members : List Member) :
    Aggregate :=
  let layout := Layout.ofExtents kind (members.map Member.extent) d.alignment
  { name := d.name
    qualified := d.qualified
    tag := c.size
    kind := kind
    sourceIndex := c.sources
    register := d.register
    alignment := d.alignment
    members := placeMembers members layout.placements
    size := layout.size
    tailPadding := layout.tailPadding
    location := d.location }

theorem Catalog.resolve_eq_ok_iff {c : Catalog} {kind : Kind} {d : StructDecl} {a : Aggregate} :
    c.resolve kind d = .ok a ↔ ∃ members,
      resolveFields c.aliases kind d.name d.fields = .ok members ∧
        a = c.aggregateOf kind d members := by
  unfold Catalog.resolve
  cases resolveFields c.aliases kind d.name d.fields with
  | error e => simp
  | ok members => simp [aggregateOf, eq_comm]

theorem mem_resolveFields {aliases : AliasTable} {kind : Kind} {aggregate : String} {m : Member} :
    ∀ {fs : List FieldDecl} {ms : List Member}, resolveFields aliases kind aggregate fs = .ok ms →
      m ∈ ms → ∃ f ∈ fs, f.resolve aliases kind aggregate = .ok m
  | [], _, h, hm => by cases h; simp at hm
  | f :: fs, ms, h, hm => by
    unfold resolveFields at h
    split at h
    · cases h
    case h_2 m' hm' =>
    split at h
    · cases h
    case h_2 ms' hms =>
    cases h
    rcases List.mem_cons.1 hm with rfl | hm
    · exact ⟨f, List.mem_cons_self, hm'⟩
    · obtain ⟨g, hg, hres⟩ := mem_resolveFields hms hm
      exact ⟨g, List.mem_cons_of_mem f hg, hres⟩

theorem mem_placeMembers {m : Member} : ∀ {ms : List Member} {ps : List Placement},
    m ∈ placeMembers ms ps → ∃ m' ∈ ms, ∃ p, m = { m' with placement := p }
  | [], _, h => by simp [placeMembers] at h
  | _ :: _, [], h => by simp [placeMembers] at h
  | m' :: ms, p :: ps, h => by
    rcases List.mem_cons.1 h with rfl | h
    · exact ⟨m', List.mem_cons_self, p, rfl⟩
    · obtain ⟨n, hn, hplaced⟩ := mem_placeMembers h
      exact ⟨n, List.mem_cons_of_mem m' hn, hplaced⟩

/-- A member of a resolved struct is a field of the struct, resolved and placed. -/
theorem Catalog.field_of_resolve {c : Catalog} {kind : Kind} {d : StructDecl} {a : Aggregate}
    (h : c.resolve kind d = .ok a) {m : Member} (hm : m ∈ a.members) :
    ∃ f ∈ d.fields, ∃ m' p, f.resolve c.aliases kind d.name = .ok m' ∧
      m = { m' with placement := p } := by
  obtain ⟨members, hmembers, rfl⟩ := resolve_eq_ok_iff.1 h
  obtain ⟨m', hm', p, hplaced⟩ := mem_placeMembers hm
  obtain ⟨f, hf, hres⟩ := mem_resolveFields hmembers hm'
  exact ⟨f, hf, m', p, hres, hplaced⟩

/-! ## Alignments of a header -/

namespace Grammar

mutual

theorem Item.alignment {rule : HeadRule} {path : List String} {ts : List Token}
    {ds : List Declaration} {d : StructDecl} :
    Item rule path ts ds → .aggregate d ∈ ds → ∀ n ∈ d.alignment, rule.alignment n
  | .namespaceBlock _ _ _ hbody _, hd => Items.alignment hbody hd
  | .alias .., hd => by simp at hd
  | .aggregate hbody _ _, hd => by
    obtain rfl : d = declarationOf path _ := by simpa using hd
    obtain ⟨hhead, -, -, -, -⟩ := hbody
    obtain ⟨-, halign, -⟩ := hhead
    intro n hn
    cases halign with
    | none => simp [declarationOf] at hn
    | some _ _ _ hrule _ =>
      obtain rfl : _ = n := by simpa [declarationOf] using hn
      exact hrule
  | .forward .., hd => by simp at hd
  | .semicolon _, hd => by simp at hd

theorem Items.alignment {rule : HeadRule} {path : List String} {ts : List Token}
    {ds : List Declaration} {d : StructDecl} :
    Items rule path ts ds → .aggregate d ∈ ds → ∀ n ∈ d.alignment, rule.alignment n
  | .nil, hd => by simp at hd
  | .cons hi his, hd => by
    rcases List.mem_append.1 hd with hd | hd
    · exact Item.alignment hi hd
    · exact Items.alignment his hd

end

end Grammar

/-- The alignment of a struct in a header is a power of two. -/
theorem alignment_of_readHeader {source : String} {ds : List Declaration} {d : StructDecl}
    (hread : readHeader source = .ok ds) (hd : .aggregate d ∈ ds) :
    ∀ n ∈ d.alignment, n.isPowerOfTwo := by
  unfold readHeader at hread
  split at hread
  · cases hread
  split at hread
  · cases hread
  case h_2 lexed _ _ ds' hok =>
  cases hread
  intro n hn
  exact ((TokenStream.items_of_read hok).alignment hd n hn).1

end ShaderInterface
